import Migration.Naming.Ledger

/-
  What a ledger tells after any calls.

  A ledger keeps its renamings sorted by key, and beside them an index of keys by old
  name. This file

  1. gives the naive account of a session: the events that were taken in, up to the first
     conflict of each call (`history`), and of these the first of each key
     (`firstOfEachKey`);
  2. proves that both parts of a ledger follow this account (`Ledger.Tells`), by one lemma
     for one renaming (`Tells.record`) and one for a list of renamings (`Tells.recordAll`);
  3. concludes what the ledger after a session lists, finds, accepts and refuses
     (`session_tells_history`). -/

namespace Migration.Naming

/-! ## The naive account -/

/-- The renamings before which no other has their key, in order. -/
def firstOfEachKey : List Renaming → List Renaming
  | [] => []
  | r :: rest => r :: (firstOfEachKey rest).filter fun s => s.key ≠ r.key

/-- An earlier renaming has another new name for the key. -/
def Refuted (past : List Renaming) (r : Renaming) : Prop :=
  ∃ s ∈ past, s.key = r.key ∧ s.newName ≠ r.newName

instance (past : List Renaming) (r : Renaming) : Decidable (Refuted past r) :=
  inferInstanceAs (Decidable (∃ s ∈ past, s.key = r.key ∧ s.newName ≠ r.newName))

/-- Renamings up to the first that is refuted by what came before it. -/
def unrefuted : (past : List Renaming) → List Renaming → List Renaming
  | _, [] => []
  | past, r :: rest => if Refuted past r then [] else r :: unrefuted (past ++ [r]) rest

inductive LedgerCall where
  | record (r : Renaming)
  | recordAll (events : List Renaming)

namespace LedgerCall

def run (l : Ledger) : LedgerCall → Ledger
  | record r => (l.record r).1
  | recordAll events => (l.recordAll events).1

def events : LedgerCall → List Renaming
  | record r => [r]
  | recordAll events => events

end LedgerCall

def session (calls : List LedgerCall) : Ledger := calls.foldl LedgerCall.run .empty

/-- The renamings that calls one after another take in. -/
def history (calls : List LedgerCall) : List Renaming :=
  calls.foldl (fun past call => past ++ unrefuted past call.events) []

/-! ## The first of each key -/

theorem mem_of_mem_firstOfEachKey {events : List Renaming} {r : Renaming}
    (h : r ∈ firstOfEachKey events) : r ∈ events := by
  induction events with
  | nil => exact h
  | cons s rest ih =>
    rcases List.mem_cons.mp h with rfl | h
    · exact List.mem_cons_self
    · exact List.mem_cons_of_mem _ (ih (List.mem_filter.mp h).1)

theorem keys_firstOfEachKey {events : List Renaming} {key : Key} :
    key ∈ (firstOfEachKey events).map Renaming.key ↔ key ∈ events.map Renaming.key := by
  constructor
  · intro h
    obtain ⟨r, hr, rfl⟩ := List.mem_map.mp h
    exact List.mem_map_of_mem (mem_of_mem_firstOfEachKey hr)
  · intro h
    induction events with
    | nil => exact h
    | cons r rest ih =>
      by_cases hkey : key = r.key
      · exact hkey ▸ List.mem_map_of_mem List.mem_cons_self
      · obtain ⟨s, hs, rfl⟩ := List.mem_map.mp (ih ((List.mem_cons.mp h).resolve_left hkey))
        apply List.mem_map_of_mem
        apply List.mem_cons_of_mem
        exact List.mem_filter.mpr ⟨hs, by simpa using hkey⟩

theorem firstOfEachKey_append (past events : List Renaming) :
    firstOfEachKey (past ++ events) = firstOfEachKey past ++
      (firstOfEachKey events).filter fun s => s.key ∉ past.map Renaming.key := by
  induction past with
  | nil =>
    have hall : ((firstOfEachKey events).filter fun s => s.key ∉ ([] : List Key)) =
        firstOfEachKey events := List.filter_eq_self.mpr (by simp)
    rw [List.nil_append, List.map_nil, hall]
    rfl
  | cons r rest ih =>
    rw [List.cons_append, firstOfEachKey, firstOfEachKey, ih, List.filter_append,
      List.filter_filter, List.cons_append]
    congr 3
    funext s
    simp [eq_comm, not_or]

theorem firstOfEachKey_concat (past : List Renaming) (r : Renaming) :
    firstOfEachKey (past ++ [r]) =
      firstOfEachKey past ++ if r.key ∈ past.map Renaming.key then [] else [r] := by
  rw [firstOfEachKey_append, firstOfEachKey, firstOfEachKey, List.filter_nil, List.filter_cons]
  by_cases h : r.key ∈ past.map Renaming.key
  · simp [h]
  · simp [h]

theorem firstOfEachKey_isPrefix (past events : List Renaming) :
    firstOfEachKey past <+: firstOfEachKey (past ++ events) := by
  rw [firstOfEachKey_append]
  exact List.prefix_append _ _

/-! ## Ledgers and their past -/

/-- No two of the renamings have one key and two new names. -/
def Agreeing (events : List Renaming) : Prop :=
  ∀ r ∈ events, ∀ s ∈ events, r.key = s.key → r.newName = s.newName

theorem Agreeing.concat {past : List Renaming} (h : Agreeing past) {r : Renaming}
    (hr : ¬ Refuted past r) : Agreeing (past ++ [r]) := by
  have hnew : ∀ s ∈ past, s.key = r.key → s.newName = r.newName := by
    intro s hs hkey
    exact Decidable.byContradiction fun hname => hr ⟨s, hs, hkey, hname⟩
  intro s hs t ht hkey
  rcases List.mem_append.mp hs with hs | hs
  · rcases List.mem_append.mp ht with ht | ht
    · exact h s hs t ht hkey
    · cases List.mem_singleton.mp ht
      exact hnew s hs hkey
  · cases List.mem_singleton.mp hs
    rcases List.mem_append.mp ht with ht | ht
    · exact (hnew t ht hkey.symm).symm
    · cases List.mem_singleton.mp ht
      rfl

namespace Ledger

/-- The renamings and the index of the ledger both tell what was taken in: the first renaming of
each key, and the keys of each old name in the order of these. -/
structure Tells (l : Ledger) (past : List Renaming) : Prop where
  entries : l.entries.Perm (firstOfEachKey past)
  index : ∀ form, l.index.under form =
    ((firstOfEachKey past).map Renaming.key).filter fun key => key.form == form
  agreeing : Agreeing past

theorem tells_empty : empty.Tells [] where
  entries := .refl _
  index _ := rfl
  agreeing _ hr := absurd hr List.not_mem_nil

variable {l : Ledger} {past : List Renaming}

namespace Tells

theorem mem_iff (h : l.Tells past) {r : Renaming} : r ∈ l.entries ↔ r ∈ firstOfEachKey past :=
  h.entries.mem_iff

theorem unknown_iff (h : l.Tells past) {key : Key} :
    l.find? key = none ↔ key ∉ past.map Renaming.key := by
  rw [← keys_firstOfEachKey, ← (h.entries.map Renaming.key).mem_iff, Ledger.find?_none_iff]
  simp

theorem key_mem (h : l.Tells past) {key : Key} {r : Renaming} (hfind : l.find? key = some r) :
    key ∈ past.map Renaming.key := by
  obtain ⟨hr, rfl⟩ := find?_iff.mp hfind
  exact List.mem_map_of_mem (mem_of_mem_firstOfEachKey (h.mem_iff.mp hr))

/-- What is found for a key is its first renaming, so it refutes what any renaming of it does. -/
theorem refuted_iff (h : l.Tells past) {r s : Renaming} (hfind : l.find? r.key = some s) :
    Refuted past r ↔ s.newName ≠ r.newName := by
  obtain ⟨hs, hkey⟩ := find?_iff.mp hfind
  have hpast : s ∈ past := mem_of_mem_firstOfEachKey (h.mem_iff.mp hs)
  constructor
  · intro hrefuted
    obtain ⟨t, ht, htkey, hname⟩ := hrefuted
    rw [h.agreeing s hpast t ht (hkey.trans htkey.symm)]
    exact hname
  · intro hname
    exact ⟨s, hpast, hkey, hname⟩

theorem add (h : l.Tells past) {r : Renaming} (hnew : ∀ s ∈ l.entries, s.key ≠ r.key)
    (hr : ¬ Refuted past r) : (l.add r hnew).Tells (past ++ [r]) := by
  have hkey : r.key ∉ past.map Renaming.key := h.unknown_iff.mp (find?_none_iff.mpr hnew)
  have hfirsts : firstOfEachKey (past ++ [r]) = firstOfEachKey past ++ [r] := by
    rw [firstOfEachKey_concat, if_neg hkey]
  refine ⟨?_, fun form => ?_, h.agreeing.concat hr⟩
  · rw [hfirsts]
    have hinsert : (insertSorted r l.entries).Perm (r :: firstOfEachKey past) :=
      (insertSorted_perm r l.entries).trans (h.entries.cons r)
    exact hinsert.trans (List.perm_append_singleton r _).symm
  · show (l.index.add r.key).under form = _
    rw [NameIndex.under_add, h.index, hfirsts, List.map_append, List.filter_append]
    congr 1
    by_cases hform : form = r.key.form
    · simp [hform]
    · have hother : r.key.form ≠ form := fun heq => hform heq.symm
      simp [hform, hother]

theorem again (h : l.Tells past) {r : Renaming} (hkey : r.key ∈ past.map Renaming.key)
    (hr : ¬ Refuted past r) : l.Tells (past ++ [r]) := by
  have hfirsts : firstOfEachKey (past ++ [r]) = firstOfEachKey past := by
    rw [firstOfEachKey_concat, if_pos hkey, List.append_nil]
  exact ⟨hfirsts ▸ h.entries, hfirsts ▸ h.index, h.agreeing.concat hr⟩

/-- What was not refuted is taken in, and it is new where its key is. -/
theorem record_ok (h : l.Tells past) {r : Renaming} (hr : ¬ Refuted past r) :
    ∃ isNew after, l.record r = (after, .ok isNew) ∧ after.Tells (past ++ [r]) ∧
      (isNew = true ↔ r.key ∉ past.map Renaming.key) := by
  rcases l.record_cases r with ⟨hnew, hrecord⟩ | ⟨s, hfind, -, hrecord⟩ | ⟨s, hfind, hname, -⟩
  · have hkey : r.key ∉ past.map Renaming.key := h.unknown_iff.mp (find?_none_iff.mpr hnew)
    exact ⟨true, _, hrecord, h.add hnew hr, iff_of_true rfl hkey⟩
  · have hkey : r.key ∈ past.map Renaming.key := h.key_mem hfind
    exact ⟨false, l, hrecord, h.again hkey hr, iff_of_false Bool.false_ne_true (fun hn => hn hkey)⟩
  · exact absurd ((h.refuted_iff hfind).mpr hname) hr

/-- What was refuted is refused with both new names, and the ledger stays as it was. -/
theorem record_error (h : l.Tells past) {r : Renaming} (hr : Refuted past r) :
    ∃ s, l.find? r.key = some s ∧ s.newName ≠ r.newName ∧
      l.record r =
        (l, .error (.ambiguousMapping r.schema (some r.kind) r.oldName s.newName r.newName)) := by
  obtain ⟨t, ht, hkey, -⟩ := id hr
  rcases l.record_cases r with ⟨hnew, -⟩ | ⟨s, hfind, hname, -⟩ | ⟨s, hfind, hname, hrecord⟩
  · have hnone := h.unknown_iff.mp (find?_none_iff.mpr hnew)
    exact absurd (hkey ▸ List.mem_map_of_mem ht) hnone
  · exact absurd hname ((h.refuted_iff hfind).mp hr)
  · exact ⟨s, hfind, hname, hrecord⟩

theorem recordAll (h : l.Tells past) (rs : List Renaming) :
    (l.recordAll rs).1.Tells (past ++ unrefuted past rs) := by
  induction rs generalizing l past with
  | nil => simpa [Ledger.recordAll, unrefuted] using h
  | cons r rest ih =>
    rw [Ledger.recordAll, unrefuted]
    by_cases hr : Refuted past r
    · obtain ⟨s, -, -, hrecord⟩ := h.record_error hr
      simpa [hrecord, hr] using h
    · obtain ⟨isNew, after, hrecord, hafter, -⟩ := h.record_ok hr
      simpa [hrecord, hr] using ih hafter

/-- The call for a list is the calls for each renaming that it takes in. -/
theorem recordAll_eq_foldl (h : l.Tells past) (rs : List Renaming) :
    (l.recordAll rs).1 = ((unrefuted past rs).map LedgerCall.record).foldl LedgerCall.run l := by
  induction rs generalizing l past with
  | nil => rfl
  | cons r rest ih =>
    rw [Ledger.recordAll, unrefuted]
    by_cases hr : Refuted past r
    · obtain ⟨s, -, -, hrecord⟩ := h.record_error hr
      simp [hrecord, hr]
    · obtain ⟨isNew, after, hrecord, hafter, -⟩ := h.record_ok hr
      simp [hrecord, hr, LedgerCall.run, ih hafter]

/-- The call for a list succeeds where it takes in the whole list, and else fails as the call for
the first renaming that it does not take in. -/
theorem recordAll_outcome (h : l.Tells past) (rs : List Renaming) :
    (unrefuted past rs = rs ∧ (l.recordAll rs).2 = .ok ()) ∨
      ∃ r later e, rs = unrefuted past rs ++ r :: later ∧
        ((l.recordAll rs).1.record r).2 = .error e ∧ (l.recordAll rs).2 = .error e := by
  induction rs generalizing l past with
  | nil => exact .inl ⟨rfl, rfl⟩
  | cons r rest ih =>
    rw [Ledger.recordAll, unrefuted]
    by_cases hr : Refuted past r
    · obtain ⟨s, -, -, hrecord⟩ := h.record_error hr
      rw [if_pos hr, hrecord]
      exact .inr ⟨r, rest, _, rfl, congrArg Prod.snd hrecord, rfl⟩
    · obtain ⟨isNew, after, hrecord, hafter, -⟩ := h.record_ok hr
      rw [if_neg hr, hrecord]
      rcases ih hafter with ⟨hall, hok⟩ | ⟨u, later, e, hrest, hrefused, herror⟩
      · exact .inl ⟨congrArg (r :: ·) hall, hok⟩
      · exact .inr ⟨u, later, e, congrArg (r :: ·) hrest, hrefused, herror⟩

theorem run (h : l.Tells past) (call : LedgerCall) :
    (call.run l).Tells (past ++ unrefuted past call.events) := by
  cases call with
  | recordAll rs => exact h.recordAll rs
  | record r =>
    rw [LedgerCall.events, unrefuted, unrefuted]
    by_cases hr : Refuted past r
    · obtain ⟨s, -, -, hrecord⟩ := h.record_error hr
      simpa [LedgerCall.run, hrecord, hr] using h
    · obtain ⟨isNew, after, hrecord, hafter, -⟩ := h.record_ok hr
      simpa [LedgerCall.run, hrecord, hr] using hafter

theorem findByRawName (h : l.Tells past) (raw : String) :
    l.findByRawName raw =
      (firstOfEachKey past).filter fun r => Text.lowercase r.oldName == Text.lowercase raw := by
  have hfind : ∀ r ∈ firstOfEachKey past, l.find? r.key = some r :=
    fun r hr => find?_iff.mpr ⟨h.mem_iff.mpr hr, rfl⟩
  rw [Ledger.findByRawName, h.index]
  generalize firstOfEachKey past = firsts at hfind
  induction firsts with
  | nil => rfl
  | cons r rest ih =>
    obtain ⟨hr, hrest⟩ := List.forall_mem_cons.mp hfind
    have hform : (r.key.form == Text.lowercase raw) =
        (Text.lowercase r.oldName == Text.lowercase raw) := rfl
    rw [List.map_cons, List.filter_cons, List.filter_cons, hform]
    split
    · rw [List.filterMap_cons_some hr, ih hrest]
    · exact ih hrest

theorem find?_mono (h : l.Tells past) {after : Ledger} {events : List Renaming}
    (hafter : after.Tells (past ++ events)) {key : Key} {r : Renaming}
    (hfind : l.find? key = some r) : after.find? key = some r := by
  obtain ⟨hr, hkey⟩ := find?_iff.mp hfind
  have hfirst := (firstOfEachKey_isPrefix past events).subset (h.mem_iff.mp hr)
  exact find?_iff.mpr ⟨hafter.mem_iff.mpr hfirst, hkey⟩

end Tells

end Ledger

/-- A renaming is new, or refused, or changes nothing, by what the ledger has for its key. -/
theorem Ledger.record_verdict (l : Ledger) (r : Renaming) :
    ((l.record r).2 = .ok true ↔ ∀ s ∈ l.toList, s.key ≠ r.key) ∧
    ((∃ e, (l.record r).2 = .error e) ↔ ∃ s ∈ l.toList, s.key = r.key ∧ s.newName ≠ r.newName) ∧
    ((∃ s ∈ l.toList, s.key = r.key) → (LedgerCall.record r).run l = l) := by
  rcases l.record_cases r with
    ⟨hnew, hrecord⟩ | ⟨s, hfind, hname, hrecord⟩ | ⟨s, hfind, hname, hrecord⟩
  · refine ⟨iff_of_true (congrArg Prod.snd hrecord) hnew, iff_of_false ?_ ?_, ?_⟩
    · simp [hrecord]
    · intro hother
      obtain ⟨s, hs, hkey, -⟩ := hother
      exact hnew s hs hkey
    · intro hknown
      obtain ⟨s, hs, hkey⟩ := hknown
      exact absurd hkey (hnew s hs)
  · obtain ⟨hs, hkey⟩ := find?_iff.mp hfind
    refine ⟨iff_of_false ?_ fun hnew => hnew s hs hkey, iff_of_false ?_ ?_, fun _ => ?_⟩
    · simp [hrecord]
    · simp [hrecord]
    · intro hother
      obtain ⟨t, ht, htkey, htname⟩ := hother
      rw [l.sorted.eq_of_key_eq ht hs (htkey.trans hkey.symm)] at htname
      exact htname hname
    · rw [LedgerCall.run, hrecord]
  · obtain ⟨hs, hkey⟩ := find?_iff.mp hfind
    refine ⟨iff_of_false ?_ fun hnew => hnew s hs hkey, ?_, fun _ => ?_⟩
    · simp [hrecord]
    · exact iff_of_true ⟨_, congrArg Prod.snd hrecord⟩ ⟨s, hs, hkey, hname⟩
    · rw [LedgerCall.run, hrecord]

/-! ## Sessions -/

theorem Ledger.Tells.runs {l : Ledger} {past : List Renaming} (h : l.Tells past)
    (calls : List LedgerCall) :
    ∃ events, calls.foldl (fun past call => past ++ unrefuted past call.events) past =
      past ++ events ∧ (calls.foldl LedgerCall.run l).Tells (past ++ events) := by
  induction calls generalizing l past with
  | nil => exact ⟨[], (List.append_nil past).symm, (List.append_nil past).symm ▸ h⟩
  | cons call rest ih =>
    obtain ⟨events, hpast, htells⟩ := ih (h.run call)
    rw [List.append_assoc] at hpast htells
    exact ⟨_, hpast, htells⟩

theorem session_tells (calls : List LedgerCall) : (session calls).Tells (history calls) := by
  obtain ⟨events, hpast, htells⟩ := Ledger.tells_empty.runs calls
  rw [history, hpast]
  exact htells

theorem session_append (calls later : List LedgerCall) :
    session (calls ++ later) = later.foldl LedgerCall.run (session calls) := List.foldl_append

/-- After any calls

* the renamings are sorted by schema, kind and old name, and are the first of each key that was
  taken in;
* an old name finds those of them that have it, whatever its case, oldest first;
* what is found for a key is found for it after any later calls;
* a renaming is new where its key is, and refused where its key has another new name, which changes
  nothing;
* a list of renamings is taken in one by one up to the first that is refused, and fails as that. -/
theorem session_tells_history (calls : List LedgerCall) :
    ((session calls).toList.Pairwise fun r s => r.key.precedes s.key = true) ∧
    (session calls).toList.Perm (firstOfEachKey (history calls)) ∧
    (∀ raw, (session calls).findByRawName raw = (firstOfEachKey (history calls)).filter
      fun r => Text.lowercase r.oldName == Text.lowercase raw) ∧
    (∀ key r later, (session calls).find? key = some r →
      (session (calls ++ later)).find? key = some r) ∧
    (∀ r,
      (((session calls).record r).2 = .ok true ↔
        ∀ s ∈ (session calls).toList, s.key ≠ r.key) ∧
      ((∃ e, ((session calls).record r).2 = .error e) ↔
        ∃ s ∈ (session calls).toList, s.key = r.key ∧ s.newName ≠ r.newName) ∧
      ((∃ s ∈ (session calls).toList, s.key = r.key) →
        session (calls ++ [.record r]) = session calls)) ∧
    ∀ rs,
      session (calls ++ [.recordAll rs]) =
        session (calls ++ (unrefuted (history calls) rs).map .record) ∧
      ((unrefuted (history calls) rs = rs ∧ ((session calls).recordAll rs).2 = .ok ()) ∨
        ∃ r later e, rs = unrefuted (history calls) rs ++ r :: later ∧
          ((session (calls ++ [.recordAll rs])).record r).2 = .error e ∧
          ((session calls).recordAll rs).2 = .error e) := by
  have htells := session_tells calls
  refine ⟨(session calls).sorted, htells.entries, htells.findByRawName, ?_, ?_, ?_⟩
  · intro key r later hfind
    obtain ⟨events, -, hafter⟩ := htells.runs later
    rw [session_append]
    exact htells.find?_mono hafter hfind
  · intro r
    rw [session_append]
    exact (session calls).record_verdict r
  · intro rs
    rw [session_append, session_append]
    exact ⟨htells.recordAll_eq_foldl rs, htells.recordAll_outcome rs⟩

end Migration.Naming
