import Mathlib.Data.List.Forall2
import Migration.Proofs.LedgerSessions
import Migration.Proofs.Substitution

/-
  The order of renamings does not matter.

  The ledger keeps the first renaming of each key, its index keeps the order in which
  keys came, and a name with two new names is refused with the two that came first: all
  of this depends on the order of the renamings. What does not depend on it:

  1. whether the ledger takes all renamings in (`recordAll_empty_ok_iff`);
  2. its keys and their new names, in their order (`Tells.alike`);
  3. the text of a module, and else the token at which it fails and the kind of the
     error (`SameNames.substituteNames`). -/

namespace Migration

namespace Naming

open Ledger

/-! ## Which lists of renamings are taken in -/

theorem Agreeing.perm {events events' : List Renaming} (h : Agreeing events)
    (hperm : events.Perm events') : Agreeing events' := by
  intro r hr s hs
  exact h r (hperm.mem_iff.mpr hr) s (hperm.mem_iff.mpr hs)

theorem not_agreeing_iff {events : List Renaming} :
    ¬ Agreeing events ↔ ∃ r ∈ events, ∃ s ∈ events, r.key = s.key ∧ r.newName ≠ s.newName := by
  simp only [Agreeing, not_forall, exists_prop, ne_eq]

/-- No renaming of a list is refuted just where the list agrees with what was there before. -/
theorem unrefuted_eq_self_iff {past : List Renaming} (h : Agreeing past) (rs : List Renaming) :
    unrefuted past rs = rs ↔ Agreeing (past ++ rs) := by
  induction rs generalizing past with
  | nil => exact iff_of_true rfl ((List.append_nil past).symm ▸ h)
  | cons r rest ih =>
    rw [unrefuted]
    by_cases hr : Refuted past r
    · rw [if_pos hr]
      refine iff_of_false (List.cons_ne_nil r rest).symm fun hagree => ?_
      obtain ⟨s, hs, hkey, hname⟩ := hr
      have hsame := hagree s (List.mem_append_left _ hs) r
        (List.mem_append_right _ List.mem_cons_self) hkey
      exact hname hsame
    · rw [if_neg hr, List.append_cons past r rest, ← ih (h.concat hr)]
      exact ⟨fun heq => (List.cons.inj heq).2, fun heq => congrArg (r :: ·) heq⟩

theorem recordAll_empty_ok_iff (events : List Renaming) :
    (empty.recordAll events).2 = .ok () ↔ Agreeing events := by
  have hself := unrefuted_eq_self_iff tells_empty.agreeing events
  rw [List.nil_append] at hself
  rw [← hself]
  rcases tells_empty.recordAll_outcome events with ⟨hall, hok⟩ | ⟨r, later, e, hrest, -, herror⟩
  · exact iff_of_true hok hall
  · refine iff_of_false (by simp [herror]) fun hall => ?_
    rw [hall] at hrest
    simp at hrest

theorem recordAll_empty_fails_iff (events : List Renaming) :
    (∃ e, (empty.recordAll events).2 = .error e) ↔
      ∃ r ∈ events, ∃ s ∈ events, r.key = s.key ∧ r.newName ≠ s.newName := by
  rw [← not_agreeing_iff, ← recordAll_empty_ok_iff]
  cases (empty.recordAll events).2 with
  | ok => simp
  | error e => simp

theorem tells_of_recordAll {events : List Renaming} (h : Agreeing events) :
    (empty.recordAll events).1.Tells events := by
  have htells := tells_empty.recordAll events
  rwa [List.nil_append, (unrefuted_eq_self_iff tells_empty.agreeing events).mpr h] at htells

/-! ## Ledgers of the same renamings -/

/-- Two renamings of one key to one new name, both of them among the events. -/
def Duplicates (events : List Renaming) (r s : Renaming) : Prop :=
  r ∈ events ∧ s ∈ events ∧ r.key = s.key ∧ r.newName = s.newName

theorem Sorted.keys_eq {entries entries' : List Renaming} (h : Sorted entries)
    (h' : Sorted entries')
    (hkeys : ∀ key, key ∈ entries.map Renaming.key ↔ key ∈ entries'.map Renaming.key) :
    entries.map Renaming.key = entries'.map Renaming.key := by
  have hsorted : (entries.map Renaming.key).Pairwise (fun a b => a.precedes b = true) :=
    List.pairwise_map.mpr h
  have hsorted' : (entries'.map Renaming.key).Pairwise (fun a b => a.precedes b = true) :=
    List.pairwise_map.mpr h'
  have hne : ∀ {a b : Key}, a.precedes b = true → a ≠ b := by
    intro a b hfirst hab
    exact Key.precedes_irrefl b (hab ▸ hfirst)
  have hperm : (entries.map Renaming.key).Perm (entries'.map Renaming.key) :=
    (List.perm_ext_iff_of_nodup (hsorted.imp hne) (hsorted'.imp hne)).mpr hkeys
  refine hperm.eq_of_pairwise ?_ hsorted hsorted'
  intro a b _ _ hab hba
  exact absurd (Key.precedes_trans hab hba) (Key.precedes_irrefl a)

/-- Ledgers that tell the same renamings in two orders list the same keys and new names. -/
theorem Ledger.Tells.alike {l l' : Ledger} {events events' : List Renaming} (h : l.Tells events)
    (h' : l'.Tells events') (hperm : events.Perm events') :
    List.Forall₂ (Duplicates events) l.toList l'.toList := by
  have hkeys : l.entries.map Renaming.key = l'.entries.map Renaming.key := by
    refine l.sorted.keys_eq l'.sorted fun key => ?_
    rw [(h.entries.map Renaming.key).mem_iff, (h'.entries.map Renaming.key).mem_iff,
      keys_firstOfEachKey, keys_firstOfEachKey, (hperm.map Renaming.key).mem_iff]
  have hpairs : List.Forall₂ (fun r s => r.key = s.key) l.entries l'.entries := by
    rw [← List.forall₂_eq_eq_eq, List.forall₂_map_left_iff, List.forall₂_map_right_iff] at hkeys
    exact hkeys
  rw [List.forall₂_iff_zip] at hpairs ⊢
  obtain ⟨hlength, hzip⟩ := hpairs
  refine ⟨hlength, fun {r s} hrs => ?_⟩
  obtain ⟨hr, hs⟩ := List.of_mem_zip hrs
  have hr' : r ∈ events := mem_of_mem_firstOfEachKey (h.mem_iff.mp hr)
  have hs' : s ∈ events := hperm.mem_iff.mpr (mem_of_mem_firstOfEachKey (h'.mem_iff.mp hs))
  exact ⟨hr', hs', hzip hrs, h.agreeing r hr' s hs' (hzip hrs)⟩

end Naming

open Naming (Ledger Renaming Duplicates mem_of_mem_firstOfEachKey keys_firstOfEachKey)

/-! ## Modules against two ledgers -/

/-- The ledgers have the same keys, with the same new names. -/
structure SameNames (l l' : Ledger) : Prop where
  forth : ∀ r ∈ l.entries, ∃ s ∈ l'.entries, s.key = r.key ∧ s.newName = r.newName
  back : ∀ s ∈ l'.entries, ∃ r ∈ l.entries, r.key = s.key ∧ r.newName = s.newName

/-- The errors are of one kind: they are equal, or both are about two new names of one old name,
which may be other names. -/
inductive MigrationError.SameKind : MigrationError → MigrationError → Prop where
  | same (e : MigrationError) : SameKind e e
  | ambiguous (schema : String) (kind : Option ObjectKind) (oldName a b a' b' : String) :
      SameKind (.ambiguousMapping schema kind oldName a b)
        (.ambiguousMapping schema kind oldName a' b')

/-- The text fails at a token: those before it have new texts, and it has none. -/
def FailsAt (ledger : Ledger) (reserved : List String) (sql : String) (earlier : List Token)
    (t : Token) (e : MigrationError) : Prop :=
  (∃ later, tokenize sql = .ok (earlier ++ t :: later)) ∧
    (∃ texts, NewTexts ledger reserved [] earlier texts) ∧ NoNewText ledger reserved earlier t e

/-- Against both ledgers a module has the same text, or no tokens, or fails at the same token with
errors of one kind. -/
def SubstitutesAlike (l l' : Ledger) (sql : String) (reserved : List String) : Prop :=
  (∃ out, substituteNames sql l reserved = .ok out ∧ substituteNames sql l' reserved = .ok out) ∨
  (∃ e, tokenize sql = .error e ∧ substituteNames sql l reserved = .error e ∧
    substituteNames sql l' reserved = .error e) ∨
  ∃ earlier t e e', FailsAt l reserved sql earlier t e ∧ FailsAt l' reserved sql earlier t e' ∧
    substituteNames sql l reserved = .error e ∧ substituteNames sql l' reserved = .error e' ∧
    e.SameKind e'

theorem Disagrees.known {ledger : Ledger} {raw first second : String}
    (h : Disagrees ledger raw first second) : ∃ r, RecordedFor ledger raw r := by
  obtain ⟨same, later, hnames, -⟩ := h
  have hfirst : first ∈ newNames ledger raw := by rw [hnames]; exact List.mem_cons_self
  obtain ⟨r, hr, -⟩ := mem_newNames.mp hfirst
  exact ⟨r, hr⟩

namespace SameNames

variable {l l' : Ledger} {reserved : List String}

theorem symm (h : SameNames l l') : SameNames l' l := ⟨h.back, h.forth⟩

theorem exists_of_tells {events events' : List Renaming} (h : l.Tells events)
    (h' : l'.Tells events') (hperm : events.Perm events') :
    ∀ r ∈ l.entries, ∃ s ∈ l'.entries, s.key = r.key ∧ s.newName = r.newName := by
  intro r hr
  have hr' : r ∈ events' := hperm.mem_iff.mp (mem_of_mem_firstOfEachKey (h.mem_iff.mp hr))
  obtain ⟨s, hs, hkey⟩ := List.mem_map.mp (keys_firstOfEachKey.mpr (List.mem_map_of_mem hr'))
  have hname := h'.agreeing s (mem_of_mem_firstOfEachKey hs) r hr' hkey
  exact ⟨s, h'.mem_iff.mpr hs, hkey, hname⟩

theorem of_tells {events events' : List Renaming} (h : l.Tells events)
    (h' : l'.Tells events') (hperm : events.Perm events') : SameNames l l' :=
  ⟨exists_of_tells h h' hperm, exists_of_tells h' h hperm.symm⟩

theorem recordedFor (h : SameNames l l') {raw : String} {r : Renaming} (hr : RecordedFor l raw r) :
    ∃ s, RecordedFor l' raw s ∧ s.newName = r.newName := by
  obtain ⟨hmem, hform⟩ := hr
  obtain ⟨s, hs, hkey, hname⟩ := h.forth r hmem
  have hold : s.oldName = r.oldName := congrArg (fun key => key.2.2) hkey
  exact ⟨s, ⟨hs, hold ▸ hform⟩, hname⟩

theorem unknown (h : SameNames l l') {raw : String} (hunknown : ∀ r, ¬ RecordedFor l raw r) :
    ∀ s, ¬ RecordedFor l' raw s := by
  intro s hs
  obtain ⟨r, hr, -⟩ := h.symm.recordedFor hs
  exact hunknown r hr

theorem nameFor (h : SameNames l l') {raw name : String} (hname : NameFor l reserved raw name) :
    NameFor l' reserved raw name := by
  cases hname with
  | recorded known agree =>
    obtain ⟨r, hr⟩ := known
    obtain ⟨s, hs, -⟩ := h.recordedFor hr
    refine .recorded ⟨s, hs⟩ fun t ht => ?_
    obtain ⟨u, hu, hsame⟩ := h.symm.recordedFor ht
    exact hsame.symm.trans (agree u hu)
  | reserved unknown listed first same => exact .reserved (h.unknown unknown) listed first same
  | canonical unknown unreserved fits => exact .canonical (h.unknown unknown) unreserved fits

theorem noNameFor (h : SameNames l l') {raw : String} {e : MigrationError}
    (he : NoNameFor l reserved raw e) : ∃ e', NoNameFor l' reserved raw e' ∧ e.SameKind e' := by
  rcases nameFor_or_noNameFor l' reserved raw with ⟨name, hname⟩ | ⟨e', he'⟩
  · -- a name in the one ledger is the name in the other
    have hok := targetName_of_nameFor (h.symm.nameFor hname)
    rw [targetName_of_noNameFor he] at hok
    cases hok
  · refine ⟨e', he', ?_⟩
    cases he with
    | ambiguous disagree =>
      cases he' with
      | ambiguous disagree' => exact .ambiguous ..
      | tooLong unknown unreserved refused =>
        obtain ⟨r, hr⟩ := disagree.known
        exact absurd hr (h.symm.unknown unknown r)
    | tooLong unknown unreserved refused =>
      cases he' with
      | ambiguous disagree =>
        obtain ⟨s, hs⟩ := disagree.known
        exact absurd hs (h.unknown unknown s)
      | tooLong _ _ refused' =>
        rw [refused] at refused'
        cases refused'
        exact .same e

theorem newText (h : SameNames l l') {before : List Token} {t : Token} {text : String}
    (htext : NewText l reserved before t text) : NewText l' reserved before t text := by
  cases htext with
  | name identifier found written => exact .name identifier (h.nameFor found) written
  | aliased literal column written => exact .aliased literal column written
  | kept notName notAlias => exact .kept notName notAlias

theorem newTexts (h : SameNames l l') {before ts : List Token} {texts : List String}
    (htexts : NewTexts l reserved before ts texts) : NewTexts l' reserved before ts texts := by
  induction htexts with
  | nil => exact .nil
  | cons head tail ih => exact .cons (h.newText head) ih

theorem noNewText (h : SameNames l l') {before : List Token} {t : Token} {e : MigrationError}
    (he : NoNewText l reserved before t e) :
    ∃ e', NoNewText l' reserved before t e' ∧ e.SameKind e' := by
  cases he with
  | unnamed identifier missing =>
    obtain ⟨e', he', hkind⟩ := h.noNameFor missing
    exact ⟨e', .unnamed identifier he', hkind⟩
  | unwritable identifier found refused =>
    exact ⟨e, .unwritable identifier (h.nameFor found) refused, .same e⟩
  | badAlias literal column refused => exact ⟨e, .badAlias literal column refused, .same e⟩

theorem substitutesAlike (h : SameNames l l') (sql : String) (reserved : List String) :
    SubstitutesAlike l l' sql reserved := by
  cases htokens : tokenize sql with
  | error e =>
    refine .inr (.inl ⟨e, htokens, ?_, ?_⟩)
    · exact substituteNames_refused htokens
    · exact substituteNames_refused htokens
  | ok tokens =>
    rcases newTexts_or_first_refusal l reserved [] tokens with
      ⟨texts, htexts⟩ | ⟨earlier, t, later, texts, e, rfl, htexts, he⟩
    · refine .inl ⟨String.join texts, ?_, ?_⟩
      · exact substituteNames_ok_iff.mpr ⟨tokens, texts, htokens, htexts, rfl⟩
      · exact substituteNames_ok_iff.mpr ⟨tokens, texts, htokens, h.newTexts htexts, rfl⟩
    · obtain ⟨e', he', hkind⟩ := h.noNewText he
      refine .inr (.inr ⟨earlier, t, e, e', ⟨⟨later, htokens⟩, ⟨texts, htexts⟩, he⟩,
        ⟨⟨later, htokens⟩, ⟨texts, h.newTexts htexts⟩, he'⟩, ?_, ?_, hkind⟩)
      · exact substituteNames_error_iff.mpr (.inr ⟨earlier, t, later, texts, htokens, htexts, he⟩)
      · exact substituteNames_error_iff.mpr
          (.inr ⟨earlier, t, later, texts, htokens, h.newTexts htexts, he'⟩)

end SameNames

/-- The order of renamings does not matter: an empty ledger refuses them in any order just where two
of them have one key and two new names, and else it lists the same keys and new names, and modules
have the same texts, or no tokens, or fail at the same tokens. -/
theorem recordAll_any_order {events events' : List Renaming} (hperm : events.Perm events') :
    ((∃ e, (Ledger.empty.recordAll events).2 = .error e) ↔
      ∃ r ∈ events, ∃ s ∈ events, r.key = s.key ∧ r.newName ≠ s.newName) ∧
    ((∃ e, (Ledger.empty.recordAll events').2 = .error e) ↔
      ∃ r ∈ events, ∃ s ∈ events, r.key = s.key ∧ r.newName ≠ s.newName) ∧
    ((Ledger.empty.recordAll events).2 = .ok () →
      List.Forall₂ (Duplicates events) (Ledger.empty.recordAll events).1.toList
        (Ledger.empty.recordAll events').1.toList ∧
      ∀ sql reserved, SubstitutesAlike (Ledger.empty.recordAll events).1
        (Ledger.empty.recordAll events').1 sql reserved) := by
  refine ⟨Naming.recordAll_empty_fails_iff events, ?_, fun hok => ?_⟩
  · rw [Naming.recordAll_empty_fails_iff, ← Naming.not_agreeing_iff, ← Naming.not_agreeing_iff]
    exact not_congr ⟨fun h => h.perm hperm.symm, fun h => h.perm hperm⟩
  · have hagree := (Naming.recordAll_empty_ok_iff events).mp hok
    have htells := Naming.tells_of_recordAll hagree
    have htells' := Naming.tells_of_recordAll (hagree.perm hperm)
    exact ⟨htells.alike htells' hperm, (SameNames.of_tells htells htells' hperm).substitutesAlike⟩

/-- A table that is renamed twice, and between that a table of the same name in another schema. -/
def ordersTwice : List Renaming :=
  [⟨"sales", .table, "Orders", "orders", false⟩, ⟨"archive", .table, "Orders", "old_orders", true⟩,
    ⟨"sales", .table, "Orders", "orders", true⟩]

/-- Renamings to which `recordAll_any_order` applies: in either order the later one of the repeated
key is passed over, whichever that is. -/
theorem ordersTwice_reversed :
    ordersTwice.Perm ordersTwice.reverse ∧ (Ledger.empty.recordAll ordersTwice).2 = .ok () ∧
    List.Forall₂ (Duplicates ordersTwice) (Ledger.empty.recordAll ordersTwice).1.toList
      (Ledger.empty.recordAll ordersTwice.reverse).1.toList ∧
    ∀ sql reserved, SubstitutesAlike (Ledger.empty.recordAll ordersTwice).1
      (Ledger.empty.recordAll ordersTwice.reverse).1 sql reserved := by
  have hperm : ordersTwice.Perm ordersTwice.reverse := (List.reverse_perm ordersTwice).symm
  have hok : (Ledger.empty.recordAll ordersTwice).2 = .ok () := by
    rw [Naming.recordAll_empty_ok_iff]
    simp [Naming.Agreeing, ordersTwice, Renaming.key]
  exact ⟨hperm, hok, (recordAll_any_order hperm).2.2 hok⟩

end Migration
