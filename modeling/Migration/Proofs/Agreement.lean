import Migration.Proofs.Renaming

/-
  A ledger of one policy agrees with every renaming of that policy.

  A ledger follows a policy if the policy made every renaming in it. Two renamings of
  one key that one policy made have one new name, so such a ledger refuses no renaming
  of the policy (`Follows.record`), and what it holds after many does not depend on
  their order (`Follows.recordAll`). So the events of any calls of one policy, in any
  order, make a ledger that holds just the keys that the calls mention, each with the
  name that the results of the calls carry (`recordAll_calls`). -/

namespace Migration.Naming

variable {policy : NamingPolicy} {l : Ledger}

/-! ## Ledgers that follow a policy -/

namespace Ledger

/-- The policy made every renaming of the ledger. -/
def Follows (policy : NamingPolicy) (l : Ledger) : Prop := ∀ r ∈ l.entries, policy.Makes r

def Holds (l : Ledger) (key : Key) : Prop := key ∈ l.entries.map Renaming.key

/-- The ledger has this new name for the key. -/
def Says (l : Ledger) (key : Key) (name : String) : Prop :=
  ∃ r, l.find? key = some r ∧ r.newName = name

theorem follows_empty (policy : NamingPolicy) : Follows policy empty :=
  fun _ hr => absurd hr List.not_mem_nil

theorem find?_of_holds {key : Key} (h : l.Holds key) :
    ∃ r ∈ l.entries, l.find? key = some r ∧ r.key = key := by
  cases hfind : l.find? key with
  | none =>
    obtain ⟨r, hr, hkey⟩ := List.mem_map.mp h
    exact absurd hkey (key_ne_of_find?_none hfind r hr)
  | some r =>
    obtain ⟨hr, hkey⟩ := get?_some hfind
    exact ⟨r, hr, rfl, hkey⟩

theorem nodup_keys (l : Ledger) : (l.entries.map Renaming.key).Nodup := by
  rw [List.nodup_iff_pairwise_ne, List.pairwise_map]
  exact l.distinct

theorem Follows.says_of_holds {key : Key} {name : String} (hl : Follows policy l)
    (hholds : l.Holds key) (hname : policy.Names key name) : l.Says key name := by
  obtain ⟨r, hr, hfind, rfl⟩ := find?_of_holds hholds
  exact ⟨r, hfind, (hl r hr).names.unique hname⟩

/-- A renaming of the policy is never refused by a ledger that follows it. -/
theorem Follows.record {r : Renaming} (hl : Follows policy l) (hr : policy.Makes r) :
    ∃ isNew after, l.record r = (after, .ok isNew) ∧ Follows policy after ∧
      ∀ key, after.Holds key ↔ l.Holds key ∨ key = r.key := by
  unfold Ledger.record
  split
  · rename_i existing hfind
    obtain ⟨hmem, hkey⟩ := get?_some hfind
    -- both renamings are made by the policy from one key, so their new names are the same
    have hkey : existing.key = r.key := hkey
    have hnames : policy.Names r.key existing.newName := hkey ▸ (hl existing hmem).names
    rw [if_pos (hnames.unique hr.names)]
    refine ⟨false, l, rfl, hl, fun key => ⟨.inl, ?_⟩⟩
    rintro (hholds | rfl)
    · exact hholds
    · exact hkey ▸ List.mem_map_of_mem hmem
  · refine ⟨true, _, rfl, ?_, fun key => ?_⟩
    · intro s hs
      rcases mem_add.mp hs with rfl | hs
      · exact hr
      · exact hl s hs
    · exact mem_keys_insertSorted.trans or_comm

theorem Follows.recordAll {events : List Renaming} (hl : Follows policy l)
    (hevents : ∀ r ∈ events, policy.Makes r) :
    ∃ after, l.recordAll events = (after, .ok ()) ∧ Follows policy after ∧
      ∀ key, after.Holds key ↔ l.Holds key ∨ key ∈ events.map Renaming.key := by
  induction events generalizing l with
  | nil => exact ⟨l, rfl, hl, by simp⟩
  | cons r rest ih =>
    obtain ⟨hr, hrest⟩ := List.forall_mem_cons.mp hevents
    obtain ⟨isNew, mid, hrecord, hmid, hholds⟩ := hl.record hr
    obtain ⟨after, hall, hafter, hkeys⟩ := ih hmid hrest
    refine ⟨after, by rw [Ledger.recordAll, hrecord]; exact hall, hafter, fun key => ?_⟩
    rw [hkeys, hholds, List.map_cons, List.mem_cons, or_assoc]

end Ledger

/-! ## Calls -/

/-- A renaming of a name or of a descriptor, with its result. -/
inductive Call where
  | name (schema : String) (kind : ObjectKind) (raw result : String)
  | option (schema : String) (kind : ObjectKind) (raw result : Option String)
  | constraint (c result : Constraint)
  | index (i result : Index)
  | identity (i result : Identity)

namespace Call

/-- Under the policy the call has its result, and these events lead to it. -/
def Yields (policy : NamingPolicy) : Call → List Renaming → Prop
  | name schema kind raw result, events => (policy.rename schema kind raw).Yields result events
  | option schema kind raw result, events =>
    (policy.renameOption schema kind raw).Yields result events
  | constraint c result, events => (policy.renameConstraint c).Yields result events
  | index i result, events => (policy.renameIndex i).Yields result events
  | identity i result, events => (policy.renameIdentity i).Yields result events

/-- The keys of the names that the call is about. -/
def mentions : Call → List Key
  | name schema kind raw _ => [(schema, kind, raw)]
  | option schema kind raw _ => raw.toList.map fun r => (schema, kind, r)
  | constraint c _ => constraintKeys c
  | index i _ => indexKeys i
  | identity i _ => identityKeys i

/-- In the result of the call stands, at each place, what is said for the name that stood there. -/
def Carries (Said : Key → String → Prop) : Call → Prop
  | name schema kind raw result => Said (schema, kind, raw) result
  | option schema kind raw result => Option.Rel (fun r n => Said (schema, kind, r) n) raw result
  | constraint c result => ConstraintCarries Said c result
  | index i result => IndexCarries Said i result
  | identity i result => IdentityCarries Said i result

theorem made {call : Call} {events : List Renaming} (h : call.Yields policy events) :
    Made policy call.mentions (fun Said => call.Carries Said) events := by
  cases call with
  | name schema kind raw result => exact made_rename h
  | option schema kind raw result => exact made_renameOption h
  | constraint c result => exact made_renameConstraint h
  | index i result => exact made_renameIndex h
  | identity i result => exact made_renameIdentity h

end Call

/-- Calls of one policy, each with the events that led to its result. -/
def CallsOf (policy : NamingPolicy) (calls : List (Call × List Renaming)) : Prop :=
  ∀ call ∈ calls, call.1.Yields policy call.2

/-- What a ledger has of calls of one policy: one renaming of the policy for each key that they
mention, and no other, with the name that their results carry. -/
structure Records (policy : NamingPolicy) (calls : List (Call × List Renaming)) (l : Ledger) :
    Prop where
  keys : ∀ key, l.Holds key ↔ ∃ call ∈ calls, key ∈ call.1.mentions
  once : (l.entries.map Renaming.key).Nodup
  made : ∀ r ∈ l.entries, policy.Makes r
  carried : ∀ call ∈ calls, call.1.Carries l.Says

/-- The events of calls of one policy are taken in whatever their order. -/
theorem recordAll_calls {calls : List (Call × List Renaming)} (hcalls : CallsOf policy calls)
    {events : List Renaming} (horder : events.Perm (calls.flatMap (·.2))) :
    ∃ ledger, Ledger.empty.recordAll events = (ledger, .ok ()) ∧ Records policy calls ledger := by
  have hmem (r : Renaming) : r ∈ events ↔ ∃ call ∈ calls, r ∈ call.2 := by
    rw [horder.mem_iff, List.mem_flatMap]
  have hmade : ∀ r ∈ events, policy.Makes r := by
    intro r hr
    obtain ⟨call, hcall, hrcall⟩ := (hmem r).mp hr
    exact (Call.made (hcalls call hcall)).made r hrcall
  obtain ⟨ledger, hrecorded, hfollows, hholds⟩ := (Ledger.follows_empty policy).recordAll hmade
  have hheld (r : Renaming) (hr : r ∈ events) : ledger.Holds r.key :=
    (hholds r.key).mpr (.inr (List.mem_map_of_mem hr))
  refine ⟨ledger, hrecorded, ?_, ledger.nodup_keys, hfollows, ?_⟩
  · -- a key is held where some event has it, and the events of a call have the keys it mentions
    intro key
    have hempty : ¬ Ledger.empty.Holds key := List.not_mem_nil
    rw [hholds, or_iff_right hempty, List.mem_map]
    constructor
    · rintro ⟨r, hr, rfl⟩
      obtain ⟨call, hcall, hrcall⟩ := (hmem r).mp hr
      refine ⟨call, hcall, ?_⟩
      rw [← (Call.made (hcalls call hcall)).keys]
      exact List.mem_map_of_mem hrcall
    · rintro ⟨call, hcall, hkey⟩
      rw [← (Call.made (hcalls call hcall)).keys] at hkey
      obtain ⟨r, hr, rfl⟩ := List.mem_map.mp hkey
      exact ⟨r, (hmem r).mpr ⟨call, hcall, hr⟩, rfl⟩
  · intro call hcall
    refine (Call.made (hcalls call hcall)).carried ledger.Says fun r hr => ?_
    have hr : r ∈ events := (hmem r).mpr ⟨call, hcall, hr⟩
    exact hfollows.says_of_holds (hheld r hr) (hmade r hr).names

end Migration.Naming
