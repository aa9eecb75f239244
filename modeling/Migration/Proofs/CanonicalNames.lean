import Mathlib.Data.List.Destutter
import Migration.Naming.Policy
import Migration.Proofs.WordBoundaries

/-
  A canonical name is the canonical form of itself.

  The canonical form sets words apart, takes the small letters and then runs of underscores
  as one, in this order, and no later step may call for an earlier one again. The lowercase
  mapping could: it has a table of its own, and two characters whose image hangs on the text
  around them or has two characters. This file

  1. proves that the images of the mapping are images of themselves (`settled_lowerChar`,
     by the table), so that a text in small letters stays (`lowered_of_settled`) and has no
     capital at which a word could begin;
  2. proves that runs taken as one leave no two underscores side by side, and that such a
     text stays (`collapse_eq_destutter`);
  3. says what a canonical name is (`Canonical`), proves that the canonical form of every
     name is one and that it stays (`canonical_canonicalForm`, `canonicalForm_of_canonical`),
     and concludes that what was translated once translates to itself
     (`canonical_names_stay`). -/

namespace Migration.Naming

/-! ## Small letters -/

/-- The lowercase mapping leaves the character, wherever it stands. -/
def Settled (c : Char) : Prop := c ≠ 'Σ' ∧ c ≠ 'İ' ∧ Text.lowerChar c = c

instance (c : Char) : Decidable (Settled c) :=
  inferInstanceAs (Decidable (c ≠ 'Σ' ∧ c ≠ 'İ' ∧ Text.lowerChar c = c))

/-- A code point stays, or a run of capitals has it and moves it with the run. -/
theorem lowerPoint_cases (runs : List (Nat × Nat × Nat × Nat)) (n : Nat) :
    Text.lowerPoint runs n = n ∨ ∃ first last step image k, (first, last, step, image) ∈ runs ∧
      first + k ≤ last ∧ k % step = 0 ∧ Text.lowerPoint runs n = image + k := by
  induction runs with
  | nil => exact .inl rfl
  | cons run rest ih =>
    obtain ⟨first, last, step, image⟩ := run
    rw [Text.lowerPoint]
    split
    · exact .inl rfl
    · split
      · rename_i hfirst hrun
        exact .inr ⟨first, last, step, image, n - first, List.mem_cons_self, by omega, hrun.2, rfl⟩
      · rcases ih with hsame | ⟨first', last', step', image', k, hmem, himage⟩
        · exact .inl hsame
        · exact .inr ⟨first', last', step', image', k, List.mem_cons_of_mem _ hmem, himage⟩

/-- No run has a code point from `low` to `high`, or only code points at odd distances from `low`,
where those at even distances are asked about. -/
def clearOf (low high : Nat) (even : Bool) : List (Nat × Nat × Nat × Nat) → Bool
  | [] => true
  | (first, last, step, _) :: rest =>
    Nat.blt high first ||
      ((Nat.blt last low || (even && step == 2 && (low + first) % 2 == 1)) &&
        clearOf low high even rest)

theorem lowerPoint_of_clearOf {runs : List (Nat × Nat × Nat × Nat)} {low high k : Nat} {even : Bool}
    (h : clearOf low high even runs = true) (hk : low + k ≤ high)
    (heven : even = true → k % 2 = 0) : Text.lowerPoint runs (low + k) = low + k := by
  induction runs with
  | nil => rfl
  | cons run rest ih =>
    obtain ⟨first, last, step, image⟩ := run
    simp only [clearOf, Bool.or_eq_true, Bool.and_eq_true, Nat.blt_eq, beq_iff_eq] at h
    rw [Text.lowerPoint]
    split
    · rfl
    · rename_i hfirst
      rcases h with hbelow | ⟨hapart, hrest⟩
      · omega
      · rw [if_neg, ih hrest]
        rintro ⟨hlast, hstep⟩
        rcases hapart with habove | ⟨⟨heven', rfl⟩, hodd⟩
        · omega
        · have hk2 := heven heven'
          omega

theorem settled_of_clearOf {c : Char} (hsigma : c ≠ 'Σ') (hdotted : c ≠ 'İ')
    (h : clearOf c.toNat c.toNat true Text.lowercaseRuns = true) : Settled c := by
  have hpoint := lowerPoint_of_clearOf (k := 0) h (by omega) (by simp)
  refine ⟨hsigma, hdotted, ?_⟩
  rw [Text.lowerChar, show Text.lowerPoint Text.lowercaseRuns c.toNat = c.toNat from hpoint,
    Char.ofNat_toNat]

/-- The images of a run are characters that no run has, and neither of the two is among them. -/
def imagesSettled : Nat × Nat × Nat × Nat → Bool
  | (first, last, step, image) =>
    let high := image + (last - first)
    clearOf image high (step == 2 || first == last) Text.lowercaseRuns &&
      (Nat.blt high 'Σ'.toNat || Nat.blt 'Σ'.toNat image) &&
      (Nat.blt high 'İ'.toNat || Nat.blt 'İ'.toNat image) &&
      (Nat.blt high 0xd800 || (Nat.blt 0xdfff image && Nat.blt high 0x110000))

theorem lowercaseRuns_imagesSettled : Text.lowercaseRuns.all imagesSettled = true := by
  decide +kernel

theorem toNat_ofNat {n : Nat} (h : n.isValidChar) : (Char.ofNat n).toNat = n := by
  rw [Char.ofNat, dif_pos h]
  rfl

theorem settled_image {first last step image k : Nat}
    (hmem : (first, last, step, image) ∈ Text.lowercaseRuns) (hk : first + k ≤ last)
    (hstep : k % step = 0) : Settled (Char.ofNat (image + k)) := by
  have hrun := List.all_eq_true.mp lowercaseRuns_imagesSettled _ hmem
  simp only [imagesSettled, Bool.and_eq_true, Bool.or_eq_true, Nat.blt_eq] at hrun
  obtain ⟨⟨⟨hclear, hsigma⟩, hdotted⟩, hvalid⟩ := hrun
  have heven : (step == 2 || first == last) = true → k % 2 = 0 := by
    intro h
    rw [Bool.or_eq_true, beq_iff_eq, beq_iff_eq] at h
    rcases h with rfl | rfl
    · exact hstep
    · omega
  have hfixed := lowerPoint_of_clearOf hclear (k := k) (by omega) heven
  have hnat : (Char.ofNat (image + k)).toNat = image + k := by
    apply toNat_ofNat
    rcases hvalid with hlow | ⟨hhigh, hmax⟩
    · exact .inl (by omega)
    · exact .inr ⟨by omega, by omega⟩
  refine ⟨?_, ?_, by rw [Text.lowerChar, hnat, hfixed]⟩
  · intro heq
    rw [heq] at hnat
    omega
  · intro heq
    rw [heq] at hnat
    omega

theorem settled_lowerChar {c : Char} (hsigma : c ≠ 'Σ') (hdotted : c ≠ 'İ') :
    Settled (Text.lowerChar c) := by
  rcases lowerPoint_cases Text.lowercaseRuns c.toNat with
    hsame | ⟨first, last, step, image, k, hmem, hk, hstep, himage⟩
  · have hfixed : Text.lowerChar c = c := by rw [Text.lowerChar, hsame, Char.ofNat_toNat]
    rw [hfixed]
    exact ⟨hsigma, hdotted, hfixed⟩
  · rw [Text.lowerChar, himage]
    exact settled_image hmem hk hstep

theorem settled_of_mem_lowerAt {before after : List Char} {c d : Char}
    (h : d ∈ Text.lowerAt before c after) : Settled d := by
  unfold Text.lowerAt at h
  split at h
  · -- the two small forms of sigma
    rw [List.mem_singleton] at h
    subst h
    split
    · exact settled_of_clearOf (by decide) (by decide) (by decide +kernel)
    · exact settled_of_clearOf (by decide) (by decide) (by decide +kernel)
  · split at h
    · -- the two images of the dotted capital
      rw [List.mem_cons, List.mem_singleton] at h
      rcases h with rfl | rfl
      · exact settled_of_clearOf (by decide) (by decide) (by decide +kernel)
      · exact settled_of_clearOf (by decide) (by decide) (by decide +kernel)
    · rename_i hsigma hdotted
      rw [List.mem_singleton] at h
      subst h
      exact settled_lowerChar hsigma hdotted

theorem settled_of_mem_lowerAfter {before cs : List Char} {d : Char}
    (h : d ∈ Text.lowerAfter before cs) : Settled d := by
  induction cs generalizing before with
  | nil => cases h
  | cons c rest ih =>
    rw [Text.lowerAfter, List.mem_append] at h
    rcases h with h | h
    · exact settled_of_mem_lowerAt h
    · exact ih h

theorem lowered_of_settled {cs : List Char} (h : ∀ c ∈ cs, Settled c) : Text.lowered cs = cs := by
  have behind : ∀ before, Text.lowerAfter before cs = cs := by
    intro before
    induction cs generalizing before with
    | nil => rfl
    | cons c rest ih =>
      obtain ⟨⟨hsigma, hdotted, hfixed⟩, hrest⟩ := List.forall_mem_cons.mp h
      rw [Text.lowerAfter, Text.lowerAt, if_neg hsigma, if_neg hdotted, hfixed, ih hrest,
        List.singleton_append]
  exact behind []

theorem Settled.not_isUpper {c : Char} (h : Settled c) : c.isUpper = false := by
  have hcapitals : ∀ n ∈ List.range' 65 26, ¬ Settled (Char.ofNat n) := by decide +kernel
  rw [Bool.eq_false_iff]
  intro hupper
  rw [isUpper_iff] at hupper
  apply hcapitals c.toNat (List.mem_range'_1.mpr (by omega))
  rwa [Char.ofNat_toNat]

/-! ## Single underscores -/

/-- The characters are not both underscores. -/
def NotBothUnderscores (c d : Char) : Prop := ¬ (c = '_' ∧ d = '_')

instance : DecidableRel NotBothUnderscores :=
  fun c d => inferInstanceAs (Decidable (¬ (c = '_' ∧ d = '_')))

/-- Taking runs as one leaves out what stands behind its like. -/
theorem collapse_eq_destutter (cs : List Char) : collapse cs = cs.destutter NotBothUnderscores := by
  cases cs with
  | nil => rfl
  | cons c rest =>
    rw [List.destutter_cons']
    induction rest generalizing c with
    | nil => rfl
    | cons d tail ih =>
      rw [collapse]
      by_cases hboth : c = '_' ∧ d = '_'
      · rw [if_pos hboth, List.destutter'_cons_neg _ (not_not_intro hboth), ih]
        rw [hboth.1, hboth.2]
      · rw [if_neg hboth, List.destutter'_cons_pos _ hboth, ih]

/-! ## Canonical names -/

/-- A name in small letters without two underscores side by side. -/
structure Canonical (name : String) : Prop where
  settled : ∀ c ∈ name.toList, Settled c
  single : name.toList.IsChain NotBothUnderscores

namespace Canonical

variable {name : String}

theorem not_isUpper (h : Canonical name) : ∀ c ∈ name.toList, c.isUpper = false :=
  fun c hc => (h.settled c hc).not_isUpper

theorem not_doubled (h : Canonical name) : ¬ ['_', '_'] <:+: name.toList := by
  intro hdoubled
  have hchain := h.single.infix hdoubled
  rw [List.isChain_pair] at hchain
  exact hchain ⟨rfl, rfl⟩

end Canonical

/-- The canonical form of every name is canonical. -/
theorem canonical_canonicalForm (raw : String) : Canonical (canonicalForm raw) := by
  rw [canonicalForm, collapse_eq_destutter]
  constructor
  · intro c hc
    rw [String.toList_ofList] at hc
    exact settled_of_mem_lowerAfter ((List.destutter_sublist _ _).subset hc)
  · rw [String.toList_ofList]
    exact List.isChain_destutter _ _

theorem markWords_of_not_isUpper {cs : List Char} (h : ∀ c ∈ cs, c.isUpper = false) :
    markWords cs = cs := by
  have behind : ∀ before, eachAfter wordRule before cs = cs := by
    intro before
    induction cs generalizing before with
    | nil => rfl
    | cons c rest ih =>
      obtain ⟨hc, hrest⟩ := List.forall_mem_cons.mp h
      rw [eachAfter_of_not_isUpper hc, ih hrest]
  rw [markWords, eachBetween_eq_eachAfter, behind]

/-- A canonical name is the canonical form of itself. -/
theorem canonicalForm_of_canonical {name : String} (h : Canonical name) :
    canonicalForm name = name := by
  rw [canonicalForm, markWords_eq, markWords_of_not_isUpper h.not_isUpper,
    lowered_of_settled h.settled, collapse_eq_destutter, List.destutter_of_isChain _ _ h.single,
    String.ofList_toList]

theorem lowercase_of_canonical {name : String} (h : Canonical name) :
    Text.lowercase name = name := by
  rw [Text.lowercase, lowered_of_settled h.settled, String.ofList_toList]

theorem canonicalize_of_canonical {name : String} (h : Canonical name)
    (hfits : name.length ≤ maxNameLength) : canonicalize name = .ok ⟨name, false⟩ := by
  rw [canonicalize, canonicalForm_of_canonical h, lowercase_of_canonical h, if_neg (by omega),
    bne_self_eq_false]

/-- What a name becomes fits, has no capital ASCII letter and no two underscores side by side, and
becomes itself with nothing to normalize. So under the canonicalizing policy a name that was
translated once, other than of a schema, translates to itself. -/
theorem canonical_names_stay (raw : String) (target : TargetName)
    (h : canonicalize raw = .ok target) :
    target.name.length ≤ maxNameLength ∧
    (∀ c ∈ target.name.toList, c.isUpper = false) ∧
    ¬ ['_', '_'] <:+: target.name.toList ∧
    canonicalize target.name = .ok ⟨target.name, false⟩ ∧
    ∀ kind, kind ≠ ObjectKind.schema →
      NamingPolicy.canonicalizing.apply kind raw = .ok target ∧
        NamingPolicy.canonicalizing.apply kind target.name = .ok ⟨target.name, false⟩ := by
  have hform : target.name = canonicalForm raw ∧ target.name.length ≤ maxNameLength := by
    rw [canonicalize] at h
    split at h
    · cases h
    · rename_i hfits
      obtain rfl := Except.ok.inj h
      exact ⟨rfl, Nat.not_lt.mp hfits⟩
  obtain ⟨hname, hfits⟩ := hform
  have hcanonical : Canonical target.name := by
    rw [hname]
    exact canonical_canonicalForm raw
  have hagain := canonicalize_of_canonical hcanonical hfits
  refine ⟨hfits, hcanonical.not_isUpper, hcanonical.not_doubled, hagain, ?_⟩
  intro kind hkind
  simp only [NamingPolicy.apply, if_neg hkind]
  exact ⟨h, hagain⟩

/-- Words, a final sigma, a run of underscores, and a capital whose image has two characters. -/
theorem dotted_name_stays :
    canonicalize "OrderΣ__İD" = .ok ⟨"orderς_i\u0307d", true⟩ ∧
      canonicalize "orderς_i\u0307d" = .ok ⟨"orderς_i\u0307d", false⟩ := by
  have h : canonicalize "OrderΣ__İD" = .ok ⟨"orderς_i\u0307d", true⟩ := by decide +kernel
  obtain ⟨-, -, -, hagain, -⟩ := canonical_names_stay "OrderΣ__İD" _ h
  exact ⟨h, hagain⟩

end Migration.Naming
