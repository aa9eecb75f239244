/-
  Ranges of code points.

  A property of characters is kept as a sorted list of closed ranges, each range
  apart from the next. Membership stops at the first range that begins above the
  code point, so an ASCII character meets only the first few ranges of a table.

  What is proved: `inRanges_iff`, membership is membership in one of the ranges
  wherever the list is sorted.
-/

namespace Migration.Text

/-- Whether `n` lies in one of the sorted ranges. -/
def inRanges : List (Nat × Nat) → Nat → Bool
  | [], _ => false
  | (low, high) :: rest, n => if n < low then false else n ≤ high || inRanges rest n

/-- Each range is nonempty and ends below the start of every later one. -/
def SortedRanges (ranges : List (Nat × Nat)) : Prop :=
  (∀ r ∈ ranges, r.1 ≤ r.2) ∧ ranges.Pairwise (fun r s => r.2 < s.1)

theorem inRanges_iff {ranges : List (Nat × Nat)} (h : SortedRanges ranges) (n : Nat) :
    inRanges ranges n = true ↔ ∃ r ∈ ranges, r.1 ≤ n ∧ n ≤ r.2 := by
  induction ranges with
  | nil => simp [inRanges]
  | cons r rest ih =>
    obtain ⟨hne, hsep⟩ := h
    rw [List.pairwise_cons] at hsep
    have ih := ih ⟨fun s hs => hne s (by simp [hs]), hsep.2⟩
    obtain ⟨low, high⟩ := r
    have hle := hne (low, high) (by simp)
    simp only [inRanges]
    split
    · rename_i hlt
      simp only [Bool.false_eq_true, List.mem_cons, exists_eq_or_imp, false_iff, not_or,
        not_exists]
      refine ⟨by omega, fun s hs => ?_⟩
      have := hsep.1 s hs.1
      simp at this hle
      omega
    · simp only [Bool.or_eq_true, decide_eq_true_eq, ih, List.mem_cons, exists_eq_or_imp]
      constructor
      · rintro (h | h)
        · exact .inl ⟨by omega, h⟩
        · exact .inr h
      · rintro (h | h)
        · exact .inl h.2
        · exact .inr h

end Migration.Text
