import Mathlib.Algebra.Group.Nat.Defs
import Migration.Text.Digits

/-
  Numbers read back from their digits.

  This file

  1. proves that decimal digits with any zeros before them write the number that they are made of
     (`readNat_padded`), so that an integer is read back from its text (`readInt_toString`);
  2. proves the same of digits in base sixteen (`readHex_hexPadded`) and of bytes
     (`readHexBytes_hexBytes`). -/

namespace Migration.Text

/-! ## Decimal digits -/

theorem readDecimalAfter_of_isDigit {cs : List Char} (h : ∀ c ∈ cs, c.isDigit = true) (n : Nat) :
    readDecimalAfter n cs = some (Nat.ofDigitChars 10 cs n) := by
  induction cs generalizing n with
  | nil => rfl
  | cons c cs ih =>
    obtain ⟨hc, hcs⟩ := List.forall_mem_cons.mp h
    rw [readDecimalAfter, if_pos hc, ih hcs, Nat.ofDigitChars_cons, Nat.mul_comm]

theorem isDigit_of_mem_padded {width n : Nat} {c : Char} (h : c ∈ padded width n) :
    c.isDigit = true := by
  rcases List.mem_append.mp h with hzero | hdigit
  · rw [List.eq_of_mem_replicate hzero]
    rfl
  · exact Nat.isDigit_of_mem_toDigits (by decide) (by decide) hdigit

theorem notMem_padded {c : Char} (hc : c.isDigit = false) (width n : Nat) : c ∉ padded width n :=
  fun h => absurd (isDigit_of_mem_padded h) (Bool.eq_false_iff.mp hc)

theorem readNat_of_isDigit {cs : List Char} (h : ∀ c ∈ cs, c.isDigit = true) (hne : cs ≠ []) :
    readNat cs = some (Nat.ofDigitChars 10 cs 0) := by
  rw [readNat, if_neg (mt List.isEmpty_iff.mp hne), readDecimalAfter_of_isDigit h]

theorem ofDigitChars_zeros (zeros n : Nat) :
    Nat.ofDigitChars 10 (repeated '0' zeros ++ Nat.toDigits 10 n) 0 = n := by
  rw [repeated, Nat.ofDigitChars_append, Nat.ofDigitChars_replicate_zero, Nat.mul_zero,
    Nat.ofDigitChars_ten_toDigits]

theorem readNat_padded (width n : Nat) : readNat (padded width n) = some n := by
  have hne : padded width n ≠ [] := List.append_ne_nil_of_right_ne_nil _ Nat.toDigits_ne_nil
  rw [readNat_of_isDigit (fun _ => isDigit_of_mem_padded) hne, padded, ofDigitChars_zeros]

theorem readNat_toDigits (n : Nat) : readNat (Nat.toDigits 10 n) = some n := by
  have hpadded : padded 0 n = Nat.toDigits 10 n := by
    rw [padded, Nat.zero_sub]
    rfl
  rw [← hpadded, readNat_padded]

theorem le_length_padded (width n : Nat) : width ≤ (padded width n).length := by
  rw [padded, List.length_append, repeated, List.length_replicate]
  omega

theorem length_padded {width n : Nat} (hwidth : 0 < width) (h : n < 10 ^ width) :
    (padded width n).length = width := by
  have hlength := (Nat.length_toDigits_le_iff (by decide) hwidth).mpr h
  rw [padded, List.length_append, repeated, List.length_replicate]
  omega

theorem readInt_neg {cs : List Char} {n : Nat} (h : readNat cs = some n) :
    readInt ('-' :: cs) = some (-(n : Int)) := by
  rw [readInt, h]
  rfl

theorem readInt_plus {cs : List Char} {n : Nat} (h : readNat cs = some n) :
    readInt ('+' :: cs) = some (n : Int) := by
  rw [readInt, h]
  rfl

theorem readInt_of_readNat {cs : List Char} {n : Nat} (h : readNat cs = some n) :
    readInt cs = some (n : Int) := by
  unfold readInt
  split
  · cases h
  · cases h
  · rw [h]
    rfl

theorem readInt_toString (n : Int) : readInt (toString n).toList = some n := by
  cases n with
  | ofNat n =>
    have htext : (toString (Int.ofNat n)).toList = Nat.toDigits 10 n := String.toList_ofList
    rw [htext, readInt_of_readNat (readNat_toDigits n)]
    rfl
  | negSucc n =>
    have htext : (toString (Int.negSucc n)).toList = '-' :: Nat.toDigits 10 (n + 1) := by
      change ("-" ++ Nat.repr (n + 1)).toList = _
      rw [String.toList_append, Nat.toList_repr]
      rfl
    rw [htext, readInt_neg (readNat_toDigits (n + 1))]
    rfl

/-! ## Digits in base sixteen -/

theorem hexValue?_digitChar {d : Nat} (h : d < 16) : hexValue? d.digitChar = some d := by
  have hall : ∀ d ∈ List.range 16, hexValue? d.digitChar = some d := by decide
  exact hall d (List.mem_range.mpr h)

theorem readHexAfter_append (n : Nat) (cs ds : List Char) :
    readHexAfter n (cs ++ ds) = (readHexAfter n cs).bind (readHexAfter · ds) := by
  induction cs generalizing n with
  | nil => rfl
  | cons c cs ih =>
    rw [List.cons_append, readHexAfter, readHexAfter]
    cases hexValue? c with
    | none => rfl
    | some v => exact ih (n * 16 + v)

theorem readHexAfter_digitChar {d : Nat} (h : d < 16) (n : Nat) :
    readHexAfter n [d.digitChar] = some (n * 16 + d) := by
  rw [readHexAfter, hexValue?_digitChar h]
  rfl

/-- By the digits from the last, of which each is a remainder. -/
theorem readHex_toDigits (n : Nat) : readHex (Nat.toDigits 16 n) = some n := by
  rw [readHex]
  induction n using Nat.strongRecOn with
  | ind n ih =>
    rw [Nat.toDigits_eq_if (by decide)]
    split
    · rename_i hdigit
      rw [readHexAfter_digitChar hdigit, Nat.zero_mul, Nat.zero_add]
    · rename_i hmore
      have hlt : n / 16 < n := Nat.div_lt_self (by omega) (by decide)
      rw [readHexAfter_append, ih _ hlt, Option.bind_some,
        readHexAfter_digitChar (Nat.mod_lt n (by decide)), Nat.div_add_mod']

theorem readHex_hexPadded (width n : Nat) : readHex (hexPadded width n) = some n := by
  have hzeros (zeros : Nat) : readHexAfter 0 (repeated '0' zeros) = some 0 := by
    induction zeros with
    | zero => rfl
    | succ zeros ih => exact ih
  rw [readHex, hexPadded, readHexAfter_append, hzeros]
  exact readHex_toDigits n

theorem length_hexPadded {width n : Nat} (hwidth : 0 < width) (h : n < 16 ^ width) :
    (hexPadded width n).length = width := by
  have hlength := (Nat.length_toDigits_le_iff (by decide) hwidth).mpr h
  rw [hexPadded, List.length_append, repeated, List.length_replicate]
  omega

theorem hexValue?_of_readHexAfter {n m : Nat} {cs : List Char} (h : readHexAfter n cs = some m)
    {c : Char} (hc : c ∈ cs) : ∃ v, hexValue? c = some v := by
  induction cs generalizing n with
  | nil => cases hc
  | cons d cs ih =>
    rw [readHexAfter] at h
    cases hd : hexValue? d with
    | none =>
      rw [hd] at h
      cases h
    | some v =>
      rw [hd] at h
      rcases List.mem_cons.mp hc with rfl | hc
      · exact ⟨v, hd⟩
      · exact ih h hc

theorem notMem_hexPadded {c : Char} (hc : hexValue? c = none) (width n : Nat) :
    c ∉ hexPadded width n := by
  intro hmem
  obtain ⟨v, hv⟩ := hexValue?_of_readHexAfter (readHex_hexPadded width n) hmem
  rw [hc] at hv
  cases hv

/-- A byte is written by the digits of its two halves. -/
theorem hexPadded_two {n : Nat} (h : n < 256) :
    hexPadded 2 n = [(n / 16).digitChar, (n % 16).digitChar] := by
  rw [hexPadded, Nat.toDigits_eq_if (by decide)]
  split
  · rename_i hdigit
    rw [Nat.div_eq_of_lt hdigit, Nat.mod_eq_of_lt hdigit]
    rfl
  · rw [Nat.toDigits_of_lt_base (by omega)]
    rfl

theorem readHexBytes_hexBytes (bytes : List UInt8) :
    readHexBytes (hexBytes bytes) = some bytes := by
  induction bytes with
  | nil => rfl
  | cons b bytes ih =>
    have hb : b.toNat < 256 := b.toNat_lt
    rw [hexBytes, List.flatMap_cons, ← hexBytes, hexPadded_two hb]
    simp only [List.cons_append, List.nil_append, readHexBytes,
      hexValue?_digitChar (show b.toNat / 16 < 16 by omega),
      hexValue?_digitChar (show b.toNat % 16 < 16 by omega), ih, Nat.div_add_mod',
      UInt8.ofNat_toNat]

end Migration.Text
