/-
  Whole numbers as bytes, the highest byte first.

  What is proved: the bytes are as many as asked for (`length_bigEndian`), and they
  spell the number again, signed numbers those that fit (`ofBigEndian_bigEndian`,
  `ofSigned_signed`).
-/

namespace Migration.Postgres

/-- The bytes of a number, of which the lowest `width` are kept. -/
def bigEndian : (width n : Nat) → List UInt8
  | 0, _ => []
  | width + 1, n => bigEndian width (n / 256) ++ [UInt8.ofNat n]

def ofBigEndian (bytes : List UInt8) : Nat := bytes.foldl (fun n b => n * 256 + b.toNat) 0

/-- The bytes of a signed number, a negative one as its complement. -/
def signed (width : Nat) (n : Int) : List UInt8 := bigEndian width (n % Nat.pow 256 width).toNat

/-- The signed number that bytes spell. -/
def ofSigned (bytes : List UInt8) : Int := (ofBigEndian bytes : Int).bmod (Nat.pow 256 bytes.length)

@[simp] theorem length_bigEndian (width n : Nat) : (bigEndian width n).length = width := by
  induction width generalizing n with
  | zero => rfl
  | succ width ih => simp [bigEndian, ih]

@[simp] theorem length_signed (width : Nat) (n : Int) : (signed width n).length = width :=
  length_bigEndian ..

theorem ofBigEndian_append (bytes : List UInt8) (b : UInt8) :
    ofBigEndian (bytes ++ [b]) = ofBigEndian bytes * 256 + b.toNat := by
  simp [ofBigEndian, List.foldl_append]

/-- Bytes spell the number that they were made of, as far as they hold it. -/
theorem ofBigEndian_bigEndian (width n : Nat) :
    ofBigEndian (bigEndian width n) = n % Nat.pow 256 width := by
  induction width generalizing n with
  | zero => simp [bigEndian, ofBigEndian, Nat.mod_one]
  | succ width ih =>
    have hpow : Nat.pow 256 (width + 1) = 256 * Nat.pow 256 width := Nat.mul_comm ..
    have hbyte : (UInt8.ofNat n).toNat = n % 256 := by simp
    rw [bigEndian, ofBigEndian_append, ih, hpow, Nat.mod_mul, hbyte]
    omega

theorem ofSigned_signed {width : Nat} {n : Int} (h : n.bmod (Nat.pow 256 width) = n) :
    ofSigned (signed width n) = n := by
  have hpos : 0 < Nat.pow 256 width := Nat.pow_pos (by decide)
  rw [ofSigned, length_signed, signed, ofBigEndian_bigEndian]
  rw [Int.natCast_emod, Int.toNat_of_nonneg (Int.emod_nonneg _ (by omega)),
    Int.emod_emod_of_dvd _ (Int.dvd_refl _), Int.emod_bmod, h]

end Migration.Postgres
