import Mathlib.Data.BitVec
import Mathlib.Data.Int.Basic
import Mathlib.Tactic.NormNum

/-!
# Signed words

A word of 64 bits as the number that it is in two's complement: the operations of the words are those
of the numbers, where the result is such a number too. On numbers of 32 bits a result is that of the
whole numbers, taken into 32 bits.
-/

namespace BmoX.Base

/-! ### Numbers of 32 bits with sign -/

/-- A number of 32 bits with sign, from any number. -/
def i32 (x : Int) : Int := x.bmod (2 ^ 32)

theorem i32_of_lt {x : Int} (h : -2 ^ 31 ≤ x) (h' : x < 2 ^ 31) : i32 x = x := by
  unfold i32
  apply Int.bmod_eq_of_le
  · norm_num
    omega
  · norm_num
    omega

theorem i32_natCast {n : Nat} (h : n < 2 ^ 31) : i32 n = n :=
  i32_of_lt (by omega) (by omega)

/-! ### Signed words -/

/-- The number that a word is in two's complement. -/
def signed (w : UInt64) : Int := w.toBitVec.toInt

/-- The word of a number, modulo `2^64`. -/
def ofSigned (v : Int) : UInt64 := ⟨BitVec.ofInt 64 v⟩

/-- A number that a word can be. -/
def Fits (v : Int) : Prop := -2 ^ 63 ≤ v ∧ v < 2 ^ 63

instance (v : Int) : Decidable (Fits v) := inferInstanceAs (Decidable (_ ∧ _))

section

variable {a b w : UInt64} {v : Int} {n : Nat}

theorem fits_signed (w : UInt64) : Fits (signed w) :=
  ⟨BitVec.le_toInt w.toBitVec, BitVec.toInt_lt⟩

theorem bmod_of_fits (h : Fits v) : v.bmod (2 ^ 64) = v := by
  unfold Fits at h
  apply Int.bmod_eq_of_le
  · rw [show -((2 ^ 64 : Nat) / 2 : Int) = -2 ^ 63 by decide]
    exact h.1
  · rw [show ((2 ^ 64 : Nat) + 1 : Int) / 2 = 2 ^ 63 by decide]
    exact h.2

theorem signed_ofSigned (h : Fits v) : signed (ofSigned v) = v := by
  unfold signed ofSigned
  rw [BitVec.toInt_ofInt, bmod_of_fits h]

@[simp] theorem ofSigned_signed (w : UInt64) : ofSigned (signed w) = w := by
  unfold signed ofSigned
  rw [BitVec.ofInt_toInt]

theorem signed_inj : signed a = signed b ↔ a = b := by
  unfold signed
  rw [BitVec.toInt_inj, UInt64.toBitVec_inj]

theorem signed_add (h : Fits (signed a + signed b)) : signed (a + b) = signed a + signed b := by
  unfold signed at *
  rw [UInt64.toBitVec_add, BitVec.toInt_add, bmod_of_fits h]

theorem signed_sub (h : Fits (signed a - signed b)) : signed (a - b) = signed a - signed b := by
  unfold signed at *
  rw [UInt64.toBitVec_sub, BitVec.toInt_sub, bmod_of_fits h]

theorem signed_mul (h : Fits (signed a * signed b)) : signed (a * b) = signed a * signed b := by
  unfold signed at *
  rw [UInt64.toBitVec_mul, BitVec.toInt_mul, bmod_of_fits h]

theorem signed_neg (h : Fits (-signed a)) : signed (-a) = -signed a := by
  unfold signed at *
  rw [UInt64.toBitVec_neg, BitVec.toInt_neg, bmod_of_fits h]

/-- A word that is not negative is the same number without a sign. -/
theorem toNat_of_nonneg (h : 0 ≤ signed w) : (w.toNat : Int) = signed w := by
  have hlt := w.toNat_lt
  unfold signed at *
  rw [BitVec.toInt_eq_toNat_cond] at *
  rw [UInt64.toNat_toBitVec] at *
  split at h <;> split <;> omega

theorem toNat_of_neg (h : signed w < 0) : (w.toNat : Int) = signed w + 2 ^ 64 := by
  have hlt := w.toNat_lt
  unfold signed at *
  rw [BitVec.toInt_eq_toNat_cond] at *
  rw [UInt64.toNat_toBitVec] at *
  split at h <;> split <;> omega

theorem signed_of_toNat_lt (h : w.toNat < 2 ^ 63) : signed w = w.toNat := by
  unfold signed
  rw [BitVec.toInt_eq_toNat_cond, UInt64.toNat_toBitVec, if_pos (by omega)]

theorem signed_ofNat (h : n < 2 ^ 63) : signed (UInt64.ofNat n) = n := by
  have hn : (UInt64.ofNat n).toNat = n := by
    rw [UInt64.toNat_ofNat', Nat.mod_eq_of_lt (by omega)]
  rw [signed_of_toNat_lt (by omega), hn]

@[simp] theorem signed_zero : signed 0 = 0 := rfl

@[simp] theorem signed_one : signed 1 = 1 := rfl

theorem signed_eq_zero : signed w = 0 ↔ w = 0 := by
  rw [← signed_zero, signed_inj]

theorem ofSigned_natCast (n : Nat) : ofSigned n = UInt64.ofNat n := by
  rw [← UInt64.toBitVec_inj]
  exact BitVec.ofInt_natCast 64 n

theorem ofSigned_neg (v : Int) : ofSigned (-v) = -ofSigned v := by
  rw [← UInt64.toBitVec_inj, UInt64.toBitVec_neg]
  exact BitVec.ofInt_neg

theorem ofSigned_add (a b : Int) : ofSigned (a + b) = ofSigned a + ofSigned b := by
  rw [← UInt64.toBitVec_inj, UInt64.toBitVec_add]
  exact BitVec.ofInt_add ..

theorem ofSigned_sub (a b : Int) : ofSigned (a - b) = ofSigned a - ofSigned b := by
  rw [sub_eq_add_neg, ofSigned_add, ofSigned_neg, UInt64.sub_eq_add_neg]

theorem ofSigned_mul (a b : Int) : ofSigned (a * b) = ofSigned a * ofSigned b := by
  rw [← UInt64.toBitVec_inj, UInt64.toBitVec_mul]
  exact BitVec.ofInt_mul ..

/-- The absolute value, by negation where the word is negative: the least word is its own. -/
theorem toNat_neg_of_neg (h : signed w < 0) : ((-w).toNat : Int) = -signed w := by
  have h1 := toNat_of_neg h
  have h2 := fits_signed w
  unfold Fits at h2
  have h3 : (-w).toNat = 2 ^ 64 - w.toNat := by
    rw [UInt64.toNat_neg]
    apply Nat.mod_eq_of_lt
    unfold UInt64.size
    omega
  omega

/-- The lowest bit is the parity. -/
theorem and_one_eq_zero (w : UInt64) : w &&& 1 = 0 ↔ signed w % 2 = 0 := by
  have hand : (w &&& 1).toNat = w.toNat % 2 := by
    rw [UInt64.toNat_and]
    exact Nat.and_one_is_mod w.toNat
  have hpar : (w.toNat : Int) % 2 = signed w % 2 := by
    rcases le_or_gt 0 (signed w) with h | h
    · rw [toNat_of_nonneg h]
    · have := toNat_of_neg h
      omega
  rw [← UInt64.toNat_inj, hand, ← hpar]
  change w.toNat % 2 = 0 ↔ _
  omega

theorem fits_tdiv {d : Int} (h : Fits v) (hd : 0 < d) : Fits (v.tdiv d) := by
  have habs := Int.natAbs_tdiv_le_natAbs v d
  unfold Fits at *
  rcases le_or_gt 0 v with h0 | h0
  · have h1 := Int.tdiv_nonneg h0 hd.le
    omega
  · have h1 := Int.tdiv_nonneg (Int.neg_nonneg_of_nonpos h0.le) hd.le
    rw [Int.neg_tdiv] at h1
    omega

end

end BmoX.Base
