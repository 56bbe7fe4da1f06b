import Mathlib.Algebra.BigOperators.Group.List.Basic
import Mathlib.Algebra.Order.Ring.Int
import Mathlib.Data.Nat.Bitwise
import Mathlib.Tactic.Common

/-!
# Words packed into a 64-bit word

Fields put side by side with shifts and ors, and taken apart with shifts and masks, are the
digits of one number.
-/

namespace BmoX.Base

theorem toNat_shiftRight (a : UInt64) {s : UInt64} (hs : s.toNat < 64) :
    (a >>> s).toNat = a.toNat / 2 ^ s.toNat := by
  rw [UInt64.toNat_shiftRight, Nat.mod_eq_of_lt hs, Nat.shiftRight_eq_div_pow]

theorem toNat_and_mask (a : UInt64) {m : UInt64} {w : Nat} (hm : m.toNat = 2 ^ w - 1) :
    (a &&& m).toNat = a.toNat % 2 ^ w := by
  rw [UInt64.toNat_and, hm, Nat.and_two_pow_sub_one_eq_mod]

theorem toNat_shiftLeft {a s : UInt64} (hs : s.toNat < 64)
    (ha : a.toNat * 2 ^ s.toNat < 2 ^ 64) : (a <<< s).toNat = a.toNat * 2 ^ s.toNat := by
  rw [UInt64.toNat_shiftLeft, Nat.mod_eq_of_lt hs, Nat.shiftLeft_eq, Nat.mod_eq_of_lt ha]

theorem toNat_shiftLeft_or {a b s : UInt64} (hs : s.toNat < 64)
    (ha : a.toNat * 2 ^ s.toNat < 2 ^ 64) (hb : b.toNat < 2 ^ s.toNat) :
    (a <<< s ||| b).toNat = a.toNat * 2 ^ s.toNat + b.toNat := by
  rw [UInt64.toNat_or, toNat_shiftLeft hs ha, ← Nat.shiftLeft_eq,
    Nat.shiftLeft_add_eq_or_of_lt hb]

/-- Masking the low bits away rounds down to a multiple of a power of two. -/
theorem toNat_and_not_mask (a : UInt64) {m : UInt64} {w : Nat} (hm : m.toNat = 2 ^ w - 1) :
    (a &&& ~~~m).toNat = a.toNat / 2 ^ w * 2 ^ w := by
  have ha := a.toNat_lt
  have hn := (a &&& ~~~m).toNat_lt
  have hdiv : a.toNat / 2 ^ w * 2 ^ w ≤ a.toNat := Nat.div_mul_le_self ..
  apply Nat.eq_of_testBit_eq
  intro i
  rw [Nat.testBit_mul_two_pow]
  by_cases hi : i < 64
  · have hs : UInt64.size - 1 - m.toNat = 2 ^ 64 - (m.toNat + 1) := by
      have hsize : UInt64.size = 2 ^ 64 := rfl
      omega
    rw [UInt64.toNat_and, UInt64.toNat_not, hs, Nat.testBit_and,
      Nat.testBit_two_pow_sub_succ m.toNat_lt, hm, Nat.testBit_two_pow_sub_one,
      Nat.testBit_div_two_pow, decide_eq_true hi, Bool.true_and]
    by_cases hw : w ≤ i
    · rw [decide_eq_true hw, decide_eq_false (by omega), Nat.sub_add_cancel hw, Bool.not_false,
        Bool.and_true, Bool.true_and]
    · rw [decide_eq_false hw, decide_eq_true (by omega), Bool.not_true, Bool.and_false,
        Bool.false_and]
  · have hp : 2 ^ 64 ≤ 2 ^ i := Nat.pow_le_pow_right (by decide) (by omega)
    rw [← Nat.testBit_mul_two_pow, Nat.testBit_lt_two_pow (by omega),
      Nat.testBit_lt_two_pow (by omega)]

/-- Masking a field of bits. -/
theorem toNat_and_field (a : UInt64) {m : UInt64} {l w : Nat} (hm : m.toNat = (2 ^ w - 1) * 2 ^ l) :
    (a &&& m).toNat = a.toNat / 2 ^ l % 2 ^ w * 2 ^ l := by
  apply Nat.eq_of_testBit_eq
  intro i
  rw [UInt64.toNat_and, hm, Nat.testBit_and, Nat.testBit_mul_two_pow, Nat.testBit_mul_two_pow,
    Nat.testBit_two_pow_sub_one, Nat.testBit_mod_two_pow, Nat.testBit_div_two_pow]
  by_cases h : l ≤ i
  · rw [Nat.sub_add_cancel h, decide_eq_true h, Bool.true_and, Bool.true_and, Bool.and_comm]
  · rw [decide_eq_false h, Bool.false_and, Bool.false_and, Bool.and_false]

theorem or_and_distrib (a b c : UInt64) : (a ||| b) &&& c = (a &&& c) ||| (b &&& c) := by
  rw [← UInt64.toBitVec_inj]
  exact BitVec.and_or_distrib_right

theorem or_and_distrib32 (a b c : UInt32) : (a ||| b) &&& c = (a &&& c) ||| (b &&& c) := by
  rw [← UInt32.toBitVec_inj]
  exact BitVec.and_or_distrib_right

/-! ### Saturating arithmetic -/

/-- `u64::saturating_sub`. -/
def restaSat (a b : UInt64) : UInt64 := if b ≤ a then a - b else 0

/-- `u64::saturating_add`. -/
def sumaSat (a b : UInt64) : UInt64 := UInt64.ofNat (min (a.toNat + b.toNat) (2 ^ 64 - 1))

theorem toNat_restaSat (a b : UInt64) : (restaSat a b).toNat = a.toNat - b.toNat := by
  rw [restaSat]
  split
  · next h => exact UInt64.toNat_sub_of_le _ _ h
  · next h =>
    have hlt := UInt64.lt_iff_toNat_lt.mp (UInt64.not_le.mp h)
    rw [Nat.sub_eq_zero_of_le hlt.le]
    rfl

theorem toNat_sumaSat (a b : UInt64) :
    (sumaSat a b).toNat = min (a.toNat + b.toNat) (2 ^ 64 - 1) := by
  rw [sumaSat, UInt64.toNat_ofNat']
  omega

/-! ### Nibbles of a byte -/

/-- The high nibble of a byte, shifted down. -/
theorem toNat_highNibble (x : UInt8) : ((x &&& 0xF0) >>> 4).toNat = x.toNat / 16 := by
  have hx := x.toNat_lt
  have hs : UInt8.toNat 4 % 8 = 4 := rfl
  have hm : UInt8.toNat 0xF0 >>> 4 = 2 ^ 4 - 1 := rfl
  rw [UInt8.toNat_shiftRight, UInt8.toNat_and, hs, Nat.shiftRight_and_distrib, hm,
    Nat.and_two_pow_sub_one_eq_mod, Nat.shiftRight_eq_div_pow]
  omega

theorem toNat_lowNibble (x : UInt8) : (x &&& 0x0F).toNat = x.toNat % 16 := by
  rw [UInt8.toNat_and]
  exact Nat.and_two_pow_sub_one_eq_mod _ 4

/-- The high nibble of a byte, in its place. -/
theorem toNat_and_highNibble (x : UInt8) : (x &&& 0xF0).toNat = x.toNat / 16 * 16 := by
  have hhigh := toNat_highNibble x
  have hs : UInt8.toNat 4 % 8 = 4 := rfl
  have hlow : (x &&& 0xF0).toNat % 16 = 0 := by
    have hz : (x &&& 0xF0) &&& 0x0F = 0 := by
      rw [UInt8.and_assoc, show (0xF0 : UInt8) &&& 0x0F = 0 from rfl, UInt8.and_zero]
    rw [← toNat_lowNibble, hz]
    rfl
  rw [UInt8.toNat_shiftRight, hs, Nat.shiftRight_eq_div_pow] at hhigh
  omega

theorem toNat_nibbles {a b : UInt8} (ha : a.toNat < 16) (hb : b.toNat < 16) :
    (b ||| a <<< (4 : UInt8)).toNat = a.toNat * 16 + b.toNat := by
  have hs : UInt8.toNat 4 % 8 = 4 := rfl
  rw [UInt8.toNat_or, UInt8.toNat_shiftLeft, hs, Nat.or_comm, Nat.shiftLeft_eq,
    Nat.mod_eq_of_lt (by omega), ← Nat.shiftLeft_eq, ← Nat.shiftLeft_add_eq_or_of_lt hb,
    Nat.shiftLeft_eq]

theorem toNat_keepHigh (x : UInt8) {q : UInt8} (hq : q.toNat < 16) :
    ((x &&& 0xF0) ||| q).toNat = x.toNat / 16 * 16 + q.toNat := by
  rw [UInt8.toNat_or, toNat_and_highNibble, ← Nat.shiftLeft_eq _ 4,
    ← Nat.shiftLeft_add_eq_or_of_lt hq, Nat.shiftLeft_eq]
end BmoX.Base
