import BmoX.Base.Rounding
import BmoX.Base.Signed

/-!
# Patterns of 64 bits that are numbers

The doubles of IEEE 754 by their patterns. A finite one is a whole number of units of `2^-1074`, the
least that is not zero, so that values are compared and truncated as integers.
-/

namespace BmoX.Base.Binary64

/-- The units of one. -/
def ONE : Nat := 2 ^ 1074

def negative (w : UInt64) : Bool := 2 ^ 63 ≤ w.toNat

def exponent (w : UInt64) : Nat := w.toNat / 2 ^ 52 % 2 ^ 11

def fraction (w : UInt64) : Nat := w.toNat % 2 ^ 52

def significand (w : UInt64) : Nat :=
  if exponent w = 0 then fraction w else 2 ^ 52 + fraction w

/-- The units of a pattern. Those of an infinity are more than those of any number. -/
def units (w : UInt64) : Int :=
  if negative w then -(significand w * 2 ^ (exponent w - 1) : Nat)
  else (significand w * 2 ^ (exponent w - 1) : Nat)

def finite (w : UInt64) : Bool := exponent w ≠ 2047

def isNaN (w : UInt64) : Bool := exponent w = 2047 ∧ fraction w ≠ 0

/-- The number of a pattern. -/
def value (w : UInt64) : Option Rat := if finite w then some ((units w : Rat) / (ONE : Int)) else
  none

/-- The number of a pattern, truncated. -/
def whole (w : UInt64) : Option Int := if finite w then some ((units w).tdiv ONE) else none

theorem one_pos : 0 < ONE := by
  unfold ONE
  exact Nat.two_pow_pos _

theorem whole_eq (w : UInt64) : whole w = (value w).map truncate := by
  unfold whole value
  split
  · rw [Option.map_some, truncate_div (Int.natCast_pos.mpr one_pos)]
  · rfl

theorem finite_of_whole {w : UInt64} {t : Int} (h : whole w = some t) :
    finite w = true ∧ t = (units w).tdiv ONE := by
  unfold whole at h
  split at h
  · next hf => exact ⟨hf, (Option.some.inj h).symm⟩
  · exact nomatch h

theorem isNaN_of_finite {w : UInt64} (h : finite w = true) : isNaN w = false := by
  unfold finite at h
  unfold isNaN
  exact decide_eq_false fun hno ↦ of_decide_eq_true h hno.1

theorem significand_lt (w : UInt64) : significand w < 2 ^ 53 := by
  have h : fraction w < 2 ^ 52 := Nat.mod_lt _ (by decide)
  unfold significand
  split <;> omega

theorem natAbs_units (w : UInt64) :
    (units w).natAbs = significand w * 2 ^ (exponent w - 1) := by
  unfold units
  split
  · rw [Int.natAbs_neg, Int.natAbs_natCast]
  · rw [Int.natAbs_natCast]

theorem natAbs_whole (w : UInt64) :
    ((units w).tdiv ONE).natAbs = significand w * 2 ^ (exponent w - 1) / ONE := by
  rw [Int.natAbs_tdiv, natAbs_units, Int.natAbs_natCast]
  rfl

/-- **A number of `2^53` or more is whole.** -/
theorem units_eq_of_large {w : UInt64} (h : 2 ^ 53 ≤ ((units w).tdiv ONE).natAbs) :
    units w = (units w).tdiv ONE * ONE := by
  suffices hdvd : (ONE : Int) ∣ units w from (Int.tdiv_mul_cancel hdvd).symm
  rw [← Int.natAbs_dvd_natAbs, Int.natAbs_natCast, natAbs_units]
  rw [natAbs_whole, Nat.le_div_iff_mul_le one_pos] at h
  have hexp : 1074 ≤ exponent w - 1 := by
    by_contra hno
    have hle : 2 ^ (exponent w - 1) ≤ ONE := by
      unfold ONE
      exact Nat.pow_le_pow_right Nat.two_pos (by omega)
    have hlt := Nat.mul_lt_mul_of_lt_of_le (significand_lt w) hle one_pos
    exact absurd h (Nat.not_le.mpr hlt)
  exact Dvd.dvd.mul_left (Nat.pow_dvd_pow 2 hexp) _

/-- An infinity has more units than the numbers that are compared with words. -/
theorem units_of_infinite {w : UInt64} (h : finite w = false) :
    2 ^ 64 ≤ ((units w).tdiv ONE).natAbs := by
  have hexp : exponent w = 2047 := by
    unfold finite at h
    simpa using h
  have hsig : 2 ^ 52 ≤ significand w := by
    unfold significand
    rw [if_neg (by omega)]
    exact Nat.le_add_right _ _
  rw [natAbs_whole, hexp, Nat.le_div_iff_mul_le one_pos]
  refine Nat.le_trans ?_ (Nat.mul_le_mul_right (2 ^ (2047 - 1)) hsig)
  unfold ONE
  rw [← Nat.pow_add, ← Nat.pow_add]
  exact Nat.pow_le_pow_right Nat.two_pos (by decide)

/-! ### Instructions -/

/-- `cvttsd2si`: the truncated number where a word can be it, and the least word where not. -/
def toWord (w : UInt64) : UInt64 :=
  match whole w with
  | some t => if Fits t then ofSigned t else 0x8000000000000000
  | none => 0x8000000000000000

theorem signed_toWord {w : UInt64} {t : Int} (h : whole w = some t) (hfits : Fits t) :
    signed (toWord w) = t := by
  unfold toWord
  rw [h]
  dsimp only
  rw [if_pos hfits, signed_ofSigned hfits]

theorem signed_least : signed 0x8000000000000000 = -2 ^ 63 := by decide

/-- The least word is the answer for the number that it is, and for all that have none. -/
theorem toWord_eq_least (w : UInt64) :
    toWord w = 0x8000000000000000 ↔ ∀ t, whole w = some t → Fits t → t = -2 ^ 63 := by
  rw [← signed_inj, signed_least]
  constructor
  · intro h t ht hfits
    rwa [signed_toWord ht hfits] at h
  · intro h
    cases hw : whole w with
    | none =>
      unfold toWord
      rw [hw]
      exact signed_least
    | some t =>
      by_cases hfits : Fits t
      · rw [signed_toWord hw hfits]
        exact h t hw hfits
      · unfold toWord
        rw [hw]
        dsimp only
        rw [if_neg hfits]
        exact signed_least

end BmoX.Base.Binary64
