import Mathlib.Algebra.Order.Round
import Mathlib.Data.Rat.Floor
import Mathlib.Tactic.FieldSimp
import Mathlib.Tactic.Linarith

/-!
# Rounding

Rational numbers rounded to integers, and what it is for a quotient of two integers: truncated, to
the nearest one with a rule for ties, up and down.
-/

namespace BmoX.Base

/-- The nearest integer; in a tie, the one above where `up` says so of the one below. -/
def nearest (up : Int → Bool) (q : Rat) : Int :=
  if q - ⌊q⌋ < 1 / 2 then ⌊q⌋
  else if 1 / 2 < q - ⌊q⌋ then ⌊q⌋ + 1
  else if up ⌊q⌋ then ⌊q⌋ + 1 else ⌊q⌋

/-- Towards zero. -/
def truncate (q : Rat) : Int := if 0 ≤ q then ⌊q⌋ else ⌈q⌉

section

variable {n d : Int} {up : Int → Bool}

theorem floor_div (hd : 0 < d) : ⌊(n : Rat) / d⌋ = n / d := by
  obtain ⟨k, rfl⟩ := Int.eq_ofNat_of_zero_le hd.le
  exact Rat.floor_intCast_div_natCast n k

theorem ceil_div (hd : 0 < d) :
    ⌈(n : Rat) / d⌉ = if n % d = 0 then n / d else n / d + 1 := by
  have h : (n : Rat) / d = -(((-n : Int) : Rat) / d) := by
    rw [Int.cast_neg]
    ring
  rw [h, Int.ceil_neg, floor_div hd, Int.neg_ediv, Int.sign_eq_one_of_pos hd]
  simp only [Int.dvd_iff_emod_eq_zero]
  split <;> omega

/-- What is left of a quotient over its floor. -/
theorem fract_div (hd : 0 < d) : (n : Rat) / d - (n / d : Int) = (n % d : Int) / d := by
  have hd' : (d : Rat) ≠ 0 := by exact_mod_cast hd.ne'
  have h : (n : Rat) = d * (n / d : Int) + (n % d : Int) := by
    exact_mod_cast (Int.mul_ediv_add_emod n d).symm
  rw [div_sub' hd', div_left_inj' hd']
  linarith

/-- A quotient is rounded by its remainder. -/
theorem nearest_div (hd : 0 < d) : nearest up ((n : Rat) / d) =
    if 2 * (n % d) < d then n / d
    else if d < 2 * (n % d) then n / d + 1
    else if up (n / d) then n / d + 1 else n / d := by
  have hd' : (0 : Rat) < d := by exact_mod_cast hd
  unfold nearest
  rw [floor_div hd, fract_div hd]
  have h1 : ((n % d : Int) : Rat) / d < 1 / 2 ↔ 2 * (n % d) < d := by
    rw [div_lt_div_iff₀ hd' two_pos, one_mul, mul_comm]
    exact_mod_cast Iff.rfl
  have h2 : 1 / 2 < ((n % d : Int) : Rat) / d ↔ d < 2 * (n % d) := by
    rw [div_lt_div_iff₀ two_pos hd', one_mul, mul_comm]
    exact_mod_cast Iff.rfl
  simp only [h1, h2]

theorem tmod_nonpos (h : n ≤ 0) : n.tmod d ≤ 0 := by
  have h1 := Int.tmod_nonneg d (Int.neg_nonneg_of_nonpos h)
  rw [Int.neg_tmod] at h1
  exact Int.nonpos_of_neg_nonneg h1

theorem truncate_div (hd : 0 < d) : truncate ((n : Rat) / d) = n.tdiv d := by
  have hd' : (0 : Rat) < d := by exact_mod_cast hd
  unfold truncate
  have h0 : 0 ≤ (n : Rat) / d ↔ 0 ≤ n := by
    rw [div_nonneg_iff]
    constructor
    · rintro (⟨h, -⟩ | ⟨-, h⟩)
      · exact_mod_cast h
      · linarith
    · intro h
      left
      exact ⟨by exact_mod_cast h, hd'.le⟩
  simp only [h0]
  split
  · next h => rw [floor_div hd, Int.tdiv_eq_ediv_of_nonneg h]
  · next h =>
    rw [ceil_div hd]
    have h1 := Int.mul_tdiv_add_tmod n d
    have h2 := Int.lt_tmod_of_pos n hd
    have h3 := tmod_nonpos (d := d) (n := n) (by omega)
    split
    · next h4 => exact (Int.tdiv_eq_ediv_of_dvd (Int.dvd_of_emod_eq_zero h4)).symm
    · next h4 =>
      have h5 : n.tmod d ≠ 0 := by
        intro h5
        exact h4 (Int.emod_eq_zero_of_dvd (Int.dvd_of_tmod_eq_zero h5))
      have h6 : n / d = n.tdiv d - 1 ∧ n % d = n.tmod d + d := by
        apply (Int.ediv_emod_unique hd).mpr
        exact ⟨by linarith, by omega, by omega⟩
      omega

theorem truncate_div_of_ne (hd : d ≠ 0) : truncate ((n : Rat) / d) = n.tdiv d := by
  rcases lt_or_gt_of_ne hd with h | h
  · have hneg : (n : Rat) / d = ((-n : Int) : Rat) / ((-d : Int) : Rat) := by
      rw [Int.cast_neg, Int.cast_neg, neg_div_neg_eq]
    rw [hneg, truncate_div (Int.neg_pos_of_neg h), Int.neg_tdiv, Int.tdiv_neg, neg_neg]
  · exact truncate_div h

/-- The floor of a quotient and what is left over it, from the truncated one. -/
theorem ediv_of_tdiv (hd : 0 < d) :
    (0 ≤ n.tmod d → n / d = n.tdiv d ∧ n % d = n.tmod d) ∧
    (n.tmod d < 0 → n / d = n.tdiv d - 1 ∧ n % d = n.tmod d + d) := by
  have h := Int.mul_tdiv_add_tmod n d
  have h1 := Int.tmod_lt_of_pos n hd
  have h2 := Int.lt_tmod_of_pos n hd
  constructor
  · intro h0
    apply (Int.ediv_emod_unique hd).mpr
    exact ⟨by linarith, h0, h1⟩
  · intro h0
    apply (Int.ediv_emod_unique hd).mpr
    exact ⟨by linarith, by linarith, by linarith⟩

end

/-! ### Twice in one direction -/

section

variable {q : Rat} {k : Int} (hk : 0 < k)
include hk

theorem floor_floor_div : ⌊(⌊q⌋ : Rat) / k⌋ = ⌊q / k⌋ := by
  have hk' : (0 : Rat) < k := by exact_mod_cast hk
  apply eq_of_forall_le_iff
  intro z
  rw [Int.le_floor, Int.le_floor, le_div_iff₀ hk', le_div_iff₀ hk', ← Int.cast_mul, Int.cast_le,
    Int.le_floor]

theorem ceil_ceil_div : ⌈(⌈q⌉ : Rat) / k⌉ = ⌈q / k⌉ := by
  have hk' : (0 : Rat) < k := by exact_mod_cast hk
  apply eq_of_forall_ge_iff
  intro z
  rw [Int.ceil_le, Int.ceil_le, div_le_iff₀ hk', div_le_iff₀ hk', ← Int.cast_mul, Int.cast_le,
    Int.ceil_le]

theorem truncate_truncate_div : truncate ((truncate q : Rat) / k) = truncate (q / k) := by
  have hk' : (0 : Rat) < k := by exact_mod_cast hk
  unfold truncate
  by_cases hq : 0 ≤ q
  · have hfloor : (0 : Rat) ≤ (⌊q⌋ : Rat) / k :=
      div_nonneg (by exact_mod_cast Int.floor_nonneg.mpr hq) hk'.le
    rw [if_pos hq, if_pos hfloor, if_pos (div_nonneg hq hk'.le), floor_floor_div hk]
  · have hneg : q / k < 0 := div_neg_of_neg_of_pos (not_le.mp hq) hk'
    rw [if_neg hq, if_neg hneg.not_ge, ← ceil_ceil_div (q := q) hk]
    split
    · next hceil =>
      -- what is cut off to zero is zero in both directions
      have hle : (⌈q⌉ : Rat) ≤ 0 := by
        have h0 : ⌈q⌉ ≤ 0 := Int.ceil_le.mpr (by simpa using (not_le.mp hq).le)
        exact_mod_cast h0
      have h0 : (⌈q⌉ : Rat) / k = 0 := le_antisymm (div_nonpos_of_nonpos_of_nonneg hle hk'.le) hceil
      rw [h0, Int.floor_zero, Int.ceil_zero]
    · rfl

end

end BmoX.Base
