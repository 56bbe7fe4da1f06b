import Mathlib.Algebra.Field.ZMod
import Mathlib.Algebra.Group.Basic
import Mathlib.Algebra.Order.Group.Nat
import Mathlib.Data.List.Range
import Mathlib.Data.Nat.Bitwise
import Mathlib.GroupTheory.OrderOfElement
import Mathlib.Tactic.FieldSimp
import Mathlib.Tactic.LinearCombination
import Mathlib.Tactic.Ring

/-!
# The group of a complete twisted Edwards curve

The curve `-x² + y² = 1 + d x² y²` over a field where `-1` is a square and `d` is none: the addition
formulas then have no exceptions, and the points are a group under them. Extended coordinates
`(X : Y : Z : T)` compute the sum without an inversion.

A number is spelled by its bits, the highest first; whatever doubles at each bit and adds where it is
set computes that multiple.
-/

/-! ### Double and add -/

namespace BmoX.Base

/-- The number that bits spell, the highest first, over what came before them. -/
def spell (n : Nat) (bs : List Bool) : Nat := bs.foldl (fun n b ↦ 2 * n + b.toNat) n

@[simp] theorem spell_nil (n : Nat) : spell n [] = n := rfl

@[simp] theorem spell_cons (n : Nat) (b : Bool) (bs : List Bool) :
    spell n (b :: bs) = spell (2 * n + b.toNat) bs := rfl

theorem spell_append (n : Nat) (bs cs : List Bool) : spell n (bs ++ cs) = spell (spell n bs) cs :=
  List.foldl_append

/-- The `m` low bits of a number, the highest first. -/
def bitsOf (n m : Nat) : List Bool := (List.range m).reverse.map n.testBit

theorem bitsOf_succ (n m : Nat) : bitsOf n (m + 1) = n.testBit m :: bitsOf n m := by
  rw [bitsOf, List.range_succ, List.reverse_append, List.reverse_singleton, List.singleton_append,
    List.map_cons, bitsOf]

/-- The low bits spell the remainder. -/
theorem spell_bitsOf (k n m : Nat) : spell k (bitsOf n m) = k * 2 ^ m + n % 2 ^ m := by
  induction m generalizing k with
  | zero => simp [bitsOf, Nat.mod_one]
  | succ m ih =>
    have hbit : n % 2 ^ (m + 1) = (n.testBit m).toNat * 2 ^ m + n % 2 ^ m := by
      rw [Nat.pow_succ, Nat.mod_mul, Nat.toNat_testBit, Nat.add_comm, Nat.mul_comm (2 ^ m)]
    rw [bitsOf_succ, spell_cons, ih, hbit, Nat.pow_succ]
    ring

/-- What doubles at each bit, and adds `P` where it is set, ends at the multiple that is spelled. -/
theorem foldl_double_add {S G : Type*} [AddMonoid G] {R : S → G → Prop} {step : S → Bool → S}
    {P : G} (hstep : ∀ s Q b, R s Q → R (step s b) (Q + Q + if b then P else 0)) {s : S} {n : Nat}
    (h : R s (n • P)) (bs : List Bool) : R (bs.foldl step s) (spell n bs • P) := by
  induction bs generalizing s n with
  | nil => exact h
  | cons b bs ih =>
    have hmul : n • P + n • P + (if b then P else 0) = (2 * n + b.toNat) • P := by
      cases b <;> simp [two_mul, add_nsmul]
    exact ih (hmul ▸ hstep s _ b h)

end BmoX.Base

/-! ### The group of a complete twisted Edwards curve -/

namespace BmoX.Base.Edwards

/-- The constants of a complete curve. -/
structure Curve (F : Type*) [Field F] where
  d : F
  i : F
  two_ne : (2 : F) ≠ 0
  i_sq : i ^ 2 = -1
  not_square : ∀ t, t ^ 2 ≠ d

variable {F : Type*} [Field F] {C : Curve F}

theorem Curve.i_ne (C : Curve F) : C.i ≠ 0 := by
  intro h0
  have hi := C.i_sq
  rw [h0, zero_pow two_ne_zero] at hi
  exact one_ne_zero (neg_eq_zero.mp hi.symm)

/-- The equation of the curve. -/
def Curve.Eqn (C : Curve F) (x y : F) : Prop := -x ^ 2 + y ^ 2 = 1 + C.d * x ^ 2 * y ^ 2

/-- A point of the curve; there is none at infinity. -/
@[ext] structure Point (C : Curve F) where
  x : F
  y : F
  on : C.Eqn x y

/-- The numerators of the sum and what the two denominators differ in. -/
def numX (x₁ y₁ x₂ y₂ : F) : F := x₁ * y₂ + x₂ * y₁
def numY (x₁ y₁ x₂ y₂ : F) : F := y₁ * y₂ + x₁ * x₂
def cross (d x₁ y₁ x₂ y₂ : F) : F := d * x₁ * x₂ * y₁ * y₂

/-- If the two denominators multiply to zero, `d` is a square up to a square. -/
theorem sq_of_cross {x₁ y₁ x₂ y₂ s : F} (h₁ : C.Eqn x₁ y₁) (h₂ : C.Eqn x₂ y₂)
    (ht : cross C.d x₁ y₁ x₂ y₂ ^ 2 = 1) (hs : s ^ 2 = 1) :
    (C.i * x₁ + s * cross C.d x₁ y₁ x₂ y₂ * y₁) ^ 2 =
      C.d * (x₁ * y₁ * (C.i * x₂ + s * y₂)) ^ 2 := by
  have hi := C.i_sq
  unfold Curve.Eqn at h₁ h₂
  unfold cross at ht ⊢
  linear_combination (x₁ ^ 2 - C.d * x₁ ^ 2 * y₁ ^ 2 * x₂ ^ 2) * hi + (y₁ ^ 2 - 1) * ht + h₁
    - C.d * x₁ ^ 2 * y₁ ^ 2 * h₂
    + (y₁ ^ 2 * (C.d * x₁ * x₂ * y₁ * y₂) ^ 2 - C.d * x₁ ^ 2 * y₁ ^ 2 * y₂ ^ 2) * hs

/-- Completeness: neither denominator of the sum is zero. -/
theorem cross_sq_ne_one {x₁ y₁ x₂ y₂ : F} (h₁ : C.Eqn x₁ y₁) (h₂ : C.Eqn x₂ y₂) :
    cross C.d x₁ y₁ x₂ y₂ ^ 2 ≠ 1 := by
  intro ht
  have hprod : C.d * x₁ * x₂ * y₁ * y₂ ≠ 0 := by
    intro h0
    rw [cross, h0, zero_pow two_ne_zero] at ht
    exact zero_ne_one ht
  have hx₂ : x₂ ≠ 0 := by
    rintro rfl
    simp at hprod
  have hxy : x₁ * y₁ ≠ 0 := by
    intro h0
    apply hprod
    linear_combination C.d * x₂ * y₂ * h0
  -- `d` would be the square of a quotient, unless both `i x₂ + y₂` and `i x₂ - y₂` vanish
  have hzero : ∀ s : F, s ^ 2 = 1 → C.i * x₂ + s * y₂ = 0 := by
    intro s hs
    by_contra h
    have hden : x₁ * y₁ * (C.i * x₂ + s * y₂) ≠ 0 := mul_ne_zero hxy h
    apply C.not_square ((C.i * x₁ + s * cross C.d x₁ y₁ x₂ y₂ * y₁) /
      (x₁ * y₁ * (C.i * x₂ + s * y₂)))
    rw [div_pow, div_eq_iff (pow_ne_zero 2 hden), sq_of_cross h₁ h₂ ht hs]
  have hplus := hzero 1 (one_pow 2)
  have hminus := hzero (-1) neg_one_sq
  have hsum : 2 * x₂ = 0 := by
    linear_combination -C.i * (hplus + hminus) + 2 * x₂ * C.i_sq
  exact mul_ne_zero C.two_ne hx₂ hsum

theorem one_add_cross_ne {x₁ y₁ x₂ y₂ : F} (h₁ : C.Eqn x₁ y₁) (h₂ : C.Eqn x₂ y₂) :
    1 + cross C.d x₁ y₁ x₂ y₂ ≠ 0 := by
  intro h0
  apply cross_sq_ne_one h₁ h₂
  linear_combination (cross C.d x₁ y₁ x₂ y₂ - 1) * h0

theorem one_sub_cross_ne {x₁ y₁ x₂ y₂ : F} (h₁ : C.Eqn x₁ y₁) (h₂ : C.Eqn x₂ y₂) :
    1 - cross C.d x₁ y₁ x₂ y₂ ≠ 0 := by
  intro h0
  apply cross_sq_ne_one h₁ h₂
  linear_combination -(cross C.d x₁ y₁ x₂ y₂ + 1) * h0

/-- The square of `x` is a quotient in `y`, whose denominator is never zero. -/
theorem one_add_mul_ne (C : Curve F) (y : F) : 1 + C.d * y ^ 2 ≠ 0 := by
  intro h0
  have hy : y ≠ 0 := by
    rintro rfl
    simp at h0
  apply C.not_square (C.i / y)
  rw [div_pow, C.i_sq, div_eq_iff (pow_ne_zero 2 hy)]
  linear_combination -h0

/-- The sum of two points satisfies the equation. -/
theorem eqn_add {x₁ y₁ x₂ y₂ : F} (h₁ : C.Eqn x₁ y₁) (h₂ : C.Eqn x₂ y₂) :
    C.Eqn (numX x₁ y₁ x₂ y₂ / (1 + cross C.d x₁ y₁ x₂ y₂))
      (numY x₁ y₁ x₂ y₂ / (1 - cross C.d x₁ y₁ x₂ y₂)) := by
  have hp := one_add_cross_ne h₁ h₂
  have hm := one_sub_cross_ne h₁ h₂
  have key : -(numX x₁ y₁ x₂ y₂ * (1 - cross C.d x₁ y₁ x₂ y₂)) ^ 2
      + (numY x₁ y₁ x₂ y₂ * (1 + cross C.d x₁ y₁ x₂ y₂)) ^ 2
      = ((1 + cross C.d x₁ y₁ x₂ y₂) * (1 - cross C.d x₁ y₁ x₂ y₂)) ^ 2
        + C.d * (numX x₁ y₁ x₂ y₂ * numY x₁ y₁ x₂ y₂) ^ 2 := by
    unfold Curve.Eqn at h₁ h₂
    unfold numX numY cross
    linear_combination
      (C.d ^ 3 * x₁ ^ 2 * y₁ ^ 2 * x₂ ^ 4 * y₂ ^ 4 - C.d ^ 2 * x₁ ^ 2 * x₂ ^ 4 * y₂ ^ 4
      + C.d ^ 2 * y₁ ^ 2 * x₂ ^ 4 * y₂ ^ 4 - C.d ^ 2 * x₂ ^ 4 * y₂ ^ 4
      - C.d * x₁ ^ 2 * x₂ ^ 4 * y₂ ^ 2 + C.d * x₁ ^ 2 * x₂ ^ 2 * y₂ ^ 4
      + C.d * y₁ ^ 2 * x₂ ^ 4 * y₂ ^ 2 - C.d * y₁ ^ 2 * x₂ ^ 2 * y₂ ^ 4 - 2 * C.d * x₂ ^ 4 * y₂ ^ 4
      - 2 * C.d * x₂ ^ 2 * y₂ ^ 2 - 2 * x₂ ^ 4 * y₂ ^ 2 + x₂ ^ 4 + 2 * x₂ ^ 2 * y₂ ^ 4
      - 4 * x₂ ^ 2 * y₂ ^ 2 + y₂ ^ 4) * h₁
      + (C.d * x₁ ^ 4 * x₂ ^ 2 * y₂ ^ 2 + 2 * C.d * x₁ ^ 2 * x₂ ^ 2 * y₂ ^ 2
      + C.d * y₁ ^ 4 * x₂ ^ 2 * y₂ ^ 2 - 2 * C.d * y₁ ^ 2 * x₂ ^ 2 * y₂ ^ 2 + C.d * x₂ ^ 2 * y₂ ^ 2
      + 2 * x₁ ^ 2 * x₂ ^ 2 * y₂ ^ 2 - x₁ ^ 2 * x₂ ^ 2 + x₁ ^ 2 * y₂ ^ 2
      - 2 * y₁ ^ 2 * x₂ ^ 2 * y₂ ^ 2 + y₁ ^ 2 * x₂ ^ 2 - y₁ ^ 2 * y₂ ^ 2 + 2 * x₂ ^ 2 * y₂ ^ 2
      - x₂ ^ 2 + y₂ ^ 2 + 1) * h₂
  unfold Curve.Eqn
  field_simp
  linear_combination key

section Assoc

variable {x₁ y₁ x₂ y₂ x₃ y₃ : F}

/-- Associativity of the first coordinate, the denominators cleared. -/
theorem assoc_numX (h₁ : C.Eqn x₁ y₁) (h₂ : C.Eqn x₂ y₂) (h₃ : C.Eqn x₃ y₃) :
    (numX x₁ y₁ x₂ y₂ * (1 - cross C.d x₁ y₁ x₂ y₂) * y₃
        + x₃ * numY x₁ y₁ x₂ y₂ * (1 + cross C.d x₁ y₁ x₂ y₂))
      * ((1 + cross C.d x₂ y₂ x₃ y₃) * (1 - cross C.d x₂ y₂ x₃ y₃)
        + C.d * x₁ * y₁ * numX x₂ y₂ x₃ y₃ * numY x₂ y₂ x₃ y₃) =
    (x₁ * numY x₂ y₂ x₃ y₃ * (1 + cross C.d x₂ y₂ x₃ y₃)
        + numX x₂ y₂ x₃ y₃ * (1 - cross C.d x₂ y₂ x₃ y₃) * y₁)
      * ((1 + cross C.d x₁ y₁ x₂ y₂) * (1 - cross C.d x₁ y₁ x₂ y₂)
        + C.d * x₃ * y₃ * numX x₁ y₁ x₂ y₂ * numY x₁ y₁ x₂ y₂) := by
  unfold Curve.Eqn at h₁ h₂ h₃
  unfold numX numY cross
  linear_combination
    C.d * x₂ * y₂ * (
      -C.d * x₁ * x₂ ^ 3 * y₂ ^ 2 * x₃ ^ 2 * y₃ - C.d * x₁ * x₂ ^ 2 * y₂ ^ 3 * x₃ * y₃ ^ 2
      + C.d * y₁ * x₂ ^ 3 * y₂ ^ 2 * x₃ * y₃ ^ 2 + C.d * y₁ * x₂ ^ 2 * y₂ ^ 3 * x₃ ^ 2 * y₃
      - x₁ * x₂ ^ 3 * x₃ ^ 2 * y₃ - x₁ * x₂ ^ 2 * y₂ * x₃ ^ 3 - x₁ * x₂ ^ 2 * y₂ * x₃
      + x₁ * x₂ * y₂ ^ 2 * y₃ ^ 3 - x₁ * x₂ * y₂ ^ 2 * y₃ + x₁ * y₂ ^ 3 * x₃ * y₃ ^ 2
      + y₁ * x₂ ^ 3 * x₃ * y₃ ^ 2 + y₁ * x₂ ^ 2 * y₂ * y₃ ^ 3 - y₁ * x₂ ^ 2 * y₂ * y₃
      - y₁ * x₂ * y₂ ^ 2 * x₃ ^ 3 - y₁ * x₂ * y₂ ^ 2 * x₃ - y₁ * y₂ ^ 3 * x₃ ^ 2 * y₃) * h₁
    + C.d * x₂ * y₂ * (
      C.d * x₁ ^ 2 * y₁ * x₂ ^ 3 * y₂ ^ 2 * x₃ - C.d * x₁ ^ 2 * y₁ * x₂ ^ 2 * y₂ ^ 3 * y₃
      - C.d * x₁ * y₁ ^ 2 * x₂ ^ 3 * y₂ ^ 2 * y₃ + C.d * x₁ * y₁ ^ 2 * x₂ ^ 2 * y₂ ^ 3 * x₃
      + x₁ ^ 3 * x₂ ^ 2 * y₂ * x₃ + x₁ ^ 3 * x₂ * y₂ ^ 2 * y₃ + x₁ ^ 2 * y₁ * x₂ ^ 3 * x₃
      + x₁ ^ 2 * y₁ * y₂ ^ 3 * y₃ - x₁ * y₁ ^ 2 * x₂ ^ 3 * y₃ - x₁ * y₁ ^ 2 * y₂ ^ 3 * x₃
      + x₁ * x₂ ^ 2 * y₂ * x₃ + x₁ * x₂ * y₂ ^ 2 * y₃ - y₁ ^ 3 * x₂ ^ 2 * y₂ * y₃
      - y₁ ^ 3 * x₂ * y₂ ^ 2 * x₃ + y₁ * x₂ ^ 2 * y₂ * y₃ + y₁ * x₂ * y₂ ^ 2 * x₃) * h₃
    + C.d * x₂ * y₂ * (
      x₁ ^ 3 * x₂ * x₃ ^ 2 * y₃ + x₁ ^ 3 * y₂ * x₃ * y₃ ^ 2 - x₁ ^ 2 * y₁ * x₂ * x₃ ^ 3
      - x₁ ^ 2 * y₁ * x₂ * x₃ - x₁ ^ 2 * y₁ * y₂ * y₃ ^ 3 + x₁ ^ 2 * y₁ * y₂ * y₃
      - x₁ * y₁ ^ 2 * x₂ * y₃ ^ 3 + x₁ * y₁ ^ 2 * x₂ * y₃ - x₁ * y₁ ^ 2 * y₂ * x₃ ^ 3
      - x₁ * y₁ ^ 2 * y₂ * x₃ + x₁ * x₂ * x₃ ^ 2 * y₃ + x₁ * y₂ * x₃ * y₃ ^ 2
      + y₁ ^ 3 * x₂ * x₃ * y₃ ^ 2 + y₁ ^ 3 * y₂ * x₃ ^ 2 * y₃ - y₁ * x₂ * x₃ * y₃ ^ 2
      - y₁ * y₂ * x₃ ^ 2 * y₃) * h₂

/-- Associativity of the second coordinate, the denominators cleared. -/
theorem assoc_numY (h₁ : C.Eqn x₁ y₁) (h₂ : C.Eqn x₂ y₂) (h₃ : C.Eqn x₃ y₃) :
    (numY x₁ y₁ x₂ y₂ * (1 + cross C.d x₁ y₁ x₂ y₂) * y₃
        + x₃ * numX x₁ y₁ x₂ y₂ * (1 - cross C.d x₁ y₁ x₂ y₂))
      * ((1 + cross C.d x₂ y₂ x₃ y₃) * (1 - cross C.d x₂ y₂ x₃ y₃)
        - C.d * x₁ * y₁ * numX x₂ y₂ x₃ y₃ * numY x₂ y₂ x₃ y₃) =
    (x₁ * numX x₂ y₂ x₃ y₃ * (1 - cross C.d x₂ y₂ x₃ y₃)
        + numY x₂ y₂ x₃ y₃ * (1 + cross C.d x₂ y₂ x₃ y₃) * y₁)
      * ((1 + cross C.d x₁ y₁ x₂ y₂) * (1 - cross C.d x₁ y₁ x₂ y₂)
        - C.d * x₃ * y₃ * numX x₁ y₁ x₂ y₂ * numY x₁ y₁ x₂ y₂) := by
  -- the rotation `(x, y) ↦ (i y, i x)` of the third point turns the first coordinate into this one
  have hi := C.i_sq
  have h₃' : C.Eqn (C.i * y₃) (C.i * x₃) := by
    unfold Curve.Eqn at h₃ ⊢
    linear_combination h₃ + (x₃ ^ 2 - y₃ ^ 2 - C.d * x₃ ^ 2 * y₃ ^ 2 * (C.i ^ 2 - 1)) * hi
  have hcross : cross C.d x₂ y₂ (C.i * y₃) (C.i * x₃) = -cross C.d x₂ y₂ x₃ y₃ := by
    unfold cross
    linear_combination C.d * x₂ * y₂ * x₃ * y₃ * hi
  have hX : numX x₂ y₂ (C.i * y₃) (C.i * x₃) = C.i * numY x₂ y₂ x₃ y₃ := by
    unfold numX numY
    ring
  have hY : numY x₂ y₂ (C.i * y₃) (C.i * x₃) = C.i * numX x₂ y₂ x₃ y₃ := by
    unfold numX numY
    ring
  have h := assoc_numX h₁ h₂ h₃'
  rw [hcross, hX, hY] at h
  apply mul_left_cancel₀ C.i_ne
  linear_combination h
    - C.d * C.i * (numY x₁ y₁ x₂ y₂ * (1 + cross C.d x₁ y₁ x₂ y₂) * y₃
        + x₃ * numX x₁ y₁ x₂ y₂ * (1 - cross C.d x₁ y₁ x₂ y₂))
      * x₁ * y₁ * numX x₂ y₂ x₃ y₃ * numY x₂ y₂ x₃ y₃ * hi
    + C.d * C.i * (x₁ * numX x₂ y₂ x₃ y₃ * (1 - cross C.d x₂ y₂ x₃ y₃)
        + numY x₂ y₂ x₃ y₃ * (1 + cross C.d x₂ y₂ x₃ y₃) * y₁)
      * x₃ * y₃ * numX x₁ y₁ x₂ y₂ * numY x₁ y₁ x₂ y₂ * hi

end Assoc

namespace Point

/-- The sum of two points. -/
def add (P Q : Point C) : Point C where
  x := numX P.x P.y Q.x Q.y / (1 + cross C.d P.x P.y Q.x Q.y)
  y := numY P.x P.y Q.x Q.y / (1 - cross C.d P.x P.y Q.x Q.y)
  on := eqn_add P.on Q.on

/-- The neutral point. -/
def zero : Point C where
  x := 0
  y := 1
  on := by simp [Curve.Eqn]

/-- The opposite point. -/
def neg (P : Point C) : Point C where
  x := -P.x
  y := P.y
  on := by
    have h := P.on
    unfold Curve.Eqn at h ⊢
    linear_combination h

instance : Add (Point C) := ⟨add⟩
instance : Zero (Point C) := ⟨zero⟩
instance : Neg (Point C) := ⟨neg⟩

theorem add_x (P Q : Point C) :
    (P + Q).x = numX P.x P.y Q.x Q.y / (1 + cross C.d P.x P.y Q.x Q.y) := rfl

theorem add_y (P Q : Point C) :
    (P + Q).y = numY P.x P.y Q.x Q.y / (1 - cross C.d P.x P.y Q.x Q.y) := rfl

@[simp] theorem zero_x : (0 : Point C).x = 0 := rfl
@[simp] theorem zero_y : (0 : Point C).y = 1 := rfl
@[simp] theorem neg_x (P : Point C) : (-P).x = -P.x := rfl
@[simp] theorem neg_y (P : Point C) : (-P).y = P.y := rfl

theorem add_x_mul (P Q : Point C) :
    (P + Q).x * (1 + cross C.d P.x P.y Q.x Q.y) = numX P.x P.y Q.x Q.y := by
  rw [add_x, div_mul_cancel₀ _ (one_add_cross_ne P.on Q.on)]

theorem add_y_mul (P Q : Point C) :
    (P + Q).y * (1 - cross C.d P.x P.y Q.x Q.y) = numY P.x P.y Q.x Q.y := by
  rw [add_y, div_mul_cancel₀ _ (one_sub_cross_ne P.on Q.on)]

theorem add_comm (P Q : Point C) : P + Q = Q + P := by
  ext
  · rw [add_x, add_x]
    congr 1 <;> simp only [numX, cross] <;> ring
  · rw [add_y, add_y]
    congr 1 <;> simp only [numY, cross] <;> ring

theorem zero_add (P : Point C) : 0 + P = P := by
  ext
  · simp [add_x, numX, cross]
  · simp [add_y, numY, cross]

theorem neg_add_cancel (P : Point C) : -P + P = 0 := by
  have hne := one_sub_cross_ne (-P).on P.on
  have h := P.on
  ext
  · rw [add_x, numX, neg_x, neg_y, zero_x]
    simp [mul_comm]
  · rw [add_y, zero_y, div_eq_one_iff_eq hne, numY, cross, neg_x, neg_y]
    unfold Curve.Eqn at h
    linear_combination h

theorem add_assoc (P Q R : Point C) : P + Q + R = P + (Q + R) := by
  have hpq := mul_ne_zero (one_add_cross_ne P.on Q.on) (one_sub_cross_ne P.on Q.on)
  have hqr := mul_ne_zero (one_add_cross_ne Q.on R.on) (one_sub_cross_ne Q.on R.on)
  have keyX := assoc_numX P.on Q.on R.on
  have keyY := assoc_numY P.on Q.on R.on
  rw [← add_x_mul P Q, ← add_y_mul P Q, ← add_x_mul Q R, ← add_y_mul Q R] at keyX keyY
  ext
  · rw [add_x (P + Q) R, add_x P (Q + R), div_eq_div_iff (one_add_cross_ne (P + Q).on R.on)
      (one_add_cross_ne P.on (Q + R).on)]
    apply mul_right_cancel₀ (mul_ne_zero hpq hqr)
    generalize cross C.d P.x P.y Q.x Q.y = s at keyX ⊢
    generalize cross C.d Q.x Q.y R.x R.y = t at keyX ⊢
    unfold numX cross
    linear_combination keyX
  · rw [add_y (P + Q) R, add_y P (Q + R), div_eq_div_iff (one_sub_cross_ne (P + Q).on R.on)
      (one_sub_cross_ne P.on (Q + R).on)]
    apply mul_right_cancel₀ (mul_ne_zero hpq hqr)
    generalize cross C.d P.x P.y Q.x Q.y = s at keyY ⊢
    generalize cross C.d Q.x Q.y R.x R.y = t at keyY ⊢
    unfold numY cross
    linear_combination keyY

instance : AddCommGroup (Point C) where
  add_assoc := add_assoc
  zero_add := zero_add
  add_zero P := by rw [add_comm, zero_add]
  nsmul := nsmulRec
  zsmul := zsmulRec
  neg_add_cancel := neg_add_cancel
  add_comm := add_comm

end Point

/-- Two points at one height are the same or opposite. -/
theorem eq_or_eq_neg_of_y_eq {P Q : Point C} (h : P.y = Q.y) : P = Q ∨ P = -Q := by
  have hP := P.on
  have hQ := Q.on
  have hne := one_add_mul_ne C Q.y
  unfold Curve.Eqn at hP hQ
  rw [h] at hP
  have hsq : P.x ^ 2 = Q.x ^ 2 := by
    apply mul_right_cancel₀ hne
    linear_combination hQ - hP
  rcases sq_eq_sq_iff_eq_or_eq_neg.mp hsq with hx | hx
  · exact Or.inl (Point.ext hx h)
  · exact Or.inr (Point.ext hx h)

/-- Extended coordinates: `x = X / Z`, `y = Y / Z` and `x y = T / Z`. -/
@[ext] structure Ext (F : Type*) where
  X : F
  Y : F
  Z : F
  T : F

namespace Ext

/-- The sum in extended coordinates; `k` is twice the constant of the curve. -/
def add (k : F) (a b : Ext F) : Ext F :=
  let aa := (a.Y - a.X) * (b.Y - b.X)
  let bb := (a.Y + a.X) * (b.Y + b.X)
  let cc := a.T * b.T * k
  let dd := (a.Z + a.Z) * b.Z
  { X := (bb - aa) * (dd - cc)
    Y := (dd + cc) * (bb + aa)
    Z := (dd - cc) * (dd + cc)
    T := (bb - aa) * (bb + aa) }

/-- The coordinates are of the point `P`. -/
structure Is (E : Ext F) (P : Point C) : Prop where
  ne : E.Z ≠ 0
  x : E.X = P.x * E.Z
  y : E.Y = P.y * E.Z
  t : E.T = P.x * P.y * E.Z

theorem is_zero : Is (⟨0, 1, 1, 0⟩ : Ext F) (0 : Point C) where
  ne := one_ne_zero
  x := by simp
  y := by simp
  t := by simp

/-- The sum of coordinates is of the sum of the points. -/
theorem Is.add {E G : Ext F} {P Q : Point C} (hE : E.Is P) (hG : G.Is Q) :
    (E.add (C.d + C.d) G).Is (P + Q) := by
  have hx := Point.add_x_mul P Q
  have hy := Point.add_y_mul P Q
  have hp := one_add_cross_ne P.on Q.on
  have hm := one_sub_cross_ne P.on Q.on
  have hzz : 2 * (E.Z * G.Z) ≠ 0 := mul_ne_zero C.two_ne (mul_ne_zero hE.ne hG.ne)
  obtain ⟨s, hs⟩ : ∃ s, s = cross C.d P.x P.y Q.x Q.y := ⟨_, rfl⟩
  rw [← hs] at hx hy hp hm
  have hbb : (E.Y + E.X) * (G.Y + G.X) - (E.Y - E.X) * (G.Y - G.X) =
      2 * (E.Z * G.Z) * ((P + Q).x * (1 + s)) := by
    rw [hx, hE.x, hE.y, hG.x, hG.y, numX]; ring
  have hba : (E.Y + E.X) * (G.Y + G.X) + (E.Y - E.X) * (G.Y - G.X) =
      2 * (E.Z * G.Z) * ((P + Q).y * (1 - s)) := by
    rw [hy, hE.x, hE.y, hG.x, hG.y, numY]; ring
  have hdd : (E.Z + E.Z) * G.Z - E.T * G.T * (C.d + C.d) = 2 * (E.Z * G.Z) * (1 - s) := by
    rw [hs, hE.t, hG.t, cross]; ring
  have hdp : (E.Z + E.Z) * G.Z + E.T * G.T * (C.d + C.d) = 2 * (E.Z * G.Z) * (1 + s) := by
    rw [hs, hE.t, hG.t, cross]; ring
  constructor <;> simp only [Ext.add, hbb, hba, hdd, hdp]
  · exact mul_ne_zero (mul_ne_zero hzz hm) (mul_ne_zero hzz hp)
  all_goals ring

theorem Is.neg {E : Ext F} {P : Point C} (h : E.Is P) : (⟨-E.X, E.Y, E.Z, -E.T⟩ : Ext F).Is (-P) where
  ne := h.ne
  x := by rw [h.x, Point.neg_x, neg_mul]
  y := by rw [h.y, Point.neg_y]
  t := by rw [h.t, Point.neg_x, Point.neg_y, neg_mul, neg_mul]

end Ext

/-! ### Multiples computed with numbers -/

section Numbers

/-- Coordinates that are numbers, read in the field. -/
def Ext.cast (p : Nat) (E : Ext Nat) : Ext (ZMod p) := ⟨E.X, E.Y, E.Z, E.T⟩

/-- The sum over numbers below `p`. -/
def Ext.addMod (p k : Nat) (a b : Ext Nat) : Ext Nat :=
  let aa := (a.Y + (p - a.X)) * (b.Y + (p - b.X)) % p
  let bb := (a.Y + a.X) * (b.Y + b.X) % p
  let cc := a.T * b.T % p * k % p
  let dd := (a.Z + a.Z) * b.Z % p
  let e := bb + (p - aa)
  let f := dd + (p - cc)
  { X := e * f % p
    Y := (dd + cc) * (bb + aa) % p
    Z := f * (dd + cc) % p
    T := e * (bb + aa) % p }

/-- One bit of a multiple: the double, and the point added where the bit is set. -/
def Ext.stepMod (p k : Nat) (E r : Ext Nat) (b : Bool) : Ext Nat :=
  let r := addMod p k r r
  if b then addMod p k r E else r

theorem cast_sub_self {p x : Nat} (h : x ≤ p) : ((p - x : Nat) : ZMod p) = -x := by
  rw [Nat.cast_sub h, CharP.cast_eq_zero, zero_sub]

variable {p : Nat} [Fact p.Prime] {C : Curve (ZMod p)}

theorem Ext.cast_addMod {k : Nat} {a b : Ext Nat} (ha : a.X ≤ p) (hb : b.X ≤ p) :
    (addMod p k a b).cast p = Ext.add (k : ZMod p) (a.cast p) (b.cast p) := by
  have hp : 0 < p := (Fact.out : p.Prime).pos
  ext <;> simp only [Ext.cast, addMod, Ext.add, ZMod.natCast_mod, Nat.cast_mul, Nat.cast_add,
    cast_sub_self ha, cast_sub_self hb, cast_sub_self (Nat.mod_lt _ hp).le] <;> ring

/-- Numbers below `p` that are coordinates of a point. -/
structure Ext.IsMod (E : Ext Nat) (P : Point C) : Prop where
  le : E.X ≤ p
  is : (E.cast p).Is P

theorem Ext.IsMod.add {k : Nat} {E G : Ext Nat} {P Q : Point C} (hk : (k : ZMod p) = C.d + C.d)
    (hE : E.IsMod P) (hG : G.IsMod Q) : (addMod p k E G).IsMod (P + Q) where
  le := (Nat.mod_lt _ (Fact.out : p.Prime).pos).le
  is := by rw [cast_addMod hE.le hG.le, hk]; exact hE.is.add hG.is

/-- The multiple spelled by bits, computed with numbers. -/
theorem Ext.IsMod.foldl {k : Nat} {E : Ext Nat} {P : Point C} (hk : (k : ZMod p) = C.d + C.d)
    (hE : E.IsMod P) (bs : List Bool) :
    (bs.foldl (stepMod p k E) ⟨0, 1, 1, 0⟩).IsMod (spell 0 bs • P) := by
  have hstep : ∀ (r : Ext Nat) (Q : Point C) (b : Bool), r.IsMod Q →
      (stepMod p k E r b).IsMod (Q + Q + if b then P else 0) := by
    intro r Q b hr
    cases b with
    | false => simpa [stepMod] using hr.add hk hr
    | true => simpa [stepMod] using (hr.add hk hr).add hk hE
  have hini : (⟨0, 1, 1, 0⟩ : Ext Nat).IsMod (0 • P) := by
    refine ⟨Nat.zero_le p, ?_⟩
    rw [zero_nsmul]
    simpa [Ext.cast] using is_zero (C := C)
  exact foldl_double_add hstep hini bs

end Numbers

end BmoX.Base.Edwards
