import BmoX.Base.Edwards

/-!
# The Montgomery ladder

A complete twisted Edwards curve seen through `u = (1 + y) / (1 - y)`: a pair `X : Z` stands for the
points with that quotient. Doubling, and adding two points whose difference is known, are polynomials
in such pairs, so that a multiple of a point is computed from its `u` alone.
-/

namespace BmoX.Base.Ladder

open Edwards

variable {F : Type*}

/-- The two pairs of a ladder. -/
@[ext] structure State (F : Type*) where
  X₂ : F
  Z₂ : F
  X₃ : F
  Z₃ : F

namespace State

/-- The pairs exchanged. -/
def swap (s : State F) : State F := ⟨s.X₃, s.Z₃, s.X₂, s.Z₂⟩

/-- The pairs exchanged if asked. -/
def cswap (b : Bool) (s : State F) : State F := if b then s.swap else s

@[simp] theorem swap_swap (s : State F) : s.swap.swap = s := rfl

@[simp] theorem cswap_false (s : State F) : cswap false s = s := rfl

theorem cswap_cswap (b c : Bool) (s : State F) : cswap b (cswap c s) = cswap (c ^^ b) s := by
  cases b <;> cases c <;> rfl

end State

variable [Field F] {C : Curve F}

/-- The Montgomery coordinate of a point; zero at the neutral one, where the quotient has none. -/
def u (P : Point C) : F := (1 + P.y) / (1 - P.y)

@[simp] theorem u_neg (P : Point C) : u (-P) = u P := rfl

/-- The pair is of the point `P`. -/
def Is (X Z : F) (P : Point C) : Prop := ∃ l, l ≠ 0 ∧ X = l * (1 + P.y) ∧ Z = l * (1 - P.y)

theorem Is.u_eq {X Z : F} {P : Point C} (h : Is X Z P) : X / Z = u P := by
  rcases h with ⟨l, hl, rfl, rfl⟩
  exact mul_div_mul_left _ _ hl

theorem is_zero : Is (1 : F) 0 (0 : Point C) :=
  ⟨2⁻¹, inv_ne_zero C.two_ne, by
    rw [Point.zero_y, one_add_one_eq_two, inv_mul_cancel₀ C.two_ne], by simp⟩

theorem is_u {P : Point C} (h : P.y ≠ 1) : Is (u P) 1 P := by
  have hne : 1 - P.y ≠ 0 := sub_ne_zero.mpr h.symm
  exact ⟨(1 - P.y)⁻¹, inv_ne_zero hne, by rw [u, div_eq_inv_mul], by rw [inv_mul_cancel₀ hne]⟩

/-- The pair of the double; `a` is a quarter of the curve's coefficient less two. -/
def dbl (a X Z : F) : F × F :=
  let aa := (X + Z) ^ 2
  let bb := (X - Z) ^ 2
  (aa * bb, (aa - bb) * (aa + a * (aa - bb)))

/-- The pair of a sum, out of the two pairs and the `u` of the difference. -/
def diffAdd (x₁ X₂ Z₂ X₃ Z₃ : F) : F × F :=
  let da := (X₃ - Z₃) * (X₂ + Z₂)
  let cb := (X₃ + Z₃) * (X₂ - Z₂)
  ((da + cb) ^ 2, x₁ * (da - cb) ^ 2)

theorem Is.dbl {a X Z : F} {P : Point C} (ha : C.d * (a + 1) = -a) (h : Is X Z P) :
    Is (dbl a X Z).1 (dbl a X Z).2 (P + P) := by
  rcases h with ⟨l, hl, rfl, rfl⟩
  have hon := P.on
  have hden := mul_ne_zero (one_add_mul_ne C P.y) (one_sub_cross_ne hon hon)
  have hy := Point.add_y_mul P P
  have ha1 : a + 1 ≠ 0 := by
    intro h0
    rw [h0, mul_zero] at ha
    apply one_ne_zero (α := F)
    linear_combination h0 - ha
  have hl' : 2 ^ 3 * l ^ 4 * (a + 1) ≠ 0 :=
    mul_ne_zero (mul_ne_zero (pow_ne_zero 3 C.two_ne) (pow_ne_zero 4 hl)) ha1
  unfold Curve.Eqn at hon
  unfold numY at hy
  refine ⟨_, mul_ne_zero hl' hden, ?_, ?_⟩
  · unfold Ladder.dbl cross at *
    linear_combination -8 * l ^ 4 * (a + 1) * (1 + C.d * P.y ^ 2) * hy
      + 8 * l ^ 4 * (a + 1) * (1 - C.d * P.y ^ 2) * hon - 16 * l ^ 4 * P.y ^ 2 * ha
  · unfold Ladder.dbl cross at *
    linear_combination 8 * l ^ 4 * (a + 1) * (1 + C.d * P.y ^ 2) * hy
      - 8 * l ^ 4 * (a + 1) * (1 + C.d * P.y ^ 2) * hon - 16 * l ^ 4 * (1 - P.y ^ 2) * P.y ^ 2 * ha

/-- The cross ratio of a sum and a difference, the denominators cleared. -/
theorem cross_ratio {x₁ y₁ x₂ y₂ : F} (h₁ : C.Eqn x₁ y₁) (h₂ : C.Eqn x₂ y₂) :
    (y₂ + y₁) ^ 2 * ((1 - y₁ * y₂) ^ 2 - (cross C.d x₁ y₁ x₂ y₂ + x₁ * x₂) ^ 2) =
      (y₂ - y₁) ^ 2 * ((1 + y₁ * y₂) ^ 2 - (cross C.d x₁ y₁ x₂ y₂ - x₁ * x₂) ^ 2) := by
  unfold Curve.Eqn at h₁ h₂
  unfold cross
  grind

/-- The same for the points. -/
theorem cross_ratio_add_sub (P Q : Point C) :
    (Q.y + P.y) ^ 2 * ((1 - (P + Q).y) * (1 - (Q + -P).y)) =
      (Q.y - P.y) ^ 2 * ((1 + (P + Q).y) * (1 + (Q + -P).y)) := by
  have hadd := Point.add_y_mul P Q
  have hsub := Point.add_y_mul Q (-P)
  have hp := one_add_cross_ne P.on Q.on
  have hm := one_sub_cross_ne P.on Q.on
  have key := cross_ratio P.on Q.on
  have hneg : cross C.d Q.x Q.y (-P).x (-P).y = -cross C.d P.x P.y Q.x Q.y := by
    rw [cross, cross, Point.neg_x, Point.neg_y]; ring
  rw [hneg, numY, Point.neg_x, Point.neg_y] at hsub
  rw [numY] at hadd
  generalize cross C.d P.x P.y Q.x Q.y = t at *
  have e₁ : (1 - (P + Q).y) * (1 - t) = 1 - P.y * Q.y - (t + P.x * Q.x) := by
    linear_combination -hadd
  have e₂ : (1 - (Q + -P).y) * (1 + t) = 1 - P.y * Q.y + (t + P.x * Q.x) := by
    linear_combination -hsub
  have e₃ : (1 + (P + Q).y) * (1 - t) = 1 + P.y * Q.y - (t - P.x * Q.x) := by
    linear_combination hadd
  have e₄ : (1 + (Q + -P).y) * (1 + t) = 1 + P.y * Q.y + (t - P.x * Q.x) := by
    linear_combination hsub
  apply mul_right_cancel₀ (mul_ne_zero hm hp)
  calc (Q.y + P.y) ^ 2 * ((1 - (P + Q).y) * (1 - (Q + -P).y)) * ((1 - t) * (1 + t))
      = (Q.y + P.y) ^ 2 * (((1 - (P + Q).y) * (1 - t)) * ((1 - (Q + -P).y) * (1 + t))) := by ring
    _ = (Q.y - P.y) ^ 2 * (((1 + (P + Q).y) * (1 - t)) * ((1 + (Q + -P).y) * (1 + t))) := by
      rw [e₁, e₂, e₃, e₄]
      linear_combination key
    _ = (Q.y - P.y) ^ 2 * ((1 + (P + Q).y) * (1 + (Q + -P).y)) * ((1 - t) * (1 + t)) := by ring

/-- Two points at `y = 0` differ by one at `y = 1` or `y = -1`. -/
theorem sub_y_sq {P Q : Point C} (hP : P.y = 0) (hQ : Q.y = 0) : (Q + -P).y ^ 2 = 1 := by
  have hsub := Point.add_y_mul Q (-P)
  have h₁ := P.on
  have h₂ := Q.on
  unfold Curve.Eqn at h₁ h₂
  rw [cross, numY, Point.neg_x, Point.neg_y, hP, hQ] at hsub
  rw [hP] at h₁
  rw [hQ] at h₂
  have hy : (Q + -P).y = -(P.x * Q.x) := by linear_combination hsub
  rw [hy]
  linear_combination -Q.x ^ 2 * h₁ + h₂

theorem Is.diffAdd {X₂ Z₂ X₃ Z₃ : F} {P Q D : Point C} (h₂ : Is X₂ Z₂ P) (h₃ : Is X₃ Z₃ Q)
    (hD : Q = P + D) (h1 : D.y ≠ 1) (hu : u D ≠ 0) :
    Is (diffAdd (u D) X₂ Z₂ X₃ Z₃).1 (diffAdd (u D) X₂ Z₂ X₃ Z₃).2 (P + Q) := by
  rcases h₂ with ⟨l, hl, rfl, rfl⟩
  rcases h₃ with ⟨m, hm, rfl, rfl⟩
  have hdif : Q + -P = D := by rw [hD, add_comm P D, add_neg_cancel_right]
  have hne : 1 - D.y ≠ 0 := sub_ne_zero.mpr h1.symm
  have hratio := cross_ratio_add_sub P Q
  have hmul : u D * (1 - D.y) = 1 + D.y := div_mul_cancel₀ _ hne
  rw [hdif] at hratio
  obtain ⟨X, hX⟩ : ∃ X, X = (Ladder.diffAdd (u D) (l * (1 + P.y)) (l * (1 - P.y)) (m * (1 + Q.y))
    (m * (1 - Q.y))).1 := ⟨_, rfl⟩
  obtain ⟨Z, hZ⟩ : ∃ Z, Z = (Ladder.diffAdd (u D) (l * (1 + P.y)) (l * (1 - P.y)) (m * (1 + Q.y))
    (m * (1 - Q.y))).2 := ⟨_, rfl⟩
  rw [← hX, ← hZ]
  have hX' : X = (2 ^ 2 * l * m * (Q.y + P.y)) ^ 2 := by rw [hX, Ladder.diffAdd]; ring
  have hZ' : Z = u D * (2 ^ 2 * l * m * (Q.y - P.y)) ^ 2 := by rw [hZ, Ladder.diffAdd]; ring
  have hbal : X * (1 - (P + Q).y) = Z * (1 + (P + Q).y) := by
    apply mul_right_cancel₀ hne
    rw [hX', hZ']
    linear_combination (2 ^ 2 * l * m) ^ 2 * hratio
      - (2 ^ 2 * l * m * (Q.y - P.y)) ^ 2 * (1 + (P + Q).y) * hmul
  have hsum : X + Z ≠ 0 := by
    intro h0
    have hX0 : X = 0 := by
      apply mul_left_cancel₀ C.two_ne
      linear_combination hbal + (1 + (P + Q).y) * h0
    have hZ0 : Z = 0 := by linear_combination h0 - hX0
    have h4 : 2 ^ 2 * l * m ≠ 0 := mul_ne_zero (mul_ne_zero (pow_ne_zero 2 C.two_ne) hl) hm
    have hp : Q.y + P.y = 0 := by simpa [hX', h4] using hX0
    have hm : Q.y - P.y = 0 := by simpa [hZ', h4, hu] using hZ0
    have hP : P.y = 0 := by
      apply mul_left_cancel₀ C.two_ne
      linear_combination hp - hm
    have hQ : Q.y = 0 := by linear_combination hp - hP
    have hsq := sub_y_sq hP hQ
    rw [hdif, sq_eq_one_iff] at hsq
    apply hu
    rw [u, hsq.resolve_left h1, add_neg_cancel, zero_div]
  refine ⟨(X + Z) / 2, div_ne_zero hsum C.two_ne, ?_, ?_⟩
  · have h2 := C.two_ne
    field_simp
    linear_combination hbal
  · have h2 := C.two_ne
    field_simp
    linear_combination -hbal

namespace State

/-- The left pair doubled, and the two added. -/
def double (a x₁ : F) (s : State F) : State F :=
  let l := dbl a s.X₂ s.Z₂
  let r := diffAdd x₁ s.X₂ s.Z₂ s.X₃ s.Z₃
  ⟨l.1, l.2, r.1, r.2⟩

/-- One bit of the scalar. -/
def step (a x₁ : F) (s : State F) (b : Bool) : State F := cswap b (double a x₁ (cswap b s))

/-- The pairs a ladder starts with. -/
def init (x₁ : F) : State F := ⟨1, 0, x₁, 1⟩

/-- The pairs are of `n` times `P` and of the next multiple. -/
def At (s : State F) (P : Point C) (n : Nat) : Prop :=
  Is s.X₂ s.Z₂ (n • P) ∧ Is s.X₃ s.Z₃ ((n + 1) • P)

/-- One bit doubles the multiple and adds the bit. -/
theorem At.step {a : F} {s : State F} {P : Point C} {n : Nat} (ha : C.d * (a + 1) = -a)
    (h1 : P.y ≠ 1) (hu : u P ≠ 0) (h : s.At P n) (b : Bool) :
    (s.step a (u P) b).At P (2 * n + b.toNat) := by
  have hD : (n + 1) • P = n • P + P := succ_nsmul P n
  cases b with
  | false =>
    constructor
    · have hl := h.1.dbl ha
      rwa [← add_nsmul, ← two_mul] at hl
    · have hr := h.1.diffAdd h.2 hD h1 hu
      rwa [← add_nsmul, show n + (n + 1) = 2 * n + 0 + 1 by omega] at hr
  | true =>
    have hD' : n • P = (n + 1) • P + -P := by rw [hD, add_neg_cancel_right]
    constructor
    · have hr := h.2.diffAdd h.1 hD' h1 hu
      rwa [u_neg, ← add_nsmul, show n + 1 + n = 2 * n + 1 by omega] at hr
    · have hl := h.2.dbl ha
      rwa [← add_nsmul, show n + 1 + (n + 1) = 2 * n + 1 + 1 by omega] at hl

theorem At.foldl {a : F} {s : State F} {P : Point C} {n : Nat} (ha : C.d * (a + 1) = -a)
    (h1 : P.y ≠ 1) (hu : u P ≠ 0) (h : s.At P n) (bs : List Bool) :
    (bs.foldl (State.step a (u P)) s).At P (spell n bs) := by
  induction bs generalizing s n with
  | nil => exact h
  | cons b bs ih => exact ih (h.step ha h1 hu b)

theorem at_init {P : Point C} (h1 : P.y ≠ 1) : (init (u P)).At P 0 := by
  constructor
  · rw [zero_nsmul]; exact is_zero
  · rw [zero_add, one_nsmul]; exact is_u h1

/-- Where `u` is zero each pair has a zero in it, whatever the bits. -/
def Null (s : State F) : Prop := s.X₂ * s.Z₂ = 0 ∧ s.X₃ * s.Z₃ = 0

theorem Null.step {a : F} {s : State F} (h : s.Null) (b : Bool) : (s.step a 0 b).Null := by
  have hdbl : ∀ X Z : F, X * Z = 0 → (dbl a X Z).1 * (dbl a X Z).2 = 0 := by
    intro X Z hXZ
    have hsub : (X + Z) ^ 2 - (X - Z) ^ 2 = 0 := by linear_combination 4 * hXZ
    rw [dbl, hsub, zero_mul, mul_zero]
  cases b with
  | false => exact ⟨hdbl _ _ h.1, by simp [State.step, double, diffAdd]⟩
  | true => exact ⟨by simp [State.step, double, diffAdd, swap, cswap], hdbl _ _ h.2⟩

theorem Null.foldl {a : F} {s : State F} (h : s.Null) (bs : List Bool) :
    (bs.foldl (State.step a 0) s).Null := by
  induction bs generalizing s with
  | nil => exact h
  | cons b bs ih => exact ih (h.step b)

end State

/-- The ladder over the bits of a scalar, the highest first, and the quotient at its end. -/
def ladder (a x₁ : F) (bs : List Bool) : F :=
  let s := bs.foldl (State.step a x₁) (State.init x₁)
  s.X₂ / s.Z₂

/-- A point whose `u` is zero is its own opposite. -/
theorem neg_eq_self {P : Point C} (hu : u P = 0) : -P = P := by
  have hy : P.y ^ 2 = 1 := by
    rw [u, div_eq_zero_iff] at hu
    rcases hu with h | h
    · linear_combination (P.y - 1) * h
    · linear_combination -(P.y + 1) * h
  have hon := P.on
  unfold Curve.Eqn at hon
  have hx : P.x ^ 2 * (1 + C.d * P.y ^ 2) = 0 := by linear_combination hy - hon
  have hx0 : P.x = 0 := by simpa [one_add_mul_ne C P.y] using hx
  ext
  · rw [Point.neg_x, hx0, neg_zero]
  · rfl

theorem u_nsmul_eq_zero {P : Point C} (hu : u P = 0) (n : Nat) : u (n • P) = 0 := by
  have hor : n • P = 0 ∨ n • P = P := by
    induction n with
    | zero => exact Or.inl (zero_nsmul P)
    | succ n ih =>
      rw [succ_nsmul]
      rcases ih with h | h <;> rw [h]
      · right; rw [zero_add]
      · left
        have hneg := neg_add_cancel P
        rwa [neg_eq_self hu] at hneg
  rcases hor with h | h
  · rw [h, u, Point.zero_y, sub_self, div_zero]
  · rw [h, hu]

/-- The ladder computes the `u` of a multiple from the `u` of the point, for every point. -/
theorem ladder_eq {a : F} (ha : C.d * (a + 1) = -a) (P : Point C) (bs : List Bool) :
    ladder a (u P) bs = u (spell 0 bs • P) := by
  by_cases hu : u P = 0
  · rw [u_nsmul_eq_zero hu, hu]
    have hnull : (State.init (0 : F)).Null := by simp [State.Null, State.init]
    rw [ladder, div_eq_zero_iff, ← mul_eq_zero]
    exact (hnull.foldl bs).1
  · have h1 : P.y ≠ 1 := by
      intro h1
      apply hu
      rw [u, h1, sub_self, div_zero]
    exact ((State.at_init h1).foldl ha h1 hu bs).1.u_eq

end BmoX.Base.Ladder
