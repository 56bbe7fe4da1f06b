import BmoX.Cripto.Ed25519

/-!
# No word wraps

The operations of `campo25519.rs` and `pow_p58` once more, with words that stop where a sum, a
difference or a product does not fit. Between limbs with room none of them stops, and each answers
what the code does.
-/

namespace BmoX.Cripto.Exacta

open BmoX.Base BmoX.Cripto.Campo

/-- A sum of `u64` that fits. -/
def mas (x y : UInt64) : Option UInt64 := if x.toNat + y.toNat < 2 ^ 64 then some (x + y) else none

/-- A difference of `u64` that is none below zero. -/
def menos (x y : UInt64) : Option UInt64 := if y.toNat ≤ x.toNat then some (x - y) else none

/-- A product of `u64` that fits. -/
def por (x y : UInt64) : Option UInt64 := if x.toNat * y.toNat < 2 ^ 64 then some (x * y) else none

/-- A sum of `u128` that fits. -/
def mas128 (x y : U128) : Option U128 := if x.toNat + y.toNat < 2 ^ 128 then some (x + y) else none

/-- A product of `u128` that fits. -/
def por128 (x y : U128) : Option U128 := if x.toNat * y.toNat < 2 ^ 128 then some (x * y) else none

/-- A `u128` that is a `u64`. -/
def estrecha (x : U128) : Option UInt64 := if x.toNat < 2 ^ 64 then some (u64 x) else none

/-- `campo25519.rs:78–90`. -/
def llevar (a : Fe) : Option Fe := do
  let l1 ← mas a.l1 (a.l0 >>> 51)
  let l0 := a.l0 &&& M
  let l2 ← mas a.l2 (l1 >>> 51)
  let l1 := l1 &&& M
  let l3 ← mas a.l3 (l2 >>> 51)
  let l2 := l2 &&& M
  let l4 ← mas a.l4 (l3 >>> 51)
  let l3 := l3 &&& M
  let c ← por (l4 >>> 51) 19
  let l0 ← mas l0 c
  let l4 := l4 &&& M
  let l1 ← mas l1 (l0 >>> 51)
  let l0 := l0 &&& M
  some ⟨l0, l1, l2, l3, l4⟩

/-- `campo25519.rs:92–99`. -/
def suma (a b : Fe) : Option Fe := do
  let l0 ← mas a.l0 b.l0
  let l1 ← mas a.l1 b.l1
  let l2 ← mas a.l2 b.l2
  let l3 ← mas a.l3 b.l3
  let l4 ← mas a.l4 b.l4
  llevar ⟨l0, l1, l2, l3, l4⟩

/-- `a[i] + DOS_P[i] - b[i]`. -/
def limbo (a p b : UInt64) : Option UInt64 := do
  let s ← mas a p
  menos s b

/-- `campo25519.rs:101–110`. -/
def resta (a b : Fe) : Option Fe := do
  let l0 ← limbo a.l0 DOS_P.l0 b.l0
  let l1 ← limbo a.l1 DOS_P.l1 b.l1
  let l2 ← limbo a.l2 DOS_P.l2 b.l2
  let l3 ← limbo a.l3 DOS_P.l3 b.l3
  let l4 ← limbo a.l4 DOS_P.l4 b.l4
  llevar ⟨l0, l1, l2, l3, l4⟩

/-- Five products, and their sum. -/
def cinco (x0 y0 x1 y1 x2 y2 x3 y3 x4 y4 : U128) : Option U128 := do
  let p0 ← por128 x0 y0
  let p1 ← por128 x1 y1
  let s ← mas128 p0 p1
  let p2 ← por128 x2 y2
  let s ← mas128 s p2
  let p3 ← por128 x3 y3
  let s ← mas128 s p3
  let p4 ← por128 x4 y4
  mas128 s p4

/-- `campo25519.rs:126–137`. -/
def parciales (a b : Fe) : Option (U128 × U128 × U128 × U128 × U128) := do
  let (a0, a1, a2, a3, a4) := (u128 a.l0, u128 a.l1, u128 a.l2, u128 a.l3, u128 a.l4)
  let (b0, b1, b2, b3, b4) := (u128 b.l0, u128 b.l1, u128 b.l2, u128 b.l3, u128 b.l4)
  let b1_19 ← por128 b1 19
  let b2_19 ← por128 b2 19
  let b3_19 ← por128 b3 19
  let b4_19 ← por128 b4 19
  let r0 ← cinco a0 b0 a1 b4_19 a2 b3_19 a3 b2_19 a4 b1_19
  let r1 ← cinco a0 b1 a1 b0 a2 b4_19 a3 b3_19 a4 b2_19
  let r2 ← cinco a0 b2 a1 b1 a2 b0 a3 b4_19 a4 b3_19
  let r3 ← cinco a0 b3 a1 b2 a2 b1 a3 b0 a4 b4_19
  let r4 ← cinco a0 b4 a1 b3 a2 b2 a3 b1 a4 b0
  some (r0, r1, r2, r3, r4)

/-- `campo25519.rs:139–155`. -/
def recoger (r : U128 × U128 × U128 × U128 × U128) : Option Fe := do
  let (r0, r1, r2, r3, r4) := r
  let mm := u128 M
  let t0 ← estrecha (r0 &&& mm)
  let r1 ← mas128 r1 (r0 >>> 51)
  let t1 ← estrecha (r1 &&& mm)
  let r2 ← mas128 r2 (r1 >>> 51)
  let t2 ← estrecha (r2 &&& mm)
  let r3 ← mas128 r3 (r2 >>> 51)
  let t3 ← estrecha (r3 &&& mm)
  let r4 ← mas128 r4 (r3 >>> 51)
  let t4 ← estrecha (r4 &&& mm)
  let c ← estrecha (r4 >>> 51)
  let c ← por c 19
  let t0 ← mas t0 c
  let t1 ← mas t1 (t0 >>> 51)
  some ⟨t0 &&& M, t1, t2, t3, t4⟩

/-- `campo25519.rs:125–156`. -/
def mul (a b : Fe) : Option Fe := do
  let r ← parciales a b
  recoger r

/-- `campo25519.rs:158–160`. -/
def cuadrado (a : Fe) : Option Fe := mul a a

/-- `campo25519.rs:164–170`. -/
def cuadrado_n (a : Fe) : Nat → Option Fe
  | 0 => some a
  | n + 1 => do
    let r ← cuadrado_n a n
    cuadrado r

/-- `cuadrado_n`, and a product. -/
def tanda (a : Fe) (n : Nat) (b : Fe) : Option Fe := do
  let t ← cuadrado_n a n
  mul t b

/-- `campo25519.rs:188–219`. -/
def invertir (a : Fe) : Option Fe := do
  let z2 ← cuadrado a
  let z9 ← tanda z2 2 a
  let z11 ← mul z9 z2
  let z22 ← cuadrado z11
  let z_5_0 ← mul z22 z9
  let z_10_0 ← tanda z_5_0 5 z_5_0
  let z_20_0 ← tanda z_10_0 10 z_10_0
  let z_40_0 ← tanda z_20_0 20 z_20_0
  let z_50_0 ← tanda z_40_0 10 z_10_0
  let z_100_0 ← tanda z_50_0 50 z_50_0
  let z_200_0 ← tanda z_100_0 100 z_100_0
  let z_250_0 ← tanda z_200_0 50 z_50_0
  tanda z_250_0 5 z11

/-- A square, `for _ in 1..n` one more, and a product. -/
def seguidos (a : Fe) (n : Nat) (b : Fe) : Option Fe := do
  let t ← cuadrado a
  tanda t (n - 1) b

/-- `ed25519.rs:132–180`. -/
def pow_p58 (z : Fe) : Option Fe := do
  let t0 ← cuadrado z
  let t1 ← cuadrado t0
  let t1 ← cuadrado t1
  let t1 ← mul z t1
  let t0 ← mul t0 t1
  let t0 ← cuadrado t0
  let t0 ← mul t1 t0
  let t0 ← seguidos t0 5 t0
  let t1 ← seguidos t0 10 t0
  let t1 ← seguidos t1 20 t1
  let t0 ← seguidos t1 10 t0
  let t1 ← seguidos t0 50 t0
  let t1 ← seguidos t1 100 t1
  let t0 ← seguidos t1 50 t0
  let t0 ← cuadrado t0
  let t0 ← cuadrado t0
  mul t0 z

/-- `campo25519.rs:287–293`. -/
def sobra (t : Fe) : Option UInt64 := do
  let q ← mas t.l0 19
  let q ← mas t.l1 (q >>> 51)
  let q ← mas t.l2 (q >>> 51)
  let q ← mas t.l3 (q >>> 51)
  let q ← mas t.l4 (q >>> 51)
  some (q >>> 51)

/-- `campo25519.rs:296–302`. -/
def congelar (t : Fe) (q : UInt64) : Option Fe := do
  let c ← por 19 q
  let l0 ← mas t.l0 c
  let l1 ← mas t.l1 (l0 >>> 51)
  let l2 ← mas t.l2 (l1 >>> 51)
  let l3 ← mas t.l3 (l2 >>> 51)
  let l4 ← mas t.l4 (l3 >>> 51)
  some ⟨l0 &&& M, l1 &&& M, l2 &&& M, l3 &&& M, l4 &&& M⟩

/-- `campo25519.rs:282–331`; what comes after is shifts and masks. -/
def a_bytes (a : Fe) : Option B32 := do
  let t ← llevar a
  let t ← llevar t
  let q ← sobra t
  let t ← congelar t q
  some (empaquetar t)

/-! ### Words that fit -/

theorem mas_eq {x y : UInt64} (h : x.toNat + y.toNat < 2 ^ 64) : mas x y = some (x + y) := if_pos h

theorem menos_eq {x y : UInt64} (h : y.toNat ≤ x.toNat) : menos x y = some (x - y) := if_pos h

theorem por_eq {x y : UInt64} (h : x.toNat * y.toNat < 2 ^ 64) : por x y = some (x * y) := if_pos h

theorem mas128_eq {x y : U128} (h : x.toNat + y.toNat < 2 ^ 128) : mas128 x y = some (x + y) :=
  if_pos h

theorem por128_eq {x y : U128} (h : x.toNat * y.toNat < 2 ^ 128) : por128 x y = some (x * y) :=
  if_pos h

theorem estrecha_eq {x : U128} (h : x.toNat < 2 ^ 64) : estrecha x = some (u64 x) := if_pos h

private theorem mas_shr {x y : UInt64} (h : y.toNat + x.toNat / 2 ^ 51 < 2 ^ 64) :
    mas y (x >>> 51) = some (y + (x >>> 51)) :=
  mas_eq (by rw [toNat_shr]; exact h)

private theorem mas128_shr {x y : U128} (h : y.toNat + x.toNat / 2 ^ 51 < 2 ^ 128) :
    mas128 y (x >>> 51) = some (y + (x >>> 51)) :=
  mas128_eq (by rw [toNat_u128_shr]; exact h)

private theorem estrecha_M (x : U128) : estrecha (x &&& u128 M) = some (u64 (x &&& u128 M)) := by
  have hm : M.toNat = 2 ^ 51 - 1 := rfl
  apply estrecha_eq
  rw [BitVec.toNat_and, toNat_u128, hm, Nat.and_two_pow_sub_one_eq_mod]
  omega

private theorem por_19 {x : UInt64} (h : x.toNat < 2 ^ 59) : por x 19 = some (x * 19) := by
  apply por_eq
  change x.toNat * 19 < _
  omega

/-! ### The operations -/

private theorem llevar_eq {a : Fe} (h : a.Bajo (2 ^ 54)) : llevar a = some (Campo.llevar a) := by
  obtain ⟨h0, h1, h2, h3, h4⟩ := h
  obtain ⟨b1, b2, b3, b4, ⟨hb1, e1⟩, ⟨hb2, e2⟩, ⟨hb3, e3⟩, ⟨hb4, e4⟩⟩ :=
    @acarreos a.l0 a.l1 a.l2 a.l3 a.l4 (by omega) (by omega) (by omega) (by omega)
  have e19 : ((b4 >>> 51) * 19).toNat = b4.toNat / 2 ^ 51 * 19 := by
    rw [UInt64.toNat_mul, toNat_shr]
    change _ * 19 % _ = _
    omega
  obtain ⟨b0, hb0⟩ : ∃ b0, b0 = (a.l0 &&& M) + (b4 >>> 51) * 19 := ⟨_, rfl⟩
  have e0 : b0.toNat = a.l0.toNat % 2 ^ 51 + b4.toNat / 2 ^ 51 * 19 := by
    rw [hb0, UInt64.toNat_add, e19, toNat_M, Nat.mod_eq_of_lt (by omega)]
  have m1 : mas a.l1 (a.l0 >>> 51) = some b1 := by rw [mas_shr (by omega), hb1]
  have m2 : mas a.l2 (b1 >>> 51) = some b2 := by rw [mas_shr (by omega), hb2]
  have m3 : mas a.l3 (b2 >>> 51) = some b3 := by rw [mas_shr (by omega), hb3]
  have m4 : mas a.l4 (b3 >>> 51) = some b4 := by rw [mas_shr (by omega), hb4]
  have mc : por (b4 >>> 51) 19 = some ((b4 >>> 51) * 19) := por_19 (by rw [toNat_shr]; omega)
  have m0 : mas (a.l0 &&& M) ((b4 >>> 51) * 19) = some b0 := by
    rw [mas_eq (by rw [toNat_M, e19]; omega), hb0]
  have m5 : mas (b1 &&& M) (b0 >>> 51) = some ((b1 &&& M) + (b0 >>> 51)) :=
    mas_shr (by rw [toNat_M]; omega)
  unfold llevar
  simp only [m1, m2, m3, m4, mc, m0, m5, Option.bind_eq_bind, Option.bind_some]
  rw [hb0, hb4, hb3, hb2, hb1]
  rfl

theorem suma_eq {a b : Fe} (ha : a.Bajo (2 ^ 51 + 2 ^ 8)) (hb : b.Bajo (2 ^ 51 + 2 ^ 8)) :
    suma a b = some (Campo.suma a b) := by
  obtain ⟨a0, a1, a2, a3, a4⟩ := ha
  obtain ⟨b0, b1, b2, b3, b4⟩ := hb
  have hadd {u v : UInt64} (hu : u.toNat < 2 ^ 51 + 2 ^ 8) (hv : v.toNat < 2 ^ 51 + 2 ^ 8) :
      ∃ s, s = u + v ∧ mas u v = some s ∧ s.toNat < 2 ^ 54 := by
    refine ⟨_, rfl, mas_eq (by omega), ?_⟩
    rw [UInt64.toNat_add, Nat.mod_eq_of_lt (by omega)]
    omega
  obtain ⟨s0, e0, m0, l0⟩ := hadd a0 b0
  obtain ⟨s1, e1, m1, l1⟩ := hadd a1 b1
  obtain ⟨s2, e2, m2, l2⟩ := hadd a2 b2
  obtain ⟨s3, e3, m3, l3⟩ := hadd a3 b3
  obtain ⟨s4, e4, m4, l4⟩ := hadd a4 b4
  have hllevar : llevar ⟨s0, s1, s2, s3, s4⟩ = some (Campo.llevar ⟨s0, s1, s2, s3, s4⟩) :=
    llevar_eq ⟨l0, l1, l2, l3, l4⟩
  unfold suma Campo.suma
  rw [m0, m1, m2, m3, m4, ← e0, ← e1, ← e2, ← e3, ← e4]
  exact hllevar

private theorem resta_eq {a b : Fe} (ha : a.Bajo (2 ^ 51 + 2 ^ 8)) (hb : b.Bajo (2 ^ 51 + 2 ^ 8)) :
    resta a b = some (Campo.resta a b) := by
  obtain ⟨a0, a1, a2, a3, a4⟩ := ha
  obtain ⟨b0, b1, b2, b3, b4⟩ := hb
  have hsub {u w v : UInt64} (hu : u.toNat < 2 ^ 51 + 2 ^ 8) (hv : v.toNat < 2 ^ 51 + 2 ^ 8)
      (hw : 2 ^ 52 - 38 ≤ w.toNat) (hw' : w.toNat < 2 ^ 52) :
      ∃ s, s = u + w - v ∧ limbo u w v = some s ∧ s.toNat < 2 ^ 54 := by
    have hadd : (u + w).toNat = u.toNat + w.toNat := by
      rw [UInt64.toNat_add, Nat.mod_eq_of_lt (by omega)]
    refine ⟨_, rfl, ?_, ?_⟩
    · unfold limbo
      rw [mas_eq (by omega), Option.bind_eq_bind, Option.bind_some, menos_eq (by omega)]
    · rw [UInt64.toNat_sub_of_le _ _ (by rw [UInt64.le_iff_toNat_le, hadd]; omega), hadd]
      omega
  have d0 : DOS_P.l0.toNat = 2 ^ 52 - 38 := rfl
  have d1 : DOS_P.l1.toNat = 2 ^ 52 - 2 := rfl
  have d2 : DOS_P.l2.toNat = 2 ^ 52 - 2 := rfl
  have d3 : DOS_P.l3.toNat = 2 ^ 52 - 2 := rfl
  have d4 : DOS_P.l4.toNat = 2 ^ 52 - 2 := rfl
  obtain ⟨s0, e0, m0, l0⟩ := hsub (w := DOS_P.l0) a0 b0 (by omega) (by omega)
  obtain ⟨s1, e1, m1, l1⟩ := hsub (w := DOS_P.l1) a1 b1 (by omega) (by omega)
  obtain ⟨s2, e2, m2, l2⟩ := hsub (w := DOS_P.l2) a2 b2 (by omega) (by omega)
  obtain ⟨s3, e3, m3, l3⟩ := hsub (w := DOS_P.l3) a3 b3 (by omega) (by omega)
  obtain ⟨s4, e4, m4, l4⟩ := hsub (w := DOS_P.l4) a4 b4 (by omega) (by omega)
  have hllevar : llevar ⟨s0, s1, s2, s3, s4⟩ = some (Campo.llevar ⟨s0, s1, s2, s3, s4⟩) :=
    llevar_eq ⟨l0, l1, l2, l3, l4⟩
  unfold resta Campo.resta
  rw [m0, m1, m2, m3, m4, ← e0, ← e1, ← e2, ← e3, ← e4]
  exact hllevar

/-- Five products that fit together fit each. -/
theorem cinco_eq {x0 y0 x1 y1 x2 y2 x3 y3 x4 y4 : U128}
    (h : x0.toNat * y0.toNat + x1.toNat * y1.toNat + x2.toNat * y2.toNat + x3.toNat * y3.toNat
      + x4.toNat * y4.toNat < 2 ^ 128) :
    cinco x0 y0 x1 y1 x2 y2 x3 y3 x4 y4 =
      some (x0 * y0 + x1 * y1 + x2 * y2 + x3 * y3 + x4 * y4) := by
  have hmul {x y : U128} (h : x.toNat * y.toNat < 2 ^ 128) :
      (x * y).toNat = x.toNat * y.toNat := by
    rw [BitVec.toNat_mul, Nat.mod_eq_of_lt h]
  have hadd {x y : U128} (h : x.toNat + y.toNat < 2 ^ 128) :
      (x + y).toNat = x.toNat + y.toNat := by
    rw [BitVec.toNat_add, Nat.mod_eq_of_lt h]
  have e0 := hmul (x := x0) (y := y0) (by omega)
  have e1 := hmul (x := x1) (y := y1) (by omega)
  have e2 := hmul (x := x2) (y := y2) (by omega)
  have e3 := hmul (x := x3) (y := y3) (by omega)
  have e4 := hmul (x := x4) (y := y4) (by omega)
  have s1 := hadd (x := x0 * y0) (y := x1 * y1) (by omega)
  have s2 := hadd (x := x0 * y0 + x1 * y1) (y := x2 * y2) (by omega)
  have s3 := hadd (x := x0 * y0 + x1 * y1 + x2 * y2) (y := x3 * y3) (by omega)
  unfold cinco
  rw [por128_eq (by omega), por128_eq (by omega), por128_eq (by omega), por128_eq (by omega),
    por128_eq (by omega)]
  simp only [Option.bind_eq_bind, Option.bind_some]
  rw [mas128_eq (by omega), Option.bind_some, mas128_eq (by omega), Option.bind_some,
    mas128_eq (by omega), Option.bind_some, mas128_eq (by omega)]

theorem parciales_eq {a b : Fe} (ha : a.Bajo (2 ^ 51 + 2 ^ 8)) (hb : b.Bajo (2 ^ 51 + 2 ^ 8)) :
    parciales a b = some (Campo.parciales a b) := by
  obtain ⟨h0, h1, h2, h3, h4⟩ := parciales_lt ha hb
  have h19 (x : UInt64) : por128 (u128 x) 19 = some (u128 x * 19) := by
    have hx : x.toNat < 2 ^ 64 := x.toNat_lt
    apply por128_eq
    rw [toNat_u128]
    change _ * 19 < _
    omega
  unfold parciales Campo.parciales
  simp only [h19, Option.bind_eq_bind, Option.bind_some]
  rw [cinco_eq (by simp only [toNat_u128, toNat_u128_19, ← Nat.mul_assoc]; omega),
    cinco_eq (by simp only [toNat_u128, toNat_u128_19, ← Nat.mul_assoc]; omega),
    cinco_eq (by simp only [toNat_u128, toNat_u128_19, ← Nat.mul_assoc]; omega),
    cinco_eq (by simp only [toNat_u128, toNat_u128_19, ← Nat.mul_assoc]; omega),
    cinco_eq (by simp only [toNat_u128]; omega)]
  simp only [Option.bind_some]

theorem recoger_eq {r0 r1 r2 r3 r4 : U128} (h0 : r0.toNat < 2 ^ 110) (h1 : r1.toNat < 2 ^ 110)
    (h2 : r2.toNat < 2 ^ 110) (h3 : r3.toNat < 2 ^ 110) (h4 : r4.toNat < 2 ^ 105) :
    recoger (r0, r1, r2, r3, r4) = some (Campo.recoger (r0, r1, r2, r3, r4)) := by
  obtain ⟨b1, b2, b3, b4, ⟨hb1, e1⟩, ⟨hb2, e2⟩, ⟨hb3, e3⟩, ⟨hb4, e4⟩⟩ :=
    @acarreos128 r0 r1 r2 r3 r4 (by omega) (by omega) (by omega) (by omega)
  have hc : (u64 (b4 >>> 51)).toNat = b4.toNat / 2 ^ 51 := by
    rw [toNat_u64, toNat_u128_shr]
    omega
  have e19 : (u64 (b4 >>> 51) * 19).toNat = b4.toNat / 2 ^ 51 * 19 := by
    rw [UInt64.toNat_mul, hc]
    change _ * 19 % _ = _
    omega
  obtain ⟨t0, ht0⟩ : ∃ t0, t0 = u64 (r0 &&& u128 M) + u64 (b4 >>> 51) * 19 := ⟨_, rfl⟩
  have e0 : t0.toNat = r0.toNat % 2 ^ 51 + b4.toNat / 2 ^ 51 * 19 := by
    rw [ht0, UInt64.toNat_add, e19, toNat_u64_M, Nat.mod_eq_of_lt (by omega)]
  have m1 : mas128 r1 (r0 >>> 51) = some b1 := by rw [mas128_shr (by omega), hb1]
  have m2 : mas128 r2 (b1 >>> 51) = some b2 := by rw [mas128_shr (by omega), hb2]
  have m3 : mas128 r3 (b2 >>> 51) = some b3 := by rw [mas128_shr (by omega), hb3]
  have m4 : mas128 r4 (b3 >>> 51) = some b4 := by rw [mas128_shr (by omega), hb4]
  have mc : estrecha (b4 >>> 51) = some (u64 (b4 >>> 51)) :=
    estrecha_eq (by rw [toNat_u128_shr]; omega)
  have m19 : por (u64 (b4 >>> 51)) 19 = some (u64 (b4 >>> 51) * 19) := por_19 (by omega)
  have m0 : mas (u64 (r0 &&& u128 M)) (u64 (b4 >>> 51) * 19) = some t0 := by
    rw [mas_eq (by rw [toNat_u64_M, e19]; omega), ht0]
  have m5 : mas (u64 (b1 &&& u128 M)) (t0 >>> 51) =
      some (u64 (b1 &&& u128 M) + (t0 >>> 51)) :=
    mas_shr (by rw [toNat_u64_M]; omega)
  unfold recoger Campo.recoger
  simp only [estrecha_M, m1, m2, m3, m4, mc, m19, m0, m5, Option.bind_eq_bind, Option.bind_some]
  rw [ht0, hb4, hb3, hb2, hb1]

private theorem mul_eq {a b : Fe} (ha : a.Bajo (2 ^ 51 + 2 ^ 8)) (hb : b.Bajo (2 ^ 51 + 2 ^ 8)) :
    mul a b = some (Campo.mul a b) := by
  obtain ⟨h0, h1, h2, h3, h4⟩ := parciales_lt ha hb
  obtain ⟨r0, r1, r2, r3, r4, hr, s0, s1, s2, s3, s4⟩ := toNat_parciales ha hb
  unfold mul Campo.mul
  rw [parciales_eq ha hb, hr]
  exact recoger_eq (s0 ▸ h0) (s1 ▸ h1) (s2 ▸ h2) (s3 ▸ h3) (s4 ▸ h4)

/-! ### Chains -/

/-- The bound on the limbs: two to the fifty-one, and two to the eight more. -/
def Cota (a : Fe) : Prop := a.Bajo (2 ^ 51 + 2 ^ 8)

theorem Cota.vale {a : Fe} (h : Cota a) : Vale a a.val := ⟨h, rfl⟩

theorem Cota.mul {a b : Fe} (ha : Cota a) (hb : Cota b) : Cota (Campo.mul a b) :=
  (ha.vale.mul hb.vale).limpio

theorem Cota.cuadrado_n {a : Fe} (h : Cota a) (n : Nat) : Cota (Campo.cuadrado_n a n) :=
  (h.vale.cuadrado_n n).limpio

private theorem cuadrado_n_eq {a : Fe} (h : Cota a) (n : Nat) :
    cuadrado_n a n = some (Campo.cuadrado_n a n) := by
  induction n with
  | zero => rfl
  | succ n ih =>
    unfold cuadrado_n
    rw [ih]
    exact mul_eq (h.cuadrado_n n) (h.cuadrado_n n)

private theorem paso_mul {a b : Fe} (ha : Cota a) (hb : Cota b) :
    ∃ z, z = Campo.mul a b ∧ Cota z ∧ mul a b = some z :=
  ⟨_, rfl, ha.mul hb, mul_eq ha hb⟩

private theorem paso_cuadrado {a : Fe} (ha : Cota a) :
    ∃ z, z = Campo.cuadrado a ∧ Cota z ∧ cuadrado a = some z :=
  paso_mul ha ha

private theorem paso_tanda {a b : Fe} (ha : Cota a) (n : Nat) (hb : Cota b) :
    ∃ z, z = Campo.mul (Campo.cuadrado_n a n) b ∧ Cota z ∧ tanda a n b = some z := by
  refine ⟨_, rfl, (ha.cuadrado_n n).mul hb, ?_⟩
  unfold tanda
  rw [cuadrado_n_eq ha n]
  exact mul_eq (ha.cuadrado_n n) hb

private theorem paso_seguidos {a b : Fe} (ha : Cota a) (n : Nat) (hb : Cota b) :
    ∃ z, z = Campo.mul (Ed25519.seguidos a n) b ∧ Cota z ∧ seguidos a n b = some z := by
  obtain ⟨t, et, ht, qt⟩ := paso_cuadrado ha
  obtain ⟨z, ez, hz, qz⟩ := paso_tanda ht (n - 1) hb
  refine ⟨z, ?_, hz, ?_⟩
  · rw [ez, et, Ed25519.seguidos]
  · unfold seguidos
    rw [qt]
    exact qz

theorem sigue {x : Option Fe} {a w : Fe} {f : Fe → Option Fe} (h : x = some a)
    (h' : f a = some w) : (x >>= f) = some w := by
  rw [h]
  exact h'

private theorem invertir_eq {a : Fe} (ha : Cota a) : invertir a = some (Campo.invertir a) := by
  obtain ⟨z2, e2, h2, q2⟩ := paso_cuadrado ha
  obtain ⟨z9, e9, h9, q9⟩ := paso_tanda h2 2 ha
  obtain ⟨z11, e11, h11, q11⟩ := paso_mul h9 h2
  obtain ⟨z22, e22, h22, q22⟩ := paso_cuadrado h11
  obtain ⟨z_5, e_5, h_5, q_5⟩ := paso_mul h22 h9
  obtain ⟨z_10, e_10, h_10, q_10⟩ := paso_tanda h_5 5 h_5
  obtain ⟨z_20, e_20, h_20, q_20⟩ := paso_tanda h_10 10 h_10
  obtain ⟨z_40, e_40, h_40, q_40⟩ := paso_tanda h_20 20 h_20
  obtain ⟨z_50, e_50, h_50, q_50⟩ := paso_tanda h_40 10 h_10
  obtain ⟨z_100, e_100, h_100, q_100⟩ := paso_tanda h_50 50 h_50
  obtain ⟨z_200, e_200, h_200, q_200⟩ := paso_tanda h_100 100 h_100
  obtain ⟨z_250, e_250, h_250, q_250⟩ := paso_tanda h_200 50 h_50
  obtain ⟨z, e, -, q⟩ := paso_tanda h_250 5 h11
  have heq : Campo.invertir a = z := by
    rw [e, e_250, e_200, e_100, e_50, e_40, e_20, e_10, e_5, e22, e11, e9, e2]
    rfl
  rw [heq]
  exact sigue q2 (sigue q9 (sigue q11 (sigue q22 (sigue q_5 (sigue q_10 (sigue q_20 (sigue q_40
    (sigue q_50 (sigue q_100 (sigue q_200 (sigue q_250 q)))))))))))

private theorem pow_p58_eq {z : Fe} (hz : Cota z) : pow_p58 z = some (Ed25519.pow_p58 z) := by
  obtain ⟨z2, e2, h2, q2⟩ := paso_cuadrado hz
  obtain ⟨z4, e4, h4, q4⟩ := paso_cuadrado h2
  obtain ⟨z8, e8, h8, q8⟩ := paso_cuadrado h4
  obtain ⟨z9, e9, h9, q9⟩ := paso_mul hz h8
  obtain ⟨z11, e11, h11, q11⟩ := paso_mul h2 h9
  obtain ⟨z22, e22, h22, q22⟩ := paso_cuadrado h11
  obtain ⟨z_5, e_5, h_5, q_5⟩ := paso_mul h9 h22
  obtain ⟨z_10, e_10, h_10, q_10⟩ := paso_seguidos h_5 5 h_5
  obtain ⟨z_20, e_20, h_20, q_20⟩ := paso_seguidos h_10 10 h_10
  obtain ⟨z_40, e_40, h_40, q_40⟩ := paso_seguidos h_20 20 h_20
  obtain ⟨z_50, e_50, h_50, q_50⟩ := paso_seguidos h_40 10 h_10
  obtain ⟨z_100, e_100, h_100, q_100⟩ := paso_seguidos h_50 50 h_50
  obtain ⟨z_200, e_200, h_200, q_200⟩ := paso_seguidos h_100 100 h_100
  obtain ⟨z_250, e_250, h_250, q_250⟩ := paso_seguidos h_200 50 h_50
  obtain ⟨z_251, e_251, h_251, q_251⟩ := paso_cuadrado h_250
  obtain ⟨z_252, e_252, h_252, q_252⟩ := paso_cuadrado h_251
  obtain ⟨r, e, -, q⟩ := paso_mul h_252 hz
  have heq : Ed25519.pow_p58 z = r := by
    rw [e, e_252, e_251, e_250, e_200, e_100, e_50, e_40, e_20, e_10, e_5, e22, e11, e9, e8, e4, e2]
    rfl
  rw [heq]
  exact sigue q2 (sigue q4 (sigue q8 (sigue q9 (sigue q11 (sigue q22 (sigue q_5 (sigue q_10
    (sigue q_20 (sigue q_40 (sigue q_50 (sigue q_100 (sigue q_200 (sigue q_250 (sigue q_251
    (sigue q_252 q)))))))))))))))

/-! ### The bytes out -/

theorem mas_carry {x y : UInt64} (h : y.toNat < 2 ^ 52) : mas y (x >>> 51) = some (y + (x >>> 51)) := by
  have hx := x.toNat_lt
  exact mas_shr (by omega)

private theorem sobra_eq {t : Fe} (h : t.Bajo (2 ^ 51)) : sobra t = some (Campo.sobra t) := by
  obtain ⟨h0, h1, h2, h3, h4⟩ := h
  have hq : mas t.l0 19 = some (t.l0 + 19) := by
    apply mas_eq
    change _ + 19 < _
    omega
  unfold sobra Campo.sobra
  rw [hq]
  simp only [Option.bind_eq_bind, Option.bind_some]
  rw [mas_carry (by omega), Option.bind_some, mas_carry (by omega), Option.bind_some,
    mas_carry (by omega), Option.bind_some, mas_carry (by omega), Option.bind_some]

private theorem congelar_eq {t : Fe} (h : t.Bajo (2 ^ 51)) {q : UInt64} (hq : q.toNat ≤ 1) :
    congelar t q = some (Campo.congelar t q) := by
  obtain ⟨h0, h1, h2, h3, h4⟩ := h
  have h19 : (19 * q).toNat = 19 * q.toNat := by
    rw [UInt64.toNat_mul]
    change 19 * _ % _ = _
    omega
  have hc : por 19 q = some (19 * q) := by
    apply por_eq
    change 19 * _ < _
    omega
  have hl0 : mas t.l0 (19 * q) = some (t.l0 + 19 * q) := mas_eq (by rw [h19]; omega)
  unfold congelar Campo.congelar
  rw [hc]
  simp only [Option.bind_eq_bind, Option.bind_some]
  rw [hl0, Option.bind_some, mas_carry (by omega), Option.bind_some, mas_carry (by omega),
    Option.bind_some, mas_carry (by omega), Option.bind_some, mas_carry (by omega),
    Option.bind_some]

private theorem a_bytes_eq {a : Fe} (ha : Cota a) : a_bytes a = some (Campo.a_bytes a) := by
  obtain ⟨a0, a1, a2, a3, a4⟩ := ha
  have h54 : a.Bajo (2 ^ 54) := ⟨by omega, by omega, by omega, by omega, by omega⟩
  obtain ⟨l0, l1, l2, l3, l4⟩ := (llevar_val h54).1
  have h54' : (Campo.llevar a).Bajo (2 ^ 54) :=
    ⟨by omega, by omega, by omega, by omega, by omega⟩
  have h51 := (llevar_llevar_bajo h54).1
  have hq : (Campo.sobra (Campo.llevar (Campo.llevar a))).toNat ≤ 1 := by
    rw [toNat_sobra h51]
    split
    · exact le_rfl
    · exact Nat.zero_le 1
  unfold a_bytes Campo.a_bytes
  simp only [Option.bind_eq_bind]
  rw [llevar_eq h54, Option.bind_some, llevar_eq h54', Option.bind_some, sobra_eq h51,
    Option.bind_some, congelar_eq h51 hq, Option.bind_some]

/-! ### The field -/

/-- A bound on the limbs under which the operations are those of the field, and no word wraps. -/
structure EsCampo (cota : Fe → Prop) : Prop where
  desde_bytes : ∀ b, cota (Campo.desde_bytes b) ∧
    (Campo.desde_bytes b).val ≡ leNat b.toList % 2 ^ 255 [MOD P25519]
  suma : ∀ a b, cota a → cota b → ∃ r, suma a b = some r ∧ r = Campo.suma a b ∧ cota r ∧
    r.val ≡ a.val + b.val [MOD P25519]
  resta : ∀ a b, cota a → cota b → ∃ r, resta a b = some r ∧ r = Campo.resta a b ∧ cota r ∧
    r.val + b.val ≡ a.val [MOD P25519]
  mul : ∀ a b, cota a → cota b → ∃ r, mul a b = some r ∧ r = Campo.mul a b ∧ cota r ∧
    r.val ≡ a.val * b.val [MOD P25519]
  cuadrado : ∀ a, cota a → ∃ r, cuadrado a = some r ∧ r = Campo.cuadrado a ∧ cota r ∧
    r.val ≡ a.val ^ 2 [MOD P25519]
  invertir : ∀ a, cota a → ∃ r, invertir a = some r ∧ r = Campo.invertir a ∧ cota r ∧
    r.val ≡ a.val ^ (P25519 - 2) [MOD P25519] ∧
    (¬ a.val ≡ 0 [MOD P25519] → r.val * a.val ≡ 1 [MOD P25519])
  intercambio : ∀ (c : Bool) a b, cota a → cota b →
    cota (Campo.intercambio (if c then 1 else 0) a b).1 ∧
    cota (Campo.intercambio (if c then 1 else 0) a b).2 ∧
    Campo.intercambio (if c then 1 else 0) a b = if c then (b, a) else (a, b)
  pow_p58 : ∀ a, cota a → ∃ r, pow_p58 a = some r ∧ r = Ed25519.pow_p58 a ∧ cota r ∧
    r.val ≡ a.val ^ ((P25519 - 5) / 8) [MOD P25519]
  a_bytes : ∀ a, cota a → ∃ s, a_bytes a = some s ∧ s = Campo.a_bytes a ∧
    leNat s.toList = a.val % P25519
  a_bytes_inj : ∀ a b, cota a → cota b →
    (Campo.a_bytes a = Campo.a_bytes b ↔ a.val ≡ b.val [MOD P25519])

private theorem modEq_of_cast {m n : Nat} (h : (m : K) = n) : m ≡ n [MOD P25519] :=
  (ZMod.natCast_eq_natCast_iff m n P25519).mp h

/-- **The arithmetic of the field is exact, and no word of it wraps.** -/
theorem campo_exacto : EsCampo Cota where
  desde_bytes b := by
    have h := vale_desde_bytes b
    exact ⟨h.limpio, modEq_of_cast h.en⟩
  suma a b ha hb := by
    have h := ha.vale.suma hb.vale
    exact ⟨_, suma_eq ha hb, rfl, h.limpio, modEq_of_cast (h.en.trans (Nat.cast_add _ _).symm)⟩
  resta a b ha hb := by
    have h := ha.vale.resta hb.vale
    refine ⟨_, resta_eq ha hb, rfl, h.limpio, modEq_of_cast ?_⟩
    rw [Nat.cast_add, h.en, sub_add_cancel]
  mul a b ha hb := by
    have h := ha.vale.mul hb.vale
    exact ⟨_, mul_eq ha hb, rfl, h.limpio, modEq_of_cast (h.en.trans (Nat.cast_mul _ _).symm)⟩
  cuadrado a ha := by
    have h := ha.vale.cuadrado
    exact ⟨_, mul_eq ha ha, rfl, h.limpio, modEq_of_cast (h.en.trans (Nat.cast_pow _ _).symm)⟩
  invertir a ha := by
    have h := ha.vale.invertir
    refine ⟨_, invertir_eq ha, rfl, h.limpio, modEq_of_cast (h.en.trans (Nat.cast_pow _ _).symm),
      fun hno ↦ modEq_of_cast ?_⟩
    have hne : (a.val : K) ≠ 0 := by
      intro hzero
      exact hno (modEq_of_cast (hzero.trans Nat.cast_zero.symm))
    have hexp : P25519 - 2 + 1 = P25519 - 1 := by
      rw [P25519_eq]
      norm_num
    rw [Nat.cast_mul, h.en, ← pow_succ, hexp, ZMod.pow_card_sub_one_eq_one hne, Nat.cast_one]
  intercambio c a b ha hb := by
    rw [intercambio_eq]
    cases c
    · exact ⟨ha, hb, rfl⟩
    · exact ⟨hb, ha, rfl⟩
  pow_p58 a ha := by
    have h := Ed25519.vale_pow_p58 ha.vale
    have hexp : (P25519 - 5) / 8 = 2 ^ 252 - 3 := by
      rw [P25519_eq]
      norm_num
    refine ⟨_, pow_p58_eq ha, rfl, h.limpio, modEq_of_cast ?_⟩
    rw [h.en, Nat.cast_pow, hexp]
  a_bytes a ha := by
    refine ⟨_, a_bytes_eq ha, rfl, ?_⟩
    rw [leNat_a_bytes ha.vale, ZMod.val_natCast]
  a_bytes_inj a b ha hb :=
    (a_bytes_inj ha.vale hb.vale).trans (ZMod.natCast_eq_natCast_iff _ _ P25519)

end BmoX.Cripto.Exacta
