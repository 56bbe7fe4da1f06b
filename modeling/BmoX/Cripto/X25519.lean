import BmoX.Cripto.Rfc7748

/-!
# X25519

`platform/shared/bmo-cripto/src/x25519.rs:51–212`: the clamp, the ladder over limbs and the calls.
The ladder refines the function over exact numbers turn by turn.
-/

namespace BmoX.Cripto.X25519

open BmoX.Base BmoX.Base.Ladder BmoX.Cripto.Campo

/-- The base point, a nine; `x25519.rs:59–63`. -/
def BASE : B32 := (Vector.replicate 32 0).set 0 9 cero_lt_32

/-- `x25519.rs:66`. -/
def A24 : Fe := ⟨121665, 0, 0, 0, 0⟩

/-- The clamp of the scalar, on a copy; `x25519.rs:93–99`. -/
def ajustar (k : B32) : B32 :=
  let e := k.set 0 (getElem k 0 cero_lt_32 &&& 248) cero_lt_32
  let e := e.set 31 (getElem e 31 treintaYUno_lt_32 &&& 127) treintaYUno_lt_32
  e.set 31 (getElem e 31 treintaYUno_lt_32 ||| 64) treintaYUno_lt_32

/-- What the ladder keeps from turn to turn; `x25519.rs:123–128`. -/
structure Pares where
  x2 : Fe
  z2 : Fe
  x3 : Fe
  z3 : Fe
  cambiado : UInt64

/-- The bit `t` of the scalar; `x25519.rs:132`. -/
def bitDe (k : B32) (t : Nat) : UInt64 :=
  ((k.toList.getD (t >>> 3) 0 >>> UInt8.ofNat (t &&& 7)) &&& 1).toUInt64

/-- The two exchanges of a turn, `mascara` the bit that asks for them. -/
def cruzar (mascara : UInt64) (p : Pares) : Pares :=
  let x := intercambio mascara p.x2 p.x3
  let z := intercambio mascara p.z2 p.z3
  { p with x2 := x.1, x3 := x.2, z2 := z.1, z3 := z.2 }

/-- One turn of the ladder; `x25519.rs:131–169`. -/
def vuelta (k : B32) (x1 : Fe) (p : Pares) (t : Nat) : Pares :=
  let bit := bitDe k t
  let p := cruzar (p.cambiado ^^^ bit) p
  let a := suma p.x2 p.z2
  let aa := cuadrado a
  let b := resta p.x2 p.z2
  let bb := cuadrado b
  let e := resta aa bb
  let c := suma p.x3 p.z3
  let d := resta p.x3 p.z3
  let da := mul d a
  let cb := mul c b
  { x3 := cuadrado (suma da cb)
    z3 := mul x1 (cuadrado (resta da cb))
    x2 := mul aa bb
    z2 := mul e (suma aa (mul A24 e))
    cambiado := bit }

/-- The Montgomery ladder; `x25519.rs:122–177`. -/
def escalera (k : B32) (u : Fe) : Fe :=
  let p := (List.range 255).reverse.foldl (vuelta k u) ⟨UNO, CERO, u, UNO, 0⟩
  let p := cruzar p.cambiado p
  mul p.x2 (invertir p.z2)

/-- The multiple of a point by a scalar; `x25519.rs:183–187`. -/
def x25519 (k u : B32) : B32 :=
  let e := ajustar k
  let punto := desde_bytes u
  a_bytes (escalera e punto)

/-- `x25519.rs:194–196`. -/
def secreto_a_publico (secreto : B32) : B32 := x25519 secreto BASE

/-- `x25519.rs:210–212`. -/
def secreto_compartido (mi_secreto su_publica : B32) : B32 := x25519 mi_secreto su_publica

/-! ### The scalar -/

private theorem leNat_ajustar (k : B32) : leNat (ajustar k).toList = Rfc7748.decodeScalar k := by
  have heq : (ajustar k).toList = Rfc7748.clamp k.toList := by
    simp [ajustar, Rfc7748.clamp, Vector.toList_set]
  rw [heq, Rfc7748.leNat_clamp k.length_toList]
  rfl

/-- The bit the ladder reads is the bit of the scalar. -/
theorem bitDe_eq (k : B32) (t : Nat) :
    bitDe k t = if (leNat k.toList).testBit t then 1 else 0 := by
  have hdiv : t >>> 3 = t / 8 := Nat.shiftRight_eq_div_pow t 3
  have hmod : t &&& 7 = t % 8 := Nat.and_two_pow_sub_one_eq_mod t 3
  rw [bitDe, testBit_leNat, hdiv, hmod]
  apply UInt64.toNat_inj.mp
  rw [UInt8.toNat_toUInt64, toNat_shift_and_one _ (Nat.mod_lt t (by decide))]
  cases (k.toList.getD (t / 8) 0).toNat.testBit (t % 8) <;> rfl

/-! ### The ladder -/

/-- The limbs stand for the pairs, and the word for the pending exchange. -/
structure Pares.Vale (p : Pares) (s : State K × Bool) : Prop where
  x2 : Campo.Vale p.x2 s.1.X₂
  z2 : Campo.Vale p.z2 s.1.Z₂
  x3 : Campo.Vale p.x3 s.1.X₃
  z3 : Campo.Vale p.z3 s.1.Z₃
  cambiado : p.cambiado = if s.2 then 1 else 0

private theorem Pares.Vale.cruzar {p : Pares} {s : State K × Bool} (h : p.Vale s) (c : Bool) :
    (cruzar (if c then 1 else 0) p).Vale (State.cswap c s.1, s.2) := by
  rw [X25519.cruzar, intercambio_eq, intercambio_eq]
  cases c with
  | false => exact h
  | true => exact ⟨h.x3, h.z3, h.x2, h.z2, h.cambiado⟩

private theorem vale_a24 : Campo.Vale A24 Rfc7748.a24 :=
  ⟨by constructor <;> decide, by simp [A24, Fe.val, Rfc7748.a24]⟩

/-- A turn over limbs is a turn over exact numbers. -/
theorem Pares.Vale.vuelta {p : Pares} {s : State K × Bool} {k : B32} {x1 : Fe} {u : K}
    (h : p.Vale s) (hu : Campo.Vale x1 u) (t : Nat) :
    (vuelta k x1 p t).Vale (Rfc7748.turn (leNat k.toList) u s t) := by
  have hbit : p.cambiado ^^^ bitDe k t =
      if s.2 ^^ (leNat k.toList).testBit t then 1 else 0 := by
    rw [h.cambiado, bitDe_eq]
    cases s.2 <;> cases (leNat k.toList).testBit t <;> rfl
  have hp := h.cruzar (s.2 ^^ (leNat k.toList).testBit t)
  rw [← hbit] at hp
  have a := hp.x2.suma hp.z2
  have b := hp.x2.resta hp.z2
  have e := a.cuadrado.resta b.cuadrado
  have da := (hp.x3.resta hp.z3).mul a
  have cb := (hp.x3.suma hp.z3).mul b
  exact
    { x2 := a.cuadrado.mul b.cuadrado
      z2 := e.mul (a.cuadrado.suma (vale_a24.mul e))
      x3 := (da.suma cb).cuadrado
      z3 := hu.mul (da.resta cb).cuadrado
      cambiado := bitDe_eq k t }

theorem Pares.Vale.foldl {p : Pares} {s : State K × Bool} {k : B32} {x1 : Fe} {u : K}
    (h : p.Vale s) (hu : Campo.Vale x1 u) (ts : List Nat) :
    (ts.foldl (X25519.vuelta k x1) p).Vale (ts.foldl (Rfc7748.turn (leNat k.toList) u) s) := by
  induction ts generalizing p s with
  | nil => exact h
  | cons t ts ih => exact ih (h.vuelta hu t)

private theorem vale_escalera {k : B32} {x1 : Fe} {u : K} (hu : Campo.Vale x1 u) :
    Campo.Vale (escalera k x1) (Rfc7748.x25519 (leNat k.toList) u) := by
  have hini : (⟨UNO, CERO, x1, UNO, 0⟩ : Pares).Vale (⟨1, 0, u, 1⟩, false) :=
    ⟨vale_uno, vale_cero, hu, vale_uno, rfl⟩
  have hp := hini.foldl (k := k) hu (List.range 255).reverse
  have hfin := hp.cruzar (((List.range 255).reverse.foldl (Rfc7748.turn (leNat k.toList) u)
    (⟨1, 0, u, 1⟩, false)).2)
  rw [← hp.cambiado] at hfin
  exact hfin.x2.mul hfin.z2.invertir

private theorem leNat_x25519 (k u : B32) :
    leNat (x25519 k u).toList =
      (Rfc7748.x25519 (Rfc7748.decodeScalar k) (Rfc7748.decodeU u)).val := by
  have hu : Campo.Vale (desde_bytes u) (Rfc7748.decodeU u) := vale_desde_bytes u
  have h := vale_escalera (k := ajustar k) hu
  rw [leNat_ajustar] at h
  exact leNat_a_bytes h

private theorem x25519_eq (k u : B32) :
    (x25519 k u).toList =
      Rfc7748.encodeU (Rfc7748.x25519 (Rfc7748.decodeScalar k) (Rfc7748.decodeU u)) := by
  have hb := leBytes_leNat (x25519 k u).toList
  rw [Vector.length_toList, leNat_x25519] at hb
  exact hb.symm

private theorem decodeU_x25519 (k u : B32) :
    Rfc7748.decodeU (x25519 k u) = Rfc7748.x25519 (Rfc7748.decodeScalar k) (Rfc7748.decodeU u) := by
  generalize hx : Rfc7748.x25519 (Rfc7748.decodeScalar k) (Rfc7748.decodeU u) = x
  have hlt : x.val < 2 ^ 255 := Nat.lt_trans x.val_lt (by norm_num [P25519])
  rw [Rfc7748.decodeU, leNat_x25519, hx, Nat.mod_eq_of_lt hlt, ZMod.natCast_zmod_val]

private theorem decodeU_BASE : Rfc7748.decodeU BASE = Ladder.u Curva.base := by
  have h : leNat BASE.toList % 2 ^ 255 = 9 := by decide
  rw [Rfc7748.decodeU, h, Curva.u_base]
  rfl

/-- X25519 is the function it says it is, in its canonical form, and two secrets reach one key. -/
theorem x25519_es_diffie_hellman :
    (∀ k u : B32, (x25519 k u).toList =
        Rfc7748.encodeU (Rfc7748.x25519 (Rfc7748.decodeScalar k) (Rfc7748.decodeU u)) ∧
      leNat (x25519 k u).toList < P25519) ∧
    ∀ a b : B32, secreto_compartido a (secreto_a_publico b) =
      secreto_compartido b (secreto_a_publico a) := by
  constructor
  · intro k u
    refine ⟨x25519_eq k u, ?_⟩
    rw [leNat_x25519]
    exact ZMod.val_lt _
  · intro a b
    apply Vector.toList_inj.mp
    rw [secreto_compartido, secreto_compartido, secreto_a_publico, secreto_a_publico, x25519_eq,
      x25519_eq, decodeU_x25519, decodeU_x25519, decodeU_BASE, Rfc7748.x25519_comm]

end BmoX.Cripto.X25519
