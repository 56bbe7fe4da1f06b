import BmoX.Base.Chunks
import BmoX.Base.Pratt

/-!
# Numbers modulo `2^255 - 19`

`platform/shared/bmo-cripto/src/campo25519.rs:51–331`: five limbs of fifty-one bits, carried late.
The words are the code's own and wrap; what is proved is that between reduced inputs none does.

`campo25519.rs` counts modulo `p` and `ed25519.rs` modulo `L`. Both sources take it for granted that
the two are primes; here each has its certificate.
-/

/-! ### The two primes of the curve -/

namespace BmoX.Cripto

open Base.Pratt

/-- The prime of the field (`campo25519.rs:1`). -/
def P25519 : Nat := 2 ^ 255 - 19

/-- The order of the base point (`ed25519.rs:98–103`). -/
def ORDEN25519 : Nat := 2 ^ 252 + 27742317777372353535851937790883648493

/-- The certificates under `p`, its own the last. -/
def certificadosP : List Certificate :=
  [⟨3, 2, [2]⟩, ⟨17, 3, [2, 2, 2, 2]⟩, ⟨7, 3, [2, 3]⟩, ⟨239, 7, [2, 7, 17]⟩, ⟨479, 13, [2, 239]⟩,
   ⟨32573, 2, [2, 2, 17, 479]⟩, ⟨65147, 2, [2, 32573]⟩, ⟨5, 2, [2, 2]⟩, ⟨11, 2, [2, 5]⟩,
   ⟨353, 3, [2, 2, 2, 2, 2, 11]⟩, ⟨29, 2, [2, 2, 7]⟩, ⟨59, 2, [2, 29]⟩,
   ⟨487, 3, [2, 3, 3, 3, 3, 3]⟩, ⟨57467, 2, [2, 59, 487]⟩, ⟨13, 2, [2, 2, 3]⟩,
   ⟨131, 2, [2, 5, 13]⟩, ⟨132049, 26, [2, 2, 2, 2, 3, 3, 7, 131]⟩, ⟨43, 3, [2, 3, 7]⟩,
   ⟨23, 5, [2, 11]⟩, ⟨3727, 3, [2, 3, 3, 3, 3, 23]⟩, ⟨1923133, 2, [2, 2, 3, 43, 3727]⟩,
   ⟨31, 3, [2, 3, 5]⟩, ⟨53, 2, [2, 2, 13]⟩, ⟨107, 2, [2, 53]⟩, ⟨37, 2, [2, 2, 3, 3]⟩,
   ⟨223, 3, [2, 3, 37]⟩, ⟨173, 2, [2, 2, 43]⟩, ⟨4153, 5, [2, 2, 2, 3, 173]⟩, ⟨41, 6, [2, 2, 2, 5]⟩,
   ⟨1723, 3, [2, 3, 7, 41]⟩, ⟨430751, 17, [2, 5, 5, 5, 1723]⟩,
   ⟨31757755568855353, 10, [2, 2, 2, 3, 31, 107, 223, 4153, 430751]⟩, ⟨19, 2, [2, 3, 3]⟩,
   ⟨83, 2, [2, 41]⟩, ⟨9463, 3, [2, 3, 19, 83]⟩, ⟨37853, 2, [2, 2, 9463]⟩, ⟨75707, 2, [2, 37853]⟩,
   ⟨2437, 2, [2, 2, 3, 7, 29]⟩, ⟨97, 5, [2, 2, 2, 2, 2, 3]⟩, ⟨419, 2, [2, 11, 19]⟩,
   ⟨569003, 2, [2, 7, 97, 419]⟩, ⟨2773320623, 5, [2, 2437, 569003]⟩,
   ⟨72106336199, 7, [2, 13, 2773320623]⟩, ⟨47, 5, [2, 23]⟩, ⟨127, 3, [2, 3, 3, 7]⟩,
   ⟨103, 5, [2, 3, 17]⟩, ⟨991, 6, [2, 3, 3, 5, 11]⟩, ⟨8574133, 2, [2, 2, 3, 7, 103, 991]⟩,
   ⟨1919519569386763, 2, [2, 3, 7, 19, 47, 47, 127, 8574133]⟩,
   ⟨75445702479781427272750846543864801, 7, [2, 2, 2, 2, 2, 3, 3, 5, 5, 75707, 72106336199,
      1919519569386763]⟩,
   ⟨74058212732561358302231226437062788676166966415465897661863160754340907, 2, [2, 3, 353,
      57467, 132049, 1923133, 31757755568855353, 75445702479781427272750846543864801]⟩,
   ⟨57896044618658097711785492504343953926634992332820282019728792003956564819949, 2, [2, 2, 3,
      65147, 74058212732561358302231226437062788676166966415465897661863160754340907]⟩]

/-- The certificates under `L` that those of `p` do not have already. -/
def certificadosL : List Certificate :=
  [⟨34123, 2, [2, 3, 11, 11, 47]⟩, ⟨409477, 2, [2, 2, 3, 34123]⟩,
   ⟨14741173, 2, [2, 2, 3, 3, 409477]⟩, ⟨58964693, 2, [2, 2, 14741173]⟩,
   ⟨30703, 3, [2, 3, 7, 17, 43]⟩, ⟨79, 3, [2, 3, 13]⟩, ⟨41081, 3, [2, 2, 2, 5, 13, 79]⟩,
   ⟨82163, 2, [2, 41081]⟩, ⟨67, 2, [2, 3, 11]⟩, ⟨22111, 6, [2, 3, 5, 11, 67]⟩,
   ⟨132667, 5, [2, 3, 22111]⟩, ⟨17231, 13, [2, 5, 1723]⟩, ⟨137849, 3, [2, 2, 2, 17231]⟩,
   ⟨3044861653679985063343, 5, [2, 3, 11, 30703, 82163, 132667, 137849]⟩,
   ⟨198211423230930754013084525763697, 5, [2, 2, 2, 2, 3, 23, 58964693, 3044861653679985063343]⟩,
   ⟨269, 2, [2, 2, 67]⟩, ⟨73, 5, [2, 2, 2, 3, 3]⟩, ⟨307, 5, [2, 3, 3, 17]⟩,
   ⟨113, 3, [2, 2, 2, 2, 7]⟩, ⟨2939, 2, [2, 13, 113]⟩, ⟨5879, 11, [2, 2939]⟩,
   ⟨292386187, 2, [2, 3, 3, 3, 3, 307, 5879]⟩, ⟨213441916511, 13, [2, 5, 73, 292386187]⟩,
   ⟨1361, 3, [2, 2, 2, 2, 5, 17]⟩, ⟨2851, 2, [2, 3, 5, 5, 19]⟩, ⟨3797, 2, [2, 2, 13, 73]⟩,
   ⟨531581, 2, [2, 2, 5, 7, 3797]⟩, ⟨2551, 6, [2, 3, 5, 5, 17]⟩,
   ⟨1224481, 13, [2, 2, 2, 2, 2, 3, 5, 2551]⟩,
   ⟨1257559732178653, 2, [2, 2, 3, 7, 23, 531581, 1224481]⟩,
   ⟨4434155615661930479, 17, [2, 41, 43, 1257559732178653]⟩,
   ⟨172054593956031949258510691, 2, [2, 5, 1361, 2851, 4434155615661930479]⟩,
   ⟨19757330305831588566944191468367130476339, 2, [2, 269, 213441916511,
      172054593956031949258510691]⟩,
   ⟨276602624281642239937218680557139826668747, 2, [2, 7,
      19757330305831588566944191468367130476339]⟩,
   ⟨7237005577332262213973186563042994240857116359379907606001950938285454250989, 2, [2, 2, 3,
      11, 198211423230930754013084525763697, 276602624281642239937218680557139826668747]⟩]

private theorem certificados_valen : check [2] (certificadosP ++ certificadosL) = true := by
  decide +kernel

private theorem P25519_primo : P25519.Prime :=
  prime_of_certified certificados_valen (by decide)

theorem ORDEN25519_primo : ORDEN25519.Prime :=
  prime_of_certified certificados_valen (by decide)

instance : Fact P25519.Prime := ⟨P25519_primo⟩

instance : Fact ORDEN25519.Prime := ⟨ORDEN25519_primo⟩

theorem P25519_eq : P25519 = 2 ^ 255 - 19 := rfl

-- a residue ring is compared by its name, never by counting up to the prime
attribute [irreducible] P25519 ORDEN25519

end BmoX.Cripto

/-! ### Numbers modulo `2^255 - 19` -/

namespace BmoX.Cripto.Campo

open BmoX.Base

/-- Five limbs, `[u64; 5]`; `campo25519.rs:52`. -/
@[ext] structure Fe where
  l0 : UInt64
  l1 : UInt64
  l2 : UInt64
  l3 : UInt64
  l4 : UInt64
deriving DecidableEq

/-- The mask of a limb; `campo25519.rs:55`. -/
def M : UInt64 := ((1 : UInt64) <<< 51) - 1

/-- Twice the prime; `campo25519.rs:65–71`. -/
def DOS_P : Fe := ⟨0xFFFFFFFFFFFDA, 0xFFFFFFFFFFFFE, 0xFFFFFFFFFFFFE, 0xFFFFFFFFFFFFE, 0xFFFFFFFFFFFFE⟩

/-- `campo25519.rs:73`. -/
def CERO : Fe := ⟨0, 0, 0, 0, 0⟩

/-- `campo25519.rs:74`. -/
def UNO : Fe := ⟨1, 0, 0, 0, 0⟩

/-- The limbs in order, what falls out at the top back in at the bottom; `campo25519.rs:78–90`. -/
def llevar (a : Fe) : Fe :=
  let l1 := a.l1 + (a.l0 >>> 51)
  let l0 := a.l0 &&& M
  let l2 := a.l2 + (l1 >>> 51)
  let l1 := l1 &&& M
  let l3 := a.l3 + (l2 >>> 51)
  let l2 := l2 &&& M
  let l4 := a.l4 + (l3 >>> 51)
  let l3 := l3 &&& M
  let l0 := l0 + (l4 >>> 51) * 19
  let l4 := l4 &&& M
  let l1 := l1 + (l0 >>> 51)
  let l0 := l0 &&& M
  ⟨l0, l1, l2, l3, l4⟩

/-- `campo25519.rs:92–99`. -/
def suma (a b : Fe) : Fe :=
  llevar ⟨a.l0 + b.l0, a.l1 + b.l1, a.l2 + b.l2, a.l3 + b.l3, a.l4 + b.l4⟩

/-- `campo25519.rs:101–110`. -/
def resta (a b : Fe) : Fe :=
  llevar ⟨a.l0 + DOS_P.l0 - b.l0, a.l1 + DOS_P.l1 - b.l1, a.l2 + DOS_P.l2 - b.l2,
    a.l3 + DOS_P.l3 - b.l3, a.l4 + DOS_P.l4 - b.l4⟩

/-- `u128`. -/
abbrev U128 := BitVec 128

/-- `x as u128`. -/
def u128 (x : UInt64) : U128 := x.toBitVec.setWidth 128

/-- `x as u64`. -/
def u64 (x : U128) : UInt64 := ⟨x.setWidth 64⟩

/-- The five sums of partial products, before any carry; `campo25519.rs:126–137`. -/
def parciales (a b : Fe) : U128 × U128 × U128 × U128 × U128 :=
  let (a0, a1, a2, a3, a4) := (u128 a.l0, u128 a.l1, u128 a.l2, u128 a.l3, u128 a.l4)
  let (b0, b1, b2, b3, b4) := (u128 b.l0, u128 b.l1, u128 b.l2, u128 b.l3, u128 b.l4)
  let b1_19 := b1 * 19
  let b2_19 := b2 * 19
  let b3_19 := b3 * 19
  let b4_19 := b4 * 19
  (a0 * b0 + a1 * b4_19 + a2 * b3_19 + a3 * b2_19 + a4 * b1_19,
    a0 * b1 + a1 * b0 + a2 * b4_19 + a3 * b3_19 + a4 * b2_19,
    a0 * b2 + a1 * b1 + a2 * b0 + a3 * b4_19 + a4 * b3_19,
    a0 * b3 + a1 * b2 + a2 * b1 + a3 * b0 + a4 * b4_19,
    a0 * b4 + a1 * b3 + a2 * b2 + a3 * b1 + a4 * b0)

/-- The carry of five sums; `campo25519.rs:139–155`. -/
def recoger (r : U128 × U128 × U128 × U128 × U128) : Fe :=
  let (r0, r1, r2, r3, r4) := r
  let mm := u128 M
  let t0 := u64 (r0 &&& mm)
  let r1 := r1 + (r0 >>> 51)
  let t1 := u64 (r1 &&& mm)
  let r2 := r2 + (r1 >>> 51)
  let t2 := u64 (r2 &&& mm)
  let r3 := r3 + (r2 >>> 51)
  let t3 := u64 (r3 &&& mm)
  let r4 := r4 + (r3 >>> 51)
  let t4 := u64 (r4 &&& mm)
  let t0 := t0 + u64 (r4 >>> 51) * 19
  let t1 := t1 + (t0 >>> 51)
  let t0 := t0 &&& M
  ⟨t0, t1, t2, t3, t4⟩

/-- The product; `campo25519.rs:125–156`. -/
def mul (a b : Fe) : Fe := recoger (parciales a b)

/-- `campo25519.rs:158–160`. -/
def cuadrado (a : Fe) : Fe := mul a a

/-- `a` to the power `2^n`; `campo25519.rs:164–170`. -/
def cuadrado_n (a : Fe) : Nat → Fe
  | 0 => a
  | n + 1 => cuadrado (cuadrado_n a n)

/-- `a` to the power `p - 2`; `campo25519.rs:188–219`. -/
def invertir (a : Fe) : Fe :=
  let z2 := cuadrado a
  let z8 := cuadrado_n z2 2
  let z9 := mul z8 a
  let z11 := mul z9 z2
  let z22 := cuadrado z11
  let z_5_0 := mul z22 z9
  let z_10_0 := mul (cuadrado_n z_5_0 5) z_5_0
  let z_20_0 := mul (cuadrado_n z_10_0 10) z_10_0
  let z_40_0 := mul (cuadrado_n z_20_0 20) z_20_0
  let z_50_0 := mul (cuadrado_n z_40_0 10) z_10_0
  let z_100_0 := mul (cuadrado_n z_50_0 50) z_50_0
  let z_200_0 := mul (cuadrado_n z_100_0 100) z_100_0
  let z_250_0 := mul (cuadrado_n z_200_0 50) z_50_0
  mul (cuadrado_n z_250_0 5) z11

/-- One limb of the exchange; `campo25519.rs:237–239`. -/
def cruce (mascara x y : UInt64) : UInt64 × UInt64 :=
  let t := mascara &&& (x ^^^ y)
  (x ^^^ t, y ^^^ t)

/-- `a` and `b` exchanged if `cual` is one; `campo25519.rs:233–241`. -/
def intercambio (cual : UInt64) (a b : Fe) : Fe × Fe :=
  let m := (0 : UInt64) - cual
  let p0 := cruce m a.l0 b.l0
  let p1 := cruce m a.l1 b.l1
  let p2 := cruce m a.l2 b.l2
  let p3 := cruce m a.l3 b.l3
  let p4 := cruce m a.l4 b.l4
  (⟨p0.1, p1.1, p2.1, p3.1, p4.1⟩, ⟨p0.2, p1.2, p2.2, p3.2, p4.2⟩)

/-- `[u8; 32]`. -/
abbrev B32 := Vector UInt8 32

theorem cero_lt_32 : 0 < 32 := by decide

theorem treintaYUno_lt_32 : 31 < 32 := by decide

/-- The word at the byte `i`; `campo25519.rs:251–255`. -/
def palabra (b : B32) (i : Nat) : UInt64 := u64De ((b.toList.drop i).take 8)

/-- The number of thirty-two bytes, the bit 255 dropped; `campo25519.rs:250–264`. -/
def desde_bytes (b : B32) : Fe :=
  ⟨palabra b 0 &&& M, (palabra b 6 >>> 3) &&& M, (palabra b 12 >>> 6) &&& M,
    (palabra b 19 >>> 1) &&& M, (palabra b 24 >>> 12) &&& M⟩

/-- One if the limbs, already in order, make `p` or more; `campo25519.rs:287–293`. -/
def sobra (t : Fe) : UInt64 :=
  let q := (t.l0 + 19) >>> 51
  let q := (t.l1 + q) >>> 51
  let q := (t.l2 + q) >>> 51
  let q := (t.l3 + q) >>> 51
  (t.l4 + q) >>> 51

/-- `p` less if it must be, the bit 255 dropped; `campo25519.rs:296–302`. -/
def congelar (t : Fe) (q : UInt64) : Fe :=
  let l0 := t.l0 + 19 * q
  let l1 := t.l1 + (l0 >>> 51)
  let l0 := l0 &&& M
  let l2 := t.l2 + (l1 >>> 51)
  let l1 := l1 &&& M
  let l3 := t.l3 + (l2 >>> 51)
  let l2 := l2 &&& M
  let l4 := t.l4 + (l3 >>> 51)
  let l3 := l3 &&& M
  ⟨l0, l1, l2, l3, l4 &&& M⟩

/-- The bit accumulator of `a_bytes`, and the bytes written so far; `campo25519.rs:311–314`. -/
structure Salida where
  acc : U128
  bits : Nat
  s : Bytes

/-- `while bits >= 8 && o < 32`; `campo25519.rs:318–323`. -/
def vaciar (e : Salida) : Salida :=
  if e.bits ≥ 8 ∧ e.s.length < 32 then
    vaciar ⟨e.acc >>> 8, e.bits - 8, e.s ++ [(e.acc &&& 0xFF).toNat.toUInt8]⟩
  else e
termination_by e.bits

/-- A limb into the accumulator; `campo25519.rs:315–324`. -/
def meter (e : Salida) (t : UInt64) : Salida :=
  vaciar { e with acc := e.acc ||| (u128 t <<< e.bits), bits := e.bits + 51 }

/-- `while o < 32`; `campo25519.rs:325–329`. -/
def rellenar (acc : U128) (s : Bytes) : Bytes :=
  if s.length < 32 then rellenar (acc >>> 8) (s ++ [(acc &&& 0xFF).toNat.toUInt8]) else s
termination_by 32 - s.length

/-- Five limbs as thirty-two bytes; `campo25519.rs:311–331`. -/
def empaquetar (t : Fe) : B32 :=
  let e := [t.l0, t.l1, t.l2, t.l3, t.l4].foldl meter ⟨0, 0, []⟩
  let s := rellenar e.acc e.s
  Vector.ofFn fun i : Fin 32 ↦ s.getD i 0

/-- The one form of a number, in bytes; `campo25519.rs:282–331`. -/
def a_bytes (a : Fe) : B32 :=
  let t := llevar (llevar a)
  empaquetar (congelar t (sobra t))

/-! ### Words as numbers -/

theorem toNat_M (x : UInt64) : (x &&& M).toNat = x.toNat % 2 ^ 51 := by
  have hm : M.toNat = 2 ^ 51 - 1 := rfl
  rw [UInt64.toNat_and, hm, Nat.and_two_pow_sub_one_eq_mod]

theorem toNat_shr (x : UInt64) : (x >>> 51).toNat = x.toNat / 2 ^ 51 := by
  rw [UInt64.toNat_shiftRight, Nat.shiftRight_eq_div_pow]
  rfl

private theorem toNat_carry {x y : UInt64} (h : y.toNat + x.toNat / 2 ^ 51 < 2 ^ 64) :
    (y + (x >>> 51)).toNat = y.toNat + x.toNat / 2 ^ 51 := by
  rw [UInt64.toNat_add, toNat_shr, Nat.mod_eq_of_lt h]

/-- The number of the limbs. -/
def Fe.val (a : Fe) : Nat :=
  a.l0.toNat + 2 ^ 51 * a.l1.toNat + 2 ^ 102 * a.l2.toNat + 2 ^ 153 * a.l3.toNat
    + 2 ^ 204 * a.l4.toNat

/-- Every limb is below `n`. -/
structure Fe.Bajo (a : Fe) (n : Nat) : Prop where
  h0 : a.l0.toNat < n
  h1 : a.l1.toNat < n
  h2 : a.l2.toNat < n
  h3 : a.l3.toNat < n
  h4 : a.l4.toNat < n

theorem Fe.Bajo.val_lt {a : Fe} (h : a.Bajo (2 ^ 51)) : a.val < 2 ^ 255 := by
  obtain ⟨h0, h1, h2, h3, h4⟩ := h
  rw [Fe.val]
  omega

/-- Every limb in fifty-one bits but the second, which may reach two to the fifty-one. -/
structure Fe.Ordenado (a : Fe) : Prop where
  h0 : a.l0.toNat < 2 ^ 51
  h1 : a.l1.toNat ≤ 2 ^ 51
  h2 : a.l2.toNat < 2 ^ 51
  h3 : a.l3.toNat < 2 ^ 51
  h4 : a.l4.toNat < 2 ^ 51

/-- Each limb with what the one below carries. -/
theorem acarreos {x0 x1 x2 x3 x4 : UInt64} (h1 : x1.toNat < 2 ^ 63) (h2 : x2.toNat < 2 ^ 63)
    (h3 : x3.toNat < 2 ^ 63) (h4 : x4.toNat < 2 ^ 63) : ∃ b1 b2 b3 b4 : UInt64,
      (b1 = x1 + (x0 >>> 51) ∧ b1.toNat = x1.toNat + x0.toNat / 2 ^ 51) ∧
      (b2 = x2 + (b1 >>> 51) ∧ b2.toNat = x2.toNat + b1.toNat / 2 ^ 51) ∧
      (b3 = x3 + (b2 >>> 51) ∧ b3.toNat = x3.toNat + b2.toNat / 2 ^ 51) ∧
      b4 = x4 + (b3 >>> 51) ∧ b4.toNat = x4.toNat + b3.toNat / 2 ^ 51 := by
  have step {x y : UInt64} (hy : y.toNat < 2 ^ 63) :
      (y + (x >>> 51)).toNat = y.toNat + x.toNat / 2 ^ 51 := by
    have hx := x.toNat_lt
    exact toNat_carry (by omega)
  exact ⟨_, _, _, _, ⟨rfl, step h1⟩, ⟨rfl, step h2⟩, ⟨rfl, step h3⟩, rfl, step h4⟩

/-- The limbs of a carry, as numbers: `b1` to `b4` are the limbs with what came from below, and `b0`
the first with what fell out at the top. -/
theorem llevar_limbs {a : Fe} (h : a.Bajo (2 ^ 54)) :
    ∃ b0 b1 b2 b3 b4 : Nat, b1 = a.l1.toNat + a.l0.toNat / 2 ^ 51 ∧
      b2 = a.l2.toNat + b1 / 2 ^ 51 ∧ b3 = a.l3.toNat + b2 / 2 ^ 51 ∧
      b4 = a.l4.toNat + b3 / 2 ^ 51 ∧ b0 = a.l0.toNat % 2 ^ 51 + b4 / 2 ^ 51 * 19 ∧
      (llevar a).l0.toNat = b0 % 2 ^ 51 ∧ (llevar a).l1.toNat = b1 % 2 ^ 51 + b0 / 2 ^ 51 ∧
      (llevar a).l2.toNat = b2 % 2 ^ 51 ∧ (llevar a).l3.toNat = b3 % 2 ^ 51 ∧
      (llevar a).l4.toNat = b4 % 2 ^ 51 := by
  obtain ⟨h0, h1, h2, h3, h4⟩ := h
  obtain ⟨b1, b2, b3, b4, ⟨hb1, e1⟩, ⟨hb2, e2⟩, ⟨hb3, e3⟩, ⟨hb4, e4⟩⟩ :=
    @acarreos a.l0 a.l1 a.l2 a.l3 a.l4 (by omega) (by omega) (by omega) (by omega)
  obtain ⟨b0, hb0⟩ : ∃ b0, b0 = (a.l0 &&& M) + (b4 >>> 51) * 19 := ⟨_, rfl⟩
  have e0 : b0.toNat = a.l0.toNat % 2 ^ 51 + b4.toNat / 2 ^ 51 * 19 := by
    rw [hb0, UInt64.toNat_add, UInt64.toNat_mul, toNat_shr, toNat_M]
    change (_ + _ * 19 % _) % _ = _
    omega
  have eq : llevar a = ⟨b0 &&& M, (b1 &&& M) + (b0 >>> 51), b2 &&& M, b3 &&& M, b4 &&& M⟩ := by
    rw [hb0, hb4, hb3, hb2, hb1]; rfl
  have e5 : ((b1 &&& M) + (b0 >>> 51)).toNat = b1.toNat % 2 ^ 51 + b0.toNat / 2 ^ 51 := by
    rw [toNat_carry (by rw [toNat_M]; omega), toNat_M]
  refine ⟨b0.toNat, b1.toNat, b2.toNat, b3.toNat, b4.toNat, e1, e2, e3, e4, e0, ?_⟩
  simp only [eq, e5, toNat_M, and_self]

/-- The carry takes away a multiple of the prime and leaves the limbs in order. -/
theorem llevar_val {a : Fe} (h : a.Bajo (2 ^ 54)) :
    (llevar a).Ordenado ∧ ∃ c, (llevar a).val + c * (2 ^ 255 - 19) = a.val := by
  rcases llevar_limbs h with ⟨b0, b1, b2, b3, b4, e1, e2, e3, e4, e0, l0, l1, l2, l3, l4⟩
  obtain ⟨h0, h1, h2, h3, h4⟩ := h
  constructor
  · constructor <;> omega
  · refine ⟨b4 / 2 ^ 51, ?_⟩
    rw [Fe.val, Fe.val, l0, l1, l2, l3, l4]
    omega

/-- The field the limbs count in. -/
abbrev K := ZMod P25519

private theorem cast_p : ((2 ^ 255 - 19 : Nat) : K) = 0 := by
  rw [← P25519_eq]
  exact ZMod.natCast_self P25519

private theorem cast_eq_of_add {m n c : Nat} (h : m + c * (2 ^ 255 - 19) = n) : (m : K) = n := by
  rw [← h, Nat.cast_add, Nat.cast_mul, cast_p, mul_zero, add_zero]

/-- The limbs stand for `x`, and have room for one addition or subtraction. -/
structure Vale (a : Fe) (x : K) : Prop where
  limpio : a.Bajo (2 ^ 51 + 2 ^ 8)
  en : (a.val : K) = x

theorem Vale.congr {a : Fe} {x y : K} (h : Vale a x) (e : x = y) : Vale a y := e ▸ h

private theorem vale_llevar {a : Fe} (h : a.Bajo (2 ^ 54)) : Vale (llevar a) a.val := by
  rcases llevar_val h with ⟨⟨h0, h1, h2, h3, h4⟩, c, hc⟩
  exact ⟨⟨by omega, by omega, by omega, by omega, by omega⟩, cast_eq_of_add hc⟩

theorem vale_cero : Vale CERO 0 := ⟨by constructor <;> decide, by simp [CERO, Fe.val]⟩

theorem vale_uno : Vale UNO 1 := ⟨by constructor <;> decide, by simp [UNO, Fe.val]⟩

theorem Vale.suma {a b : Fe} {x y : K} (ha : Vale a x) (hb : Vale b y) :
    Vale (suma a b) (x + y) := by
  obtain ⟨⟨a0, a1, a2, a3, a4⟩, ea⟩ := ha
  obtain ⟨⟨b0, b1, b2, b3, b4⟩, eb⟩ := hb
  have hadd : ∀ u v : UInt64, u.toNat < 2 ^ 51 + 2 ^ 8 → v.toNat < 2 ^ 51 + 2 ^ 8 →
      (u + v).toNat = u.toNat + v.toNat := by
    intro u v hu hv
    rw [UInt64.toNat_add, Nat.mod_eq_of_lt (by omega)]
  have s0 := hadd _ _ a0 b0
  have s1 := hadd _ _ a1 b1
  have s2 := hadd _ _ a2 b2
  have s3 := hadd _ _ a3 b3
  have s4 := hadd _ _ a4 b4
  have h := vale_llevar (a := ⟨a.l0 + b.l0, a.l1 + b.l1, a.l2 + b.l2, a.l3 + b.l3, a.l4 + b.l4⟩)
    (by constructor <;> simp only [s0, s1, s2, s3, s4] <;> omega)
  refine h.congr ?_
  rw [← ea, ← eb, ← Nat.cast_add]
  simp only [Fe.val, s0, s1, s2, s3, s4]
  congr 1
  omega

theorem Vale.resta {a b : Fe} {x y : K} (ha : Vale a x) (hb : Vale b y) :
    Vale (resta a b) (x - y) := by
  obtain ⟨⟨a0, a1, a2, a3, a4⟩, ea⟩ := ha
  obtain ⟨⟨b0, b1, b2, b3, b4⟩, eb⟩ := hb
  have hsub : ∀ u v w : UInt64, u.toNat < 2 ^ 51 + 2 ^ 8 → v.toNat < 2 ^ 51 + 2 ^ 8 →
      2 ^ 52 - 38 ≤ w.toNat → w.toNat < 2 ^ 52 → (u + w - v).toNat = u.toNat + w.toNat - v.toNat := by
    intro u v w hu hv hw hw'
    have hadd : (u + w).toNat = u.toNat + w.toNat := by
      rw [UInt64.toNat_add, Nat.mod_eq_of_lt (by omega)]
    rw [UInt64.toNat_sub_of_le _ _ (by rw [UInt64.le_iff_toNat_le, hadd]; omega), hadd]
  have d0 : DOS_P.l0.toNat = 2 ^ 52 - 38 := rfl
  have d1 : DOS_P.l1.toNat = 2 ^ 52 - 2 := rfl
  have d2 : DOS_P.l2.toNat = 2 ^ 52 - 2 := rfl
  have d3 : DOS_P.l3.toNat = 2 ^ 52 - 2 := rfl
  have d4 : DOS_P.l4.toNat = 2 ^ 52 - 2 := rfl
  have s0 := hsub _ _ DOS_P.l0 a0 b0 (by omega) (by omega)
  have s1 := hsub _ _ DOS_P.l1 a1 b1 (by omega) (by omega)
  have s2 := hsub _ _ DOS_P.l2 a2 b2 (by omega) (by omega)
  have s3 := hsub _ _ DOS_P.l3 a3 b3 (by omega) (by omega)
  have s4 := hsub _ _ DOS_P.l4 a4 b4 (by omega) (by omega)
  have h := vale_llevar (a := ⟨a.l0 + DOS_P.l0 - b.l0, a.l1 + DOS_P.l1 - b.l1,
    a.l2 + DOS_P.l2 - b.l2, a.l3 + DOS_P.l3 - b.l3, a.l4 + DOS_P.l4 - b.l4⟩)
    (by constructor <;> simp only [s0, s1, s2, s3, s4] <;> omega)
  refine h.congr ?_
  rw [← ea, ← eb, eq_sub_iff_add_eq, ← Nat.cast_add]
  symm
  apply cast_eq_of_add (c := 2)
  simp only [Fe.val, s0, s1, s2, s3, s4, d0, d1, d2, d3, d4]
  omega

/-! ### The product -/

theorem toNat_u128 (x : UInt64) : (u128 x).toNat = x.toNat := by
  rw [u128, BitVec.toNat_setWidth, UInt64.toNat_toBitVec, Nat.mod_eq_of_lt]
  exact Nat.lt_trans x.toNat_lt (by decide)

theorem toNat_u64 (x : U128) : (u64 x).toNat = x.toNat % 2 ^ 64 := BitVec.toNat_setWidth ..

theorem toNat_u64_M (x : U128) : (u64 (x &&& u128 M)).toNat = x.toNat % 2 ^ 51 := by
  have hm : M.toNat = 2 ^ 51 - 1 := rfl
  rw [toNat_u64, BitVec.toNat_and, toNat_u128, hm, Nat.and_two_pow_sub_one_eq_mod]
  omega

theorem toNat_u128_shr (x : U128) : (x >>> 51).toNat = x.toNat / 2 ^ 51 := by
  rw [BitVec.toNat_ushiftRight, Nat.shiftRight_eq_div_pow]

private theorem toNat_u128_carry {x y : U128} (h : y.toNat + x.toNat / 2 ^ 51 < 2 ^ 128) :
    (y + (x >>> 51)).toNat = y.toNat + x.toNat / 2 ^ 51 := by
  rw [BitVec.toNat_add, toNat_u128_shr, Nat.mod_eq_of_lt h]

theorem acarreos128 {x0 x1 x2 x3 x4 : U128} (h1 : x1.toNat < 2 ^ 127) (h2 : x2.toNat < 2 ^ 127)
    (h3 : x3.toNat < 2 ^ 127) (h4 : x4.toNat < 2 ^ 127) : ∃ b1 b2 b3 b4 : U128,
      (b1 = x1 + (x0 >>> 51) ∧ b1.toNat = x1.toNat + x0.toNat / 2 ^ 51) ∧
      (b2 = x2 + (b1 >>> 51) ∧ b2.toNat = x2.toNat + b1.toNat / 2 ^ 51) ∧
      (b3 = x3 + (b2 >>> 51) ∧ b3.toNat = x3.toNat + b2.toNat / 2 ^ 51) ∧
      b4 = x4 + (b3 >>> 51) ∧ b4.toNat = x4.toNat + b3.toNat / 2 ^ 51 := by
  have step {x y : U128} (hy : y.toNat < 2 ^ 127) :
      (y + (x >>> 51)).toNat = y.toNat + x.toNat / 2 ^ 51 := by
    have hx := x.isLt
    exact toNat_u128_carry (by omega)
  exact ⟨_, _, _, _, ⟨rfl, step h1⟩, ⟨rfl, step h2⟩, ⟨rfl, step h3⟩, rfl, step h4⟩

/-- Five sums below `2^110` are gathered without losing a carry. -/
theorem vale_recoger {r0 r1 r2 r3 r4 : U128} (h0 : r0.toNat < 2 ^ 110) (h1 : r1.toNat < 2 ^ 110)
    (h2 : r2.toNat < 2 ^ 110) (h3 : r3.toNat < 2 ^ 110) (h4 : r4.toNat < 2 ^ 105) :
    Vale (recoger (r0, r1, r2, r3, r4)) (r0.toNat + 2 ^ 51 * r1.toNat + 2 ^ 102 * r2.toNat
      + 2 ^ 153 * r3.toNat + 2 ^ 204 * r4.toNat : Nat) := by
  obtain ⟨b1, b2, b3, b4, ⟨hb1, e1⟩, ⟨hb2, e2⟩, ⟨hb3, e3⟩, ⟨hb4, e4⟩⟩ :=
    @acarreos128 r0 r1 r2 r3 r4 (by omega) (by omega) (by omega) (by omega)
  obtain ⟨t0, ht0⟩ : ∃ t0, t0 = u64 (r0 &&& u128 M) + u64 (b4 >>> 51) * 19 := ⟨_, rfl⟩
  have e0 : t0.toNat = r0.toNat % 2 ^ 51 + b4.toNat / 2 ^ 51 * 19 := by
    rw [ht0, UInt64.toNat_add, UInt64.toNat_mul, toNat_u64_M, toNat_u64, toNat_u128_shr]
    change (_ + _ % _ * 19 % _) % _ = _
    omega
  have eq : recoger (r0, r1, r2, r3, r4) = ⟨t0 &&& M, u64 (b1 &&& u128 M) + (t0 >>> 51),
      u64 (b2 &&& u128 M), u64 (b3 &&& u128 M), u64 (b4 &&& u128 M)⟩ := by
    rw [ht0, hb4, hb3, hb2, hb1]; rfl
  have e5 : (u64 (b1 &&& u128 M) + (t0 >>> 51)).toNat = b1.toNat % 2 ^ 51 + t0.toNat / 2 ^ 51 := by
    rw [toNat_carry (by rw [toNat_u64_M]; omega), toNat_u64_M]
  rw [eq]
  constructor
  · constructor <;> simp only [toNat_M, toNat_u64_M, e5] <;> omega
  · apply cast_eq_of_add (c := b4.toNat / 2 ^ 51)
    simp only [Fe.val, toNat_M, toNat_u64_M, e5]
    omega

private theorem toNat_suma5 (x0 y0 x1 y1 x2 y2 x3 y3 x4 y4 : U128)
    (h : x0.toNat * y0.toNat + x1.toNat * y1.toNat + x2.toNat * y2.toNat + x3.toNat * y3.toNat
      + x4.toNat * y4.toNat < 2 ^ 128) :
    (x0 * y0 + x1 * y1 + x2 * y2 + x3 * y3 + x4 * y4).toNat =
      x0.toNat * y0.toNat + x1.toNat * y1.toNat + x2.toNat * y2.toNat + x3.toNat * y3.toNat
      + x4.toNat * y4.toNat := by
  simp only [BitVec.toNat_add, BitVec.toNat_mul, Nat.add_mod_mod, Nat.mod_add_mod]
  exact Nat.mod_eq_of_lt h

theorem toNat_u128_19 (x : UInt64) : (u128 x * 19).toNat = x.toNat * 19 := by
  have hx : x.toNat < 2 ^ 64 := x.toNat_lt
  rw [BitVec.toNat_mul, toNat_u128]
  exact Nat.mod_eq_of_lt (by change _ * 19 < _; omega)

private theorem hprimo : 2 ^ 255 - 19 =
    57896044618658097711785492504343953926634992332820282019728792003956564819949 := by decide

/-- Between limbs with room, the five sums of products stay far below their width. -/
theorem parciales_lt {a b : Fe} (ha : a.Bajo (2 ^ 51 + 2 ^ 8)) (hb : b.Bajo (2 ^ 51 + 2 ^ 8)) :
    a.l0.toNat * b.l0.toNat + a.l1.toNat * b.l4.toNat * 19 + a.l2.toNat * b.l3.toNat * 19
        + a.l3.toNat * b.l2.toNat * 19 + a.l4.toNat * b.l1.toNat * 19 < 2 ^ 110 ∧
      a.l0.toNat * b.l1.toNat + a.l1.toNat * b.l0.toNat + a.l2.toNat * b.l4.toNat * 19
        + a.l3.toNat * b.l3.toNat * 19 + a.l4.toNat * b.l2.toNat * 19 < 2 ^ 110 ∧
      a.l0.toNat * b.l2.toNat + a.l1.toNat * b.l1.toNat + a.l2.toNat * b.l0.toNat
        + a.l3.toNat * b.l4.toNat * 19 + a.l4.toNat * b.l3.toNat * 19 < 2 ^ 110 ∧
      a.l0.toNat * b.l3.toNat + a.l1.toNat * b.l2.toNat + a.l2.toNat * b.l1.toNat
        + a.l3.toNat * b.l0.toNat + a.l4.toNat * b.l4.toNat * 19 < 2 ^ 110 ∧
      a.l0.toNat * b.l4.toNat + a.l1.toNat * b.l3.toNat + a.l2.toNat * b.l2.toNat
        + a.l3.toNat * b.l1.toNat + a.l4.toNat * b.l0.toNat < 2 ^ 105 := by
  obtain ⟨a0, a1, a2, a3, a4⟩ := ha
  obtain ⟨b0, b1, b2, b3, b4⟩ := hb
  have hle : ∀ {u v : Nat}, u < 2 ^ 51 + 2 ^ 8 → v < 2 ^ 51 + 2 ^ 8 →
      u * v ≤ (2 ^ 51 + 2 ^ 8) * (2 ^ 51 + 2 ^ 8) := fun hu hv ↦ Nat.mul_le_mul hu.le hv.le
  have p00 := hle a0 b0; have p01 := hle a0 b1; have p02 := hle a0 b2; have p03 := hle a0 b3
  have p04 := hle a0 b4; have p10 := hle a1 b0; have p11 := hle a1 b1; have p12 := hle a1 b2
  have p13 := hle a1 b3; have p14 := hle a1 b4; have p20 := hle a2 b0; have p21 := hle a2 b1
  have p22 := hle a2 b2; have p23 := hle a2 b3; have p24 := hle a2 b4; have p30 := hle a3 b0
  have p31 := hle a3 b1; have p32 := hle a3 b2; have p33 := hle a3 b3; have p34 := hle a3 b4
  have p40 := hle a4 b0; have p41 := hle a4 b1; have p42 := hle a4 b2; have p43 := hle a4 b3
  have p44 := hle a4 b4
  refine ⟨?_, ?_, ?_, ?_, ?_⟩
  · omega
  · omega
  · omega
  · omega
  · omega

/-- The five sums of products, as numbers. -/
theorem toNat_parciales {a b : Fe} (ha : a.Bajo (2 ^ 51 + 2 ^ 8)) (hb : b.Bajo (2 ^ 51 + 2 ^ 8)) :
    ∃ r0 r1 r2 r3 r4 : U128, parciales a b = (r0, r1, r2, r3, r4) ∧
      r0.toNat = a.l0.toNat * b.l0.toNat + a.l1.toNat * b.l4.toNat * 19
        + a.l2.toNat * b.l3.toNat * 19 + a.l3.toNat * b.l2.toNat * 19
        + a.l4.toNat * b.l1.toNat * 19 ∧
      r1.toNat = a.l0.toNat * b.l1.toNat + a.l1.toNat * b.l0.toNat + a.l2.toNat * b.l4.toNat * 19
        + a.l3.toNat * b.l3.toNat * 19 + a.l4.toNat * b.l2.toNat * 19 ∧
      r2.toNat = a.l0.toNat * b.l2.toNat + a.l1.toNat * b.l1.toNat + a.l2.toNat * b.l0.toNat
        + a.l3.toNat * b.l4.toNat * 19 + a.l4.toNat * b.l3.toNat * 19 ∧
      r3.toNat = a.l0.toNat * b.l3.toNat + a.l1.toNat * b.l2.toNat + a.l2.toNat * b.l1.toNat
        + a.l3.toNat * b.l0.toNat + a.l4.toNat * b.l4.toNat * 19 ∧
      r4.toNat = a.l0.toNat * b.l4.toNat + a.l1.toNat * b.l3.toNat + a.l2.toNat * b.l2.toNat
        + a.l3.toNat * b.l1.toNat + a.l4.toNat * b.l0.toNat := by
  obtain ⟨h0, h1, h2, h3, h4⟩ := parciales_lt ha hb
  have s0 := toNat_suma5 (u128 a.l0) (u128 b.l0) (u128 a.l1) (u128 b.l4 * 19) (u128 a.l2) (u128
    b.l3 * 19) (u128 a.l3) (u128 b.l2 * 19) (u128 a.l4) (u128 b.l1 * 19)
    (by simp only [toNat_u128, toNat_u128_19, ← Nat.mul_assoc]; omega)
  have s1 := toNat_suma5 (u128 a.l0) (u128 b.l1) (u128 a.l1) (u128 b.l0) (u128 a.l2) (u128 b.l4
    * 19) (u128 a.l3) (u128 b.l3 * 19) (u128 a.l4) (u128 b.l2 * 19)
    (by simp only [toNat_u128, toNat_u128_19, ← Nat.mul_assoc]; omega)
  have s2 := toNat_suma5 (u128 a.l0) (u128 b.l2) (u128 a.l1) (u128 b.l1) (u128 a.l2) (u128 b.l0)
    (u128 a.l3) (u128 b.l4 * 19) (u128 a.l4) (u128 b.l3 * 19)
    (by simp only [toNat_u128, toNat_u128_19, ← Nat.mul_assoc]; omega)
  have s3 := toNat_suma5 (u128 a.l0) (u128 b.l3) (u128 a.l1) (u128 b.l2) (u128 a.l2) (u128 b.l1)
    (u128 a.l3) (u128 b.l0) (u128 a.l4) (u128 b.l4 * 19)
    (by simp only [toNat_u128, toNat_u128_19, ← Nat.mul_assoc]; omega)
  have s4 := toNat_suma5 (u128 a.l0) (u128 b.l4) (u128 a.l1) (u128 b.l3) (u128 a.l2) (u128 b.l2)
    (u128 a.l3) (u128 b.l1) (u128 a.l4) (u128 b.l0)
    (by simp only [toNat_u128]; omega)
  simp only [toNat_u128, toNat_u128_19, ← Nat.mul_assoc] at s0 s1 s2 s3 s4
  exact ⟨_, _, _, _, _, rfl, s0, s1, s2, s3, s4⟩

theorem Vale.mul {a b : Fe} {x y : K} (ha : Vale a x) (hb : Vale b y) : Vale (mul a b) (x * y) := by
  obtain ⟨h0, h1, h2, h3, h4⟩ := parciales_lt ha.limpio hb.limpio
  obtain ⟨r0, r1, r2, r3, r4, hr, s0, s1, s2, s3, s4⟩ := toNat_parciales ha.limpio hb.limpio
  have h := vale_recoger (by rw [s0]; exact h0) (by rw [s1]; exact h1) (by rw [s2]; exact h2)
    (by rw [s3]; exact h3) (by rw [s4]; exact h4)
  rw [Campo.mul, hr]
  refine Vale.congr h ?_
  rw [← ha.en, ← hb.en, ← Nat.cast_mul, s0, s1, s2, s3, s4]
  -- the products that fall beyond the fifth limb
  apply cast_eq_of_add (c := (a.l1.toNat * b.l4.toNat + a.l2.toNat * b.l3.toNat
      + a.l3.toNat * b.l2.toNat + a.l4.toNat * b.l1.toNat)
    + 2 ^ 51 * (a.l2.toNat * b.l4.toNat + a.l3.toNat * b.l3.toNat + a.l4.toNat * b.l2.toNat)
    + 2 ^ 102 * (a.l3.toNat * b.l4.toNat + a.l4.toNat * b.l3.toNat)
    + 2 ^ 153 * (a.l4.toNat * b.l4.toNat))
  rw [Fe.val, Fe.val, hprimo]
  ring

theorem Vale.cuadrado {a : Fe} {x : K} (h : Vale a x) : Vale (cuadrado a) (x ^ 2) :=
  (h.mul h).congr (pow_two x).symm

theorem Vale.cuadrado_n {a : Fe} {x : K} (h : Vale a x) (n : Nat) :
    Vale (cuadrado_n a n) (x ^ 2 ^ n) := by
  induction n with
  | zero => exact h.congr (by rw [pow_zero, pow_one])
  | succ n ih => exact ih.cuadrado.congr (by rw [← pow_mul, pow_succ])

theorem Vale.mul_pow {a b : Fe} {x : K} {m n r : Nat} (ha : Vale a (x ^ m)) (hb : Vale b (x ^ n))
    (e : m + n = r) : Vale (Campo.mul a b) (x ^ r) :=
  (ha.mul hb).congr (by rw [← pow_add, e])

theorem Vale.tanda {a b : Fe} {x : K} {m k r : Nat} (ha : Vale a (x ^ m)) (hb : Vale b (x ^ k))
    (n : Nat) (e : m * 2 ^ n + k = r) : Vale (Campo.mul (Campo.cuadrado_n a n) b) (x ^ r) :=
  ((ha.cuadrado_n n).mul hb).congr (by rw [← pow_mul, ← pow_add, e])

/-- The chain reaches the exponent `p - 2`. -/
theorem Vale.invertir {a : Fe} {x : K} (h : Vale a x) : Vale (invertir a) (x ^ (P25519 - 2)) := by
  have z1 : Vale a (x ^ 1) := h.congr (pow_one x).symm
  have z2 : Vale _ (x ^ 2) := h.cuadrado
  have z9 : Vale _ (x ^ 9) := z2.tanda z1 2 (by norm_num)
  have z11 : Vale _ (x ^ 11) := z9.mul_pow z2 (by norm_num)
  have z_5_0 : Vale _ (x ^ (2 ^ 5 - 1)) := (z11.mul_pow z11 rfl).mul_pow z9 (by norm_num)
  have z_10_0 : Vale _ (x ^ (2 ^ 10 - 1)) := z_5_0.tanda z_5_0 5 (by norm_num)
  have z_20_0 : Vale _ (x ^ (2 ^ 20 - 1)) := z_10_0.tanda z_10_0 10 (by norm_num)
  have z_40_0 : Vale _ (x ^ (2 ^ 40 - 1)) := z_20_0.tanda z_20_0 20 (by norm_num)
  have z_50_0 : Vale _ (x ^ (2 ^ 50 - 1)) := z_40_0.tanda z_10_0 10 (by norm_num)
  have z_100_0 : Vale _ (x ^ (2 ^ 100 - 1)) := z_50_0.tanda z_50_0 50 (by norm_num)
  have z_200_0 : Vale _ (x ^ (2 ^ 200 - 1)) := z_100_0.tanda z_100_0 100 (by norm_num)
  have z_250_0 : Vale _ (x ^ (2 ^ 250 - 1)) := z_200_0.tanda z_50_0 50 (by norm_num)
  exact z_250_0.tanda z11 5 (by norm_num [P25519_eq])

/-! ### The exchange -/

private theorem cruce_cero (x y : UInt64) : cruce 0 x y = (x, y) := by
  simp [cruce]

private theorem cruce_uno (x y : UInt64) : cruce (-1) x y = (y, x) := by
  have hx : x ^^^ (x ^^^ y) = y := by rw [← UInt64.xor_assoc, UInt64.xor_self, UInt64.zero_xor]
  have hy : y ^^^ (x ^^^ y) = x := by
    rw [UInt64.xor_comm x y, ← UInt64.xor_assoc, UInt64.xor_self, UInt64.zero_xor]
  rw [cruce, UInt64.neg_one_and, hx, hy]

theorem intercambio_eq (c : Bool) (a b : Fe) :
    intercambio (if c then 1 else 0) a b = if c then (b, a) else (a, b) := by
  cases c <;> simp [intercambio, cruce_cero, cruce_uno]

/-! ### The bytes in -/

theorem leNat_b32_lt (b : B32) : leNat b.toList < 2 ^ 256 := by
  have h := leNat_lt b.toList
  rw [b.length_toList] at h
  exact h

theorem b32_inj {a b : B32} (h : leNat a.toList = leNat b.toList) : a = b := by
  apply Vector.toList_inj.mp
  apply leNat_inj (a.length_toList.trans b.length_toList.symm) h

private theorem toNat_palabra (b : B32) (i : Nat) :
    (palabra b i).toNat = leNat b.toList / 256 ^ i % 2 ^ 64 := by
  rw [palabra, u64De, UInt64.toNat_ofNat', leNat_take, leNat_drop]
  exact Nat.mod_mod _ _

/-- The limbs of thirty-two bytes are their number without the bit 255. -/
theorem vale_desde_bytes (b : B32) : Vale (desde_bytes b) (leNat b.toList % 2 ^ 255 : Nat) := by
  have hs : ∀ (x : UInt64) (k : UInt64), k.toNat < 64 →
      (x >>> k).toNat = x.toNat / 2 ^ k.toNat := by
    intro x k hk
    rw [UInt64.toNat_shiftRight, Nat.mod_eq_of_lt hk, Nat.shiftRight_eq_div_pow]
  have s1 := hs (palabra b 6) 3 (by decide)
  have s2 := hs (palabra b 12) 6 (by decide)
  have s3 := hs (palabra b 19) 1 (by decide)
  have s4 := hs (palabra b 24) 12 (by decide)
  constructor
  · constructor <;> simp only [desde_bytes, toNat_M] <;> omega
  · congr 1
    simp only [Fe.val, desde_bytes, toNat_M, s1, s2, s3, s4, toNat_palabra]
    generalize leNat b.toList = n
    change n / 1 % _ % _ + _ * (n / 2 ^ 48 % _ / 2 ^ 3 % _) + _ * (n / 2 ^ 96 % _ / 2 ^ 6 % _)
      + _ * (n / 2 ^ 152 % _ / 2 ^ 1 % _) + _ * (n / 2 ^ 192 % _ / 2 ^ 12 % _) = _
    omega

/-! ### The bytes out -/

/-- Twice carried, every limb is in fifty-one bits. -/
theorem llevar_llevar_bajo {a : Fe} (h : a.Bajo (2 ^ 54)) :
    (llevar (llevar a)).Bajo (2 ^ 51) ∧
      ∃ c, (llevar (llevar a)).val + c * (2 ^ 255 - 19) = a.val := by
  obtain ⟨⟨h0, h1, h2, h3, h4⟩, c, hc⟩ := llevar_val h
  have ht : (llevar a).Bajo (2 ^ 54) := ⟨by omega, by omega, by omega, by omega, by omega⟩
  obtain ⟨-, d, hd⟩ := llevar_val ht
  rcases llevar_limbs ht with ⟨b0, b1, b2, b3, b4, e1, e2, e3, e4, e0, l0, l1, l2, l3, l4⟩
  constructor
  · constructor <;> omega
  · exact ⟨d + c, by rw [Nat.add_mul, ← Nat.add_assoc, hd, hc]⟩

/-- The bit of `sobra` says whether the prime fits. -/
theorem toNat_sobra {t : Fe} (h : t.Bajo (2 ^ 51)) :
    (sobra t).toNat = if 2 ^ 255 - 19 ≤ t.val then 1 else 0 := by
  obtain ⟨h0, h1, h2, h3, h4⟩ := h
  obtain ⟨q0, hq0⟩ : ∃ q, q = (t.l0 + 19) >>> 51 := ⟨_, rfl⟩
  have e0 : q0.toNat = (t.l0.toNat + 19) / 2 ^ 51 := by
    rw [hq0, toNat_shr, UInt64.toNat_add]
    change (_ + 19) % _ / _ = _
    omega
  have step : ∀ (l q : UInt64), l.toNat < 2 ^ 51 → q.toNat ≤ 1 →
      ((l + q) >>> 51).toNat = (l.toNat + q.toNat) / 2 ^ 51 := by
    intro l q hl hq
    rw [toNat_shr, UInt64.toNat_add, Nat.mod_eq_of_lt (by omega)]
  obtain ⟨q1, hq1⟩ : ∃ q, q = (t.l1 + q0) >>> 51 := ⟨_, rfl⟩
  obtain ⟨q2, hq2⟩ : ∃ q, q = (t.l2 + q1) >>> 51 := ⟨_, rfl⟩
  obtain ⟨q3, hq3⟩ : ∃ q, q = (t.l3 + q2) >>> 51 := ⟨_, rfl⟩
  have e1 : q1.toNat = (t.l1.toNat + q0.toNat) / 2 ^ 51 := by rw [hq1, step _ _ h1 (by omega)]
  have e2 : q2.toNat = (t.l2.toNat + q1.toNat) / 2 ^ 51 := by rw [hq2, step _ _ h2 (by omega)]
  have e3 : q3.toNat = (t.l3.toNat + q2.toNat) / 2 ^ 51 := by rw [hq3, step _ _ h3 (by omega)]
  have heq : sobra t = (t.l4 + q3) >>> 51 := by rw [hq3, hq2, hq1, hq0]; rfl
  rw [heq, step _ _ h4 (by omega), Fe.val]
  split <;> omega

/-- Ordered limbs lose the prime where it fits, and nothing else. -/
theorem congelar_val {t : Fe} (h : t.Bajo (2 ^ 51)) :
    (congelar t (sobra t)).Bajo (2 ^ 51) ∧
      (congelar t (sobra t)).val = t.val % (2 ^ 255 - 19) := by
  have hq := toNat_sobra h
  generalize sobra t = q at *
  have hq1 : q.toNat ≤ 1 := by split at hq <;> omega
  have hvlt := h.val_lt
  obtain ⟨h0, h1, h2, h3, h4⟩ := h
  obtain ⟨b0, hb0⟩ : ∃ b0, b0 = t.l0 + 19 * q := ⟨_, rfl⟩
  have e0 : b0.toNat = t.l0.toNat + 19 * q.toNat := by
    rw [hb0, UInt64.toNat_add, UInt64.toNat_mul]
    change (_ + 19 * _ % _) % _ = _
    omega
  obtain ⟨b1, b2, b3, b4, ⟨hb1, e1⟩, ⟨hb2, e2⟩, ⟨hb3, e3⟩, ⟨hb4, e4⟩⟩ :=
    @acarreos b0 t.l1 t.l2 t.l3 t.l4 (by omega) (by omega) (by omega) (by omega)
  have eq : congelar t q = ⟨b0 &&& M, b1 &&& M, b2 &&& M, b3 &&& M, b4 &&& M⟩ := by
    rw [hb4, hb3, hb2, hb1, hb0]; rfl
  have hbajo : (congelar t q).Bajo (2 ^ 51) := by
    rw [eq]
    constructor <;> simp only [toNat_M] <;> omega
  refine ⟨hbajo, ?_⟩
  have hsum : (congelar t q).val + 2 ^ 255 * (b4.toNat / 2 ^ 51) = t.val + 19 * q.toNat := by
    rw [eq]
    simp only [Fe.val, toNat_M]
    omega
  have hlt := hbajo.val_lt
  rcases Nat.lt_or_ge t.val (2 ^ 255 - 19) with hsm | hge
  · rw [if_neg (Nat.not_le.mpr hsm)] at hq
    rw [Nat.mod_eq_of_lt hsm]
    omega
  · rw [if_pos hge] at hq
    have hmod := Nat.mod_eq_sub_mod hge
    rw [Nat.mod_eq_of_lt (a := t.val - _) (by omega)] at hmod
    omega

/-- The bytes written and the accumulator above them make the number `v`. -/
structure Salida.Lleva (e : Salida) (v : Nat) : Prop where
  val : leNat e.s + 256 ^ e.s.length * e.acc.toNat = v
  lt : e.acc.toNat < 2 ^ e.bits

/-- The bits seen so far. -/
def Salida.total (e : Salida) : Nat := 8 * e.s.length + e.bits

private theorem toNat_byte (x : U128) : ((x &&& 0xFF).toNat.toUInt8).toNat = x.toNat % 256 := by
  have hm : (0xFF : U128).toNat = 2 ^ 8 - 1 := rfl
  rw [BitVec.toNat_and, hm, Nat.and_two_pow_sub_one_eq_mod]
  exact Nat.mod_mod _ _

private theorem toNat_shr8 (x : U128) : (x >>> 8).toNat = x.toNat / 256 := by
  rw [BitVec.toNat_ushiftRight, Nat.shiftRight_eq_div_pow]

private theorem leNat_push (s : Bytes) (x : U128) :
    leNat (s ++ [(x &&& 0xFF).toNat.toUInt8]) +
        256 ^ (s ++ [(x &&& 0xFF).toNat.toUInt8]).length * (x >>> 8).toNat =
      leNat s + 256 ^ s.length * x.toNat := by
  have hx := Nat.div_add_mod x.toNat 256
  rw [leNat_append, leNat, leNat, toNat_byte, toNat_shr8, List.length_append, List.length_singleton,
    Nat.pow_succ, Nat.mul_zero, Nat.add_zero]
  calc _ = leNat s + 256 ^ s.length * (256 * (x.toNat / 256) + x.toNat % 256) := by ring
    _ = _ := by rw [hx]

private theorem vaciar_lleva (e : Salida) {v : Nat} (h : e.Lleva v) (ht : e.total ≤ 255) :
    (vaciar e).Lleva v ∧ (vaciar e).total = e.total ∧ (vaciar e).bits < 8 := by
  induction e using vaciar.induct with
  | case1 e hc ih =>
    have hbits : 256 * 2 ^ (e.bits - 8) = 2 ^ e.bits := by
      rw [show 256 = 2 ^ 8 from rfl, ← Nat.pow_add, Nat.add_sub_cancel' hc.1]
    have hlt := h.lt
    have ht' : ∀ b, (⟨e.acc >>> 8, e.bits - 8, e.s ++ [b]⟩ : Salida).total = e.total := by
      intro b
      simp only [Salida.total, List.length_append, List.length_singleton]
      omega
    rw [vaciar, if_pos hc, ← ht' ((e.acc &&& 0xFF).toNat.toUInt8)]
    refine ih ⟨(leNat_push _ _).trans h.val, ?_⟩ ((ht' _).trans_le ht)
    simp only [toNat_shr8]
    omega
  | case2 e hc =>
    rw [vaciar, if_neg hc]
    refine ⟨h, rfl, ?_⟩
    rw [Salida.total] at ht
    omega

private theorem meter_lleva {e : Salida} {v : Nat} (h : e.Lleva v) (hb : e.bits < 8) {t : UInt64}
    (ht : t.toNat < 2 ^ 51) (htot : e.total + 51 ≤ 255) :
    (meter e t).Lleva (v + 2 ^ e.total * t.toNat) ∧ (meter e t).total = e.total + 51 ∧
      (meter e t).bits < 8 := by
  have hpow : 2 ^ e.bits ≤ 2 ^ 7 := Nat.pow_le_pow_right (by decide) (by omega)
  have hacc := h.lt
  have hshl : (u128 t <<< e.bits).toNat = t.toNat <<< e.bits := by
    rw [BitVec.toNat_shiftLeft, toNat_u128, Nat.shiftLeft_eq, Nat.mod_eq_of_lt]
    calc t.toNat * 2 ^ e.bits ≤ 2 ^ 51 * 2 ^ 7 := Nat.mul_le_mul ht.le hpow
      _ < 2 ^ 128 := by decide
  have hor : (e.acc ||| (u128 t <<< e.bits)).toNat = e.acc.toNat + 2 ^ e.bits * t.toNat := by
    rw [BitVec.toNat_or, hshl, Nat.or_comm, ← Nat.shiftLeft_add_eq_or_of_lt hacc, Nat.shiftLeft_eq]
    ring
  have hin : (⟨e.acc ||| (u128 t <<< e.bits), e.bits + 51, e.s⟩ : Salida).Lleva
      (v + 2 ^ e.total * t.toNat) := by
    constructor
    · rw [← h.val, Salida.total, hor, pow_add, pow_mul]
      ring
    · calc (e.acc ||| (u128 t <<< e.bits)).toNat
          < 2 ^ e.bits + 2 ^ e.bits * t.toNat := by rw [hor]; exact Nat.add_lt_add_right hacc _
        _ = 2 ^ e.bits * (t.toNat + 1) := by ring
        _ ≤ 2 ^ e.bits * 2 ^ 51 := Nat.mul_le_mul_left _ ht
        _ = 2 ^ (e.bits + 51) := (pow_add 2 e.bits 51).symm
  exact vaciar_lleva _ hin htot

/-- The number of limbs, the lowest first. -/
def deLimbos : List UInt64 → Nat
  | [] => 0
  | t :: ts => t.toNat + 2 ^ 51 * deLimbos ts

theorem foldl_meter {ts : List UInt64} (hts : ∀ t ∈ ts, t.toNat < 2 ^ 51) {e : Salida} {v : Nat}
    (h : e.Lleva v) (hb : e.bits < 8) (htot : e.total + 51 * ts.length ≤ 255) :
    (ts.foldl meter e).Lleva (v + 2 ^ e.total * deLimbos ts) ∧
      (ts.foldl meter e).total = e.total + 51 * ts.length ∧ (ts.foldl meter e).bits < 8 := by
  induction ts generalizing e v with
  | nil => exact ⟨h, rfl, hb⟩
  | cons t ts ih =>
    rw [List.length_cons] at htot
    obtain ⟨ht, hts⟩ := List.forall_mem_cons.mp hts
    obtain ⟨hm, hmt, hmb⟩ := meter_lleva h hb ht (by omega)
    obtain ⟨hv, hvt, hvb⟩ := ih hts hm hmb (by rw [hmt]; omega)
    refine ⟨?_, ?_, hvb⟩
    · have hval : v + 2 ^ e.total * t.toNat + 2 ^ (meter e t).total * deLimbos ts =
          v + 2 ^ e.total * deLimbos (t :: ts) := by
        rw [hmt, pow_add, deLimbos]
        ring
      exact hval ▸ hv
    · rw [List.foldl_cons, hvt, hmt, List.length_cons]
      ring

private theorem rellenar_val (acc : U128) (s : Bytes) (hs : s.length ≤ 32)
    (h : acc.toNat < 256 ^ (32 - s.length)) :
    (rellenar acc s).length = 32 ∧ leNat (rellenar acc s) = leNat s + 256 ^ s.length * acc.toNat := by
  induction acc, s using rellenar.induct with
  | case1 acc s hlt ih =>
    rw [rellenar, if_pos hlt, ← leNat_push s acc]
    apply ih
    · rw [List.length_append, List.length_singleton]
      exact hlt
    · have hpow : 256 * 256 ^ (32 - (s.length + 1)) = 256 ^ (32 - s.length) := by
        rw [← Nat.pow_succ']
        congr 1
        omega
      rw [toNat_shr8, List.length_append, List.length_singleton]
      omega
  | case2 acc s hge =>
    have hl : s.length = 32 := by omega
    rw [hl, Nat.sub_self, Nat.pow_zero] at h
    have hacc : acc.toNat = 0 := by omega
    rw [rellenar, if_neg hge, hacc, Nat.mul_zero, Nat.add_zero]
    exact ⟨hl, rfl⟩

theorem toList_ofFn_getD {n : Nat} {s : Bytes} (h : s.length = n) :
    (Vector.ofFn fun i : Fin n ↦ s.getD i 0).toList = s := by
  apply List.ext_getElem
  · rw [Vector.length_toList, h]
  · intro i h₁ h₂
    simp [h₂]

private theorem leNat_empaquetar {t : Fe} (h : t.Bajo (2 ^ 51)) :
    leNat (empaquetar t).toList = t.val := by
  have hini : (⟨0, 0, []⟩ : Salida).Lleva 0 := ⟨by simp [leNat], by decide⟩
  have hlim : ∀ u ∈ [t.l0, t.l1, t.l2, t.l3, t.l4], u.toNat < 2 ^ 51 := by
    simp only [List.forall_mem_cons]
    exact ⟨h.h0, h.h1, h.h2, h.h3, h.h4, by simp⟩
  obtain ⟨⟨hval, hlt⟩, htot, hb⟩ := foldl_meter hlim hini (by decide) (Nat.le_refl 255)
  rw [empaquetar]
  generalize [t.l0, t.l1, t.l2, t.l3, t.l4].foldl meter ⟨0, 0, []⟩ = e at *
  have htot' : 8 * e.s.length + e.bits = 255 := htot
  have hlen : e.s.length = 31 := by omega
  have hbits : e.bits = 7 := by omega
  rw [hbits] at hlt
  obtain ⟨hl, hv⟩ := rellenar_val e.acc e.s (by omega) (by rw [hlen]; omega)
  rw [toList_ofFn_getD hl, hv, hval]
  simp only [deLimbos, Salida.total, List.length_nil, Fe.val]
  ring

/-- The bytes of a number spell it below the prime: its one form. -/
theorem leNat_a_bytes {a : Fe} {x : K} (h : Vale a x) : leNat (a_bytes a).toList = x.val := by
  obtain ⟨⟨h0, h1, h2, h3, h4⟩, en⟩ := h
  have hb : a.Bajo (2 ^ 54) := ⟨by omega, by omega, by omega, by omega, by omega⟩
  obtain ⟨ht, c, hc⟩ := llevar_llevar_bajo hb
  obtain ⟨hcb, hcv⟩ := congelar_val ht
  have hcast : ((llevar (llevar a)).val : K) = x := (cast_eq_of_add hc).trans en
  rw [a_bytes, leNat_empaquetar hcb, hcv, ← hcast, ← P25519_eq, ZMod.val_natCast]

/-- Two numbers have the same bytes when they are the same in the field. -/
theorem a_bytes_inj {a b : Fe} {x y : K} (ha : Vale a x) (hb : Vale b y) :
    a_bytes a = a_bytes b ↔ x = y := by
  constructor
  · intro h
    apply ZMod.val_injective P25519
    rw [← leNat_a_bytes ha, ← leNat_a_bytes hb, h]
  · rintro rfl
    exact b32_inj ((leNat_a_bytes ha).trans (leNat_a_bytes hb).symm)

end BmoX.Cripto.Campo
