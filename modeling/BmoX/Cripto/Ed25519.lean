import BmoX.Cripto.Escalar
import BmoX.Cripto.Rfc7748

/-!
# Ed25519

`platform/shared/bmo-cripto/src/ed25519.rs:70–634`: the points in extended coordinates, the bytes of
a point, the check of a signature and the signer. SHA-512 is a function the calls are given. Every
operation over limbs is proved to be the operation of the group it is named after.
-/

namespace BmoX.Cripto.Ed25519

open BmoX.Base BmoX.Cripto.Campo BmoX.Cripto.Curva BmoX.Cripto.Escalar

/-- `d` of the curve; `ed25519.rs:72–75`. -/
def D_BYTES : B32 := #v[
  0xa3, 0x78, 0x59, 0x13, 0xca, 0x4d, 0xeb, 0x75, 0xab, 0xd8, 0x41, 0x41, 0x4d, 0x0a, 0x70, 0x00,
  0x98, 0xe8, 0x79, 0x77, 0x79, 0x40, 0xc7, 0x8c, 0x73, 0xfe, 0x6f, 0x2b, 0xee, 0x6c, 0x03, 0x52]

/-- The root of `-1`; `ed25519.rs:80–83`. -/
def RAIZ_MENOS_UNO : B32 := #v[
  0xb0, 0xa0, 0x0e, 0x4a, 0x27, 0x1b, 0xee, 0xc4, 0x78, 0xe4, 0x2f, 0xad, 0x06, 0x18, 0x43, 0x2f,
  0xa7, 0xd7, 0xfb, 0x3d, 0x99, 0x00, 0x4d, 0x2b, 0x0b, 0xdf, 0xc1, 0x4f, 0x80, 0x24, 0x83, 0x2b]

/-- The base point, compressed; `ed25519.rs:93–96`. -/
def BASE : B32 := #v[
  0x58, 0x66, 0x66, 0x66, 0x66, 0x66, 0x66, 0x66, 0x66, 0x66, 0x66, 0x66, 0x66, 0x66, 0x66, 0x66,
  0x66, 0x66, 0x66, 0x66, 0x66, 0x66, 0x66, 0x66, 0x66, 0x66, 0x66, 0x66, 0x66, 0x66, 0x66, 0x66]

/-- A point in extended coordinates; `ed25519.rs:112–117`. -/
structure Punto where
  x : Fe
  y : Fe
  z : Fe
  t : Fe

/-- `ed25519.rs:120`. -/
def NEUTRO : Punto := ⟨CERO, UNO, UNO, CERO⟩

/-- A square, and `for _ in 1..n` one more. -/
def seguidos (a : Fe) (n : Nat) : Fe := cuadrado_n (cuadrado a) (n - 1)

/-- `z` to the power `2^252 - 3`; `ed25519.rs:132–180`. -/
def pow_p58 (z : Fe) : Fe :=
  let t0 := cuadrado z
  let t1 := cuadrado (cuadrado t0)
  let t1 := mul z t1
  let t0 := mul t0 t1
  let t0 := cuadrado t0
  let t0 := mul t1 t0
  let t0 := mul (seguidos t0 5) t0
  let t1 := mul (seguidos t0 10) t0
  let t1 := mul (seguidos t1 20) t1
  let t0 := mul (seguidos t1 10) t0
  let t1 := mul (seguidos t0 50) t0
  let t1 := mul (seguidos t1 100) t1
  let t0 := mul (seguidos t1 50) t0
  let t0 := cuadrado (cuadrado t0)
  mul t0 z

/-- `ed25519.rs:182–184`. -/
def iguales (a b : Fe) : Bool := a_bytes a == a_bytes b

/-- `ed25519.rs:186–188`. -/
def es_cero (a : Fe) : Bool := a_bytes a == Vector.replicate 32 0

/-- The sign and the point, once `x` is found; `ed25519.rs:237–249`. -/
def firmarX (b : B32) (x y : Fe) : Option Punto :=
  let signo := (b[31] >>> 7) &&& 1
  if es_cero x && signo == 1 then none
  else
    let x := if getElem (a_bytes x) 0 cero_lt_32 &&& 1 != signo then Campo.resta CERO x else x
    some ⟨x, y, UNO, mul x y⟩

/-- The point of thirty-two bytes, if they are of one; `ed25519.rs:210–250`. -/
def descomprimir (b : B32) : Option Punto :=
  let d := desde_bytes D_BYTES
  let y := desde_bytes b
  let y2 := cuadrado y
  let u := Campo.resta y2 UNO
  let v := Campo.suma (mul d y2) UNO
  let v2 := cuadrado v
  let v3 := mul v2 v
  let v4 := cuadrado v2
  let v7 := mul v3 v4
  let x := mul (pow_p58 (mul u v7)) (mul u v3)
  if iguales (mul v (cuadrado x)) u then firmarX b x y
  else
    let x := mul x (desde_bytes RAIZ_MENOS_UNO)
    if iguales (mul v (cuadrado x)) u then firmarX b x y else none

/-- The bytes of a point; `ed25519.rs:254–261`. -/
def comprimir (p : Punto) : B32 :=
  let zi := invertir p.z
  let x := mul p.x zi
  let y := mul p.y zi
  let out := a_bytes y
  out.set 31 (out[31] ||| ((getElem (a_bytes x) 0 cero_lt_32 &&& 1) <<< 7))

/-- The sum of two points; `ed25519.rs:270–289`. -/
def suma (a b : Punto) : Punto :=
  let d := desde_bytes D_BYTES
  let dos_d := Campo.suma d d
  let aa := mul (Campo.resta a.y a.x) (Campo.resta b.y b.x)
  let bb := mul (Campo.suma a.y a.x) (Campo.suma b.y b.x)
  let cc := mul (mul a.t b.t) dos_d
  let dd := mul (Campo.suma a.z a.z) b.z
  let e := Campo.resta bb aa
  let f := Campo.resta dd cc
  let g := Campo.suma dd cc
  let h := Campo.suma bb aa
  ⟨mul e f, mul g h, mul f g, mul e h⟩

/-- One bit of a multiple; `ed25519.rs:304–307`. -/
def pasoEscalar (p r : Punto) (bit : Bool) : Punto :=
  let r := suma r r
  if bit then suma r p else r

/-- The multiple of a point by little-endian bytes; `ed25519.rs:300–311`. -/
def por_escalar (n : Bytes) (p : Punto) : Punto :=
  n.reverse.foldl (fun r byte ↦ (List.range 8).reverse.foldl (fun r bit ↦
    pasoEscalar p r ((byte >>> UInt8.ofNat bit) &&& 1 == 1)) r) NEUTRO

/-- `[8]P` is the neutral point; `ed25519.rs:373–378`. -/
def orden_pequeno (p : Punto) : Bool :=
  let p2 := suma p p
  let p4 := suma p2 p2
  let p8 := suma p4 p4
  comprimir p8 == comprimir NEUTRO

/-- `-A`; `ed25519.rs:433–438`. -/
def menos (a : Punto) : Punto := ⟨Campo.resta CERO a.x, a.y, a.z, Campo.resta CERO a.t⟩

/-- The half of a signature from the byte `i`; `ed25519.rs:402–405`. -/
def mitad (firma : B64) (i : Nat) : B32 := b32 ((firma.toList.drop i).take 32)

variable (sha512 : Bytes → B64)

/-- The check of a signature; `ed25519.rs:401–449`. -/
def verificar (publica : B32) (mensaje : Bytes) (firma : B64) : Bool :=
  let r_bytes := mitad firma 0
  let s_bytes := mitad firma 32
  if !s_valida s_bytes then false
  else
    match descomprimir publica, descomprimir r_bytes with
    | some a, some r =>
      if orden_pequeno a || orden_pequeno r then false
      else
        let k := sha512 (r_bytes.toList ++ publica.toList ++ mensaje)
        match descomprimir BASE with
        | some base =>
          let izquierda := suma (por_escalar s_bytes.toList base) (por_escalar k.toList (menos a))
          comprimir izquierda == r_bytes
        | none => false
    | _, _ => false

/-- The clamp of the secret; `ed25519.rs:570–577`. -/
def recortar (h : B64) : B32 :=
  let a := mitad h 0
  let a := a.set 0 (getElem a 0 cero_lt_32 &&& 248) cero_lt_32
  let a := a.set 31 (a[31] &&& 127)
  a.set 31 (a[31] ||| 64)

/-- The public key of a seed; `none` is the panic of `expect`; `ed25519.rs:585–590`. -/
def publica_de (secreta : B32) : Option B32 :=
  let a := recortar (sha512 secreta.toList)
  (descomprimir BASE).map fun base ↦ comprimir (por_escalar a.toList base)

/-- The signature of a message; `none` is the panic of `expect`; `ed25519.rs:608–634`. -/
def firmar (secreta : B32) (mensaje : Bytes) : Option B64 :=
  let h := sha512 secreta.toList
  let a := recortar h
  (descomprimir BASE).map fun base ↦
    let publica := comprimir (por_escalar a.toList base)
    let r := reducir (sha512 (h.toList.drop 32 ++ mensaje))
    let punto_r := comprimir (por_escalar r.toList base)
    let k := reducir (sha512 (punto_r.toList ++ publica.toList ++ mensaje))
    let s := muladd k a r
    Vector.ofFn fun i : Fin 64 ↦ (punto_r.toList ++ s.toList).getD i 0

/-! ### The constants -/

private theorem vale_D : Vale (desde_bytes D_BYTES) curva.d := by
  have h : leNat D_BYTES.toList % 2 ^ 255 = D := by decide
  exact (vale_desde_bytes D_BYTES).congr (by rw [h, curva_d])

private theorem vale_RAIZ : Vale (desde_bytes RAIZ_MENOS_UNO) curva.i := by
  have h : leNat RAIZ_MENOS_UNO.toList % 2 ^ 255 = RAIZ := by decide
  exact (vale_desde_bytes RAIZ_MENOS_UNO).congr (by rw [h, curva_i])

/-! ### The group over limbs -/

/-- The limbs stand for the coordinates. -/
structure Punto.Vale (p : Punto) (E : Edwards.Ext K) : Prop where
  x : Campo.Vale p.x E.X
  y : Campo.Vale p.y E.Y
  z : Campo.Vale p.z E.Z
  t : Campo.Vale p.t E.T

/-- The limbs are of the point `P`. -/
def Punto.Es (p : Punto) (P : G) : Prop := ∃ E, p.Vale E ∧ E.Is P

private theorem NEUTRO_es : NEUTRO.Es 0 :=
  ⟨⟨0, 1, 1, 0⟩, ⟨vale_cero, vale_uno, vale_uno, vale_cero⟩, Edwards.Ext.is_zero⟩

theorem Punto.Vale.suma {a b : Punto} {E F : Edwards.Ext K} (ha : a.Vale E) (hb : b.Vale F) :
    (suma a b).Vale (E.add (curva.d + curva.d) F) := by
  have aa := (ha.y.resta ha.x).mul (hb.y.resta hb.x)
  have bb := (ha.y.suma ha.x).mul (hb.y.suma hb.x)
  have cc := (ha.t.mul hb.t).mul (vale_D.suma vale_D)
  have dd := (ha.z.suma ha.z).mul hb.z
  exact
    { x := (bb.resta aa).mul (dd.resta cc)
      y := (dd.suma cc).mul (bb.suma aa)
      z := (dd.resta cc).mul (dd.suma cc)
      t := (bb.resta aa).mul (bb.suma aa) }

theorem Punto.Es.suma {a b : Punto} {P Q : G} (ha : a.Es P) (hb : b.Es Q) :
    (suma a b).Es (P + Q) := by
  rcases ha with ⟨E, hE, hP⟩
  rcases hb with ⟨F, hF, hQ⟩
  exact ⟨_, hE.suma hF, hP.add hQ⟩

theorem Punto.Es.menos {a : Punto} {P : G} (ha : a.Es P) : (menos a).Es (-P) := by
  rcases ha with ⟨E, hE, hP⟩
  have hx := (vale_cero.resta hE.x).congr (zero_sub E.X)
  have ht := (vale_cero.resta hE.t).congr (zero_sub E.T)
  rw [Ed25519.menos]
  exact ⟨⟨-E.X, E.Y, E.Z, -E.T⟩, ⟨hx, hE.y, hE.z, ht⟩, hP.neg⟩

private theorem pasoEscalar_es {p r : Punto} {P Q : G} (hp : p.Es P) (b : Bool) (hr : r.Es Q) :
    (pasoEscalar p r b).Es (Q + Q + if b then P else 0) := by
  cases b with
  | false => simpa [pasoEscalar] using hr.suma hr
  | true => simpa [pasoEscalar] using (hr.suma hr).suma hp

/-- The eight bits of a byte, the highest first. -/
def octeto (b : UInt8) : List Bool :=
  (List.range 8).reverse.map fun i ↦ (b >>> UInt8.ofNat i) &&& 1 == 1

private theorem spell_octeto (n : Nat) (b : UInt8) : spell n (octeto b) = 256 * n + b.toNat := by
  have hbits : octeto b = bitsOf b.toNat 8 := by
    refine List.map_congr_left fun i hi ↦ ?_
    have hlt : i < 8 := by simpa using hi
    have hbit := toNat_shift_and_one b hlt
    generalize (b >>> UInt8.ofNat i) &&& 1 = c at *
    cases h : b.toNat.testBit i <;> rw [h] at hbit
    · have hc : c = 0 := UInt8.toNat_inj.mp hbit
      rw [hc]; rfl
    · have hc : c = 1 := UInt8.toNat_inj.mp hbit
      rw [hc]; rfl
  have hlt : b.toNat < 2 ^ 8 := b.toNat_lt
  rw [hbits, spell_bitsOf, Nat.mod_eq_of_lt hlt, Nat.mul_comm, show 2 ^ 8 = 256 from rfl]

private theorem spell_bytes (n : Bytes) : spell 0 (n.reverse.flatMap octeto) = leNat n := by
  induction n with
  | nil => rfl
  | cons b bs ih =>
    rw [List.reverse_cons, List.flatMap_append, spell_append, ih, List.flatMap_singleton,
      spell_octeto, leNat, Nat.add_comm]

/-- Double and add over the bytes is the multiple. -/
theorem por_escalar_es {p : Punto} {P : G} (hp : p.Es P) (n : Bytes) :
    (por_escalar n p).Es (leNat n • P) := by
  have hini : NEUTRO.Es (0 • P) := by
    rw [zero_nsmul]
    exact NEUTRO_es
  have h := foldl_double_add (fun r Q b hr ↦ pasoEscalar_es hp b hr) hini (n.reverse.flatMap octeto)
  rw [spell_bytes, List.foldl_flatMap] at h
  simpa only [por_escalar, octeto, List.foldl_map] using h

/-! ### The bytes of a point -/

/-- The number of the encoding of a point: `y`, below the prime, and the parity of `x` on top. -/
def codifica (P : G) : Nat := P.y.val + 2 ^ 255 * (P.x.val % 2)

theorem val_lt (x : K) : x.val < 2 ^ 255 :=
  Nat.lt_trans x.val_lt (by rw [P25519_eq]; decide)

theorem paridad_neg {x : K} (h : x ≠ 0) : (-x).val % 2 ≠ x.val % 2 := by
  have hlt := x.val_lt
  have hodd : P25519 % 2 = 1 := by norm_num [P25519]
  rw [ZMod.neg_val, if_neg h]
  omega

/-- The parity byte of a number. -/
theorem paridad {a : Fe} {x : K} (h : Vale a x) : (getElem (a_bytes a) 0 cero_lt_32 &&& 1).toNat = x.val % 2 := by
  have hget : (a_bytes a).toList.getD 0 0 = (a_bytes a)[0] := by simp
  have h0 := toNat_getD_leNat (a_bytes a).toList 0
  rw [hget, leNat_a_bytes h] at h0
  rw [UInt8.toNat_and, h0]
  change _ &&& 1 = _
  rw [Nat.and_one_is_mod]
  omega

theorem leNat_comprimir {p : Punto} {P : G} (h : p.Es P) :
    leNat (comprimir p).toList = codifica P := by
  rcases h with ⟨E, hE, hP⟩
  have hz := hE.z.invertir
  rw [Rfc7748.pow_eq_inv] at hz
  have hx : Vale (mul p.x (invertir p.z)) P.x :=
    (hE.x.mul hz).congr (by rw [hP.x, mul_inv_cancel_right₀ hP.ne])
  have hy : Vale (mul p.y (invertir p.z)) P.y :=
    (hE.y.mul hz).congr (by rw [hP.y, mul_inv_cancel_right₀ hP.ne])
  have hpar := paridad hx
  have hval := leNat_a_bytes hy
  rw [comprimir, codifica]
  generalize (a_bytes (mul p.x (invertir p.z)))[0] &&& 1 = c at *
  generalize a_bytes (mul p.y (invertir p.z)) = out at *
  have hlt := val_lt P.y
  have hget : out.toList.getD 31 0 = out[31] := by simp
  have hbyte := toNat_getD_leNat out.toList 31
  have hset := leNat_set out.toList 31 (out[31] ||| (c <<< 7)) (by rw [out.length_toList]; decide)
  rw [hget] at hbyte hset
  -- the bit on top is free
  have hor : (out[31] ||| (c <<< 7)).toNat = out[31].toNat + 128 * (P.x.val % 2) := by
    have hbits : ∀ m < 128, ∀ k < 2, m ||| ((k <<< 7) % 256) = m + 128 * k := by decide
    rw [UInt8.toNat_or, UInt8.toNat_shiftLeft, hpar]
    exact hbits _ (by omega) _ (Nat.mod_lt _ (by decide))
  rw [Vector.toList_set]
  omega

private theorem eq_of_y_x {P Q : G} (hy : P.y = Q.y) (hx : P.x.val % 2 = Q.x.val % 2) : P = Q := by
  rcases Edwards.eq_or_eq_neg_of_y_eq hy with h | h
  · exact h
  · rcases eq_or_ne Q.x 0 with h0 | hne
    · rw [h]
      exact Edwards.Point.ext (by rw [Edwards.Point.neg_x, h0, neg_zero]) rfl
    · rw [h, Edwards.Point.neg_x] at hx
      exact absurd hx (paridad_neg hne)

theorem codifica_inj {P Q : G} (h : codifica P = codifica Q) : P = Q := by
  have hP := val_lt P.y
  have hQ := val_lt Q.y
  unfold codifica at h
  apply eq_of_y_x
  · apply ZMod.val_injective P25519
    omega
  · omega

/-- The bytes of two points are the same when the points are. -/
theorem comprimir_inj {p q : Punto} {P Q : G} (hp : p.Es P) (hq : q.Es Q) :
    comprimir p = comprimir q ↔ P = Q := by
  constructor
  · intro h
    apply codifica_inj
    rw [← leNat_comprimir hp, ← leNat_comprimir hq, h]
  · rintro rfl
    exact b32_inj ((leNat_comprimir hp).trans (leNat_comprimir hq).symm)

private theorem orden_pequeno_iff {p : Punto} {P : G} (h : p.Es P) :
    orden_pequeno p = true ↔ 8 • P = 0 := by
  have h8 := ((h.suma h).suma (h.suma h)).suma ((h.suma h).suma (h.suma h))
  have hsum : P + P + (P + P) + (P + P + (P + P)) = 8 • P := by
    rw [← two_nsmul, ← two_nsmul, ← two_nsmul, ← mul_nsmul', ← mul_nsmul']
  rw [hsum] at h8
  rw [orden_pequeno, beq_iff_eq, comprimir_inj h8 NEUTRO_es]

/-! ### The square root -/

theorem vale_seguidos {a b : Fe} {x : K} {m k r : Nat} (ha : Vale a (x ^ m)) (hb : Vale b (x ^ k))
    (n : Nat) (e : m * 2 ^ (n - 1 + 1) + k = r) : Vale (mul (seguidos a n) b) (x ^ r) := by
  have hsq : Vale (cuadrado a) (x ^ (m * 2)) := ha.cuadrado.congr (pow_mul x m 2).symm
  exact hsq.tanda hb (n - 1) (by rw [← e, pow_succ', mul_assoc])

/-- The chain reaches the exponent `(p - 5) / 8`. -/
theorem vale_pow_p58 {z : Fe} {x : K} (h : Vale z x) : Vale (pow_p58 z) (x ^ (2 ^ 252 - 3)) := by
  have z1 : Vale z (x ^ 1) := h.congr (pow_one x).symm
  have z2 : Vale _ (x ^ 2) := h.cuadrado
  have z9 : Vale _ (x ^ 9) :=
    z1.mul_pow (r := 9) ((z2.cuadrado_n 2).congr (pow_mul x 2 (2 ^ 2)).symm) (by norm_num)
  have z11 : Vale _ (x ^ 11) := z2.mul_pow z9 (by norm_num)
  have z22 : Vale _ (x ^ 22) := z11.cuadrado.congr (pow_mul x 11 2).symm
  have z_5 : Vale _ (x ^ (2 ^ 5 - 1)) := z9.mul_pow z22 (by norm_num)
  have z_10 : Vale _ (x ^ (2 ^ 10 - 1)) := vale_seguidos z_5 z_5 5 (by norm_num)
  have z_20 : Vale _ (x ^ (2 ^ 20 - 1)) := vale_seguidos z_10 z_10 10 (by norm_num)
  have z_40 : Vale _ (x ^ (2 ^ 40 - 1)) := vale_seguidos z_20 z_20 20 (by norm_num)
  have z_50 : Vale _ (x ^ (2 ^ 50 - 1)) := vale_seguidos z_40 z_10 10 (by norm_num)
  have z_100 : Vale _ (x ^ (2 ^ 100 - 1)) := vale_seguidos z_50 z_50 50 (by norm_num)
  have z_200 : Vale _ (x ^ (2 ^ 200 - 1)) := vale_seguidos z_100 z_100 100 (by norm_num)
  have z_250 : Vale _ (x ^ (2 ^ 250 - 1)) := vale_seguidos z_200 z_50 50 (by norm_num)
  exact z_250.tanda z1 2 (by norm_num)

/-- The candidate for the root of `u / v`. -/
def candidata (u v : K) : K := (u * v ^ 7) ^ (2 ^ 252 - 3) * (u * v ^ 3)

/-- Where `u / v` has a root, the candidate is one of it or of its opposite. -/
theorem candidata_sq {u v s : K} (hs : v * s ^ 2 = u) :
    v * candidata u v ^ 2 = u ∨ v * candidata u v ^ 2 = -u := by
  obtain ⟨e, he⟩ : ∃ e : Nat, e = 2 ^ 252 - 3 := ⟨_, rfl⟩
  have hexp : 4 * (2 * e + 1) = P25519 - 1 := by rw [he, P25519_eq]; norm_num
  have hval : v * candidata u v ^ 2 = u * (u * v ^ 7) ^ (2 * e + 1) := by
    rw [candidata, ← he]
    ring
  rw [hval]
  rcases eq_or_ne (v ^ 4 * s) 0 with h0 | hne
  · have hu : u = 0 := by
      rcases mul_eq_zero.mp h0 with hv | hs0
      · rw [← hs, pow_eq_zero_iff four_ne_zero |>.mp hv, zero_mul]
      · rw [← hs, hs0, zero_pow two_ne_zero, mul_zero]
    left
    rw [hu, zero_mul]
  · have hone : ((u * v ^ 7) ^ (2 * e + 1)) ^ 2 = 1 := by
      have hw : u * v ^ 7 = (v ^ 4 * s) ^ 2 := by rw [← hs]; ring
      have hp := ZMod.pow_card_sub_one_eq_one hne
      rw [← hexp] at hp
      rw [hw, ← pow_mul, ← pow_mul, ← hp]
      congr 1
      ring
    rcases sq_eq_one_iff.mp hone with h | h <;> rw [h]
    · left; rw [mul_one]
    · right; rw [mul_neg_one]

/-! ### The point of some bytes -/

private theorem iguales_iff {a b : Fe} {x y : K} (ha : Vale a x) (hb : Vale b y) :
    iguales a b = true ↔ x = y := by
  rw [iguales, beq_iff_eq, a_bytes_inj ha hb]

private theorem es_cero_iff {a : Fe} {x : K} (h : Vale a x) : es_cero a = true ↔ x = 0 := by
  have hcero : a_bytes CERO = Vector.replicate 32 0 := b32_inj (by
    rw [leNat_a_bytes vale_cero, ZMod.val_zero]
    decide)
  rw [es_cero, ← hcero, beq_iff_eq, a_bytes_inj h vale_cero]

/-- The bytes carry the `y` of the point, reduced or not, and the parity of its `x`. -/
structure Decodifica (b : B32) (P : G) : Prop where
  y : P.y = (leNat b.toList % 2 ^ 255 : Nat)
  signo : P.x.val % 2 = leNat b.toList / 2 ^ 255

theorem Decodifica.unico {b : B32} {P Q : G} (hP : Decodifica b P) (hQ : Decodifica b Q) : P = Q :=
  eq_of_y_x (hP.y.trans hQ.y.symm) (hP.signo.trans hQ.signo.symm)

private theorem toNat_signo (b : B32) : ((b[31] >>> 7) &&& 1).toNat = leNat b.toList / 2 ^ 255 := by
  have hget : b.toList.getD 31 0 = b[31] := by simp
  have hbyte := toNat_getD_leNat b.toList 31
  have hlt := leNat_b32_lt b
  have hbit := toNat_shift_and_one b[31] (j := 7) (by decide)
  rw [hget] at hbyte
  rw [Nat.toNat_testBit, hbyte] at hbit
  refine hbit.trans ?_
  omega

private theorem es_afin {x y : Fe} {P : G} (hx : Vale x P.x) (hy : Vale y P.y) :
    (⟨x, y, UNO, mul x y⟩ : Punto).Es P :=
  ⟨⟨P.x, P.y, 1, P.x * P.y⟩, ⟨hx, hy, vale_uno, hx.mul hy⟩,
    ⟨one_ne_zero, (mul_one _).symm, (mul_one _).symm, (mul_one _).symm⟩⟩

/-- The sign is put on the point that is found. -/
theorem firmarX_eq {b : B32} {x y : Fe} {P : G} (hx : Vale x P.x) (hy : Vale y P.y)
    (h : ¬(P.x = 0 ∧ leNat b.toList / 2 ^ 255 = 1)) :
    ∃ p Q, firmarX b x y = some p ∧ p.Es Q ∧ Q.y = P.y ∧
      Q.x.val % 2 = leNat b.toList / 2 ^ 255 := by
  have hs := toNat_signo b
  have hlt := leNat_b32_lt b
  have hpar := paridad hx
  have hcero := es_cero_iff hx
  rw [firmarX]
  generalize (b[31] >>> 7) &&& 1 = signo at *
  generalize (a_bytes x)[0] &&& 1 = bajo at *
  have hsigno : (es_cero x && signo == 1) = false := by
    rw [Bool.and_eq_false_imp, hcero]
    intro h0
    rw [beq_eq_false_iff_ne]
    intro h1
    exact h ⟨h0, by rw [← hs, h1]; rfl⟩
  simp only [hsigno, Bool.false_eq_true, if_false]
  by_cases he : bajo = signo
  · refine ⟨_, P, rfl, ?_, rfl, ?_⟩
    · simpa [he] using es_afin hx hy
    · rw [← hpar, he, hs]
  · have hne : P.x ≠ 0 := by
      intro h0
      rw [h0, ZMod.val_zero] at hpar
      have h1 : signo.toNat ≠ 0 := fun h1 ↦ he (UInt8.toNat_inj.mp (hpar.trans h1.symm))
      exact h ⟨h0, by omega⟩
    have hneg := (vale_cero.resta hx).congr (zero_sub P.x)
    refine ⟨_, -P, rfl, ?_, rfl, ?_⟩
    · simpa [he] using es_afin (P := -P) hneg hy
    · have hflip := paridad_neg hne
      have hdist : bajo.toNat ≠ signo.toNat := fun h ↦ he (UInt8.toNat_inj.mp h)
      rw [Edwards.Point.neg_x]
      omega

private theorem firmarX_none {b : B32} {x y : Fe} {P : G} (hx : Vale x P.x)
    (h : P.x = 0 ∧ leNat b.toList / 2 ^ 255 = 1) : firmarX b x y = none := by
  have hsigno : (b[31] >>> 7) &&& 1 = 1 := UInt8.toNat_inj.mp ((toNat_signo b).trans h.2)
  rw [firmarX, hsigno, (es_cero_iff hx).mpr h.1]
  rfl

/-- What the decompression of `b` is: limbs of the point `b` carries, or nothing if it has none. -/
def Resultado (b : B32) (o : Option Punto) : Prop :=
  (∃ p P, o = some p ∧ p.Es P ∧ Decodifica b P) ∨ o = none ∧ ∀ P, ¬Decodifica b P

private theorem resultado_firmarX {b : B32} {x y : Fe} {P : G} (hx : Vale x P.x) (hy : Vale y P.y)
    (hP : P.y = (leNat b.toList % 2 ^ 255 : Nat)) : Resultado b (firmarX b x y) := by
  by_cases h : P.x = 0 ∧ leNat b.toList / 2 ^ 255 = 1
  · right
    refine ⟨firmarX_none hx h, fun Q hQ ↦ ?_⟩
    have hx0 : Q.x = 0 := by
      rcases Edwards.eq_or_eq_neg_of_y_eq (hQ.y.trans hP.symm) with e | e <;> simp [e, h.1]
    have hsigno := hQ.signo
    rw [hx0, ZMod.val_zero] at hsigno
    omega
  · left
    rcases firmarX_eq hx hy h with ⟨p, Q, he, hQ, hyQ, hs⟩
    exact ⟨p, Q, he, hQ, hyQ.trans hP, hs⟩

theorem eqn_iff (x y : K) : curva.Eqn x y ↔ (curva.d * y ^ 2 + 1) * x ^ 2 = y ^ 2 - 1 := by
  unfold Edwards.Curve.Eqn
  constructor <;> intro h <;> linear_combination -h

/-- The decompression finds the point of its bytes, where there is one. -/
theorem resultado_descomprimir (b : B32) : Resultado b (descomprimir b) := by
  obtain ⟨y, hyb⟩ : ∃ y : K, y = (leNat b.toList % 2 ^ 255 : Nat) := ⟨_, rfl⟩
  have hy : Vale (desde_bytes b) y := (vale_desde_bytes b).congr hyb.symm
  obtain ⟨u, hu⟩ : ∃ u, u = y ^ 2 - 1 := ⟨_, rfl⟩
  obtain ⟨v, hv⟩ : ∃ v, v = curva.d * y ^ 2 + 1 := ⟨_, rfl⟩
  have vu := (hy.cuadrado.resta vale_uno).congr hu.symm
  have vv := ((vale_D.mul hy.cuadrado).suma vale_uno).congr hv.symm
  have v3 := (vv.cuadrado.mul vv).congr (pow_succ v 2).symm
  have v7 := (v3.mul vv.cuadrado.cuadrado).congr (y := v ^ 7) (by ring)
  have vx : Vale _ (candidata u v) := (vale_pow_p58 (vu.mul v7)).mul (vu.mul v3)
  have hpunto : ∀ x : K, v * x ^ 2 = u → ∃ P : G, P.x = x ∧ P.y = y := by
    intro x h
    rw [hu, hv] at h
    exact ⟨⟨x, y, (eqn_iff x y).mpr h⟩, rfl, rfl⟩
  simp only [descomprimir]
  -- the candidate, the candidate turned, or no root
  split_ifs with h1 h2
  · rw [iguales_iff (vv.mul vx.cuadrado) vu] at h1
    rcases hpunto _ h1 with ⟨P, hxP, hyP⟩
    exact resultado_firmarX (vx.congr hxP.symm) (hy.congr hyP.symm) (hyP.trans hyb)
  · have vxi := vx.mul vale_RAIZ
    rw [iguales_iff (vv.mul vxi.cuadrado) vu] at h2
    rcases hpunto _ h2 with ⟨P, hxP, hyP⟩
    exact resultado_firmarX (vxi.congr hxP.symm) (hy.congr hyP.symm) (hyP.trans hyb)
  · have vxi := vx.mul vale_RAIZ
    rw [iguales_iff (vv.mul vx.cuadrado) vu] at h1
    rw [iguales_iff (vv.mul vxi.cuadrado) vu] at h2
    right
    refine ⟨rfl, fun P hP ↦ ?_⟩
    have hroot : v * P.x ^ 2 = u := by
      rw [hu, hv, hyb, ← hP.y]
      exact (eqn_iff P.x P.y).mp P.on
    rcases candidata_sq hroot with h | h
    · exact h1 h
    · apply h2
      rw [mul_pow, curva.i_sq, mul_neg_one, mul_neg, h, neg_neg]

theorem descomprimir_of_some {b : B32} {p : Punto} (h : descomprimir b = some p) :
    ∃ P, p.Es P ∧ Decodifica b P := by
  rcases resultado_descomprimir b with ⟨q, P, hq, hP, hd⟩ | ⟨hnone, -⟩
  · rw [h, Option.some.injEq] at hq
    exact ⟨P, hq ▸ hP, hd⟩
  · rw [h] at hnone
    exact absurd hnone (Option.some_ne_none p)

theorem Decodifica.descomprimir {b : B32} {P : G} (h : Decodifica b P) :
    ∃ p, descomprimir b = some p ∧ p.Es P := by
  rcases resultado_descomprimir b with ⟨p, Q, hp, hQ, hd⟩ | ⟨-, hno⟩
  · exact ⟨p, hp, hd.unico h ▸ hQ⟩
  · exact absurd h (hno P)

private theorem base_decodifica : Decodifica BASE base := by
  constructor
  · have h : leNat BASE.toList % 2 ^ 255 = BASE_Y := by decide
    rw [h]
    rfl
  · have hx : ((BASE_X : Nat) : K).val % 2 = leNat BASE.toList / 2 ^ 255 := by
      rw [ZMod.val_natCast, P25519_eq]
      decide
    exact hx

theorem descomprimir_BASE : ∃ p, descomprimir BASE = some p ∧ p.Es base :=
  base_decodifica.descomprimir

/-- The canonical encoding is one of those that are read. -/
theorem Decodifica.of_codifica {b : B32} {P : G} (h : leNat b.toList = codifica P) :
    Decodifica b P := by
  have hlt := val_lt P.y
  unfold codifica at h
  constructor
  · have hy : leNat b.toList % 2 ^ 255 = P.y.val := by omega
    rw [hy, ZMod.natCast_rightInverse]
  · omega

/-! ### The check -/

/-- The challenge of a signature, `SHA-512(R || A || m)`, as a number. -/
def reto (r publica : B32) (mensaje : Bytes) : Nat :=
  leNat (sha512 (r.toList ++ publica.toList ++ mensaje)).toList

/-- What the check says yes to: `[S]B = R + [k]A`, and no point of small order. -/
structure Acepta (publica : B32) (mensaje : Bytes) (firma : B64) (A R : G) : Prop where
  rango : leNat (mitad firma 32).toList < ORDEN25519
  clave : Decodifica publica A
  nonce : leNat (mitad firma 0).toList = codifica R
  clave_grande : 8 • A ≠ 0
  nonce_grande : 8 • R ≠ 0
  ecuacion : leNat (mitad firma 32).toList • base =
    R + reto sha512 (mitad firma 0) publica mensaje • A

theorem izquierda_es {pb pa : Punto} {A : G} (hb : pb.Es base) (ha : pa.Es A) (s k : Bytes) :
    (suma (por_escalar s pb) (por_escalar k (menos pa))).Es (leNat s • base - leNat k • A) := by
  rw [sub_eq_add_neg, ← smul_neg]
  exact (por_escalar_es hb s).suma (por_escalar_es ha.menos k)

theorem verificar_iff (publica : B32) (mensaje : Bytes) (firma : B64) :
    verificar sha512 publica mensaje firma = true ↔ ∃ A R, Acepta sha512 publica mensaje firma A R := by
  rcases descomprimir_BASE with ⟨pb, hpb, hb⟩
  constructor
  · intro h
    simp only [verificar, hpb] at h
    cases hs : s_valida (mitad firma 32) with
    | false => simp [hs] at h
    | true =>
      cases hpa : descomprimir publica with
      | none => simp [hs, hpa] at h
      | some pa =>
        cases hpr : descomprimir (mitad firma 0) with
        | none => simp [hs, hpa, hpr] at h
        | some pr =>
          simp only [hs, hpa, hpr, Bool.not_true, Bool.false_eq_true, if_false] at h
          split_ifs at h with hpeq
          rw [Bool.or_eq_true, not_or] at hpeq
          rw [beq_iff_eq] at h
          rcases descomprimir_of_some hpa with ⟨A, ha, hA⟩
          rcases descomprimir_of_some hpr with ⟨R, hr, hR⟩
          have hizq := izquierda_es hb ha (mitad firma 32).toList
            (sha512 ((mitad firma 0).toList ++ publica.toList ++ mensaje)).toList
          have hnonce := leNat_comprimir hizq
          rw [h] at hnonce
          -- the point that is compared is the one that was read
          have heq := (Decodifica.of_codifica hnonce).unico hR
          rw [heq] at hnonce
          exact ⟨A, R, (s_valida_iff _).mp hs, hA, hnonce,
            (orden_pequeno_iff ha).not.mp hpeq.1, (orden_pequeno_iff hr).not.mp hpeq.2,
            (sub_eq_iff_eq_add.mp heq)⟩
  · rintro ⟨A, R, h⟩
    rcases h.clave.descomprimir with ⟨pa, hpa, ha⟩
    rcases (Decodifica.of_codifica h.nonce).descomprimir with ⟨pr, hpr, hr⟩
    have hoa : orden_pequeno pa = false := by
      rw [Bool.eq_false_iff, Ne, orden_pequeno_iff ha]
      exact h.clave_grande
    have hor : orden_pequeno pr = false := by
      rw [Bool.eq_false_iff, Ne, orden_pequeno_iff hr]
      exact h.nonce_grande
    have hs := (s_valida_iff _).mpr h.rango
    have hizq := izquierda_es hb ha (mitad firma 32).toList
      (sha512 ((mitad firma 0).toList ++ publica.toList ++ mensaje)).toList
    have heq := eq_sub_of_add_eq h.ecuacion.symm
    rw [reto] at heq
    rw [← heq] at hizq
    have hbytes := b32_inj ((leNat_comprimir hizq).trans h.nonce.symm)
    simp only [verificar, hs, hpa, hpr, hpb, hoa, hor, hbytes]
    simp

end BmoX.Cripto.Ed25519
