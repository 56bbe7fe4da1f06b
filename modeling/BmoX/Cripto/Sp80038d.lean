import BmoX.Base.Chunks
import BmoX.Cripto.Fips197

/-!
# Authenticated encryption as SP 800-38D defines it

The standard's own definitions over blocks: the field `GF(2^128)` with the leftmost bit as the
constant coefficient, GHASH as the value of a polynomial at the hash key, and counter mode over
`inc32`. `gcm.rs` computes the same ciphertext and the same tag.

`platform/shared/bmo-cripto/src/gcm.rs:56–275`. A buffer changed in place is the buffer that the call
leaves.
-/

/-! ### AES-GCM -/

namespace BmoX.Cripto.Gcm

open BmoX.Base

/-- A value of 128 bits; the first word has the bytes 0 to 7; `gcm.rs:57`. -/
abbrev B128 := UInt64 × UInt64

/-- `u64::from_be_bytes` on both halves; `gcm.rs:59–65`. -/
def deBytes (b : Bloque) : B128 :=
  (u64De (b.toList.take 8).reverse, u64De (b.toList.drop 8).reverse)

/-- The bytes of a block, from a list of sixteen. -/
def bloque (t : Bytes) : Bloque := Vector.ofFn fun i : Fin 16 ↦ t.getD i 0

/-- `u64::to_be_bytes` of both halves; `gcm.rs:67–72`. -/
def aBytes (v : B128) : Bloque := bloque ((u64Le v.1).reverse ++ (u64Le v.2).reverse)

/-- The bit `i` of `x`, from the most significant; `gcm.rs:94–99`. -/
def bitDe (x : B128) (i : Nat) : UInt64 :=
  if i < 64 then (x.1 >>> UInt64.ofNat (63 - i)) &&& 1
  else (x.2 >>> UInt64.ofNat (127 - i)) &&& 1

/-- `v` a place towards the least significant bit, reduced; `gcm.rs:106–110`. -/
def desplaza (v : B128) : B128 :=
  let salio := v.2 &&& 1
  let bajo := (v.2 >>> 1) ||| (v.1 <<< 63)
  let alto := v.1 >>> 1
  let rm := (0 : UInt64) - salio
  (alto ^^^ ((0xE100000000000000 : UInt64) &&& rm), bajo)

/-- One turn of the product: the accumulator and the shifted factor; `gcm.rs:92–111`. -/
def vuelta (x : B128) (s : B128 × B128) (i : Nat) : B128 × B128 :=
  let (z, v) := s
  let m := (0 : UInt64) - bitDe x i
  ((z.1 ^^^ (v.1 &&& m), z.2 ^^^ (v.2 &&& m)), desplaza v)

/-- The product of GHASH; `gcm.rs:89–113`. -/
def producto (x h : B128) : B128 := ((List.range 128).foldl (vuelta x) ((0, 0), h)).1

/-- A block, padded, into the accumulator; `gcm.rs:116–124`. -/
def absorber (y : B128) (t : Bytes) (h : B128) : B128 :=
  let t := deBytes (bloque (t.take 16))
  producto (y.1 ^^^ t.1, y.2 ^^^ t.2) h

/-- `(x.len() as u64) * 8`, as big-endian bytes. -/
def largoBits (b : Bytes) : Bytes := (u64Le (UInt64.ofNat b.length * 8)).reverse

/-- GHASH of the additional data and the ciphertext, with their lengths; `gcm.rs:127–144`. -/
def ghash (h : B128) (adicional cifrado : Bytes) : B128 :=
  let y := (chunks 16 adicional).foldl (fun y t ↦ absorber y t h) (0, 0)
  let y := (chunks 16 cifrado).foldl (fun y t ↦ absorber y t h) y
  absorber y (largoBits adicional ++ largoBits cifrado) h

/-- The last four bytes count up; the carry stops at the first that does not wrap;
`gcm.rs:147–155`. -/
def siguiente (b : Bloque) : Bloque :=
  ([15, 14, 13, 12].foldl (fun (s : Bloque × Bool) (i : Fin 16) ↦
    let x := getElem s.1 i (menor16 i)
    if s.2 then (s.1.set i (x + 1) (menor16 i), x == 255) else s) (b, true)).1

/-- The counter block each piece is masked with; `gcm.rs:160–168`. -/
def reparte : Bloque → List Bytes → List (Bloque × Bytes)
  | _, [] => []
  | cnt, t :: ts => (siguiente cnt, t) :: reparte (siguiente cnt) ts

/-- Counter mode, in place; `gcm.rs:159–172`. -/
def ctr (a : Aes) (j0 : Bloque) (datos : Bytes) : Bytes :=
  (reparte j0 (chunks 16 datos)).flatMap fun (cnt, t) ↦
    t.zipWith (· ^^^ ·) (a.cifrarBloque cnt).toList

/-- The counter block of the tag: the nonce and a one; `gcm.rs:182–184`. -/
def j0De (nonce : Vector UInt8 12) : Bloque := bloque (nonce.toList ++ [0, 0, 0, 1])

/-- `preparar`; `gcm.rs:175–186`. -/
def preparar (a : Aes) (nonce : Vector UInt8 12) : B128 × Bloque :=
  (deBytes (a.cifrarBloque (Vector.replicate 16 0)), j0De nonce)

/-- Comparison in constant time; `gcm.rs:193–199`. -/
def etiquetasIguales (a b : Bloque) : Bool :=
  (List.finRange 16).foldl (fun sobra i ↦
    sobra ||| (getElem a i (menor16 i) ^^^ getElem b i (menor16 i))) 0 == 0

/-- The tag of a ciphertext: GHASH masked with the counter block of its own;
`gcm.rs:219–228`, `gcm.rs:258–266`. -/
def etiquetaDe (a : Aes) (h : B128) (j0 : Bloque) (adicional cifrado : Bytes) : Bloque :=
  let sb := aBytes (ghash h adicional cifrado)
  let mascara := a.cifrarBloque j0
  Vector.ofFn fun i : Fin 16 ↦ getElem sb i (menor16 i) ^^^ getElem mascara i (menor16 i)

/-- `sellar`: the ciphertext left in place and the tag; `gcm.rs:208–229`. -/
def sellar (clave : Bytes) (nonce : Vector UInt8 12) (adicional texto : Bytes) :
    Option (Bytes × Bloque) := do
  let a ← Aes.nueva clave
  let (h, j0) := preparar a nonce
  let texto := ctr a j0 texto
  return (texto, etiquetaDe a h j0 adicional texto)

/-- `abrir`: the answer and the buffer it leaves; `gcm.rs:246–275`. -/
def abrir (clave : Bytes) (nonce : Vector UInt8 12) (adicional texto : Bytes) (etiqueta : Bloque) :
    Bool × Bytes :=
  match Aes.nueva clave with
  | none => (false, texto)
  | some a =>
    let (h, j0) := preparar a nonce
    if !etiquetasIguales (etiquetaDe a h j0 adicional texto) etiqueta then (false, texto)
    else (true, ctr a j0 texto)

end BmoX.Cripto.Gcm

/-! ### Authenticated encryption as SP 800-38D defines it -/

namespace BmoX.Cripto.Sp80038d

open BmoX.Base BmoX.Base.Gf2 Polynomial

/-! ### The field of blocks -/

/-- `x¹²⁸ + x⁷ + x² + x + 1`. -/
noncomputable def modulo : (ZMod 2)[X] := X ^ 128 + (X ^ 7 + X ^ 2 + X + 1)

theorem modulo_monic : modulo.Monic := by
  unfold modulo
  refine monic_X_pow_add ?_
  compute_degree!

theorem natDegree_modulo : modulo.natDegree = 128 := by
  unfold modulo
  compute_degree!

/-- The blocks, as polynomials modulo `modulo`. -/
abbrev Campo := AdjoinRoot modulo

noncomputable instance : CharP Campo 2 :=
  charP_two modulo_monic (by rw [natDegree_modulo]; decide)

/-- The class of `x`. -/
noncomputable abbrev raiz : Campo := AdjoinRoot.root modulo

theorem raiz_pow : raiz ^ 128 = raiz ^ 7 + raiz ^ 2 + raiz + 1 := by
  have hm : modulo = X ^ 128 + (X ^ 7 + X ^ 2 + X + 1) := by
    unfold modulo
    exact Eq.refl (X ^ 128 + (X ^ 7 + X ^ 2 + X + 1))
  have h := root_pow hm
  simp only [map_add, map_pow, map_one, AdjoinRoot.mk_X] at h
  exact h

/-- The bit `i` of a block, from the left. -/
def bit (b : Bloque) (i : Nat) : Bool := (b.toList.getD (i / 8) 0).toNat.testBit (7 - i % 8)

/-- The polynomial of a block, its leftmost bit the constant coefficient. -/
noncomputable def campo (b : Bloque) : Campo := ofBits raiz 128 (bit b)

theorem campo_inj {a b : Bloque} (h : campo a = campo b) : a = b := by
  have hbits : ∀ i < 128, bit a i = bit b i := by
    intro i hi
    rw [campo, campo, ← natDegree_modulo] at h
    exact ofBits_inj modulo_monic h (natDegree_modulo.symm ▸ hi)
  refine Vector.ext fun k hk ↦ UInt8.toNat_inj.mp (Nat.eq_of_testBit_eq fun j ↦ ?_)
  rcases Nat.lt_or_ge j 8 with hj | hj
  · have hb := hbits (8 * k + (7 - j)) (by omega)
    have hd : (8 * k + (7 - j)) / 8 = k := by omega
    have hm : 7 - (8 * k + (7 - j)) % 8 = j := by omega
    rw [bit, bit, hd, hm] at hb
    simpa [hk] using hb
  · have hle := Nat.pow_le_pow_right Nat.two_pos hj
    rw [Nat.testBit_lt_two_pow (a[k].toNat_lt.trans_le hle),
      Nat.testBit_lt_two_pow (b[k].toNat_lt.trans_le hle)]

private theorem testBit_ofBits (f : Nat → Bool) {j : Nat} (hj : j < 8) :
    (UInt8.ofNat (Nat.ofBits fun i : Fin 8 ↦ f i)).toNat.testBit j = f j := by
  rw [UInt8.toNat_ofNat', Nat.testBit_mod_two_pow, Nat.testBit_ofBits_lt _ _ hj]
  simp [hj]

private theorem campo_surjective : Function.Surjective campo := by
  intro x
  obtain ⟨f, rfl⟩ := exists_ofBits modulo_monic x
  let b : Bloque := Vector.ofFn fun k : Fin 16 ↦
    UInt8.ofNat (Nat.ofBits fun j : Fin 8 ↦ f (8 * k.val + (7 - j.val)))
  refine ⟨b, ?_⟩
  rw [campo, natDegree_modulo]
  refine ofBits_congr raiz fun i hi ↦ ?_
  have hk : i / 8 < 16 := by omega
  have hget : b.toList.getD (i / 8) 0 =
      UInt8.ofNat (Nat.ofBits fun j : Fin 8 ↦ f (8 * (i / 8) + (7 - j.val))) := by
    rw [List.getD_eq_getElem _ _ (by simpa using hk)]
    simp [b]
  have hi' : 8 * (i / 8) + (7 - (7 - i % 8)) = i := by omega
  rw [bit, hget, testBit_ofBits (fun j ↦ f (8 * (i / 8) + (7 - j))) (by omega), hi']

/-- The block of an element. -/
noncomputable def deCampo : Campo → Bloque := Function.surjInv campo_surjective

@[simp] theorem campo_deCampo (x : Campo) : campo (deCampo x) = x :=
  Function.surjInv_eq campo_surjective x

private theorem deCampo_eq {x : Campo} {b : Bloque} (h : campo b = x) : deCampo x = b :=
  campo_inj (by rw [campo_deCampo, h])

/-! ### The definitions of the standard -/

/-- The number of `n` bytes, the first most significant. -/
def entero (b : Bytes) : Nat := leNat b.reverse

/-- `[v]` in `n` bytes, the first most significant. -/
def cadena (n v : Nat) : Bytes := (leBytes n v).reverse

/-- `GHASH`: the polynomial with the blocks as coefficients, at the hash key. -/
noncomputable def ghash (h : Bloque) (xs : List Bloque) : Bloque :=
  deCampo (∑ i : Fin xs.length, campo xs[i] * campo h ^ (xs.length - i))

/-- The blocks of a string. -/
def bloques (b : Bytes) : List Bloque := (chunks 16 b).map Gcm.bloque

/-- What GHASH reads: both strings padded to blocks, and their lengths in bits. -/
def entradaGhash (adicional cifrado : Bytes) : Bytes :=
  padTo 16 adicional ++ padTo 16 cifrado ++ cadena 8 (8 * adicional.length) ++
    cadena 8 (8 * cifrado.length)

/-- `inc32`: the last 32 bits count up, modulo `2 ^ 32`. -/
def inc32 (b : Bloque) : Bloque :=
  Gcm.bloque (b.toList.take 12 ++ cadena 4 ((entero (b.toList.drop 12) + 1) % 2 ^ 32))

/-- Exclusive or of two blocks. -/
def suma (a b : Bloque) : Bloque :=
  Vector.ofFn fun i : Fin 16 ↦ getElem a i (menor16 i) ^^^ getElem b i (menor16 i)

/-- `GCTR`: the piece `i` is masked with the cipher of the counter block `i`. -/
def gctr (ciph : Bloque → Bloque) (icb : Bloque) (x : Bytes) : Bytes :=
  (chunks 16 x).zipIdx.flatMap fun (t, i) ↦ t.zipWith (· ^^^ ·) (ciph (inc32^[i] icb)).toList

/-- The pre-counter block of a nonce of 96 bits. -/
def j0 (iv : Vector UInt8 12) : Bloque := Gcm.bloque (iv.toList ++ [0, 0, 0, 1])

/-- The ciphertext. -/
def cifrado (v : Fips197.Variante) (clave : Bytes) (iv : Vector UInt8 12) (p : Bytes) : Bytes :=
  gctr (Fips197.cipher v clave) (inc32 (j0 iv)) p

/-- The tag of a ciphertext and its additional data. -/
noncomputable def etiqueta (v : Fips197.Variante) (clave : Bytes) (iv : Vector UInt8 12)
    (a c : Bytes) : Bloque :=
  let h := Fips197.cipher v clave (Vector.replicate 16 0)
  suma (ghash h (bloques (entradaGhash a c))) (Fips197.cipher v clave (j0 iv))

/-! ### The words of the source as polynomials -/

open Gcm

/-- The bit `i` of two words, from the left. -/
def cof (v : B128) (i : Nat) : Bool :=
  if i < 64 then v.1.toNat.testBit (63 - i) else v.2.toNat.testBit (127 - i)

/-- The polynomial of two words. -/
noncomputable def campo2 (v : B128) : Campo := ofBits raiz 128 (cof v)

private theorem testBit_u64De {b : Bytes} {i : Nat} (hi : i < 64) :
    (u64De b).toNat.testBit i = (b.getD (i / 8) 0).toNat.testBit (i % 8) := by
  rw [u64De, UInt64.toNat_ofNat', Nat.testBit_mod_two_pow, testBit_leNat]
  simp [hi]

private theorem getD_reverse {b : Bytes} {n i : Nat} (hb : b.length = n) (hi : i < n) :
    b.reverse.getD i 0 = b.getD (n - 1 - i) 0 := by
  rw [List.getD_eq_getElem _ _ (by rw [List.length_reverse]; omega), List.getElem_reverse,
    List.getD_eq_getElem _ _ (by omega)]
  simp only [hb]

/-- The words of a block have its bits. -/
theorem cof_deBytes (b : Bloque) {i : Nat} (hi : i < 128) : cof (deBytes b) i = bit b i := by
  have hlen : b.toList.length = 16 := Vector.length_toList
  rw [cof, deBytes]
  split
  · next h =>
    have hd : 8 - 1 - (63 - i) / 8 = i / 8 := by omega
    have hm : (63 - i) % 8 = 7 - i % 8 := by omega
    rw [testBit_u64De (by omega), getD_reverse (n := 8) (by rw [List.length_take]; omega) (by omega),
      hd, hm, bit, List.getD_eq_getElem?_getD, List.getElem?_take_of_lt (by omega),
      ← List.getD_eq_getElem?_getD]
  · next h =>
    have hd : 8 + (8 - 1 - (127 - i) / 8) = i / 8 := by omega
    have hm : (127 - i) % 8 = 7 - i % 8 := by omega
    rw [testBit_u64De (by omega), getD_reverse (n := 8) (by rw [List.length_drop]; omega) (by omega),
      hm, bit, List.getD_eq_getElem?_getD, List.getElem?_drop, hd, ← List.getD_eq_getElem?_getD]

private theorem campo2_deBytes (b : Bloque) : campo2 (deBytes b) = campo b :=
  ofBits_congr raiz fun _ hi ↦ cof_deBytes b hi

/-- The bytes of two words make them again. -/
theorem deBytes_aBytes (v : B128) : deBytes (aBytes v) = v := by
  have hl : ((u64Le v.1).reverse ++ (u64Le v.2).reverse).length = 16 := by simp
  have hv : (aBytes v).toList = (u64Le v.1).reverse ++ (u64Le v.2).reverse := by
    refine List.ext_getElem (by rw [Vector.length_toList, hl]) fun i h1 h2 ↦ ?_
    simp only [aBytes, bloque, Vector.getElem_toList, Vector.getElem_ofFn]
    exact List.getD_eq_getElem _ _ h2
  have h8 : (u64Le v.1).reverse.length = 8 := by simp
  rw [deBytes, hv, List.take_left' h8, List.drop_left' h8, List.reverse_reverse,
    List.reverse_reverse, u64De_u64Le, u64De_u64Le]

private theorem campo_aBytes (v : B128) : campo (aBytes v) = campo2 v := by
  rw [← campo2_deBytes, deBytes_aBytes]

@[simp] theorem campo2_zero : campo2 (0, 0) = 0 := by
  have h : ∀ i < 128, cof (0, 0) i = false := fun i _ ↦ by simp [cof]
  rw [campo2, ofBits_congr raiz h, ofBits_false]

theorem campo2_xor (x y : B128) : campo2 (x.1 ^^^ y.1, x.2 ^^^ y.2) = campo2 x + campo2 y := by
  rw [campo2, campo2, campo2, ← ofBits_xor]
  refine ofBits_congr raiz fun i _ ↦ ?_
  simp only [cof]
  split
  · rw [UInt64.toNat_xor, Nat.testBit_xor]
  · rw [UInt64.toNat_xor, Nat.testBit_xor]

private theorem and_mascara (v b : UInt64) (h : b = 0 ∨ b = 1) :
    v &&& (0 - b) = if b = 1 then v else 0 := by
  rcases h with rfl | rfl
  · simp
  · exact UInt64.and_neg_one

private theorem and_one (x : UInt64) : x &&& 1 = if x.toNat.testBit 0 then 1 else 0 := by
  rw [← UInt64.toNat_inj, UInt64.toNat_and]
  have h1 : (1 : UInt64).toNat = 1 := rfl
  rw [h1, Nat.and_one_is_mod, Nat.testBit_zero]
  rcases Nat.mod_two_eq_zero_or_one x.toNat with h | h <;> simp [h]

private theorem testBit_shiftRight (x : UInt64) {k : Nat} (hk : k < 64) (j : Nat) :
    (x >>> UInt64.ofNat k).toNat.testBit j = x.toNat.testBit (k + j) := by
  have hk' : (UInt64.ofNat k).toNat = k := UInt64.toNat_ofNat_of_lt' (hk.trans (by decide))
  rw [UInt64.toNat_shiftRight, hk', Nat.mod_eq_of_lt hk, Nat.testBit_shiftRight]

theorem bitDe_eq (x : B128) {i : Nat} (hi : i < 128) : bitDe x i = if cof x i then 1 else 0 := by
  rw [bitDe, cof]
  split
  · rw [and_one, testBit_shiftRight _ (by omega), Nat.add_zero]
  · rw [and_one, testBit_shiftRight _ (by omega), Nat.add_zero]

private theorem testBit_r {i : Nat} (hi : i < 64) :
    (0xE100000000000000 : UInt64).toNat.testBit (63 - i) = (i == 0 || i == 1 || i == 2 || i == 7) := by
  have : ∀ i < 64, (0xE100000000000000 : UInt64).toNat.testBit (63 - i) =
      (i == 0 || i == 1 || i == 2 || i == 7) := by decide
  exact this i hi

private theorem testBit_shiftLeft_63 (x : UInt64) {j : Nat} (hj : j < 64) :
    (x <<< 63).toNat.testBit j = (j == 63 && x.toNat.testBit 0) := by
  have h63 : (63 : UInt64).toNat = 63 := rfl
  rw [UInt64.toNat_shiftLeft, h63, Nat.testBit_mod_two_pow, Nat.mod_eq_of_lt (by decide),
    Nat.testBit_shiftLeft]
  rcases Nat.lt_or_ge j 63 with h | h
  · have h1 : ¬ j ≥ 63 := by omega
    have h2 : j ≠ 63 := by omega
    simp [h1, h2]
  · have : j = 63 := by omega
    simp [this]

/-- A shift moves each bit to the right, and brings the modulus in where one falls out. -/
theorem cof_desplaza (v : B128) {i : Nat} (hi : i < 128) :
    cof (desplaza v) i =
      ((i != 0 && cof v (i - 1)) ^^ (cof v 127 && (i == 0 || i == 1 || i == 2 || i == 7))) := by
  have hsal : v.2 &&& 1 = if cof v 127 then 1 else 0 := by
    rw [and_one]
    rfl
  have hr : (0xE100000000000000 : UInt64) &&& (0 - (v.2 &&& 1)) =
      if cof v 127 then 0xE100000000000000 else 0 := by
    rw [hsal, and_mascara _ _ (by split <;> simp)]
    cases cof v 127 <;> rfl
  have h1 : v.1 >>> 1 = v.1 >>> UInt64.ofNat 1 := rfl
  have h2 : v.2 >>> 1 = v.2 >>> UInt64.ofNat 1 := rfl
  rw [cof, desplaza, hr]
  split
  · next h =>
    rw [UInt64.toNat_xor, Nat.testBit_xor, h1, testBit_shiftRight _ (by decide)]
    congr 1
    · rcases Nat.eq_zero_or_pos i with rfl | hpos
      · exact Nat.testBit_lt_two_pow (v.1.toNat_lt)
      · have hne : (i != 0) = true := by simpa using hpos.ne'
        have hs : 1 + (63 - i) = 63 - (i - 1) := by omega
        rw [hne, Bool.true_and, cof, if_pos (by omega), hs]
    · cases cof v 127
      · simp
      · rw [if_pos rfl, testBit_r h, Bool.true_and]
  · next h =>
    have hne : (i != 0) = true := by simp; omega
    have hlow : (i == 0 || i == 1 || i == 2 || i == 7) = false := by
      simp only [Bool.or_eq_false_iff, beq_eq_false_iff_ne]
      omega
    rw [UInt64.toNat_or, Nat.testBit_or, h2, testBit_shiftRight _ (by decide),
      testBit_shiftLeft_63 _ (by omega), hne, hlow, Bool.true_and, Bool.and_false, Bool.xor_false]
    rcases Nat.lt_or_ge 64 i with hlt | hge
    · have h63 : (127 - i == 63) = false := by
        rw [beq_eq_false_iff_ne]
        omega
      have hs : 1 + (127 - i) = 127 - (i - 1) := by omega
      rw [h63, Bool.false_and, Bool.or_false, cof, if_neg (by omega), hs]
    · have he : i = 64 := by omega
      have hout : v.2.toNat.testBit 64 = false := Nat.testBit_lt_two_pow (v.2.toNat_lt)
      simp [he, hout, cof]

private theorem campo2_desplaza (v : B128) : campo2 (desplaza v) = raiz * campo2 v := by
  have hred : ofBits raiz 128 (fun i ↦ cof v 127 && (i == 0 || i == 1 || i == 2 || i == 7)) =
      if cof v 127 then raiz ^ 128 else 0 := by
    cases cof v 127
    · simp
    · rw [if_pos rfl, raiz_pow, ofBits,
        ← Finset.sum_subset (Finset.range_mono (show 8 ≤ _ by decide)) fun i _ hi ↦ ?_]
      · simp only [Finset.sum_range_succ, Finset.sum_range_zero]
        norm_num
        ring
      · have h8 : 8 ≤ i := by simpa using hi
        have : (i == 0 || i == 1 || i == 2 || i == 7) = false := by
          simp only [Bool.or_eq_false_iff, beq_eq_false_iff_ne]
          omega
        simp [this]
  rw [campo2, campo2, mul_ofBits, ← hred, ← ofBits_xor]
  exact ofBits_congr raiz fun i hi ↦ cof_desplaza v hi

private theorem campo2_vueltas (x h : B128) {n : Nat} (hn : n ≤ 128) :
    campo2 ((List.range n).foldl (vuelta x) ((0, 0), h)).1 =
        ∑ i ∈ Finset.range n, (if cof x i then raiz ^ i * campo2 h else 0) ∧
      campo2 ((List.range n).foldl (vuelta x) ((0, 0), h)).2 = raiz ^ n * campo2 h := by
  induction n with
  | zero => simp
  | succ n ih =>
    have ih := ih (by omega)
    rw [List.range_succ, List.foldl_append, List.foldl_cons, List.foldl_nil,
      Finset.sum_range_succ, ← ih.1, vuelta]
    generalize (List.range n).foldl (vuelta x) ((0, 0), h) = s at ih
    constructor
    · refine (campo2_xor s.1 (s.2.1 &&& (0 - bitDe x n), s.2.2 &&& (0 - bitDe x n))).trans ?_
      rw [bitDe_eq x (by omega), and_mascara _ _ (by split <;> simp),
        and_mascara _ _ (by split <;> simp)]
      cases cof x n
      · exact congrArg _ campo2_zero
      · exact congrArg _ ih.2
    · rw [campo2_desplaza, ih.2, pow_succ', mul_assoc]

private theorem campo2_producto (x h : B128) : campo2 (producto x h) = campo2 x * campo2 h := by
  rw [producto, (campo2_vueltas x h le_rfl).1, shift_add, ← campo2]

/-! ### GHASH -/

private theorem foldl_horner {R α : Type*} [CommRing R] (f : α → R) (h y : R) (l : List α) :
    l.foldl (fun y x ↦ (y + f x) * h) y =
      y * h ^ l.length + ∑ i : Fin l.length, f l[i] * h ^ (l.length - i) := by
  induction l generalizing y with
  | nil => simp
  | cons x l ih =>
    have hs : ∑ i : Fin (x :: l).length, f (x :: l)[i] * h ^ ((x :: l).length - i) =
        f x * h ^ (l.length + 1) + ∑ i : Fin l.length, f l[i] * h ^ (l.length - i) := by
      refine (Fin.sum_univ_succ _).trans ?_
      congr 1
      refine Finset.sum_congr rfl fun i _ ↦ ?_
      have he : (x :: l).length - (i.succ : Nat) = l.length - i := by
        simp only [List.length_cons, Fin.val_succ]
        omega
      simp only [he]
      rfl
    rw [List.foldl_cons, ih, hs, List.length_cons]
    ring

private theorem bloque_take (t : Bytes) : bloque (t.take 16) = bloque t := by
  ext i hi
  simp only [bloque, Vector.getElem_ofFn, List.getD_eq_getElem?_getD, List.getElem?_take_of_lt hi]

private theorem bloque_append_zeros (t : Bytes) (n : Nat) : bloque (t ++ zeros n) = bloque t := by
  ext i hi
  simp only [bloque, Vector.getElem_ofFn, List.getD_eq_getElem?_getD, zeros]
  rcases Nat.lt_or_ge i t.length with h | h
  · rw [List.getElem?_append_left h]
  · rw [List.getElem?_append_right h, List.getElem?_eq_none h, List.getElem?_replicate]
    split <;> rfl

private theorem campo2_absorber (y : B128) (t : Bytes) (h : B128) :
    campo2 (absorber y t h) = (campo2 y + campo (bloque t)) * campo2 h := by
  rw [absorber, campo2_producto, campo2_xor, campo2_deBytes, bloque_take]

private theorem campo2_absorbe (h : B128) (ts : List Bytes) (y : B128) :
    campo2 (ts.foldl (fun y t ↦ absorber y t h) y) =
      (ts.map bloque).foldl (fun y b ↦ (y + campo b) * campo2 h) (campo2 y) := by
  induction ts generalizing y with
  | nil => rfl
  | cons t ts ih => rw [List.foldl_cons, ih, campo2_absorber, List.map_cons, List.foldl_cons]

private theorem largoBits_eq (b : Bytes) : largoBits b = cadena 8 (8 * b.length) := by
  have hv : (UInt64.ofNat b.length * 8).toNat = 8 * b.length % 256 ^ 8 := by
    have h8 : (8 : UInt64).toNat = 8 := rfl
    have hp : (256 : Nat) ^ 8 = 2 ^ 64 := by norm_num
    rw [UInt64.toNat_mul, UInt64.toNat_ofNat', h8, Nat.mod_mul_mod, Nat.mul_comm, hp]
  rw [largoBits, u64Le, hv, leBytes_mod, cadena]

private theorem bloques_entradaGhash (a c : Bytes) :
    bloques (entradaGhash a c) =
      (chunks 16 a).map bloque ++ ((chunks 16 c).map bloque ++ [bloque (largoBits a ++ largoBits c)]) := by
  have hpad : ∀ b : Bytes, (chunks 16 (padTo 16 b)).map bloque = (chunks 16 b).map bloque := by
    intro b
    rw [chunks_padTo (by decide), List.map_map]
    exact List.map_congr_left fun t _ ↦ bloque_append_zeros t _
  have hl : (largoBits a ++ largoBits c).length = 16 := by
    simp [largoBits]
  have hlast : chunks 16 (largoBits a ++ largoBits c) = [largoBits a ++ largoBits c] := by
    have hne : largoBits a ++ largoBits c ≠ [] := by
      intro h
      rw [h] at hl
      cases hl
    rw [chunks_cons (by decide) hne, List.take_of_length_le hl.le, List.drop_of_length_le hl.le,
      chunks_nil]
  rw [bloques, entradaGhash, ← largoBits_eq, ← largoBits_eq, List.append_assoc, List.append_assoc,
    chunks_append (by decide) (dvd_length_padTo (by decide) a),
    chunks_append (by decide) (dvd_length_padTo (by decide) c), hlast, List.map_append,
    List.map_append, hpad, hpad]
  rfl

private theorem ghash_eq (h : Bloque) (a c : Bytes) :
    aBytes (Gcm.ghash (deBytes h) a c) = ghash h (bloques (entradaGhash a c)) := by
  refine (deCampo_eq ?_).symm
  have hf := foldl_horner campo (campo h) 0 (bloques (entradaGhash a c))
  rw [zero_mul, zero_add] at hf
  rw [campo_aBytes, Gcm.ghash, campo2_absorber, campo2_absorbe, campo2_absorbe, campo2_zero, ← hf,
    bloques_entradaGhash, List.foldl_append, List.foldl_append, campo2_deBytes]
  rfl

/-! ### Counter mode -/

/-- The last four bytes of a block, as a number. -/
def cuenta (b : Bloque) : Nat := entero (b.toList.drop 12)

private theorem drop_bloque (b : Bloque) : b.toList.drop 12 = [b[12], b[13], b[14], b[15]] := by
  refine List.ext_getElem (by simp) fun i h1 h2 ↦ ?_
  simp only [List.getElem_drop, Vector.getElem_toList]
  match i, h2 with
  | 0, _ => rfl
  | 1, _ => rfl
  | 2, _ => rfl
  | 3, _ => rfl

private theorem cuenta_eq (b : Bloque) : cuenta b =
    b[15].toNat + 256 * (b[14].toNat + 256 * (b[13].toNat + 256 * b[12].toNat)) := by
  rw [cuenta, drop_bloque, entero]
  simp [leNat]

private theorem inc32_eq (b : Bloque) : inc32 b =
    ((((b.set 12 (UInt8.ofNat ((cuenta b + 1) / 16777216))).set 13
      (UInt8.ofNat ((cuenta b + 1) / 65536))).set 14 (UInt8.ofNat ((cuenta b + 1) / 256))).set 15
        (UInt8.ofNat (cuenta b + 1))) := by
  have hb : ∀ v, cadena 4 (v % 2 ^ 32) = [UInt8.ofNat (v / 16777216), UInt8.ofNat (v / 65536),
      UInt8.ofNat (v / 256), UInt8.ofNat v] := by
    intro v
    have hp : (2 : Nat) ^ 32 = 256 ^ 4 := by norm_num
    rw [cadena, hp, leBytes_mod]
    simp [leBytes, Nat.div_div_eq_div_mul]
  rw [inc32, hb]
  ext i hi
  simp only [bloque, Vector.getElem_ofFn, cuenta, Vector.getElem_set]
  rcases Nat.lt_or_ge i 12 with h | h
  · have hl : i < (b.toList.take 12).length := by
      rw [List.length_take, Vector.length_toList]
      omega
    rw [List.getD_append _ _ _ _ hl, List.getD_eq_getElem _ _ hl, List.getElem_take,
      Vector.getElem_toList, if_neg (by omega), if_neg (by omega), if_neg (by omega),
      if_neg (by omega)]
  · have hl : (b.toList.take 12).length = 12 := by
      rw [List.length_take, Vector.length_toList]
      rfl
    rw [List.getD_append_right _ _ _ _ (by omega), hl]
    rcases (by omega : i = 12 ∨ i = 13 ∨ i = 14 ∨ i = 15) with rfl | rfl | rfl | rfl <;> rfl

private theorem siguiente_eq (b : Bloque) : siguiente b =
    if b[15] = 255 then
      if b[14] = 255 then
        if b[13] = 255 then (((b.set 15 0).set 14 0).set 13 0).set 12 (b[12] + 1)
        else ((b.set 15 0).set 14 0).set 13 (b[13] + 1)
      else (b.set 15 0).set 14 (b[14] + 1)
    else b.set 15 (b[15] + 1) := by
  simp only [siguiente, List.foldl_cons, List.foldl_nil]
  by_cases h15 : b[15] = 255
  · by_cases h14 : b[14] = 255
    · by_cases h13 : b[13] = 255 <;> simp [h15, h14, h13]
    · simp [h15, h14]
  · simp [h15]

private theorem siguiente_eq_inc32 (b : Bloque) : siguiente b = inc32 b := by
  have h12 := b[12].toNat_lt
  have h13 := b[13].toNat_lt
  have h14 := b[14].toNat_lt
  have h15 := b[15].toNat_lt
  have hc := cuenta_eq b
  have hmax : ∀ x : UInt8, x = 255 ↔ x.toNat = 255 := fun x ↦ UInt8.toNat_inj.symm
  rw [siguiente_eq, inc32_eq]
  ext i hi
  rcases Nat.lt_or_ge i 12 with h | h
  · have e12 : 12 ≠ i := by omega
    have e13 : 13 ≠ i := by omega
    have e14 : 14 ≠ i := by omega
    have e15 : 15 ≠ i := by omega
    split
    · split
      · split <;> simp only [Vector.getElem_set, if_neg e12, if_neg e13, if_neg e14, if_neg e15]
      · simp only [Vector.getElem_set, if_neg e12, if_neg e13, if_neg e14, if_neg e15]
    · simp only [Vector.getElem_set, if_neg e12, if_neg e13, if_neg e14, if_neg e15]
  · -- the bytes of the number one more, each by the carry it gets
    simp only [hmax]
    rcases (by omega : i = 12 ∨ i = 13 ∨ i = 14 ∨ i = 15) with rfl | rfl | rfl | rfl
    all_goals
      split
      · split
        · split
          all_goals
            simp [UInt8.toNat_add]
            omega
        · simp [UInt8.toNat_add]
          omega
      · simp [UInt8.toNat_add]
        omega

private theorem cuenta_inc32 (b : Bloque) : cuenta (inc32 b) = (cuenta b + 1) % 2 ^ 32 := by
  rw [cuenta_eq (inc32 b), inc32_eq]
  simp
  omega

private theorem cuenta_iterate (b : Bloque) (n : Nat) :
    cuenta (inc32^[n] b) % 2 ^ 32 = (cuenta b + n) % 2 ^ 32 := by
  induction n with
  | zero => rfl
  | succ n ih =>
    rw [Function.iterate_succ_apply', cuenta_inc32, Nat.mod_mod, Nat.add_mod, ih, ← Nat.add_mod,
      Nat.add_assoc]

private theorem iterate_inc32_ne (b : Bloque) {n : Nat} (h0 : 0 < n) (hn : n < 2 ^ 32) :
    inc32^[n] b ≠ b := by
  intro h
  have := cuenta_iterate b n
  rw [h] at this
  omega

private theorem reparte_eq (c : Bloque) (ts : List Bytes) (k : Nat) :
    reparte (inc32^[k] c) ts = (ts.zipIdx k).map fun p ↦ (inc32^[p.2 + 1] c, p.1) := by
  induction ts generalizing k with
  | nil => rfl
  | cons t ts ih =>
    have hs : siguiente (inc32^[k] c) = inc32^[k + 1] c := by
      rw [siguiente_eq_inc32, Function.iterate_succ_apply']
    rw [reparte, hs, ih, List.zipIdx_cons, List.map_cons]

/-- The counter block of the piece `i` is `i + 1` steps after the first. -/
theorem mem_reparte {c : Bloque} {ts : List Bytes} {p : Bloque × Bytes} (h : p ∈ reparte c ts) :
    ∃ i < ts.length, p.1 = inc32^[i + 1] c := by
  rw [show c = inc32^[0] c from rfl, reparte_eq] at h
  obtain ⟨q, hq, rfl⟩ := List.mem_map.mp h
  have hi := List.snd_lt_of_mem_zipIdx hq
  exact ⟨q.2, by simpa using hi, rfl⟩

private theorem ctr_eq_gctr (a : Aes) (c : Bloque) (x : Bytes) :
    ctr a c x = gctr a.cifrarBloque (inc32 c) x := by
  rw [ctr, show c = inc32^[0] c from rfl, reparte_eq, gctr, List.flatMap_map]
  rfl

private theorem ctr_cons (a : Aes) (c : Bloque) {x : Bytes} (hx : x ≠ []) :
    ctr a c x = (x.take 16).zipWith (· ^^^ ·) (a.cifrarBloque (siguiente c)).toList ++
      ctr a (siguiente c) (x.drop 16) := by
  rw [ctr, chunks_cons (by decide) hx, reparte, List.flatMap_cons]
  rfl

@[simp] theorem ctr_nil (a : Aes) (c : Bloque) : ctr a c [] = [] := by
  rw [ctr, chunks_nil]
  rfl

private theorem zipWith_xor_xor {t k : Bytes} (h : t.length ≤ k.length) :
    (t.zipWith (· ^^^ ·) k).zipWith (· ^^^ ·) k = t := by
  induction t generalizing k with
  | nil => rfl
  | cons x t ih =>
    cases k with
    | nil => cases h
    | cons y k =>
      simp only [List.zipWith_cons_cons]
      rw [ih (Nat.le_of_succ_le_succ h), UInt8.xor_assoc, UInt8.xor_self, UInt8.xor_zero]

/-- Masking twice gives the text back. -/
theorem ctr_ctr (a : Aes) (c : Bloque) (x : Bytes) : ctr a c (ctr a c x) = x := by
  induction h : x.length using Nat.strong_induction_on generalizing x c with
  | _ n ih =>
    rcases eq_or_ne x [] with rfl | hx
    · rw [ctr_nil, ctr_nil]
    · have hpos := List.length_pos_iff.mpr hx
      have hk : (a.cifrarBloque (siguiente c)).toList.length = 16 := Vector.length_toList
      generalize hks : (a.cifrarBloque (siguiente c)).toList = ks at hk
      have hz : ((x.take 16).zipWith (· ^^^ ·) ks).length = min 16 x.length := by
        rw [List.length_zipWith, List.length_take, hk]
        omega
      have hne : (x.take 16).zipWith (· ^^^ ·) ks ++ ctr a (siguiente c) (x.drop 16) ≠ [] := by
        intro he
        have := congrArg List.length he
        rw [List.length_append, hz, List.length_nil] at this
        omega
      have hcut : ((x.take 16).zipWith (· ^^^ ·) ks ++ ctr a (siguiente c) (x.drop 16)).take 16 =
            (x.take 16).zipWith (· ^^^ ·) ks ∧
          ((x.take 16).zipWith (· ^^^ ·) ks ++ ctr a (siguiente c) (x.drop 16)).drop 16 =
            ctr a (siguiente c) (x.drop 16) := by
        rcases Nat.lt_or_ge x.length 16 with hlt | hge
        · rw [List.drop_of_length_le hlt.le, ctr_nil, List.append_nil,
            List.take_of_length_le (by omega), List.drop_of_length_le (by omega)]
          exact ⟨rfl, rfl⟩
        · have h16 : ((x.take 16).zipWith (· ^^^ ·) ks).length = 16 := by omega
          exact ⟨List.take_left' h16, List.drop_left' h16⟩
      rw [ctr_cons a c hx, hks, ctr_cons a c hne, hks, hcut.1, hcut.2,
        zipWith_xor_xor (by rw [List.length_take]; omega),
        ih (x.drop 16).length (by rw [List.length_drop]; omega) _ _ rfl, List.take_append_drop]

/-! ### Sealing and opening -/

private theorem etiquetasIguales_iff (a b : Bloque) : etiquetasIguales a b = true ↔ a = b := by
  have hfold : ∀ (l : List (Fin 16)) (s : UInt8),
      l.foldl (fun sobra i ↦ sobra ||| (a[i] ^^^ b[i])) s = 0 ↔ s = 0 ∧ ∀ i ∈ l, a[i] = b[i] := by
    intro l
    induction l with
    | nil => simp
    | cons i l ih =>
      intro s
      rw [List.foldl_cons, ih, UInt8.or_eq_zero_iff, UInt8.xor_eq_zero_iff]
      simp only [List.mem_cons, forall_eq_or_imp, and_assoc]
  rw [etiquetasIguales, beq_iff_eq, hfold]
  constructor
  · rintro ⟨-, h⟩
    ext i hi
    exact congrArg _ (h ⟨i, hi⟩ (List.mem_finRange _))
  · rintro rfl
    exact ⟨rfl, fun _ _ ↦ rfl⟩

private theorem etiquetaDe_eq {v : Fips197.Variante} {clave : Bytes} {a : Aes}
    (h : Fips197.Cargada v clave a) (iv : Vector UInt8 12) (ad c : Bytes) :
    etiquetaDe a (deBytes (a.cifrarBloque (Vector.replicate 16 0))) (j0De iv) ad c =
      etiqueta v clave iv ad c := by
  rw [etiquetaDe, ghash_eq, Fips197.cifrarBloque_eq h, Fips197.cifrarBloque_eq h]
  rfl

/-- AES-GCM of the source, for keys of either size: it seals as the standard says, opens what it
sealed, opens exactly the tag of what it is given, leaves the buffer alone when it refuses, and masks
no piece of the text with the block that masks the tag. -/
theorem gcm_conforme (v : Fips197.Variante) {clave : Bytes} (hk : clave.length = 4 * v.nk)
    (iv : Vector UInt8 12) (ad texto : Bytes) (ht : (chunks 16 texto).length < 2 ^ 32 - 2) :
    sellar clave iv ad texto =
        some (cifrado v clave iv texto, etiqueta v clave iv ad (cifrado v clave iv texto)) ∧
      abrir clave iv ad (cifrado v clave iv texto)
        (etiqueta v clave iv ad (cifrado v clave iv texto)) = (true, texto) ∧
      (∀ c t, ((abrir clave iv ad c t).1 = true ↔ t = etiqueta v clave iv ad c) ∧
        ((abrir clave iv ad c t).1 = false → (abrir clave iv ad c t).2 = c)) ∧
      ∀ p ∈ reparte (j0De iv) (chunks 16 texto), p.1 ≠ j0De iv := by
  obtain ⟨a, ha, hc⟩ := Fips197.nueva_cargada v hk
  have hfun : a.cifrarBloque = Fips197.cipher v clave := by
    funext b
    exact Fips197.cifrarBloque_eq hc b
  have hctr : ∀ x, ctr a (j0De iv) x = cifrado v clave iv x := by
    intro x
    calc ctr a (j0De iv) x = gctr a.cifrarBloque (inc32 (j0 iv)) x := ctr_eq_gctr ..
      _ = cifrado v clave iv x := by rw [hfun, cifrado]
  have habrir : ∀ c t, abrir clave iv ad c t =
      if t = etiqueta v clave iv ad c then (true, cifrado v clave iv c) else (false, c) := by
    intro c t
    simp only [abrir, ha, preparar, etiquetaDe_eq hc, hctr]
    by_cases h : etiqueta v clave iv ad c = t
    · rw [if_pos h.symm, (etiquetasIguales_iff _ _).mpr h]
      rfl
    · have hf := Bool.eq_false_iff.mpr ((etiquetasIguales_iff _ _).not.mpr h)
      rw [if_neg (Ne.symm h), hf]
      rfl
  refine ⟨?_, ?_, fun c t ↦ ?_, fun p hp ↦ ?_⟩
  · simp only [sellar, ha, preparar, etiquetaDe_eq hc, hctr, Option.bind_eq_bind, Option.bind_some,
      Option.pure_def]
  · have hdos := ctr_ctr a (j0De iv) texto
    rw [hctr, hctr] at hdos
    rw [habrir, if_pos rfl, hdos]
  · rw [habrir]
    split
    · next h => exact ⟨iff_of_true rfl h, fun h ↦ Bool.noConfusion h⟩
    · next h => exact ⟨iff_of_false Bool.noConfusion h, fun _ ↦ rfl⟩
  · obtain ⟨i, hi, he⟩ := mem_reparte hp
    rw [he]
    exact iterate_inc32_ne _ (Nat.succ_pos i) (by omega)

/-- Under a key of 32 zeros, with twenty bytes beside it, a text of three pieces: what is sealed
opens with its tag and with no other one, and no piece is masked with the block of the tag. -/
theorem gcm_clave_cero :
    (∃ c t, sellar (zeros 32) (Vector.replicate 12 0) (zeros 20) (zeros 40) = some (c, t) ∧
      abrir (zeros 32) (Vector.replicate 12 0) (zeros 20) c t = (true, zeros 40) ∧
      ∀ t', t' ≠ t →
        abrir (zeros 32) (Vector.replicate 12 0) (zeros 20) c t' = (false, c)) ∧
    (chunks 16 (zeros 40)).length = 3 ∧
    ∀ p ∈ reparte (j0De (Vector.replicate 12 0)) (chunks 16 (zeros 40)),
      p.1 ≠ j0De (Vector.replicate 12 0) := by
  have htres : (chunks 16 (zeros 40)).length = 3 := by
    rw [length_chunks (by decide)]
    decide
  have hclave : (zeros 32).length = 4 * Fips197.Variante.aes256.nk := rfl
  obtain ⟨hsella, habre, hetiqueta, hpiezas⟩ := gcm_conforme .aes256 hclave
    (Vector.replicate 12 0) (zeros 20) (zeros 40) (by rw [htres]; decide)
  refine ⟨⟨_, _, hsella, habre, fun t' ht' ↦ ?_⟩, htres, hpiezas⟩
  obtain ⟨hsi, hno⟩ := hetiqueta (cifrado .aes256 (zeros 32) (Vector.replicate 12 0) (zeros 40)) t'
  have hfalso := Bool.eq_false_iff.mpr (hsi.not.mpr ht')
  exact Prod.ext hfalso (hno hfalso)

end BmoX.Cripto.Sp80038d
