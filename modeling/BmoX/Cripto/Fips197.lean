import BmoX.Base.Bytes
import BmoX.Base.Gf2
import Mathlib.Data.Vector.Defs
import Mathlib.Tactic.NormNum

/-!
# The cipher of `aes.rs` is that of FIPS 197

The standard's own definitions: bytes as polynomials modulo `x⁸ + x⁴ + x³ + x + 1`, the S-box as an
inverse followed by an affine map, the state as four rows of four columns, and the recursive key
expansion. The tables and shortcuts of the source compute the same.

`platform/shared/bmo-cripto/src/aes.rs:40–174`: keys of 16 and of 32 bytes.
-/

namespace BmoX.Cripto

open BmoX.Base

/-! ### AES -/

/-- Bytes of a block; `aes.rs:41`. -/
abbrev Bloque := Vector UInt8 16

theorem menor16 (i : Fin 16) : i.val < 16 := i.isLt

/-- A word of the key schedule. -/
abbrev Palabra := Vector UInt8 4

set_option maxRecDepth 4096 in
/-- `SBOX`; `aes.rs:48–65`. -/
def sbox : Vector UInt8 256 :=
  #v[0x63, 0x7c, 0x77, 0x7b, 0xf2, 0x6b, 0x6f, 0xc5, 0x30, 0x01, 0x67, 0x2b, 0xfe, 0xd7, 0xab, 0x76,
    0xca, 0x82, 0xc9, 0x7d, 0xfa, 0x59, 0x47, 0xf0, 0xad, 0xd4, 0xa2, 0xaf, 0x9c, 0xa4, 0x72, 0xc0,
    0xb7, 0xfd, 0x93, 0x26, 0x36, 0x3f, 0xf7, 0xcc, 0x34, 0xa5, 0xe5, 0xf1, 0x71, 0xd8, 0x31, 0x15,
    0x04, 0xc7, 0x23, 0xc3, 0x18, 0x96, 0x05, 0x9a, 0x07, 0x12, 0x80, 0xe2, 0xeb, 0x27, 0xb2, 0x75,
    0x09, 0x83, 0x2c, 0x1a, 0x1b, 0x6e, 0x5a, 0xa0, 0x52, 0x3b, 0xd6, 0xb3, 0x29, 0xe3, 0x2f, 0x84,
    0x53, 0xd1, 0x00, 0xed, 0x20, 0xfc, 0xb1, 0x5b, 0x6a, 0xcb, 0xbe, 0x39, 0x4a, 0x4c, 0x58, 0xcf,
    0xd0, 0xef, 0xaa, 0xfb, 0x43, 0x4d, 0x33, 0x85, 0x45, 0xf9, 0x02, 0x7f, 0x50, 0x3c, 0x9f, 0xa8,
    0x51, 0xa3, 0x40, 0x8f, 0x92, 0x9d, 0x38, 0xf5, 0xbc, 0xb6, 0xda, 0x21, 0x10, 0xff, 0xf3, 0xd2,
    0xcd, 0x0c, 0x13, 0xec, 0x5f, 0x97, 0x44, 0x17, 0xc4, 0xa7, 0x7e, 0x3d, 0x64, 0x5d, 0x19, 0x73,
    0x60, 0x81, 0x4f, 0xdc, 0x22, 0x2a, 0x90, 0x88, 0x46, 0xee, 0xb8, 0x14, 0xde, 0x5e, 0x0b, 0xdb,
    0xe0, 0x32, 0x3a, 0x0a, 0x49, 0x06, 0x24, 0x5c, 0xc2, 0xd3, 0xac, 0x62, 0x91, 0x95, 0xe4, 0x79,
    0xe7, 0xc8, 0x37, 0x6d, 0x8d, 0xd5, 0x4e, 0xa9, 0x6c, 0x56, 0xf4, 0xea, 0x65, 0x7a, 0xae, 0x08,
    0xba, 0x78, 0x25, 0x2e, 0x1c, 0xa6, 0xb4, 0xc6, 0xe8, 0xdd, 0x74, 0x1f, 0x4b, 0xbd, 0x8b, 0x8a,
    0x70, 0x3e, 0xb5, 0x66, 0x48, 0x03, 0xf6, 0x0e, 0x61, 0x35, 0x57, 0xb9, 0x86, 0xc1, 0x1d, 0x9e,
    0xe1, 0xf8, 0x98, 0x11, 0x69, 0xd9, 0x8e, 0x94, 0x9b, 0x1e, 0x87, 0xe9, 0xce, 0x55, 0x28, 0xdf,
    0x8c, 0xa1, 0x89, 0x0d, 0xbf, 0xe6, 0x42, 0x68, 0x41, 0x99, 0x2d, 0x0f, 0xb0, 0x54, 0xbb, 0x16]

/-- `SBOX[x as usize]`. -/
def sustituye (x : UInt8) : UInt8 := getElem sbox x.toNat x.toNat_lt

/-- Doubling without a branch; `aes.rs:72–75`. -/
def por2 (b : UInt8) : UInt8 :=
  let alto := (0 : UInt8) - (b >>> 7)
  (b <<< 1) ^^^ (alto &&& 0x1B)

/-- The expanded round keys; `aes.rs:82–85`. -/
structure Aes where
  rk : Vector Bloque 15
  rondas : Nat

namespace Aes

/-- A word of the schedule; the indices of the source lie within its 60 words. -/
def lee (w : Vector Palabra 60) (i : Nat) : Palabra := w[i]?.getD (Vector.replicate 4 0)

/-- One turn of the expansion, with the round constant it leaves; `aes.rs:107–123`. -/
def expande (nk : Nat) (s : Vector Palabra 60 × UInt8) (i : Nat) : Vector Palabra 60 × UInt8 :=
  let (w, rcon) := s
  let t := lee w (i - 1)
  let (t, rcon) : Palabra × UInt8 :=
    if i % nk = 0 then
      (#v[sustituye t[1] ^^^ rcon, sustituye t[2], sustituye t[3], sustituye t[0]], por2 rcon)
    else if nk > 6 ∧ i % nk = 4 then
      (#v[sustituye t[0], sustituye t[1], sustituye t[2], sustituye t[3]], rcon)
    else (t, rcon)
  (w.setIfInBounds i (Vector.ofFn fun j : Fin 4 ↦ (lee w (i - nk))[j] ^^^ t[j]), rcon)

/-- The words before the expansion: those of the key, the rest zero; `aes.rs:102–105`. -/
def arranque (nk : Nat) (clave : Bytes) : Vector Palabra 60 :=
  Vector.ofFn fun i : Fin 60 ↦ Vector.ofFn fun j : Fin 4 ↦
    if i.val < nk then clave.getD (4 * i.val + j.val) 0 else 0

/-- All the words; `aes.rs:102–123`. -/
def palabras (nk : Nat) (clave : Bytes) : Vector Palabra 60 :=
  ((List.range' nk (4 * (nk + 7) - nk)).foldl (expande nk) (arranque nk clave, 1)).1

/-- `Aes::nueva`; `aes.rs:92–131`. -/
def nueva (clave : Bytes) : Option Aes :=
  let cargar (nk : Nat) : Aes :=
    let w := palabras nk clave
    { rk := Vector.ofFn fun r : Fin 15 ↦ Vector.ofFn fun i : Fin 16 ↦
        if r.val ≤ nk + 6 then
          getElem (lee w (4 * r.val + i.val / 4)) (i.val % 4) (Nat.mod_lt _ (by decide))
        else 0
      rondas := nk + 6 }
  if clave.length = 16 then some (cargar 4)
  else if clave.length = 32 then some (cargar 8)
  else none

/-- `rk[r]`; the rounds of the source lie within the 15 keys. -/
def clave (a : Aes) (r : Nat) : Bloque := a.rk[r]?.getD (Vector.replicate 16 0)

/-- `b[i] ^= rk[r][i]`. -/
def mezclaClave (a : Aes) (b : Bloque) (r : Nat) : Bloque :=
  Vector.ofFn fun i : Fin 16 ↦ getElem b i (menor16 i) ^^^ getElem (a.clave r) i (menor16 i)

/-- ShiftRows: row `f` turns `f` places to the left; `aes.rs:152–157`. -/
def giraFilas (t : Bloque) : Bloque :=
  Vector.ofFn fun i : Fin 16 ↦ t[((i.val / 4 + i.val % 4) % 4) * 4 + i.val % 4]

/-- MixColumns; `aes.rs:158–167`. -/
def mezclaColumnas (b : Bloque) : Bloque :=
  Vector.ofFn fun i : Fin 16 ↦
    let c := i.val / 4
    let f := i.val % 4
    let todo := b[c * 4] ^^^ b[c * 4 + 1] ^^^ b[c * 4 + 2] ^^^ b[c * 4 + 3]
    b[c * 4 + f] ^^^ todo ^^^ por2 (b[c * 4 + f] ^^^ b[c * 4 + (f + 1) % 4])

/-- One round; `aes.rs:146–171`. -/
def ronda (a : Aes) (b : Bloque) (r : Nat) (mezclar : Bool) : Bloque :=
  let b := giraFilas (b.map sustituye)
  a.mezclaClave (if mezclar then mezclaColumnas b else b) r

/-- Cipher of one block; `aes.rs:134–144`. -/
def cifrarBloque (a : Aes) (b : Bloque) : Bloque :=
  let b := (List.range' 1 (a.rondas - 1)).foldl (fun b r ↦ a.ronda b r true) (a.mezclaClave b 0)
  a.ronda b a.rondas false

end Aes

open BmoX.Base.Gf2 Polynomial

/-! ### The cipher of `aes.rs` is that of FIPS 197 -/

namespace Fips197

/-! ### The field of bytes -/

/-- `x⁸ + x⁴ + x³ + x + 1`. -/
noncomputable def modulo : (ZMod 2)[X] := X ^ 8 + (X ^ 4 + X ^ 3 + X + 1)

theorem modulo_monic : modulo.Monic := by
  refine monic_X_pow_add ?_
  compute_degree!

theorem natDegree_modulo : modulo.natDegree = 8 := by
  rw [modulo]
  compute_degree!

/-- The bytes, as polynomials modulo `modulo`. -/
abbrev Campo := AdjoinRoot modulo

noncomputable instance : CharP Campo 2 :=
  charP_two modulo_monic (by rw [natDegree_modulo]; decide)

/-- The class of `x`. -/
noncomputable abbrev raiz : Campo := AdjoinRoot.root modulo

theorem raiz_pow : raiz ^ 8 = raiz ^ 4 + raiz ^ 3 + raiz + 1 := by
  rw [root_pow modulo.eq_1]
  simp only [map_add, map_pow, map_one, AdjoinRoot.mk_X]

/-- The polynomial of a byte, the lowest bit its constant coefficient. -/
noncomputable def campo (b : UInt8) : Campo := ofBits raiz 8 b.toNat.testBit

theorem campo_inj {a b : UInt8} (h : campo a = campo b) : a = b := by
  have hbits : ∀ i < 8, a.toNat.testBit i = b.toNat.testBit i := by
    intro i hi
    rw [campo, campo, ← natDegree_modulo] at h
    exact ofBits_inj modulo_monic h (natDegree_modulo.symm ▸ hi)
  refine UInt8.toNat_inj.mp (Nat.eq_of_testBit_eq fun i ↦ ?_)
  rcases Nat.lt_or_ge i 8 with hi | hi
  · exact hbits i hi
  · have hle := Nat.pow_le_pow_right Nat.two_pos hi
    rw [Nat.testBit_lt_two_pow (a.toNat_lt.trans_le hle),
      Nat.testBit_lt_two_pow (b.toNat_lt.trans_le hle)]

@[simp] theorem campo_zero : campo 0 = 0 := by
  have h : ∀ i < 8, (0 : UInt8).toNat.testBit i = false := fun i _ ↦ Nat.zero_testBit i
  rw [campo, ofBits_congr raiz h, ofBits_false]

@[simp] theorem campo_one : campo 1 = 1 := by
  have h : ∀ i < 8, (1 : UInt8).toNat.testBit i = (i == 0) := by decide
  rw [campo, ofBits_congr raiz h]
  simp [ofBits]

@[simp] theorem campo_xor (a b : UInt8) : campo (a ^^^ b) = campo a + campo b := by
  rw [campo, campo, campo, ← ofBits_xor]
  refine ofBits_congr raiz fun i _ ↦ ?_
  rw [UInt8.toNat_xor, Nat.testBit_xor]

/-- `xtime`: multiplication by `x`. -/
def xtime (b : UInt8) : UInt8 := if b.toNat.testBit 7 then (b <<< 1) ^^^ 0x1B else b <<< 1

private theorem por2_eq_xtime (b : UInt8) : por2 b = xtime b := by
  have hlt : b.toNat < 256 := b.toNat_lt
  have hbit : (b >>> 7).toNat = (b.toNat.testBit 7).toNat := by
    change b.toNat >>> 7 = _
    rw [Nat.shiftRight_eq_div_pow, Nat.toNat_testBit]
    omega
  rw [por2, xtime]
  cases hb : b.toNat.testBit 7 with
  | false =>
    rw [hb] at hbit
    rw [show b >>> 7 = 0 from UInt8.toNat_inj.mp hbit]
    exact UInt8.xor_zero
  | true =>
    rw [hb] at hbit
    rw [show b >>> 7 = 1 from UInt8.toNat_inj.mp hbit]
    rfl

private theorem testBit_por2 (b : UInt8) {i : Nat} (hi : i < 8) : (por2 b).toNat.testBit i =
    ((i != 0 && b.toNat.testBit (i - 1)) ^^
      (b.toNat.testBit 7 && (i == 0 || i == 1 || i == 3 || i == 4))) := by
  have hdoble : (b <<< 1).toNat.testBit i = (i != 0 && b.toNat.testBit (i - 1)) := by
    change ((b.toNat <<< 1) % 2 ^ 8).testBit i = _
    rw [Nat.testBit_mod_two_pow, Nat.testBit_shiftLeft, decide_eq_true hi, Bool.true_and]
    cases i <;> rfl
  have hpoli : ∀ i < 8, (0x1B : UInt8).toNat.testBit i = (i == 0 || i == 1 || i == 3 || i == 4) := by
    decide
  rw [por2_eq_xtime, xtime]
  cases b.toNat.testBit 7 with
  | false => rw [if_neg Bool.false_ne_true, hdoble, Bool.false_and, Bool.xor_false]
  | true => rw [if_pos rfl, UInt8.toNat_xor, Nat.testBit_xor, hdoble, hpoli i hi, Bool.true_and]

/-- `por2` multiplies by `x`. -/
@[simp] theorem campo_por2 (b : UInt8) : campo (por2 b) = raiz * campo b := by
  have hred : ofBits raiz 8 (fun i ↦ b.toNat.testBit 7 && (i == 0 || i == 1 || i == 3 || i == 4)) =
      if b.toNat.testBit 7 then raiz ^ 8 else 0 := by
    cases b.toNat.testBit 7
    · simp
    · rw [if_pos rfl, raiz_pow]
      simp only [ofBits, Finset.sum_range_succ, Finset.sum_range_zero]
      norm_num
      ring
  rw [campo, campo, mul_ofBits, ← hred, ← ofBits_xor]
  exact ofBits_congr raiz fun i hi ↦ testBit_por2 b hi

/-- One bit of a product: `v` is `b` times the power of `x` that the bit stands for. -/
def porBit (a : UInt8) (s : UInt8 × UInt8) (i : Nat) : UInt8 × UInt8 :=
  (if a.toNat.testBit i then s.1 ^^^ s.2 else s.1, xtime s.2)

/-- The product of two bytes: `b` times `x` at each bit, added where the bit of `a` is set. -/
def por (a b : UInt8) : UInt8 := ((List.range 8).foldl (porBit a) (0, b)).1

private theorem campo_porBits (a b : UInt8) (n : Nat) :
    campo ((List.range n).foldl (porBit a) (0, b)).1 =
        ∑ i ∈ Finset.range n, (if a.toNat.testBit i then raiz ^ i * campo b else 0) ∧
      campo ((List.range n).foldl (porBit a) (0, b)).2 = raiz ^ n * campo b := by
  induction n with
  | zero => simp
  | succ n ih =>
    rw [List.range_succ, List.foldl_append, List.foldl_cons, List.foldl_nil,
      Finset.sum_range_succ, ← ih.1, porBit]
    constructor
    · split
      · rw [campo_xor, ih.2]
      · rw [add_zero]
    · rw [← por2_eq_xtime, campo_por2, ih.2, pow_succ', mul_assoc]

@[simp] theorem campo_por (a b : UInt8) : campo (por a b) = campo a * campo b := by
  rw [por, (campo_porBits a b 8).1, shift_add, ← campo]

/-! ### The S-box -/

/-- The inverse for `por`, and zero where there is none. -/
def inverso (b : UInt8) : UInt8 :=
  (((List.range 256).map UInt8.ofNat).find? fun c ↦ por b c == 1).getD 0

private theorem inverso_of_por {b c : UInt8} (h : por b c = 1) : inverso b = c := by
  have hmem : c ∈ (List.range 256).map UInt8.ofNat :=
    List.mem_map.mpr ⟨c.toNat, List.mem_range.mpr c.toNat_lt, UInt8.ofNat_toNat⟩
  rw [inverso]
  cases hf : ((List.range 256).map UInt8.ofNat).find? fun c ↦ por b c == 1 with
  | none => exact absurd h (by simpa using List.find?_eq_none.mp hf c hmem)
  | some d =>
    have hd : por b d = 1 := by simpa using List.find?_some hf
    have hc := congrArg campo h
    have hd' := congrArg campo hd
    rw [campo_por, campo_one] at hc hd'
    rw [Option.getD_some]
    -- the inverse in a commutative ring is unique
    exact campo_inj (by linear_combination campo c * hd' - campo d * hc)

private theorem inverso_zero : inverso 0 = 0 := by
  have hne : ∀ c : UInt8, por 0 c ≠ 1 := by
    intro c h
    have := congrArg campo h
    rw [campo_por, campo_zero, zero_mul, ← campo_zero] at this
    exact absurd (campo_inj this) (by decide)
  have hf : ((List.range 256).map UInt8.ofNat).find? (fun c ↦ por 0 c == 1) = none :=
    List.find?_eq_none.mpr fun c _ ↦ by simpa using hne c
  rw [inverso, hf]
  rfl

/-- The byte whose bits `b` gives from the lowest. -/
def deBits (b : Nat → Bool) : UInt8 :=
  UInt8.ofNat ((List.range 8).foldl (fun r i ↦ if b i then r + 2 ^ i else r) 0)

/-- The affine map over the bits of a byte. -/
def afin (b : UInt8) : UInt8 :=
  deBits fun i ↦ b.toNat.testBit i ^^ b.toNat.testBit ((i + 4) % 8) ^^
    b.toNat.testBit ((i + 5) % 8) ^^ b.toNat.testBit ((i + 6) % 8) ^^
    b.toNat.testBit ((i + 7) % 8) ^^ (0x63 : Nat).testBit i

private def desafin (b : UInt8) : UInt8 :=
  deBits fun i ↦ b.toNat.testBit ((i + 2) % 8) ^^ b.toNat.testBit ((i + 5) % 8) ^^
    b.toNat.testBit ((i + 7) % 8) ^^ (0x05 : Nat).testBit i

private theorem afin_desafin : ∀ n < 256, afin (desafin (UInt8.ofNat n)) = UInt8.ofNat n := by
  decide +kernel

private theorem por_desafin : ∀ e ∈ sbox.toList.zipIdx, e.2 ≠ 0 →
    por (UInt8.ofNat e.2) (desafin e.1) = 1 := by
  decide +kernel

private theorem mem_zipIdx_sbox (b : UInt8) : (sustituye b, b.toNat) ∈ sbox.toList.zipIdx := by
  rw [List.mem_zipIdx_iff_getElem?, Vector.getElem?_toList]
  exact Vector.getElem?_eq_getElem b.toNat_lt

/-- `SubBytes` on one byte. -/
def sub (b : UInt8) : UInt8 := afin (inverso b)

private theorem sustituye_eq_sub (b : UInt8) : sustituye b = sub b := by
  have ha := afin_desafin (sustituye b).toNat (sustituye b).toNat_lt
  have hp := por_desafin _ (mem_zipIdx_sbox b)
  rw [UInt8.ofNat_toNat] at ha hp
  rw [sub]
  rcases eq_or_ne b 0 with rfl | hb
  · rw [inverso_zero]
    decide
  · have hb' : b.toNat ≠ 0 := fun h ↦ hb (UInt8.toNat_inj.mp h)
    rw [inverso_of_por (hp hb'), ha]

/-! ### The key expansion -/

/-- The variants of the source: keys of four or of eight words. -/
inductive Variante
  | aes128
  | aes256
  deriving DecidableEq

namespace Variante

/-- Words of the key. -/
def nk : Variante → Nat
  | aes128 => 4
  | aes256 => 8

/-- Rounds. -/
def nr (v : Variante) : Nat := v.nk + 6

private theorem nk_pos (v : Variante) : 0 < v.nk := by
  cases v <;> decide

private theorem nk_le (v : Variante) : v.nk ≤ 8 := by
  cases v <;> decide

end Variante

/-- Exclusive or of two words. -/
def suma (a b : Palabra) : Palabra := Vector.ofFn fun j : Fin 4 ↦ a[j] ^^^ b[j]

/-- `RotWord`. -/
def gira (t : Palabra) : Palabra := #v[t[1], t[2], t[3], t[0]]

/-- The round constant `x ^ (j - 1)`, in the first byte. -/
def rcon (j : Nat) : Palabra := #v[xtime^[j - 1] 1, 0, 0, 0]

/-- `KeyExpansion`: the word `i` of the schedule. -/
def palabra (v : Variante) (clave : Bytes) (i : Nat) : Palabra :=
  if _h : i < v.nk then Vector.ofFn fun j : Fin 4 ↦ clave.getD (4 * i + j.val) 0
  else
    let t := palabra v clave (i - 1)
    let t := if i % v.nk = 0 then suma ((gira t).map sub) (rcon (i / v.nk))
      else if v.nk > 6 ∧ i % v.nk = 4 then t.map sub
      else t
    suma (palabra v clave (i - v.nk)) t
termination_by i
decreasing_by
  all_goals
    have := v.nk_pos
    omega

/-! ### The cipher -/

/-- The state: four rows of four columns. -/
abbrev Estado := Fin 4 → Fin 4 → UInt8

/-- The input fills the state by columns. -/
def entrada (b : Bloque) : Estado := fun r c ↦ b[r.val + 4 * c.val]

/-- The output reads it by columns. -/
def salida (s : Estado) : Bloque :=
  Vector.ofFn fun i : Fin 16 ↦ s (Fin.ofNat 4 i.val) ⟨i.val / 4, by omega⟩

def subBytes (s : Estado) : Estado := fun r c ↦ sub (s r c)

/-- Row `r` is shifted `r` places. -/
def shiftRows (s : Estado) : Estado := fun r c ↦ s r (c + r)

/-- Each column times the matrix of the standard. -/
def mixColumns (s : Estado) : Estado := fun r c ↦
  por 2 (s r c) ^^^ por 3 (s (r + 1) c) ^^^ s (r + 2) c ^^^ s (r + 3) c

/-- The four words of a round are the columns of its key. -/
def addRoundKey (w : Nat → Palabra) (ronda : Nat) (s : Estado) : Estado := fun r c ↦
  s r c ^^^ (w (4 * ronda + c.val))[r]

/-- `Cipher`. -/
def cipher (v : Variante) (clave : Bytes) (b : Bloque) : Bloque :=
  let w := palabra v clave
  let s := addRoundKey w 0 (entrada b)
  let s := (List.range' 1 (v.nr - 1)).foldl
    (fun s r ↦ addRoundKey w r (mixColumns (shiftRows (subBytes s)))) s
  salida (addRoundKey w v.nr (shiftRows (subBytes s)))

/-! ### The source computes it -/

private theorem lee_set (w : Vector Palabra 60) {i : Nat} (hi : i < 60) (x : Palabra) (j : Nat) :
    Aes.lee (w.setIfInBounds i x) j = if j = i then x else Aes.lee w j := by
  rw [Aes.lee, Vector.getElem?_setIfInBounds, Aes.lee]
  split
  · next h =>
    subst h
    simp only [Option.getD_some, if_true]
  · next h => rw [if_neg (Ne.symm h)]

private theorem gira_map (f : UInt8 → UInt8) (t : Palabra) (r : UInt8) :
    #v[f t[1] ^^^ r, f t[2], f t[3], f t[0]] = suma ((gira t).map f) #v[r, 0, 0, 0] := by
  ext j hj
  match j, hj with
  | 0, _ => simp [suma, gira]
  | 1, _ => simp [suma, gira]
  | 2, _ => simp [suma, gira]
  | 3, _ => simp [suma, gira]

private theorem palabra_map (f : UInt8 → UInt8) (t : Palabra) :
    #v[f t[0], f t[1], f t[2], f t[3]] = t.map f := by
  ext j hj
  match j, hj with
  | 0, _ => simp
  | 1, _ => simp
  | 2, _ => simp
  | 3, _ => simp

private theorem expande_giro {nk i : Nat} (h : i % nk = 0) (w : Vector Palabra 60) (r : UInt8) :
    Aes.expande nk (w, r) i = (w.setIfInBounds i (suma (Aes.lee w (i - nk))
      (suma ((gira (Aes.lee w (i - 1))).map sub) #v[r, 0, 0, 0])), xtime r) := by
  have hsub : sustituye = sub := funext sustituye_eq_sub
  simp only [Aes.expande, if_pos h]
  rw [gira_map, hsub]
  exact Prod.ext rfl (por2_eq_xtime r)

private theorem expande_sub {nk i : Nat} (h : i % nk ≠ 0) (h6 : nk > 6 ∧ i % nk = 4)
    (w : Vector Palabra 60) (r : UInt8) :
    Aes.expande nk (w, r) i = (w.setIfInBounds i (suma (Aes.lee w (i - nk))
      ((Aes.lee w (i - 1)).map sub)), r) := by
  have hsub : sustituye = sub := funext sustituye_eq_sub
  simp only [Aes.expande, if_neg h, if_pos h6]
  rw [palabra_map, hsub]
  rfl

private theorem expande_copia {nk i : Nat} (h : i % nk ≠ 0) (h6 : ¬ (nk > 6 ∧ i % nk = 4))
    (w : Vector Palabra 60) (r : UInt8) :
    Aes.expande nk (w, r) i =
      (w.setIfInBounds i (suma (Aes.lee w (i - nk)) (Aes.lee w (i - 1))), r) := by
  simp only [Aes.expande, if_neg h, if_neg h6]
  rfl

private theorem lee_arranque (v : Variante) (clave : Bytes) {i : Nat} (hi : i < v.nk) :
    Aes.lee (Aes.arranque v.nk clave) i = palabra v clave i := by
  have h60 : i < 60 := hi.trans_le (v.nk_le.trans (by decide))
  rw [palabra, dif_pos hi, Aes.lee, Aes.arranque, Vector.getElem?_eq_getElem h60,
    Option.getD_some, Vector.getElem_ofFn]
  simp only [if_pos hi]

/-- The words expanded so far, and the constant of the next round. -/
structure Expandidas (v : Variante) (clave : Bytes) (i : Nat) (s : Vector Palabra 60 × UInt8) :
    Prop where
  words : ∀ j < i, Aes.lee s.1 j = palabra v clave j
  rcon : s.2 = xtime^[(i - 1) / v.nk] 1

private theorem div_of_dvd {n i : Nat} (hn : 0 < n) (hi : n ≤ i) (hm : i % n = 0) :
    i / n = (i - 1) / n + 1 := by
  obtain ⟨q, rfl⟩ := Nat.dvd_of_mod_eq_zero hm
  have hq : 0 < q := Nat.pos_of_ne_zero fun h0 ↦ by
    rw [h0, Nat.mul_zero] at hi
    omega
  have hlast : n * q - 1 = n * (q - 1) + (n - 1) := by
    have := Nat.mul_sub_one n q
    have := Nat.le_mul_of_pos_right n hq
    omega
  rw [Nat.mul_div_cancel_left _ hn, hlast, Nat.mul_add_div hn, Nat.div_eq_of_lt (by omega)]
  omega

private theorem div_of_not_dvd {n i : Nat} (hn : 0 < n) (hm : i % n ≠ 0) :
    i / n = (i - 1) / n := by
  have hd := Nat.div_add_mod i n
  have hlt := Nat.mod_lt i hn
  have hi : i - 1 = n * (i / n) + (i % n - 1) := by omega
  rw [hi, Nat.mul_add_div hn, Nat.div_eq_of_lt (a := i % n - 1) (by omega), Nat.add_zero]

private theorem Expandidas.escribe {v : Variante} {clave : Bytes} {i : Nat}
    {s : Vector Palabra 60 × UInt8} (h : Expandidas v clave i s) (hi : i < 60) {x : Palabra}
    (hx : x = palabra v clave i) : ∀ j < i + 1, Aes.lee (s.1.setIfInBounds i x) j = palabra v clave j := by
  intro j hj
  rw [lee_set _ hi]
  split
  · next he => rw [he, hx]
  · next hne => exact h.words j (by omega)

/-- A turn of the expansion writes the standard's word. -/
theorem Expandidas.paso {v : Variante} {clave : Bytes} {i : Nat} {s : Vector Palabra 60 × UInt8}
    (h : Expandidas v clave i s) (hv : v.nk ≤ i) (hi : i < 60) :
    Expandidas v clave (i + 1) (Aes.expande v.nk s i) := by
  have hpos := v.nk_pos
  have hprev := h.words (i - 1) (by omega)
  have hback := h.words (i - v.nk) (by omega)
  have hword := palabra.eq_1 v clave i
  rw [dif_neg (by omega)] at hword
  by_cases hm : i % v.nk = 0
  · have hd := div_of_dvd hpos hv hm
    rw [expande_giro hm, hprev, hback]
    refine ⟨h.escribe hi ?_, ?_⟩
    · rw [hword]
      simp only [if_pos hm, hd, h.rcon]
      rfl
    · rw [Nat.add_sub_cancel, hd, Function.iterate_succ_apply', ← h.rcon]
  · have hr : s.2 = xtime^[(i + 1 - 1) / v.nk] 1 := by
      rw [Nat.add_sub_cancel, div_of_not_dvd hpos hm, h.rcon]
    by_cases h6 : v.nk > 6 ∧ i % v.nk = 4
    · rw [expande_sub hm h6, hprev, hback]
      refine ⟨h.escribe hi ?_, hr⟩
      rw [hword]
      simp only [if_neg hm, if_pos h6]
    · rw [expande_copia hm h6, hprev, hback]
      refine ⟨h.escribe hi ?_, hr⟩
      rw [hword]
      simp only [if_neg hm, if_neg h6]

private theorem expandidas_foldl {v : Variante} {clave : Bytes} {m : Nat} (hm : v.nk + m ≤ 60) :
    Expandidas v clave (v.nk + m)
      ((List.range' v.nk m).foldl (Aes.expande v.nk) (Aes.arranque v.nk clave, 1)) := by
  induction m with
  | zero =>
    refine ⟨fun j hj ↦ lee_arranque v clave hj, ?_⟩
    have := v.nk_pos
    rw [Nat.add_zero, Nat.div_eq_of_lt (by omega)]
    rfl
  | succ m ih =>
    rw [List.range'_1_concat, List.foldl_append, List.foldl_cons, List.foldl_nil]
    exact (ih (by omega)).paso (by omega) (by omega)

private theorem palabras_eq (v : Variante) (clave : Bytes) {i : Nat} (hi : i < 4 * (v.nr + 1)) :
    Aes.lee (Aes.palabras v.nk clave) i = palabra v clave i := by
  have hle := v.nk_le
  have hw := (@expandidas_foldl v clave (4 * (v.nk + 7) - v.nk)
    (by cases v <;> decide)).words
  rw [Variante.nr] at hi
  exact hw i (by omega)

private theorem salida_entrada (b : Bloque) : salida (entrada b) = b := by
  ext i hi
  simp only [salida, entrada, Vector.getElem_ofFn, Fin.val_ofNat]
  congr
  exact Nat.mod_add_div i 4

theorem entrada_subBytes (b : Bloque) : entrada (b.map sustituye) = subBytes (entrada b) := by
  funext r c
  rw [entrada, Vector.getElem_map, sustituye_eq_sub]
  rfl

theorem entrada_shiftRows (b : Bloque) : entrada (Aes.giraFilas b) = shiftRows (entrada b) := by
  funext r c
  simp only [entrada, Aes.giraFilas, shiftRows, Vector.getElem_ofFn, Fin.val_add]
  congr 1
  omega

private theorem mezcla_eq (s0 s1 s2 s3 : UInt8) :
    s0 ^^^ (s0 ^^^ s1 ^^^ s2 ^^^ s3) ^^^ por2 (s0 ^^^ s1) = por 2 s0 ^^^ por 3 s1 ^^^ s2 ^^^ s3 := by
  have h2 : campo 2 = raiz := by
    have : campo (por2 1) = campo 2 := congrArg campo (by decide)
    rw [← this, campo_por2, campo_one, mul_one]
  have h3 : campo 3 = raiz + 1 := by
    have : campo (2 ^^^ 1) = campo 3 := congrArg campo (by decide)
    rw [← this, campo_xor, h2, campo_one]
  have h0 : (2 : Campo) = 0 := CharTwo.two_eq_zero
  refine campo_inj ?_
  simp only [campo_xor, campo_por, campo_por2, h2, h3]
  linear_combination campo s0 * h0

private theorem entrada_mezcla (b : Bloque) (r c : Fin 4) :
    entrada (Aes.mezclaColumnas b) r c = entrada b r c ^^^
      (entrada b 0 c ^^^ entrada b 1 c ^^^ entrada b 2 c ^^^ entrada b 3 c) ^^^
        por2 (entrada b r c ^^^ entrada b (r + 1) c) := by
  have hx : ∀ (f : Nat) (hf : f < 4), b[c.val * 4 + f] = entrada b ⟨f, hf⟩ c := by
    intro f hf
    simp only [entrada]
    congr 1
    omega
  have hc : (r.val + 4 * c.val) / 4 = c.val := by omega
  have hr : (r.val + 4 * c.val) % 4 = r.val := by omega
  have hr1 : r + 1 = ⟨(r.val + 1) % 4, Nat.mod_lt _ (by decide)⟩ := rfl
  rw [entrada, Aes.mezclaColumnas, Vector.getElem_ofFn]
  simp only [hc, hr, hr1, ← hx]
  rfl

private theorem entrada_mixColumns (b : Bloque) :
    entrada (Aes.mezclaColumnas b) = mixColumns (entrada b) := by
  funext r c
  rw [entrada_mezcla, mixColumns, ← mezcla_eq]
  -- the sum of the column, from the row `r` on
  match r with
  | 0 => rfl
  | 1 =>
    change _ ^^^ _ ^^^ _ = _ ^^^ (entrada b 1 c ^^^ entrada b 2 c ^^^ entrada b 3 c ^^^
      entrada b 0 c) ^^^ por2 (_ ^^^ entrada b 2 c)
    congr 2
    ac_rfl
  | 2 =>
    change _ ^^^ _ ^^^ _ = _ ^^^ (entrada b 2 c ^^^ entrada b 3 c ^^^ entrada b 0 c ^^^
      entrada b 1 c) ^^^ por2 (_ ^^^ entrada b 3 c)
    congr 2
    ac_rfl
  | 3 =>
    change _ ^^^ _ ^^^ _ = _ ^^^ (entrada b 3 c ^^^ entrada b 0 c ^^^ entrada b 1 c ^^^
      entrada b 2 c) ^^^ por2 (_ ^^^ entrada b 0 c)
    congr 2
    ac_rfl

/-- The words of a round, as the source packs them in its keys. -/
def Cargada (v : Variante) (clave : Bytes) (a : Aes) : Prop :=
  a.rondas = v.nr ∧ ∀ r ≤ v.nr, ∀ i (hi : i < 16),
    (a.clave r)[i] = getElem (palabra v clave (4 * r + i / 4)) (i % 4) (Nat.mod_lt _ (by decide))

private theorem entrada_mezclaClave {v : Variante} {clave : Bytes} {a : Aes} (h : Cargada v clave a)
    {r : Nat} (hr : r ≤ v.nr) (b : Bloque) :
    entrada (a.mezclaClave b r) = addRoundKey (palabra v clave) r (entrada b) := by
  funext f c
  have hc : (f.val + 4 * c.val) / 4 = c.val := by omega
  have hf : (f.val + 4 * c.val) % 4 = f.val := by omega
  simp only [entrada, Aes.mezclaClave, addRoundKey, Vector.getElem_ofFn]
  congr 1
  have := h.2 r hr (f.val + 4 * c.val) (by omega)
  simp only [hc, hf] at this
  exact this

theorem entrada_ronda {v : Variante} {clave : Bytes} {a : Aes} (h : Cargada v clave a) {r : Nat}
    (hr : r ≤ v.nr) (b : Bloque) :
    entrada (a.ronda b r true) =
        addRoundKey (palabra v clave) r (mixColumns (shiftRows (subBytes (entrada b)))) ∧
      entrada (a.ronda b r false) =
        addRoundKey (palabra v clave) r (shiftRows (subBytes (entrada b))) := by
  simp only [Aes.ronda, if_true, Bool.false_eq_true, if_false]
  rw [entrada_mezclaClave h hr, entrada_mezclaClave h hr, entrada_mixColumns, entrada_shiftRows,
    entrada_subBytes]
  exact ⟨rfl, rfl⟩

private theorem entrada_rondas {v : Variante} {clave : Bytes} {a : Aes} (h : Cargada v clave a)
    {n : Nat} (hn : n ≤ v.nr) (b : Bloque) :
    entrada ((List.range' 1 n).foldl (fun b r ↦ a.ronda b r true) b) =
      (List.range' 1 n).foldl (fun s r ↦ addRoundKey (palabra v clave) r
        (mixColumns (shiftRows (subBytes s)))) (entrada b) := by
  induction n with
  | zero => rfl
  | succ n ih =>
    rw [List.range'_1_concat, List.foldl_append, List.foldl_append, List.foldl_cons,
      List.foldl_nil, (entrada_ronda h (by omega) _).1, ih (by omega)]
    rfl

/-- With its keys loaded, the cipher of the source is the standard's. -/
theorem cifrarBloque_eq {v : Variante} {clave : Bytes} {a : Aes} (h : Cargada v clave a)
    (b : Bloque) : a.cifrarBloque b = cipher v clave b := by
  rw [Aes.cifrarBloque, ← salida_entrada (a.ronda _ a.rondas false), h.1,
    (entrada_ronda h le_rfl _).2, entrada_rondas h (Nat.sub_le _ _),
    entrada_mezclaClave h (Nat.zero_le _)]
  rfl

private theorem cargada_de (v : Variante) (clave : Bytes) :
    Cargada v clave
      { rk := Vector.ofFn fun r : Fin 15 ↦ Vector.ofFn fun i : Fin 16 ↦
          if r.val ≤ v.nk + 6 then
            getElem (Aes.lee (Aes.palabras v.nk clave) (4 * r.val + i.val / 4)) (i.val % 4)
              (Nat.mod_lt _ (by decide))
          else 0
        rondas := v.nk + 6 } := by
  refine ⟨rfl, fun r hr i hi ↦ ?_⟩
  have hnk := v.nk_le
  have hr' : r ≤ v.nk + 6 := hr
  have h15 : r < 15 := by omega
  simp only [Aes.clave, Vector.getElem?_eq_getElem h15, Option.getD_some, Vector.getElem_ofFn]
  simp only [if_pos hr']
  congr 1
  exact palabras_eq v clave (by rw [Variante.nr]; omega)

/-- Keys of either size load. -/
theorem nueva_cargada (v : Variante) {clave : Bytes} (h : clave.length = 4 * v.nk) :
    ∃ a, Aes.nueva clave = some a ∧ Cargada v clave a := by
  cases v with
  | aes128 => exact ⟨_, if_pos h, cargada_de .aes128 clave⟩
  | aes256 =>
    have h16 : clave.length ≠ 16 := by
      rw [h]
      decide
    exact ⟨_, (if_neg h16).trans (if_pos h), cargada_de .aes256 clave⟩

end Fips197

end BmoX.Cripto
