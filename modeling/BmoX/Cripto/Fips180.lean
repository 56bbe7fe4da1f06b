import BmoX.Base.Chunks
import Mathlib.Order.Nat

/-!
# The hashes of `sha256.rs` and `sha512.rs` are those of FIPS 180-4

The standard's own definitions: its functions, the constants as fractional parts of roots of primes, the
schedule as a recursion, the padding and the blocks of the padded message. However a message is cut, the
digest of the code is that of the standard.

`platform/shared/bmo-cripto/src/sha256.rs` and `sha512.rs`. Both files are one algorithm over words of
another width: the block is of sixteen words, the length of the message of two, and the constants and
the rotations are data.
-/

/-! ### SHA-256 and SHA-512 -/

namespace BmoX.Cripto.Sha2

open BmoX.Base

/-- The eight registers; `sha256.rs:94`. -/
structure Registros (w : Nat) where
  a : BitVec w
  b : BitVec w
  c : BitVec w
  d : BitVec w
  e : BitVec w
  f : BitVec w
  g : BitVec w
  h : BitVec w
  deriving DecidableEq

/-- What one file has that the other has not. -/
structure Variante (w : Nat) where
  rondas : Nat
  raices : Registros w
  k : List (BitVec w)
  /-- `s0` and `s1` of the words. -/
  menor0 : BitVec w → BitVec w
  menor1 : BitVec w → BitVec w
  /-- `s0` and `s1` of the rounds. -/
  mayor0 : BitVec w → BitVec w
  mayor1 : BitVec w → BitVec w

/-- `sha256.rs:113–115`. -/
def ror {w : Nat} (x : BitVec w) (n : Nat) : BitVec w := x.rotateRight n

/-- `sha256.rs:67–84, 137–156`. -/
def sha256 : Variante 32 where
  rondas := 64
  raices := ⟨0x6a09e667, 0xbb67ae85, 0x3c6ef372, 0xa54ff53a,
    0x510e527f, 0x9b05688c, 0x1f83d9ab, 0x5be0cd19⟩
  k := [
    0x428a2f98, 0x71374491, 0xb5c0fbcf, 0xe9b5dba5, 0x3956c25b, 0x59f111f1, 0x923f82a4,
    0xab1c5ed5, 0xd807aa98, 0x12835b01, 0x243185be, 0x550c7dc3, 0x72be5d74, 0x80deb1fe,
    0x9bdc06a7, 0xc19bf174, 0xe49b69c1, 0xefbe4786, 0x0fc19dc6, 0x240ca1cc, 0x2de92c6f,
    0x4a7484aa, 0x5cb0a9dc, 0x76f988da, 0x983e5152, 0xa831c66d, 0xb00327c8, 0xbf597fc7,
    0xc6e00bf3, 0xd5a79147, 0x06ca6351, 0x14292967, 0x27b70a85, 0x2e1b2138, 0x4d2c6dfc,
    0x53380d13, 0x650a7354, 0x766a0abb, 0x81c2c92e, 0x92722c85, 0xa2bfe8a1, 0xa81a664b,
    0xc24b8b70, 0xc76c51a3, 0xd192e819, 0xd6990624, 0xf40e3585, 0x106aa070, 0x19a4c116,
    0x1e376c08, 0x2748774c, 0x34b0bcb5, 0x391c0cb3, 0x4ed8aa4a, 0x5b9cca4f, 0x682e6ff3,
    0x748f82ee, 0x78a5636f, 0x84c87814, 0x8cc70208, 0x90befffa, 0xa4506ceb, 0xbef9a3f7,
    0xc67178f2]
  menor0 x := ror x 7 ^^^ ror x 18 ^^^ (x >>> 3)
  menor1 x := ror x 17 ^^^ ror x 19 ^^^ (x >>> 10)
  mayor0 x := ror x 2 ^^^ ror x 13 ^^^ ror x 22
  mayor1 x := ror x 6 ^^^ ror x 11 ^^^ ror x 25

/-- `sha512.rs:59–93, 144–163`. -/
def sha512 : Variante 64 where
  rondas := 80
  raices := ⟨0x6a09e667f3bcc908, 0xbb67ae8584caa73b, 0x3c6ef372fe94f82b,
    0xa54ff53a5f1d36f1, 0x510e527fade682d1, 0x9b05688c2b3e6c1f,
    0x1f83d9abfb41bd6b, 0x5be0cd19137e2179⟩
  k := [
    0x428a2f98d728ae22, 0x7137449123ef65cd, 0xb5c0fbcfec4d3b2f, 0xe9b5dba58189dbbc,
    0x3956c25bf348b538, 0x59f111f1b605d019, 0x923f82a4af194f9b, 0xab1c5ed5da6d8118,
    0xd807aa98a3030242, 0x12835b0145706fbe, 0x243185be4ee4b28c, 0x550c7dc3d5ffb4e2,
    0x72be5d74f27b896f, 0x80deb1fe3b1696b1, 0x9bdc06a725c71235, 0xc19bf174cf692694,
    0xe49b69c19ef14ad2, 0xefbe4786384f25e3, 0x0fc19dc68b8cd5b5, 0x240ca1cc77ac9c65,
    0x2de92c6f592b0275, 0x4a7484aa6ea6e483, 0x5cb0a9dcbd41fbd4, 0x76f988da831153b5,
    0x983e5152ee66dfab, 0xa831c66d2db43210, 0xb00327c898fb213f, 0xbf597fc7beef0ee4,
    0xc6e00bf33da88fc2, 0xd5a79147930aa725, 0x06ca6351e003826f, 0x142929670a0e6e70,
    0x27b70a8546d22ffc, 0x2e1b21385c26c926, 0x4d2c6dfc5ac42aed, 0x53380d139d95b3df,
    0x650a73548baf63de, 0x766a0abb3c77b2a8, 0x81c2c92e47edaee6, 0x92722c851482353b,
    0xa2bfe8a14cf10364, 0xa81a664bbc423001, 0xc24b8b70d0f89791, 0xc76c51a30654be30,
    0xd192e819d6ef5218, 0xd69906245565a910, 0xf40e35855771202a, 0x106aa07032bbd1b8,
    0x19a4c116b8d2d0c8, 0x1e376c085141ab53, 0x2748774cdf8eeb99, 0x34b0bcb5e19b48a8,
    0x391c0cb3c5c95a63, 0x4ed8aa4ae3418acb, 0x5b9cca4f7763e373, 0x682e6ff3d6b2b8a3,
    0x748f82ee5defb2fc, 0x78a5636f43172f60, 0x84c87814a1f0ab72, 0x8cc702081a6439ec,
    0x90befffa23631e28, 0xa4506cebde82bde9, 0xbef9a3f7b2c67915, 0xc67178f2e372532b,
    0xca273eceea26619c, 0xd186b8c721c0c207, 0xeada7dd6cde0eb1e, 0xf57d4f7fee6ed178,
    0x06f067aa72176fba, 0x0a637dc5a2c898a6, 0x113f9804bef90dae, 0x1b710b35131c471b,
    0x28db77f523047d84, 0x32caab7b40c72493, 0x3c9ebe0a15c9bebc, 0x431d67c49c100d4c,
    0x4cc5d4becb3e42b6, 0x597f299cfc657e2a, 0x5fcb6fab3ad6faec, 0x6c44198c4a475817]
  menor0 x := ror x 1 ^^^ ror x 8 ^^^ (x >>> 7)
  menor1 x := ror x 19 ^^^ ror x 61 ^^^ (x >>> 6)
  mayor0 x := ror x 28 ^^^ ror x 34 ^^^ ror x 39
  mayor1 x := ror x 14 ^^^ ror x 18 ^^^ ror x 41

/-- The number that bytes spell, the highest first. -/
def beNat (b : Bytes) : Nat := leNat b.reverse

/-- `to_be_bytes`, in `n` bytes. -/
def beBytes (n v : Nat) : Bytes := (leBytes n v).reverse

@[simp] theorem length_beBytes (n v : Nat) : (beBytes n v).length = n := by
  rw [beBytes, List.length_reverse, length_leBytes]

section

variable {w : Nat}

/-- The bytes of a block; `sha256.rs:58`, `sha512.rs:54`. -/
def BLOQUE (w : Nat) : Nat := 16 * (w / 8)

/-- The bytes of the length of the message. -/
def LONGITUD (w : Nat) : Nat := 2 * (w / 8)

/-- The sixteen words of a block; `sha256.rs:131–134`. -/
def palabras (w : Nat) (b : Bytes) : List (BitVec w) :=
  (List.range 16).map fun i ↦ BitVec.ofNat w (beNat (slice b (i * (w / 8)) (w / 8)))

variable (s : Variante w)

/-- The next `n` words, from those that there are; `sha256.rs:136–143`. -/
def mezcla : Nat → List (BitVec w) → List (BitVec w)
  | 0, ws => ws
  | n + 1, ws =>
    let i := ws.length
    let s0 := s.menor0 (ws.getD (i - 15) 0)
    let s1 := s.menor1 (ws.getD (i - 2) 0)
    mezcla n (ws ++ [ws.getD (i - 16) 0 + s0 + ws.getD (i - 7) 0 + s1])

/-- A round; `sha256.rs:148–168`. -/
def ronda (r : Registros w) (k w_i : BitVec w) : Registros w :=
  let s1 := s.mayor1 r.e
  let ch := (r.e &&& r.f) ^^^ (~~~r.e &&& r.g)
  let t1 := r.h + s1 + ch + k + w_i
  let s0 := s.mayor0 r.a
  let maj := (r.a &&& r.b) ^^^ (r.a &&& r.c) ^^^ (r.b &&& r.c)
  let t2 := s0 + maj
  ⟨t1 + t2, r.a, r.b, r.c, r.d + t1, r.e, r.f, r.g⟩

/-- The registers are added to those of before; `sha256.rs:176–179`. -/
def Registros.mas (r q : Registros w) : Registros w :=
  ⟨r.a + q.a, r.b + q.b, r.c + q.c, r.d + q.d, r.e + q.e, r.f + q.f, r.g + q.g, r.h + q.h⟩

/-- `sha256.rs:123–180`. -/
def bloque (h : Registros w) (b : Bytes) : Registros w :=
  let ws := mezcla s (s.rondas - 16) (palabras w b)
  h.mas ((List.range s.rondas).foldl (fun r i ↦ ronda s r (s.k.getD i 0) (ws.getD i 0)) h)

/-- A hash that is not closed; `sha256.rs:92–105`. -/
structure Estado (w : Nat) where
  h : Registros w
  resto : Bytes
  pendientes : Nat
  total : Nat

/-- `sha256.rs:118–120`. -/
def nuevo : Estado w := ⟨s.raices, zeros (BLOQUE w), 0, 0⟩

/-- The whole blocks of the bytes, and what is left of them; `sha256.rs:203–207`. -/
def bloques (h : Registros w) (datos : Bytes) : Registros w × Bytes :=
  if 0 < BLOQUE w ∧ BLOQUE w ≤ datos.length then
    bloques (bloque s h (datos.take (BLOQUE w))) (datos.drop (BLOQUE w))
  else (h, datos)
termination_by datos.length
decreasing_by
  rw [List.length_drop]
  omega

/-- What is left waits; `sha256.rs:210–214`. -/
def Estado.guarda (e : Estado w) (datos : Bytes) : Estado w :=
  if datos.length > 0 then { e with resto := splice e.resto 0 datos, pendientes := datos.length }
  else e

/-- The blocks of the bytes, and what is left of them waits. -/
def Estado.sigue (e : Estado w) (datos : Bytes) : Estado w :=
  let (h, sobra) := bloques s e.h datos
  { e with h := h }.guarda sobra

/-- `sha256.rs:183–215`; the count is a word of the width of the length. -/
def Estado.mete (e : Estado w) (datos : Bytes) : Estado w :=
  let e := { e with total := (e.total + datos.length) % 2 ^ (2 * w) }
  if e.pendientes > 0 then
    let hueco := BLOQUE w - e.pendientes
    let cuantos := min hueco datos.length
    let e := { e with
      resto := splice e.resto e.pendientes (datos.take cuantos)
      pendientes := e.pendientes + cuantos }
    if e.pendientes = BLOQUE w then
      Estado.sigue s { e with h := bloque s e.h e.resto, pendientes := 0 } (datos.drop cuantos)
    else e.sigue s (datos.drop cuantos)
  else e.sigue s datos

/-- The loop of `cierra`, of `n` turns at most; `sha256.rs:237–239`. -/
def Estado.ceros : Nat → Estado w → Option (Estado w)
  | 0, e => if e.pendientes = BLOQUE w - LONGITUD w then some e else none
  | n + 1, e =>
    if e.pendientes = BLOQUE w - LONGITUD w then some e else (e.mete s [0x00]).ceros n

/-- `cierra` before it reads its registers; `sha256.rs:231–242`. -/
def Estado.cerrado (e : Estado w) : Option (Estado w) := do
  let bits := e.total * 8 % 2 ^ (2 * w)
  let e ← (e.mete s [0x80]).ceros s (BLOQUE w)
  some (e.mete s (beBytes (LONGITUD w) bits))

/-- `sha256.rs:244–248`. -/
def Registros.salida (r : Registros w) : Bytes :=
  [r.a, r.b, r.c, r.d, r.e, r.f, r.g, r.h].flatMap fun x ↦ beBytes (w / 8) x.toNat

/-- `sha256.rs:231–249`. -/
def Estado.cierra (e : Estado w) : Option Bytes := (e.cerrado s).map fun e ↦ e.h.salida

/-- `sha256.rs:253–257`. -/
def hash (datos : Bytes) : Option Bytes := ((nuevo s).mete s datos).cierra s

end

end BmoX.Cripto.Sha2

/-! ### The hashes of `sha256.rs` and `sha512.rs` are those of FIPS 180-4 -/

namespace BmoX.Cripto

open BmoX.Base

namespace Fips180

/-! ### The standard -/

/-- The working variables, and the hash values; §2.2.1. -/
structure Vars (w : Nat) where
  a : BitVec w
  b : BitVec w
  c : BitVec w
  d : BitVec w
  e : BitVec w
  f : BitVec w
  g : BitVec w
  h : BitVec w

/-- The functions of a family, and how many rounds it has; §4.1. -/
structure Params (w : Nat) where
  rounds : Nat
  Sigma0 : BitVec w → BitVec w
  Sigma1 : BitVec w → BitVec w
  sigma0 : BitVec w → BitVec w
  sigma1 : BitVec w → BitVec w

/-- §4.1.2. -/
def sha256 : Params 32 where
  rounds := 64
  Sigma0 x := x.rotateRight 2 ^^^ x.rotateRight 13 ^^^ x.rotateRight 22
  Sigma1 x := x.rotateRight 6 ^^^ x.rotateRight 11 ^^^ x.rotateRight 25
  sigma0 x := x.rotateRight 7 ^^^ x.rotateRight 18 ^^^ (x >>> 3)
  sigma1 x := x.rotateRight 17 ^^^ x.rotateRight 19 ^^^ (x >>> 10)

/-- §4.1.3. -/
def sha512 : Params 64 where
  rounds := 80
  Sigma0 x := x.rotateRight 28 ^^^ x.rotateRight 34 ^^^ x.rotateRight 39
  Sigma1 x := x.rotateRight 14 ^^^ x.rotateRight 18 ^^^ x.rotateRight 41
  sigma0 x := x.rotateRight 1 ^^^ x.rotateRight 8 ^^^ (x >>> 7)
  sigma1 x := x.rotateRight 19 ^^^ x.rotateRight 61 ^^^ (x >>> 6)

variable {w : Nat}

def Ch (x y z : BitVec w) : BitVec w := (x &&& y) ^^^ (~~~x &&& z)

def Maj (x y z : BitVec w) : BitVec w := (x &&& y) ^^^ (x &&& z) ^^^ (y &&& z)

/-- The first eighty primes. -/
def primes : List Nat :=
  [2, 3, 5, 7, 11, 13, 17, 19, 23, 29, 31, 37, 41, 43, 47, 53, 59, 61, 67, 71, 73, 79, 83, 89, 97,
    101, 103, 107, 109, 113, 127, 131, 137, 139, 149, 151, 157, 163, 167, 173, 179, 181, 191, 193,
    197, 199, 211, 223, 227, 229, 233, 239, 241, 251, 257, 263, 269, 271, 277, 281, 283, 293, 307,
    311, 313, 317, 331, 337, 347, 349, 353, 359, 367, 373, 379, 383, 389, 397, 401, 409]

/-- The whole part of the `n`-th root. -/
def root (n m : Nat) : Nat := Nat.findGreatest (fun r ↦ r ^ n ≤ m) m

/-- The first `w` bits of the fractional part of the cube root of a prime; §4.2. -/
def K (w t : Nat) : BitVec w := BitVec.ofNat w (root 3 (primes.getD t 0 * 2 ^ (3 * w)))

/-- The first `w` bits of the fractional part of the square root of a prime; §5.3. -/
def H0 (w i : Nat) : BitVec w := BitVec.ofNat w (root 2 (primes.getD i 0 * 2 ^ (2 * w)))

/-- The hash values of the start; §5.3. -/
def initial (w : Nat) : Vars w :=
  ⟨H0 w 0, H0 w 1, H0 w 2, H0 w 3, H0 w 4, H0 w 5, H0 w 6, H0 w 7⟩

/-- The message schedule; §6.2.2. -/
def W (p : Params w) (M : Nat → BitVec w) (t : Nat) : BitVec w :=
  if t < 16 then M t
  else p.sigma1 (W p M (t - 2)) + W p M (t - 7) + p.sigma0 (W p M (t - 15)) + W p M (t - 16)

/-- A round; §6.2.2. -/
def round (p : Params w) (K W : BitVec w) (v : Vars w) : Vars w :=
  let T1 := v.h + p.Sigma1 v.e + Ch v.e v.f v.g + K + W
  let T2 := p.Sigma0 v.a + Maj v.a v.b v.c
  ⟨T1 + T2, v.a, v.b, v.c, v.d + T1, v.e, v.f, v.g⟩

/-- The hash values of a block, from those of the one before it; §6.2.2. -/
def block (p : Params w) (H : Vars w) (b : Bytes) : Vars w :=
  let M (i : Nat) := BitVec.ofNat w (Sha2.beNat (slice b (i * (w / 8)) (w / 8)))
  let v := (List.range p.rounds).foldl (fun v t ↦ round p (K w t) (W p M t) v) H
  ⟨v.a + H.a, v.b + H.b, v.c + H.c, v.d + H.d, v.e + H.e, v.f + H.f, v.g + H.g, v.h + H.h⟩

/-- The bytes of a block. -/
def blockLen (w : Nat) : Nat := 16 * (w / 8)

/-- The bytes of the length of the message, in bits. -/
def lengthLen (w : Nat) : Nat := 2 * (w / 8)

/-- How many bytes of zeros are added: the least that leave room for the length only; §5.1. -/
def zeroLen (w n : Nat) : Nat := (2 * blockLen w - lengthLen w - 1 - n % blockLen w) % blockLen w

/-- §5.1. -/
def pad (w : Nat) (m : Bytes) : Bytes :=
  m ++ 0x80 :: zeros (zeroLen w m.length) ++ Sha2.beBytes (lengthLen w) (8 * m.length)

/-- The hash of a message, by the blocks of the padded one; §6.2, §6.4. -/
def digest (p : Params w) (m : Bytes) : Bytes :=
  let v := (chunks (blockLen w) (pad w m)).foldl (block p) (initial w)
  [v.a, v.b, v.c, v.d, v.e, v.f, v.g, v.h].flatMap fun x ↦ Sha2.beBytes (w / 8) x.toNat

/-- No less zeros leave room for the length only. -/
theorem zeroLen_least {n : Nat} (hw : 0 < blockLen w) :
    (n + 1 + zeroLen w n) % blockLen w = blockLen w - lengthLen w ∧
      ∀ k < zeroLen w n, (n + 1 + k) % blockLen w ≠ blockLen w - lengthLen w := by
  have hL : 0 < lengthLen w ∧ lengthLen w < blockLen w := by
    unfold blockLen at hw
    unfold lengthLen blockLen
    omega
  have hn := Nat.div_add_mod n (blockLen w)
  have hr := Nat.mod_lt n hw
  unfold zeroLen
  generalize blockLen w = B at *
  generalize n % B = r at *
  have hmod {k : Nat} : (n + 1 + k) % B = (r + 1 + k) % B := by
    rw [← hn, Nat.add_assoc, Nat.add_assoc, Nat.mul_add_mod, Nat.add_assoc]
  simp only [hmod]
  rcases Nat.lt_or_ge (r + lengthLen w) B with hlt | hge
  · have hz : (2 * B - lengthLen w - 1 - r) % B = B - lengthLen w - 1 - r := by
      rw [Nat.mod_eq_sub_mod (by omega), Nat.mod_eq_of_lt (by omega)]
      omega
    rw [hz]
    refine ⟨by rw [Nat.mod_eq_of_lt (by omega)]; omega, fun k hk ↦ ?_⟩
    rw [Nat.mod_eq_of_lt (by omega)]
    omega
  · have hz : (2 * B - lengthLen w - 1 - r) % B = 2 * B - lengthLen w - 1 - r :=
      Nat.mod_eq_of_lt (by omega)
    rw [hz]
    refine ⟨?_, fun k hk ↦ ?_⟩
    · rw [Nat.mod_eq_sub_mod (by omega), Nat.mod_eq_of_lt (by omega)]
      omega
    · rcases Nat.lt_or_ge (r + 1 + k) B with hsmall | hbig
      · rw [Nat.mod_eq_of_lt hsmall]
        omega
      · rw [Nat.mod_eq_sub_mod hbig, Nat.mod_eq_of_lt (by omega)]
        omega

private theorem root_eq {n m c : Nat} (hn : n ≠ 0) (hle : c ^ n ≤ m) (hlt : m < (c + 1) ^ n) :
    root n m = c := by
  refine Nat.findGreatest_eq_iff.mpr ⟨(Nat.le_self_pow hn c).trans hle, fun _ ↦ hle, ?_⟩
  intro k hk _ hno
  exact Nat.lt_irrefl m (hlt.trans_le ((Nat.pow_le_pow_left hk n).trans hno))

theorem ofNat_root {n m q : Nat} (hn : n ≠ 0) {x : BitVec w} (hle : (x.toNat + q * 2 ^ w) ^ n ≤ m)
    (hlt : m < (x.toNat + q * 2 ^ w + 1) ^ n) : BitVec.ofNat w (root n m) = x := by
  rw [root_eq hn hle hlt]
  apply BitVec.eq_of_toNat_eq
  rw [BitVec.toNat_ofNat, Nat.add_mul_mod_self_right, Nat.mod_eq_of_lt x.isLt]

end Fips180

namespace Sha2

open Fips180

variable {w : Nat} {s : Variante w} {p : Params w}

/-- The registers as the standard has them. -/
def Registros.vars (r : Registros w) : Vars w := ⟨r.a, r.b, r.c, r.d, r.e, r.f, r.g, r.h⟩

/-- The data of a file are those of the standard. -/
structure Variante.Es (s : Variante w) (p : Params w) : Prop where
  ancho : 8 ≤ w
  rondas : s.rondas = p.rounds
  palabras : 16 ≤ p.rounds
  raices : s.raices.vars = initial w
  k : ∀ i < p.rounds, s.k.getD i 0 = Fips180.K w i
  menor0 : ∀ x, s.menor0 x = p.sigma0 x
  menor1 : ∀ x, s.menor1 x = p.sigma1 x
  mayor0 : ∀ x, s.mayor0 x = p.Sigma0 x
  mayor1 : ∀ x, s.mayor1 x = p.Sigma1 x

/-! ### A block -/

private theorem getD_mezcla (h : s.Es p) (M : Nat → BitVec w) (n : Nat) {ws : List (BitVec w)}
    (hlen : 16 ≤ ws.length) (hws : ∀ t < ws.length, ws.getD t 0 = W p M t) :
    ∀ t < ws.length + n, (mezcla s n ws).getD t 0 = W p M t := by
  induction n generalizing ws with
  | zero => exact hws
  | succ n ih =>
    intro t ht
    unfold mezcla
    dsimp only
    refine ih (by rw [List.length_append]; omega) ?_ t
      (by rw [List.length_append, List.length_singleton]; omega)
    intro i hi
    rw [List.length_append, List.length_singleton] at hi
    rcases Nat.lt_succ_iff_lt_or_eq.mp hi with hlt | rfl
    · rw [List.getD_append _ _ _ _ hlt]
      exact hws i hlt
    · rw [List.getD_append_right _ _ _ _ le_rfl, Nat.sub_self, List.getD_cons_zero, W,
        if_neg (by omega), h.menor0, h.menor1, hws _ (by omega), hws _ (by omega),
        hws _ (by omega), hws _ (by omega)]
      ac_rfl

private theorem getD_palabras (b : Bytes) {t : Nat} (ht : t < 16) :
    (palabras w b).getD t 0 = BitVec.ofNat w (beNat (slice b (t * (w / 8)) (w / 8))) := by
  rw [palabras, List.getD_eq_getElem?_getD, List.getElem?_map, List.getElem?_range ht]
  rfl

private theorem vars_ronda (h : s.Es p) (r : Registros w) (k x : BitVec w) :
    (ronda s r k x).vars = Fips180.round p k x r.vars := by
  unfold ronda Fips180.round Registros.vars Ch Maj
  simp only [h.mayor0, h.mayor1]

/-- **A block of the code is one of the standard.** -/
theorem vars_bloque (h : s.Es p) (r : Registros w) (b : Bytes) :
    (bloque s r b).vars = block p r.vars b := by
  let M (i : Nat) : BitVec w := BitVec.ofNat w (beNat (slice b (i * (w / 8)) (w / 8)))
  have hlen : (palabras w b).length = 16 := by rw [palabras, List.length_map, List.length_range]
  have hws : ∀ t < p.rounds, (mezcla s (s.rondas - 16) (palabras w b)).getD t 0 = W p M t := by
    intro t ht
    have hpal := h.palabras
    refine getD_mezcla h M _ hlen.ge ?_ t (by rw [hlen, h.rondas]; omega)
    intro i hi
    rw [hlen] at hi
    rw [getD_palabras b hi, W, if_pos hi]
  have hfold (l : List Nat) (hl : ∀ i ∈ l, i < p.rounds) (q : Registros w) :
      (l.foldl (fun r i ↦ ronda s r (s.k.getD i 0)
        ((mezcla s (s.rondas - 16) (palabras w b)).getD i 0)) q).vars =
        l.foldl (fun v t ↦ Fips180.round p (Fips180.K w t) (W p M t) v) q.vars := by
    induction l generalizing q with
    | nil => rfl
    | cons i l ih =>
      obtain ⟨hi, hl⟩ := List.forall_mem_cons.mp hl
      rw [List.foldl_cons, List.foldl_cons, ih hl, vars_ronda h, h.k i hi, hws i hi]
  have hrange := hfold (List.range s.rondas)
    (fun i hi ↦ by rw [← h.rondas]; exact List.mem_range.mp hi) r
  unfold bloque block
  dsimp only
  rw [← h.rondas, ← hrange]
  simp only [Registros.mas, Registros.vars, BitVec.add_comm]

/-! ### The pieces of a message -/

private theorem BLOQUE_pos (h : s.Es p) : 0 < BLOQUE w := by
  have hw := h.ancho
  unfold BLOQUE
  omega

/-- The whole blocks of some bytes, and what is left of them. -/
theorem bloques_eq (hB : 0 < BLOQUE w) (r : Registros w) (datos : Bytes) :
    ∃ a sobra, datos = a ++ sobra ∧ BLOQUE w ∣ a.length ∧ sobra.length < BLOQUE w ∧
      bloques s r datos = ((chunks (BLOQUE w) a).foldl (bloque s) r, sobra) := by
  induction hlen : datos.length using Nat.strong_induction_on generalizing datos r with
  | _ n ih =>
    rw [bloques]
    by_cases hle : BLOQUE w ≤ datos.length
    · rw [if_pos ⟨hB, hle⟩]
      obtain ⟨a, sobra, heq, hdvd, hlt, hbloques⟩ :=
        ih (datos.drop (BLOQUE w)).length (by rw [List.length_drop]; omega)
          (bloque s r (datos.take (BLOQUE w))) (datos.drop (BLOQUE w)) rfl
      have htake : (datos.take (BLOQUE w)).length = BLOQUE w := by
        rw [List.length_take]
        omega
      refine ⟨datos.take (BLOQUE w) ++ a, sobra, ?_, ?_, hlt, ?_⟩
      · rw [List.append_assoc, ← heq, List.take_append_drop]
      · rw [List.length_append, htake]
        exact Nat.dvd_add (Nat.dvd_refl _) hdvd
      · have hne : datos.take (BLOQUE w) ≠ [] := by
          rw [ne_eq, ← List.length_eq_zero_iff, htake]
          omega
        have huno : chunks (BLOQUE w) (datos.take (BLOQUE w)) = [datos.take (BLOQUE w)] := by
          rw [chunks_cons hB hne, List.take_of_length_le htake.le, List.drop_of_length_le htake.le,
            chunks_nil]
        rw [hbloques, chunks_append hB (by rw [htake]), huno]
        rfl
    · rw [if_neg fun hno ↦ hle hno.2]
      refine ⟨[], datos, rfl, Nat.dvd_zero _, not_le.mp hle, ?_⟩
      rw [chunks_nil]
      rfl

/-- A hash that was given some bytes: the whole blocks are mixed, and what is left waits. -/
structure Estado.Lleva (s : Variante w) (e : Estado w) (m : Bytes) : Prop where
  ancho : e.resto.length = BLOQUE w
  total : e.total = m.length % 2 ^ (2 * w)
  partes : ∃ a r, m = a ++ r ∧ BLOQUE w ∣ a.length ∧ r.length < BLOQUE w ∧
    e.h = (chunks (BLOQUE w) a).foldl (bloque s) s.raices ∧ e.pendientes = r.length ∧
    e.resto.take r.length = r

private theorem lleva_nuevo (hB : 0 < BLOQUE w) : (nuevo s).Lleva s [] := by
  refine ⟨length_zeros _, (Nat.zero_mod _).symm, [], [], rfl, Nat.dvd_zero _, hB, ?_, rfl, rfl⟩
  rw [chunks_nil]
  rfl

/-- Bytes after whole blocks. -/
theorem lleva_sigue (hB : 0 < BLOQUE w) {e : Estado w} {a : Bytes} (ha : BLOQUE w ∣ a.length)
    (hh : e.h = (chunks (BLOQUE w) a).foldl (bloque s) s.raices) (hp : e.pendientes = 0)
    (hresto : e.resto.length = BLOQUE w) {datos : Bytes}
    (ht : e.total = (a ++ datos).length % 2 ^ (2 * w)) : (e.sigue s datos).Lleva s (a ++ datos) := by
  obtain ⟨a', sobra, heq, hdvd, hlt, hbloques⟩ := bloques_eq (s := s) hB e.h datos
  have hfold : (chunks (BLOQUE w) a').foldl (bloque s) e.h =
      (chunks (BLOQUE w) (a ++ a')).foldl (bloque s) s.raices := by
    rw [hh, chunks_append hB ha, List.foldl_append]
  have hpartes : a ++ datos = a ++ a' ++ sobra := by rw [heq, List.append_assoc]
  have hdvd' : BLOQUE w ∣ (a ++ a').length := by
    rw [List.length_append]
    exact Nat.dvd_add ha hdvd
  unfold Estado.sigue Estado.guarda
  rw [hbloques]
  dsimp only
  by_cases hsobra : sobra.length > 0
  · rw [if_pos hsobra]
    have hsplice : splice e.resto 0 sobra = sobra ++ e.resto.drop sobra.length := by
      rw [splice, List.take_zero, List.nil_append, Nat.zero_add]
    refine ⟨?_, ht, a ++ a', sobra, hpartes, hdvd', hlt, hfold, rfl, ?_⟩
    · rw [hsplice, List.length_append, List.length_drop]
      omega
    · rw [hsplice, List.take_left]
  · rw [if_neg hsobra]
    have hnil : sobra = [] := List.length_eq_zero_iff.mp (by omega)
    subst hnil
    exact ⟨hresto, ht, a ++ a', [], hpartes, hdvd', hB, hfold, hp, rfl⟩

/-- **Some more bytes.** -/
theorem Estado.Lleva.mete (hB : 0 < BLOQUE w) {e : Estado w} {m : Bytes} (he : e.Lleva s m)
    (datos : Bytes) : (e.mete s datos).Lleva s (m ++ datos) := by
  obtain ⟨hresto, htotal, a, r, rfl, hdvd, hlt, hh, hp, htake⟩ := he
  have ht : (e.total + datos.length) % 2 ^ (2 * w) = (a ++ r ++ datos).length % 2 ^ (2 * w) := by
    rw [htotal, Nat.mod_add_mod, ← List.length_append]
  unfold Estado.mete
  dsimp only
  by_cases hpos : e.pendientes > 0
  · rw [if_pos hpos, hp]
    have hpre : e.resto = r ++ e.resto.drop r.length := by
      conv_lhs => rw [← List.take_append_drop r.length e.resto, htake]
    by_cases hlleno : BLOQUE w - r.length ≤ datos.length
    · have hcuantos : min (BLOQUE w - r.length) datos.length = BLOQUE w - r.length :=
        Nat.min_eq_left hlleno
      have hlen : (datos.take (BLOQUE w - r.length)).length = BLOQUE w - r.length := by
        rw [List.length_take]
        omega
      have hblock : splice e.resto r.length (datos.take (BLOQUE w - r.length)) =
          r ++ datos.take (BLOQUE w - r.length) := by
        rw [splice, htake, List.drop_of_length_le (by rw [hlen, hresto]; omega), List.append_nil]
      have hwhole : (r ++ datos.take (BLOQUE w - r.length)).length = BLOQUE w := by
        rw [List.length_append, hlen]
        omega
      have hne : r ++ datos.take (BLOQUE w - r.length) ≠ [] := by
        rw [ne_eq, ← List.length_eq_zero_iff, hwhole]
        omega
      rw [hcuantos, if_pos (by omega)]
      have hmsg : a ++ r ++ datos = a ++ (r ++ datos.take (BLOQUE w - r.length)) ++
          datos.drop (BLOQUE w - r.length) := by
        rw [List.append_assoc, List.append_assoc, List.append_assoc, List.take_append_drop]
      rw [hmsg] at ht ⊢
      refine lleva_sigue hB ?_ ?_ rfl ?_ ht
      · rw [List.length_append, hwhole]
        exact Nat.dvd_add hdvd (Nat.dvd_refl _)
      · rw [chunks_append hB hdvd, List.foldl_append, ← hh, chunks_cons hB hne,
          List.take_of_length_le hwhole.le, List.drop_of_length_le hwhole.le, chunks_nil]
        dsimp only
        rw [hblock]
        rfl
      · dsimp only
        rw [hblock, hwhole]
    · have hcuantos : min (BLOQUE w - r.length) datos.length = datos.length :=
        Nat.min_eq_right (by omega)
      rw [hcuantos, if_neg (by omega), List.take_length, List.drop_length]
      have hsplice : splice e.resto r.length datos =
          r ++ datos ++ e.resto.drop (r.length + datos.length) := by
        rw [splice, htake]
      unfold Estado.sigue Estado.guarda
      rw [bloques, if_neg (by rw [List.length_nil]; omega)]
      dsimp only
      rw [if_neg (by simp)]
      refine ⟨?_, ht, a, r ++ datos, List.append_assoc .., hdvd, ?_, hh, ?_, ?_⟩
      · rw [hsplice, List.length_append, List.length_append, List.length_drop]
        omega
      · rw [List.length_append]
        omega
      · rw [List.length_append]
      · rw [hsplice, List.take_left]
  · rw [if_neg hpos]
    have hnil : r = [] := List.length_eq_zero_iff.mp (by omega)
    subst hnil
    rw [List.append_nil] at ht ⊢
    exact lleva_sigue (e := ⟨e.h, e.resto, e.pendientes, (e.total + datos.length) % 2 ^ (2 * w)⟩)
      hB hdvd hh (by rw [hp]; rfl) hresto ht

/-! ### The padding -/

private theorem lleva_foldl (hB : 0 < BLOQUE w) (partes : List Bytes) {e : Estado w} {m : Bytes}
    (he : e.Lleva s m) : (partes.foldl (fun e d ↦ e.mete s d) e).Lleva s (m ++ partes.flatten) := by
  induction partes generalizing e m with
  | nil =>
    rw [List.flatten_nil, List.append_nil]
    exact he
  | cons d partes ih =>
    rw [List.foldl_cons, List.flatten_cons, ← List.append_assoc]
    exact ih (he.mete hB d)

private theorem Estado.Lleva.pendientes_eq {e : Estado w} {m : Bytes} (he : e.Lleva s m) :
    e.pendientes = m.length % BLOQUE w := by
  obtain ⟨-, -, a, r, rfl, ⟨k, hk⟩, hlt, -, hp, -⟩ := he
  rw [hp, List.length_append, hk, Nat.mul_add_mod, Nat.mod_eq_of_lt hlt]

/-- **The loop of zeros** ends at the first place that leaves room for the length only. -/
theorem Estado.Lleva.ceros (hB : 0 < BLOQUE w) (n k : Nat) {e : Estado w} {m : Bytes}
    (he : e.Lleva s m) (hk : (m.length + k) % BLOQUE w = BLOQUE w - LONGITUD w)
    (hmin : ∀ j < k, (m.length + j) % BLOQUE w ≠ BLOQUE w - LONGITUD w) (hn : k ≤ n) :
    ∃ e', e.ceros s n = some e' ∧ e'.Lleva s (m ++ zeros k) := by
  induction k generalizing n e m with
  | zero =>
    have hya : e.pendientes = BLOQUE w - LONGITUD w := he.pendientes_eq.trans hk
    refine ⟨e, ?_, ?_⟩
    · cases n with
      | zero => exact if_pos hya
      | succ n => exact if_pos hya
    · rw [zeros, List.replicate_zero, List.append_nil]
      exact he
  | succ k ih =>
    have hno : e.pendientes ≠ BLOQUE w - LONGITUD w := by
      rw [he.pendientes_eq]
      exact hmin 0 (Nat.succ_pos k)
    obtain ⟨n, rfl⟩ : ∃ n', n = n' + 1 := ⟨n - 1, by omega⟩
    have hlen : (m ++ [0x00]).length = m.length + 1 := List.length_append
    obtain ⟨e', hceros, hlleva⟩ := ih n (he.mete hB [0x00])
      (by rw [hlen, Nat.add_assoc, Nat.add_comm 1]; exact hk)
      (fun j hj ↦ by
        rw [hlen, Nat.add_assoc, Nat.add_comm 1]
        exact hmin (j + 1) (Nat.succ_lt_succ hj))
      (Nat.le_of_succ_le_succ hn)
    refine ⟨e', ?_, ?_⟩
    · rw [Estado.ceros, if_neg hno]
      exact hceros
    · rw [zeros, List.replicate_succ, ← List.singleton_append, ← List.append_assoc]
      exact hlleva

/-- **A hash is closed with no byte left, and its registers are those of the padded message.** -/
theorem Estado.Lleva.cerrado (h : s.Es p) (hw : 8 ∣ w) {e : Estado w} {m : Bytes}
    (he : e.Lleva s m) :
    ∃ e', e.cerrado s = some e' ∧ e'.pendientes = 0 ∧
      e'.h = (chunks (BLOQUE w) (pad w m)).foldl (bloque s) s.raices := by
  have hB := BLOQUE_pos h
  obtain ⟨hcabe, hmin⟩ := zeroLen_least (n := m.length) hB
  have hlen : (m ++ [0x80]).length = m.length + 1 := List.length_append
  have hle : zeroLen w m.length ≤ BLOQUE w := (Nat.mod_lt _ hB).le
  obtain ⟨e1, hceros, hlleva⟩ := Estado.Lleva.ceros hB (BLOQUE w) (zeroLen w m.length)
    (he.mete hB [0x80]) (by rw [hlen]; exact hcabe) (fun j hj ↦ by rw [hlen]; exact hmin j hj) hle
  have hbits : beBytes (LONGITUD w) (e.total * 8 % 2 ^ (2 * w)) =
      beBytes (lengthLen w) (8 * m.length) := by
    obtain ⟨q, rfl⟩ := hw
    have hpow : 2 ^ (2 * (8 * q)) = 256 ^ LONGITUD (8 * q) := by
      have hl : LONGITUD (8 * q) = 2 * q := by
        unfold LONGITUD
        rw [Nat.mul_div_cancel_left _ (by decide)]
      rw [hl, show (256 : Nat) = 2 ^ 8 from rfl, ← Nat.pow_mul]
      congr 1
      omega
    rw [beBytes, beBytes, he.total, Nat.mod_mul_mod, hpow, leBytes_mod, Nat.mul_comm m.length 8]
    rfl
  have hpad : m ++ [0x80] ++ zeros (zeroLen w m.length) ++
      beBytes (LONGITUD w) (e.total * 8 % 2 ^ (2 * w)) = pad w m := by
    rw [hbits, pad, List.append_assoc m]
    rfl
  have hfin := hlleva.mete hB (beBytes (LONGITUD w) (e.total * 8 % 2 ^ (2 * w)))
  rw [hpad] at hfin
  have hdvd : BLOQUE w ∣ (pad w m).length := by
    have hL : LONGITUD w ≤ BLOQUE w := by
      unfold LONGITUD BLOQUE
      omega
    rw [← hpad, List.length_append, List.length_append, length_zeros, length_beBytes, hlen]
    apply Nat.dvd_of_mod_eq_zero
    have hcabe' : (m.length + 1 + zeroLen w m.length) % BLOQUE w = BLOQUE w - LONGITUD w := hcabe
    rw [← Nat.mod_add_mod, hcabe', Nat.sub_add_cancel hL, Nat.mod_self]
  have hcero : (e1.mete s (beBytes (LONGITUD w) (e.total * 8 % 2 ^ (2 * w)))).pendientes = 0 := by
    rw [hfin.pendientes_eq]
    exact Nat.mod_eq_zero_of_dvd hdvd
  refine ⟨_, ?_, hcero, ?_⟩
  · unfold Estado.cerrado
    rw [hceros]
    rfl
  · obtain ⟨-, -, a, r, heq, -, -, hh, hp, -⟩ := hfin
    have hnil : r = [] := List.length_eq_zero_iff.mp (hp.symm.trans hcero)
    rw [hnil, List.append_nil] at heq
    rw [hh, heq]

/-- **The digest of the code is that of the standard**, however the message is cut. -/
theorem cierra_partes (h : s.Es p) (hw : 8 ∣ w) (partes : List Bytes) :
    ∃ e, (partes.foldl (fun e d ↦ e.mete s d) (nuevo s)).cerrado s = some e ∧ e.pendientes = 0 ∧
      e.h.salida = digest p partes.flatten := by
  have hlleva := lleva_foldl (BLOQUE_pos h) partes (lleva_nuevo (s := s) (BLOQUE_pos h))
  obtain ⟨e, hcerrado, hcero, hh⟩ := hlleva.cerrado h hw
  have hvars (bs : List Bytes) (r : Registros w) :
      (bs.foldl (bloque s) r).vars = bs.foldl (block p) r.vars := by
    induction bs generalizing r with
    | nil => rfl
    | cons b bs ih => rw [List.foldl_cons, List.foldl_cons, ih, vars_bloque h]
  refine ⟨e, hcerrado, hcero, ?_⟩
  rw [List.nil_append] at hh
  unfold digest
  rw [← h.raices, ← hvars, ← show BLOQUE w = blockLen w from rfl, ← hh]
  rfl

theorem hash_eq (h : s.Es p) (hw : 8 ∣ w) (m : Bytes) : hash s m = some (digest p m) := by
  obtain ⟨e, hcerrado, -, hsalida⟩ := cierra_partes h hw [m]
  rw [List.flatten_singleton] at hsalida
  unfold hash Estado.cierra
  rw [← hsalida]
  exact congrArg (Option.map fun e ↦ e.h.salida) hcerrado

/-! ### The constants -/

/-- A constant of a table is the fractional part of a root. -/
def EsRaiz (n : Nat) (x : BitVec w) (i : Nat) : Prop :=
  ∃ q < 8, (x.toNat + q * 2 ^ w) ^ n ≤ primes.getD i 0 * 2 ^ (n * w) ∧
    primes.getD i 0 * 2 ^ (n * w) < (x.toNat + q * 2 ^ w + 1) ^ n

instance (n : Nat) (x : BitVec w) (i : Nat) : Decidable (EsRaiz n x i) :=
  inferInstanceAs (Decidable (∃ q < 8, _ ∧ _))

theorem EsRaiz.k {x : BitVec w} {i : Nat} (h : EsRaiz 3 x i) : x = Fips180.K w i := by
  obtain ⟨q, -, hle, hlt⟩ := h
  exact (ofNat_root (by decide) hle hlt).symm

theorem EsRaiz.h0 {x : BitVec w} {i : Nat} (h : EsRaiz 2 x i) : x = H0 w i := by
  obtain ⟨q, -, hle, hlt⟩ := h
  exact (ofNat_root (by decide) hle hlt).symm

private theorem vars_raices {r : Registros w}
    (h : ∀ x ∈ [(r.a, 0), (r.b, 1), (r.c, 2), (r.d, 3), (r.e, 4), (r.f, 5), (r.g, 6), (r.h, 7)],
      EsRaiz 2 x.1 x.2) : r.vars = initial w := by
  simp only [List.forall_mem_cons] at h
  obtain ⟨ha, hb, hc, hd, he, hf, hg, hh, -⟩ := h
  unfold Registros.vars initial
  rw [← ha.h0, ← hb.h0, ← hc.h0, ← hd.h0, ← he.h0, ← hf.h0, ← hg.h0, ← hh.h0]

/-- **The data of `sha256.rs` are those of the standard.** -/
theorem sha256_es : Sha2.sha256.Es Fips180.sha256 where
  ancho := by decide
  rondas := rfl
  palabras := by decide
  raices := vars_raices (by decide)
  k := by
    have h : ∀ i < 64, EsRaiz 3 (sha256.k.getD i 0) i := by decide
    exact fun i hi ↦ (h i hi).k
  menor0 _ := rfl
  menor1 _ := rfl
  mayor0 _ := rfl
  mayor1 _ := rfl

/-- **The data of `sha512.rs` are those of the standard.** -/
theorem sha512_es : Sha2.sha512.Es Fips180.sha512 where
  ancho := by decide
  rondas := rfl
  palabras := by decide
  raices := vars_raices (by decide)
  k := by
    have h : ∀ i < 80, EsRaiz 3 (sha512.k.getD i 0) i := by decide
    exact fun i hi ↦ (h i hi).k
  menor0 _ := rfl
  menor1 _ := rfl
  mayor0 _ := rfl
  mayor1 _ := rfl

end Sha2

end BmoX.Cripto
