import BmoX.Base.Edwards
import BmoX.Cripto.Campo25519
import Mathlib.Algebra.BigOperators.Group.Finset.Basic

/-!
# Numbers modulo the order of the group

`platform/shared/bmo-cripto/src/ed25519.rs:98–103, 322–333, 483–555`: the order `L` in bytes, the
range check of a signature, and the arithmetic of the signer, a long division bit by bit and a
product byte by byte.
-/

namespace BmoX.Cripto.Escalar

open BmoX.Base BmoX.Cripto.Campo

/-- `[u8; 64]`. -/
abbrev B64 := Vector UInt8 64

/-- The order of the group, in bytes; `ed25519.rs:100–103`. -/
def L : B32 := #v[
  0xed, 0xd3, 0xf5, 0x5c, 0x1a, 0x63, 0x12, 0x58, 0xd6, 0x9c, 0xf7, 0xa2, 0xde, 0xf9, 0xde, 0x14,
  0x00, 0x00, 0x00, 0x00, 0x00, 0x00, 0x00, 0x00, 0x00, 0x00, 0x00, 0x00, 0x00, 0x00, 0x00, 0x10]

/-- The bytes below `n`, from the highest: the first that differs decides; `ed25519.rs:323–332`. -/
def menorDesde (s l : Bytes) : Nat → Bool
  | 0 => false
  | i + 1 =>
    if s.getD i 0 < l.getD i 0 then true
    else if s.getD i 0 > l.getD i 0 then false
    else menorDesde s l i

/-- `s < L`; `ed25519.rs:322–333`. -/
def s_valida (s : B32) : Bool := menorDesde s.toList L.toList 32

/-- The bytes below `n`, from the highest, for `mayor_o_igual`; `ed25519.rs:489–494`. -/
def mayorDesde (a b : Bytes) : Nat → Bool
  | 0 => true
  | i + 1 => if a.getD i 0 != b.getD i 0 then a.getD i 0 > b.getD i 0 else mayorDesde a b i

/-- `a >= b`; `ed25519.rs:488–495`. -/
def mayor_o_igual (a b : B32) : Bool := mayorDesde a.toList b.toList 32

/-- The subtraction byte by byte, the borrow from the lowest; `ed25519.rs:499–509`. -/
def restaBytes : Bytes → Bytes → Int → Bytes
  | x :: xs, y :: ys, prestamo =>
    let v := (x.toNat : Int) - y.toNat - prestamo
    if v < 0 then UInt8.ofNat (v + 256).toNat :: restaBytes xs ys 1
    else UInt8.ofNat v.toNat :: restaBytes xs ys 0
  | _, _, _ => []

/-- Thirty-two bytes of a list. -/
def b32 (t : Bytes) : B32 := Vector.ofFn fun i : Fin 32 ↦ t.getD i 0

/-- `a -= b`; `ed25519.rs:498–510`. -/
def resta (a b : B32) : B32 := b32 (restaBytes a.toList b.toList 0)

/-- The doubling byte by byte, and the last carry; `ed25519.rs:517–522`. -/
def doblarBytes : Bytes → UInt8 → Bytes × UInt8
  | [], acarreo => ([], acarreo)
  | b :: bs, acarreo =>
    let r := doblarBytes bs ((b >>> 7) &&& 1)
    ((b <<< 1 ||| acarreo) :: r.1, r.2)

/-- One bit of the long division; `ed25519.rs:516–530`. -/
def paso (x : B64) (r : B32) (bit : Nat) : B32 :=
  let r := b32 (doblarBytes r.toList 0).1
  let r := r.set 0 (r[0] ||| ((x.toList.getD (bit / 8) 0 >>> UInt8.ofNat (bit % 8)) &&& 1))
  if mayor_o_igual r L then resta r L else r

/-- `x mod L`; `ed25519.rs:514–532`. -/
def reducir (x : B64) : B32 := (List.range 512).reverse.foldl (paso x) (Vector.replicate 32 0)

/-- `p[i + j] += x(j)`, for `j` below `m`. -/
def sumarEn (i : Nat) (x : Nat → UInt32) (m : Nat) (p : List UInt32) : List UInt32 :=
  (List.range m).foldl (fun p j ↦ p.set (i + j) (p.getD (i + j) 0 + x j)) p

/-- The products of a byte of `a` with the bytes of `b`; `ed25519.rs:538–540`. -/
def fila (a b : B32) (p : List UInt32) (i : Nat) : List UInt32 :=
  sumarEn i (fun j ↦ (a.toList.getD i 0).toUInt32 * (b.toList.getD j 0).toUInt32) 32 p

/-- All the products, column by column; `ed25519.rs:536–541`. -/
def productos (a b : B32) : List UInt32 := (List.range 32).foldl (fila a b) (List.replicate 64 0)

/-- `c` added; `ed25519.rs:542–544`. -/
def sumarC (c : B32) (p : List UInt32) : List UInt32 :=
  sumarEn 0 (fun i ↦ (c.toList.getD i 0).toUInt32) 32 p

/-- The carry of the columns, and what is left of it; `ed25519.rs:546–551`. -/
def acarrear : List UInt32 → UInt32 → Bytes × UInt32
  | [], acarreo => ([], acarreo)
  | p :: ps, acarreo =>
    let v := p + acarreo
    let r := acarrear ps (v >>> 8)
    ((v &&& 0xFF).toUInt8 :: r.1, r.2)

/-- `(a * b + c) mod L`; `ed25519.rs:535–554`. -/
def muladd (a b c : B32) : B32 :=
  let out := (acarrear (sumarC c (productos a b)) 0).1
  reducir (Vector.ofFn fun i : Fin 64 ↦ out.getD i 0)

/-! ### Comparisons -/

theorem leNat_L : leNat L.toList = ORDEN25519 := by
  norm_num [ORDEN25519]
  decide

private theorem leNat_take_succ (b : Bytes) (i : Nat) :
    leNat (b.take (i + 1)) = leNat (b.take i) + 256 ^ i * (b.getD i 0).toNat := by
  rw [leNat_take, leNat_take, toNat_getD_leNat, Nat.pow_succ, Nat.mod_mul]

private theorem digito_lt {N a b x y : Nat} (ha : a < N) (hxy : x < y) : a + N * x < b + N * y := by
  calc a + N * x < N + N * x := Nat.add_lt_add_right ha _
    _ = N * (x + 1) := by ring
    _ ≤ N * y := Nat.mul_le_mul_left N hxy
    _ ≤ b + N * y := Nat.le_add_left _ b

private theorem leNat_take_lt (b : Bytes) (i : Nat) : leNat (b.take i) < 256 ^ i := by
  rw [leNat_take]
  exact Nat.mod_lt _ (Nat.pow_pos (by decide))

private theorem menorDesde_eq (s l : Bytes) (n : Nat) :
    menorDesde s l n = decide (leNat (s.take n) < leNat (l.take n)) := by
  induction n with
  | zero => simp [menorDesde]
  | succ i ih =>
    have hs := leNat_take_lt s i
    have hl := leNat_take_lt l i
    rw [menorDesde, leNat_take_succ, leNat_take_succ, ih]
    split
    · next h =>
      exact (decide_eq_true (digito_lt hs (UInt8.lt_iff_toNat_lt.mp h))).symm
    · next h =>
      split
      · next h' =>
        have hgt := digito_lt (b := leNat (s.take i)) hl (UInt8.lt_iff_toNat_lt.mp h')
        exact (decide_eq_false (Nat.lt_asymm hgt)).symm
      · next h' =>
        have heq : (s.getD i 0).toNat = (l.getD i 0).toNat := by
          rw [UInt8.lt_iff_toNat_lt] at h
          have hge : ¬ (l.getD i 0).toNat < (s.getD i 0).toNat := fun hc ↦
            h' (UInt8.lt_iff_toNat_lt.mpr hc)
          omega
        rw [heq]
        simp

private theorem mayorDesde_eq (a b : Bytes) (n : Nat) :
    mayorDesde a b n = decide (leNat (b.take n) ≤ leNat (a.take n)) := by
  induction n with
  | zero => simp [mayorDesde]
  | succ i ih =>
    have ha := leNat_take_lt a i
    have hb := leNat_take_lt b i
    rw [mayorDesde, leNat_take_succ, leNat_take_succ, ih]
    split
    · next h =>
      have hne : (a.getD i 0).toNat ≠ (b.getD i 0).toNat := fun he ↦
        bne_iff_ne.mp h (UInt8.toNat_inj.mp he)
      rw [decide_eq_decide]
      constructor
      · intro hgt
        exact (digito_lt hb (UInt8.lt_iff_toNat_lt.mp hgt)).le
      · intro hle
        by_contra hng
        have hlt : (a.getD i 0).toNat < (b.getD i 0).toNat := by
          have hge : ¬ (b.getD i 0).toNat < (a.getD i 0).toNat := fun hc ↦
            hng (UInt8.lt_iff_toNat_lt.mpr hc)
          omega
        exact absurd (digito_lt (b := leNat (b.take i)) ha hlt) (Nat.not_lt.mpr hle)
    · next h =>
      have heq : a.getD i 0 = b.getD i 0 := by simpa using h
      rw [heq]
      simp

theorem s_valida_iff (s : B32) : s_valida s = true ↔ leNat s.toList < ORDEN25519 := by
  rw [s_valida, menorDesde_eq, List.take_of_length_le s.length_toList.le,
    List.take_of_length_le L.length_toList.le, leNat_L, decide_eq_true_iff]

private theorem mayor_o_igual_iff (a b : B32) :
    mayor_o_igual a b = true ↔ leNat b.toList ≤ leNat a.toList := by
  rw [mayor_o_igual, mayorDesde_eq, List.take_of_length_le a.length_toList.le,
    List.take_of_length_le b.length_toList.le, decide_eq_true_iff]

/-! ### The long division -/

theorem toList_b32 {t : Bytes} (h : t.length = 32) : (b32 t).toList = t := toList_ofFn_getD h

/-- The bytes of a difference, the borrow at the top counted. -/
theorem restaBytes_val {xs ys : Bytes} (hl : xs.length = ys.length) {c : Int}
    (hc : 0 ≤ c ∧ c ≤ 1) : (restaBytes xs ys c).length = xs.length ∧ ∃ d ≤ 1,
      (leNat (restaBytes xs ys c) : Int) + leNat ys + c =
        leNat xs + (256 ^ xs.length * d : Nat) := by
  induction xs generalizing ys c with
  | nil =>
    obtain rfl : ys = [] := List.length_eq_zero_iff.mp hl.symm
    exact ⟨rfl, c.toNat, by omega, by simp [restaBytes, leNat, hc.1]⟩
  | cons x xs ih =>
    cases ys with
    | nil => exact absurd hl (Nat.succ_ne_zero _)
    | cons y ys =>
      have hx : x.toNat < 256 := x.toNat_lt
      have hy : y.toNat < 256 := y.toNat_lt
      rw [restaBytes, List.length_cons, leNat, leNat, Nat.pow_succ']
      split
      · next hneg =>
        obtain ⟨hlen, d, hd, hval⟩ := ih (Nat.succ.inj hl) (c := 1) (by decide)
        have hb : (UInt8.ofNat ((x.toNat : Int) - y.toNat - c + 256).toNat).toNat + y.toNat + c =
            x.toNat + 256 := by
          rw [UInt8.toNat_ofNat']
          omega
        refine ⟨by rw [List.length_cons]; exact congrArg _ hlen, d, hd, ?_⟩
        rw [leNat, Nat.mul_assoc]
        omega
      · next hpos =>
        obtain ⟨hlen, d, hd, hval⟩ := ih (Nat.succ.inj hl) (c := 0) (by decide)
        have hb : (UInt8.ofNat ((x.toNat : Int) - y.toNat - c).toNat).toNat + y.toNat + c =
            x.toNat := by
          rw [UInt8.toNat_ofNat']
          omega
        refine ⟨by rw [List.length_cons]; exact congrArg _ hlen, d, hd, ?_⟩
        rw [leNat, Nat.mul_assoc]
        omega

private theorem leNat_resta {a b : B32} (h : leNat b.toList ≤ leNat a.toList) :
    leNat (resta a b).toList = leNat a.toList - leNat b.toList := by
  have ha := leNat_b32_lt a
  have hl : a.toList.length = b.toList.length := a.length_toList.trans b.length_toList.symm
  obtain ⟨hlen, d, hd, hval⟩ := restaBytes_val hl (c := 0) (by decide)
  have hlt := leNat_lt (restaBytes a.toList b.toList 0)
  rw [a.length_toList] at hlen hval
  rw [hlen] at hlt
  rw [resta, toList_b32 hlen]
  rcases Nat.le_one_iff_eq_zero_or_eq_one.mp hd with rfl | rfl <;> omega

private theorem or_of_even {m k : Nat} (hm : m % 2 = 0) (hk : k ≤ 1) : m ||| k = m + k := by
  have h := Nat.two_pow_add_eq_or_of_lt (i := 1) (b := k) (by omega) (m / 2)
  rwa [show 2 ^ 1 * (m / 2) = m by omega, eq_comm] at h

/-- The doubled bytes, and the carry at the top, are twice the number. -/
theorem doblarBytes_val (b : Bytes) (c : UInt8) (hc : c.toNat ≤ 1) :
    (doblarBytes b c).1.length = b.length ∧
      leNat (doblarBytes b c).1 + 256 ^ b.length * (doblarBytes b c).2.toNat =
        2 * leNat b + c.toNat := by
  induction b generalizing c with
  | nil => simp [doblarBytes, leNat]
  | cons x xs ih =>
    have hx : x.toNat < 256 := x.toNat_lt
    have hnew : ((x >>> 7) &&& 1).toNat = x.toNat / 128 := by
      change (x.toNat >>> 7) &&& 1 = _
      rw [Nat.shiftRight_eq_div_pow, Nat.and_one_is_mod]
      omega
    have hbyte : (x <<< 1 ||| c).toNat + 256 * (x.toNat / 128) = 2 * x.toNat + c.toNat := by
      rw [UInt8.toNat_or]
      change ((x.toNat <<< 1) % 256 ||| c.toNat) + _ = _
      rw [Nat.shiftLeft_eq, or_of_even (by omega) hc]
      omega
    obtain ⟨hlen, hval⟩ := ih ((x >>> 7) &&& 1) (by rw [hnew]; omega)
    rw [hnew] at hval
    refine ⟨by rw [doblarBytes, List.length_cons, hlen, List.length_cons], ?_⟩
    rw [doblarBytes, leNat, leNat, List.length_cons, Nat.pow_succ', Nat.mul_assoc]
    dsimp only
    omega

private theorem sin_acarreo {x N k v : Nat} (h : x + N * k = v) (hv : v < N) : x = v := by
  rcases Nat.eq_zero_or_pos k with rfl | hpos
  · exact h
  · have hge := Nat.le_mul_of_pos_right N hpos
    omega

private theorem toNat_bit (x : Bytes) (i : Nat) :
    ((x.getD (i / 8) 0 >>> UInt8.ofNat (i % 8)) &&& 1).toNat = ((leNat x).testBit i).toNat := by
  rw [testBit_leNat, toNat_shift_and_one _ (Nat.mod_lt i (by decide))]

private theorem ORDEN_lt : ORDEN25519 < 2 ^ 253 := by norm_num [ORDEN25519]

/-- One bit of the division keeps the remainder. -/
theorem leNat_paso (x : B64) {r : B32} (hr : leNat r.toList < ORDEN25519) (i : Nat) :
    leNat (paso x r i).toList =
      (2 * leNat r.toList + ((leNat x.toList).testBit i).toNat) % ORDEN25519 := by
  have hL := ORDEN_lt
  have hbit := toNat_bit x.toList i
  have hble : ((leNat x.toList).testBit i).toNat ≤ 1 := Bool.toNat_le _
  generalize ((leNat x.toList).testBit i).toNat = n at *
  rw [paso]
  generalize (x.toList.getD (i / 8) 0 >>> UInt8.ofNat (i % 8)) &&& 1 = b at *
  obtain ⟨hlen, hval⟩ := doblarBytes_val r.toList 0 (by decide)
  rw [r.length_toList] at hlen hval
  have hdob : leNat (b32 (doblarBytes r.toList 0).1).toList = 2 * leNat r.toList := by
    have hlt := leNat_lt (doblarBytes r.toList 0).1
    rw [hlen] at hlt
    rw [toList_b32 hlen]
    exact sin_acarreo hval (by change 2 * leNat r.toList + 0 < _; omega)
  generalize b32 (doblarBytes r.toList 0).1 = d at *
  -- the lowest bit of the doubled number is free
  have hset : leNat (d.set 0 (d[0] ||| b)).toList = 2 * leNat r.toList + n := by
    have hget : d.toList.getD 0 0 = d[0] := by simp
    have h0 := toNat_getD_leNat d.toList 0
    have hs := leNat_set d.toList 0 (d[0] ||| b) (by rw [d.length_toList]; decide)
    rw [hget, hdob] at h0
    rw [hget, UInt8.toNat_or, hbit, or_of_even (by omega) hble, hdob] at hs
    rw [Vector.toList_set]
    omega
  generalize d.set 0 (d[0] ||| b) = e at *
  split
  · next hge =>
    rw [mayor_o_igual_iff, leNat_L, hset] at hge
    have hle : leNat L.toList ≤ leNat e.toList := by rw [leNat_L, hset]; exact hge
    rw [leNat_resta hle, hset, leNat_L, Nat.mod_eq_sub_mod hge, Nat.mod_eq_of_lt (by omega)]
  · next hlt =>
    rw [mayor_o_igual_iff, leNat_L, hset] at hlt
    rw [hset, Nat.mod_eq_of_lt (Nat.lt_of_not_le hlt)]

private theorem leNat_foldl_paso (x : B64) (ts : List Nat) {r : B32} {n : Nat}
    (hr : leNat r.toList = n % ORDEN25519) :
    leNat (ts.foldl (paso x) r).toList =
      spell n (ts.map (leNat x.toList).testBit) % ORDEN25519 := by
  have hpos : 0 < ORDEN25519 := by norm_num [ORDEN25519]
  induction ts generalizing r n with
  | nil => exact hr
  | cons t ts ih =>
    apply ih
    rw [leNat_paso x (hr ▸ Nat.mod_lt _ hpos), hr, Nat.add_mod, Nat.mul_mod_mod, ← Nat.add_mod]

/-- The long division is the remainder. -/
theorem leNat_reducir (x : B64) : leNat (reducir x).toList = leNat x.toList % ORDEN25519 := by
  have hini : leNat (Vector.replicate 32 (0 : UInt8)).toList = 0 % ORDEN25519 := by decide
  have hlt : leNat x.toList < 2 ^ 512 := by
    have h := leNat_lt x.toList
    rw [x.length_toList, show 256 = 2 ^ 8 from rfl, ← pow_mul, show 8 * 64 = 512 from rfl] at h
    exact h
  have hspell := spell_bitsOf 0 (leNat x.toList) 512
  rw [Nat.zero_mul, Nat.zero_add, Nat.mod_eq_of_lt hlt] at hspell
  rw [reducir, leNat_foldl_paso x _ hini]
  exact congrArg (· % ORDEN25519) hspell

/-! ### The product -/

/-- The number of columns, each a digit of any size. -/
def columnas : List UInt32 → Nat
  | [] => 0
  | p :: ps => p.toNat + 256 * columnas ps

private theorem columnas_set (p : List UInt32) (i : Nat) (x : UInt32) (h : i < p.length) :
    columnas (p.set i x) + 256 ^ i * (p.getD i 0).toNat = columnas p + 256 ^ i * x.toNat := by
  induction p generalizing i with
  | nil => exact absurd h (Nat.not_lt_zero i)
  | cons y ys ih =>
    cases i with
    | zero =>
      rw [List.set_cons_zero, List.getD_cons_zero, columnas, columnas, Nat.pow_zero]
      omega
    | succ i =>
      have hi := ih i (Nat.lt_of_succ_lt_succ h)
      rw [List.set_cons_succ, List.getD_cons_succ, columnas, columnas, Nat.pow_succ', Nat.mul_assoc,
        Nat.mul_assoc, Nat.add_assoc, ← Nat.mul_add, hi, Nat.mul_add, ← Nat.add_assoc]

private theorem getD_set_self {p : List UInt32} {i : Nat} {x : UInt32} (h : i < p.length) :
    (p.set i x).getD i 0 = x := by
  rw [List.getD_eq_getElem?_getD, List.getElem?_set_self h, Option.getD_some]

private theorem getD_set_ne {p : List UInt32} {i k : Nat} {x : UInt32} (h : i ≠ k) :
    (p.set i x).getD k 0 = p.getD k 0 := by
  rw [List.getD_eq_getElem?_getD, List.getElem?_set_ne h, ← List.getD_eq_getElem?_getD]

private theorem columnas_add {p : List UInt32} {i m : Nat} {x : UInt32} (hi : i < p.length)
    (h : (p.getD i 0).toNat ≤ m) (hm : m + x.toNat < 2 ^ 32) :
    columnas (p.set i (p.getD i 0 + x)) = columnas p + 256 ^ i * x.toNat := by
  have hs := columnas_set p i (p.getD i 0 + x) hi
  rw [UInt32.toNat_add, Nat.mod_eq_of_lt (by omega), Nat.mul_add] at hs
  omega

/-- Sixty-four columns, none above `n`. -/
structure Holgado (p : List UInt32) (n : Nat) : Prop where
  length : p.length = 64
  le : ∀ k, (p.getD k 0).toNat ≤ n

private theorem sumarEn_succ (i : Nat) (x : Nat → UInt32) (m : Nat) (p : List UInt32) :
    sumarEn i x (m + 1) p =
      (sumarEn i x m p).set (i + m) ((sumarEn i x m p).getD (i + m) 0 + x m) := by
  rw [sumarEn, List.range_succ, List.foldl_append, List.foldl_cons, List.foldl_nil, ← sumarEn]

/-- A run over neighbouring columns, each growing once by a product of bytes or less. -/
theorem sumarEn_val {p : List UInt32} {n i : Nat} (hp : Holgado p n) (hn : n + 65025 < 2 ^ 32)
    (x : Nat → UInt32) (hx : ∀ j, (x j).toNat ≤ 65025) (m : Nat) (hm : i + m ≤ 64) :
    Holgado (sumarEn i x m p) (n + 65025) ∧
      (∀ k ≥ i + m, (sumarEn i x m p).getD k 0 = p.getD k 0) ∧
      columnas (sumarEn i x m p) =
        columnas p + ∑ j ∈ Finset.range m, 256 ^ (i + j) * (x j).toNat := by
  induction m with
  | zero => exact ⟨⟨hp.length, fun k ↦ (hp.le k).trans (Nat.le_add_right n _)⟩, fun _ _ ↦ rfl, rfl⟩
  | succ m ih =>
    obtain ⟨hq, hrest, hval⟩ := ih (by omega)
    rw [sumarEn_succ]
    generalize sumarEn i x m p = q at *
    have hle : (q.getD (i + m) 0).toNat ≤ n := hrest (i + m) le_rfl ▸ hp.le (i + m)
    have hlt := Nat.lt_of_le_of_lt (Nat.add_le_add_left (hx m) n) hn
    have hlen : i + m < q.length := by rw [hq.length]; omega
    refine ⟨⟨by rw [List.length_set, hq.length], fun k ↦ ?_⟩, fun k hk ↦ ?_, ?_⟩
    · rcases eq_or_ne (i + m) k with rfl | hne
      · rw [getD_set_self hlen, UInt32.toNat_add, Nat.mod_eq_of_lt (by omega)]
        exact Nat.add_le_add hle (hx m)
      · rw [getD_set_ne hne]
        exact hq.le k
    · rw [getD_set_ne (by omega), hrest k (by omega)]
    · rw [columnas_add hlen hle hlt, hval, Finset.sum_range_succ, Nat.add_assoc]

private theorem leNat_take_sum (b : Bytes) (m : Nat) :
    leNat (b.take m) = ∑ j ∈ Finset.range m, 256 ^ j * (b.getD j 0).toNat := by
  induction m with
  | zero => rfl
  | succ m ih => rw [leNat_take_succ, Finset.sum_range_succ, ih]

private theorem leNat_sum (b : B32) :
    leNat b.toList = ∑ j ∈ Finset.range 32, 256 ^ j * (b.toList.getD j 0).toNat := by
  rw [← leNat_take_sum, List.take_of_length_le b.length_toList.le]

private theorem fila_val (a b : B32) {p : List UInt32} {n i : Nat} (hp : Holgado p n)
    (hn : n + 65025 < 2 ^ 32) (hi : i < 32) :
    Holgado (fila a b p i) (n + 65025) ∧ columnas (fila a b p i) =
      columnas p + 256 ^ i * (a.toList.getD i 0).toNat * leNat b.toList := by
  have hmul : ∀ u v : UInt8, (u.toUInt32 * v.toUInt32).toNat = u.toNat * v.toNat ∧
      u.toNat * v.toNat ≤ 65025 := by
    intro u v
    have hle : u.toNat * v.toNat ≤ 255 * 255 :=
      Nat.mul_le_mul (Nat.le_of_lt_succ u.toNat_lt) (Nat.le_of_lt_succ v.toNat_lt)
    rw [UInt32.toNat_mul, UInt8.toNat_toUInt32, UInt8.toNat_toUInt32]
    exact ⟨Nat.mod_eq_of_lt (by omega), hle⟩
  obtain ⟨hq, -, hval⟩ := sumarEn_val (i := i) hp hn
    (fun j ↦ (a.toList.getD i 0).toUInt32 * (b.toList.getD j 0).toUInt32)
    (fun j ↦ by rw [(hmul _ _).1]; exact (hmul _ _).2) 32 (by omega)
  refine ⟨hq, ?_⟩
  rw [fila, hval, leNat_sum, Finset.mul_sum, Nat.add_left_cancel_iff]
  refine Finset.sum_congr rfl fun j _ ↦ ?_
  rw [(hmul _ _).1, Nat.pow_add]
  ring

private theorem columnas_cero (n : Nat) : columnas (List.replicate n 0) = 0 := by
  induction n with
  | zero => rfl
  | succ n ih => rw [List.replicate_succ, columnas, ih]; rfl

private theorem productos_val (a b : B32) : Holgado (productos a b) (65025 * 32) ∧
    columnas (productos a b) = leNat a.toList * leNat b.toList := by
  have hini : Holgado (List.replicate 64 0) 0 := by
    refine ⟨List.length_replicate, fun k ↦ ?_⟩
    rw [List.getD_eq_getElem?_getD, List.getElem?_replicate]
    split <;> exact Nat.le_refl 0
  have hrun : ∀ m ≤ 32, Holgado ((List.range m).foldl (fila a b) (List.replicate 64 0)) (65025 * m) ∧
      columnas ((List.range m).foldl (fila a b) (List.replicate 64 0)) =
        leNat (a.toList.take m) * leNat b.toList := by
    intro m hm
    induction m with
    | zero => exact ⟨hini, (columnas_cero 64).trans (Nat.zero_mul _).symm⟩
    | succ m ih =>
      obtain ⟨hq, hval⟩ := ih (by omega)
      rw [List.range_succ, List.foldl_append, List.foldl_cons, List.foldl_nil]
      obtain ⟨hq', hval'⟩ := fila_val a b hq (by omega) hm
      refine ⟨hq', ?_⟩
      rw [hval', hval, leNat_take_succ, Nat.add_mul]
  have h := hrun 32 le_rfl
  rwa [List.take_of_length_le a.length_toList.le] at h

private theorem sumarC_val (a b c : B32) : Holgado (sumarC c (productos a b)) (65025 * 33) ∧
    columnas (sumarC c (productos a b)) = leNat a.toList * leNat b.toList + leNat c.toList := by
  obtain ⟨hp, hval⟩ := productos_val a b
  have hc : ∀ i, ((c.toList.getD i 0).toUInt32).toNat ≤ 65025 := by
    intro i
    have hlt : (c.toList.getD i 0).toNat < 256 := UInt8.toNat_lt _
    rw [UInt8.toNat_toUInt32]
    omega
  obtain ⟨hq, -, hsum⟩ := sumarEn_val (i := 0) hp (by decide) _ hc 32 (by decide)
  refine ⟨hq, ?_⟩
  rw [sumarC, hsum, hval, leNat_sum c, Nat.add_left_cancel_iff]
  refine Finset.sum_congr rfl fun j _ ↦ ?_
  rw [UInt8.toNat_toUInt32, Nat.zero_add]

/-- The carry loses nothing while the columns are small. -/
theorem acarrear_val {p : List UInt32} (hp : ∀ x ∈ p, x.toNat ≤ 65025 * 33) {c : UInt32}
    (hc : c.toNat < 2 ^ 24) : (acarrear p c).1.length = p.length ∧
      leNat (acarrear p c).1 + 256 ^ p.length * (acarrear p c).2.toNat = columnas p + c.toNat := by
  induction p generalizing c with
  | nil => simp [acarrear, leNat, columnas]
  | cons x xs ih =>
    obtain ⟨hx, hxs⟩ := List.forall_mem_cons.mp hp
    have hv : (x + c).toNat = x.toNat + c.toNat := by
      rw [UInt32.toNat_add, Nat.mod_eq_of_lt (by omega)]
    have hshr : ((x + c) >>> 8).toNat = (x.toNat + c.toNat) / 256 := by
      rw [UInt32.toNat_shiftRight, hv]
      exact Nat.shiftRight_eq_div_pow _ 8
    have hlow : ((x + c) &&& 0xFF).toUInt8.toNat = (x.toNat + c.toNat) % 256 := by
      have hand : ((x + c) &&& 0xFF).toNat = (x.toNat + c.toNat) % 2 ^ 8 := by
        rw [UInt32.toNat_and, hv]
        exact Nat.and_two_pow_sub_one_eq_mod _ 8
      rw [UInt32.toNat_toUInt8, hand]
      exact Nat.mod_mod _ _
    obtain ⟨hlen, hval⟩ := ih hxs (c := (x + c) >>> 8) (by omega)
    rw [hshr] at hval
    refine ⟨by rw [acarrear, List.length_cons, hlen, List.length_cons], ?_⟩
    rw [acarrear, leNat, columnas, List.length_cons, Nat.pow_succ', Nat.mul_assoc, hlow]
    dsimp only
    omega

theorem mul_add_lt {a b c N : Nat} (ha : a < N) (hb : b < N) (hc : c < N) : a * b + c < N * N := by
  calc a * b + c < a * b + N := Nat.add_lt_add_left hc _
    _ ≤ a * N + N := Nat.add_le_add_right (Nat.mul_le_mul_left a hb.le) N
    _ = (a + 1) * N := (Nat.succ_mul a N).symm
    _ ≤ N * N := Nat.mul_le_mul_right N ha

/-- The product and the sum are exact, and what is returned is their remainder. -/
theorem leNat_muladd (a b c : B32) : leNat (muladd a b c).toList =
    (leNat a.toList * leNat b.toList + leNat c.toList) % ORDEN25519 := by
  obtain ⟨hp, hval⟩ := sumarC_val a b c
  have hmem : ∀ x ∈ sumarC c (productos a b), x.toNat ≤ 65025 * 33 := by
    intro x hx
    obtain ⟨i, hi, rfl⟩ := List.getElem_of_mem hx
    have hle := hp.le i
    rwa [List.getD_eq_getElem _ _ hi] at hle
  obtain ⟨hlen, hout⟩ := acarrear_val hmem (c := 0) (by decide)
  rw [hp.length] at hlen
  rw [hp.length, UInt32.toNat_zero, Nat.add_zero, hval] at hout
  have hlt : leNat a.toList * leNat b.toList + leNat c.toList < 256 ^ 64 := by
    rw [show 64 = 32 + 32 from rfl, Nat.pow_add]
    exact mul_add_lt (leNat_b32_lt a) (leNat_b32_lt b) (leNat_b32_lt c)
  have hzero := sin_acarreo hout hlt
  rw [muladd, leNat_reducir, toList_ofFn_getD hlen, hzero]

end BmoX.Cripto.Escalar
