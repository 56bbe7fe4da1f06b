import BmoX.Base.Bytes
import Mathlib.Data.Nat.ModEq
import Mathlib.Tactic.IntervalCases

/-!
# Sums with end-around carry

Addition modulo `m - 1` on the numbers below `m`, with the carry added back in, as in the
one's-complement checksums of network headers. A sum is zero only when every term is, so the
result is the canonical representative, in `1 … m - 1`, of the plain sum.
-/

namespace BmoX.Base

/-! ### Addition with end-around carry -/

/-- Add two words below `m` and add the carry back in. -/
def carryAdd (m a b : Nat) : Nat := (a + b) % m + (a + b) / m

/-- The word with end-around carry that a plain sum folds to. -/
def carryFold (m n : Nat) : Nat := if n = 0 then 0 else (n - 1) % (m - 1) + 1

theorem carryFold_lt {m : Nat} (hm : 2 ≤ m) (n : Nat) : carryFold m n < m := by
  have := Nat.mod_lt (n - 1) (show 0 < m - 1 by omega)
  rw [carryFold]
  split <;> omega

theorem carryFold_of_lt {m n : Nat} (h : n < m) : carryFold m n = n := by
  rw [carryFold]
  split
  · omega
  · rw [Nat.mod_eq_of_lt (by omega)]
    omega

theorem carryFold_add {m : Nat} (n : Nat) (hn : 0 < n) :
    carryFold m (n + (m - 1)) = carryFold m n := by
  rw [carryFold, carryFold, if_neg (by omega), if_neg (by omega),
    show n + (m - 1) - 1 = n - 1 + (m - 1) by omega, Nat.add_mod_right]

/-- Adding with carry adds under the fold. -/
theorem carryAdd_eq {m a b : Nat} (hm : 2 ≤ m) (ha : a < m) (hb : b < m) :
    carryAdd m a b = carryFold m (a + b) := by
  rw [carryAdd]
  by_cases h : a + b < m
  · rw [Nat.mod_eq_of_lt h, Nat.div_eq_of_lt h, carryFold_of_lt h, Nat.add_zero]
  · have hd : (a + b) / m = 1 := Nat.div_eq_of_lt_le (by omega) (by omega)
    have hs : (a + b) % m = a + b - m := by
      rw [Nat.mod_eq_sub_mod (by omega), Nat.mod_eq_of_lt (by omega)]
    rw [hd, hs, show a + b = a + b - m + 1 + (m - 1) by omega, carryFold_add _ (by omega),
      carryFold_of_lt (by omega)]
    omega

/-- A fold inside a sum does not show. -/
theorem carryFold_carryFold_add {m : Nat} (n k : Nat) :
    carryFold m (carryFold m n + k) = carryFold m (n + k) := by
  by_cases h : n = 0
  · have h0 : carryFold m 0 = 0 := if_pos rfl
    rw [h, h0]
  · have hdiv := Nat.div_add_mod (n - 1) (m - 1)
    have hstep : ∀ q r, 0 < r → carryFold m ((m - 1) * q + r) = carryFold m r := by
      intro q r hr
      induction q with
      | zero => rw [Nat.mul_zero, Nat.zero_add]
      | succ q ih =>
        rw [← ih, ← carryFold_add ((m - 1) * q + r) (by omega), Nat.mul_succ]
        congr 1
        omega
    rw [← hstep ((n - 1) / (m - 1)) _ (by rw [carryFold, if_neg h]; omega)]
    congr 1
    rw [carryFold, if_neg h]
    omega

/-- The sum of a list of words with end-around carry. -/
def onesSum (m : Nat) (ws : List Nat) : Nat := ws.foldl (carryAdd m) 0

/-- Summing on from a word that is itself a folded sum. -/
theorem foldl_carryAdd {m : Nat} (hm : 2 ≤ m) {ws : List Nat} (hws : ∀ w ∈ ws, w < m) (n : Nat) :
    ws.foldl (carryAdd m) (carryFold m n) = carryFold m (n + ws.sum) := by
  induction ws generalizing n with
  | nil => rfl
  | cons w ws ih =>
    rw [List.foldl_cons, carryAdd_eq hm (carryFold_lt hm n) (hws w (List.mem_cons_self ..)),
      carryFold_carryFold_add, ih fun x hx ↦ hws x (List.mem_cons_of_mem _ hx),
      List.sum_cons, Nat.add_assoc]

theorem onesSum_eq {m : Nat} (hm : 2 ≤ m) {ws : List Nat} (hws : ∀ w ∈ ws, w < m) :
    onesSum m ws = carryFold m ws.sum := by
  have h := foldl_carryAdd hm hws 0
  rwa [Nat.zero_add, carryFold, if_pos rfl] at h

/-- The largest word is what the positive multiples of `m - 1` fold to. -/
theorem carryFold_eq_iff {m : Nat} (hm : 2 ≤ m) (n : Nat) :
    carryFold m n = m - 1 ↔ 0 < n ∧ n % (m - 1) = 0 := by
  have hlt := Nat.mod_lt (n - 1) (show 0 < m - 1 by omega)
  rw [carryFold]
  split
  · omega
  · have hsucc : n % (m - 1) = ((n - 1) % (m - 1) + 1) % (m - 1) := by
      rw [Nat.mod_add_mod, Nat.sub_add_cancel (by omega)]
    constructor
    · intro h
      rw [hsucc, h, Nat.mod_self]
      omega
    · rintro ⟨-, h⟩
      rw [hsucc] at h
      by_contra hne
      rw [Nat.mod_eq_of_lt (by omega)] at h
      omega

theorem carryFold_compl {m : Nat} (hm : 2 ≤ m) (n : Nat) :
    carryFold m (n + (m - 1 - carryFold m n)) = m - 1 := by
  have hlt := carryFold_lt hm n
  rw [← carryFold_carryFold_add, show carryFold m n + (m - 1 - carryFold m n) = m - 1 by omega,
    carryFold_of_lt (by omega)]

/-! ### Big-endian words -/

/-- The big-endian 16-bit words of a string, an odd last byte followed by a zero. -/
def beWords : Bytes → List Nat
  | [] => []
  | [a] => [a.toNat * 256]
  | a :: b :: bs => (a.toNat * 256 + b.toNat) :: beWords bs

/-- The words have 16 bits. -/
theorem beWords_lt (b : Bytes) : ∀ w ∈ beWords b, w < 65536 := by
  fun_induction beWords b with
  | case1 => exact fun w hw ↦ absurd hw List.not_mem_nil
  | case2 a =>
    intro w hw
    have := a.toNat_lt
    rw [List.mem_singleton] at hw
    omega
  | case3 a b bs ih =>
    intro w hw
    have := a.toNat_lt
    have := b.toNat_lt
    rcases List.mem_cons.mp hw with rfl | hw
    · omega
    · exact ih w hw

/-- After an even number of bytes the words start anew. -/
theorem beWords_append {a : Bytes} (ha : a.length % 2 = 0) (b : Bytes) :
    beWords (a ++ b) = beWords a ++ beWords b := by
  fun_induction beWords a with
  | case1 => rfl
  | case2 x => cases ha
  | case3 x y bs ih =>
    rw [List.length_cons, List.length_cons] at ha
    rw [List.cons_append, List.cons_append, beWords, ih (by omega), List.cons_append]

/-! ### One wrong bit -/

/-- The string with bit `k` of byte `i` turned over. -/
def flipBit (b : Bytes) (i k : Nat) : Bytes := b.modify i (· ^^^ (1 <<< UInt8.ofNat k))

@[simp] theorem length_flipBit (b : Bytes) (i k : Nat) : (flipBit b i k).length = b.length :=
  List.length_modify ..

/-- A bit of the second part. -/
theorem flipBit_append_right (a b : Bytes) (i k : Nat) :
    flipBit (a ++ b) (a.length + i) k = a ++ flipBit b i k := by
  induction a with
  | nil => rw [List.length_nil, Nat.zero_add, List.nil_append, List.nil_append]
  | cons x a ih =>
    rw [List.length_cons, Nat.add_right_comm, List.cons_append, flipBit, List.modify_succ_cons,
      List.cons_append]
    exact congrArg (x :: ·) ih

/-- A bit of the first part. -/
theorem flipBit_append_left {a : Bytes} (b : Bytes) {i : Nat} (k : Nat) (h : i < a.length) :
    flipBit (a ++ b) i k = flipBit a i k ++ b := by
  induction a generalizing i with
  | nil => cases h
  | cons x a ih =>
    match i with
    | 0 => rfl
    | i + 1 => exact congrArg (x :: ·) (ih (Nat.lt_of_succ_lt_succ h))

set_option maxRecDepth 8192 in
private theorem toNat_xor_bit (b : UInt8) {k : Nat} (hk : k < 8) :
    (b ^^^ (1 <<< UInt8.ofNat k)).toNat + 2 ^ k = b.toNat ∨
      (b ^^^ (1 <<< UInt8.ofNat k)).toNat = b.toNat + 2 ^ k := by
  have h : ∀ c : Fin 256, ∀ j : Fin 8,
      (UInt8.ofNat c.val ^^^ (1 <<< UInt8.ofNat j.val)).toNat + 2 ^ j.val = c.val ∨
        (UInt8.ofNat c.val ^^^ (1 <<< UInt8.ofNat j.val)).toNat = c.val + 2 ^ j.val := by
    decide
  simpa using h ⟨b.toNat, b.toNat_lt⟩ ⟨k, hk⟩

/-- A wrong bit moves the plain sum of the words by a power of two below `2 ^ 16`. -/
theorem sum_flipBit (b : Bytes) {i k : Nat} (hi : i < b.length) (hk : k < 8) :
    ∃ e < 16, (beWords (flipBit b i k)).sum + 2 ^ e = (beWords b).sum ∨
      (beWords (flipBit b i k)).sum = (beWords b).sum + 2 ^ e := by
  have hp : 2 ^ (k + 8) = 2 ^ k * 256 := by rw [Nat.pow_add]
  induction b using beWords.induct generalizing i with
  | case1 => cases hi
  | case2 a =>
    obtain rfl : i = 0 := by simpa using hi
    refine ⟨k + 8, by omega, ?_⟩
    have h := toNat_xor_bit a hk
    simp only [flipBit, List.modify_zero_cons, beWords, List.sum_cons, List.sum_nil, hp]
    omega
  | case3 a b bs ih =>
    match i with
    | 0 =>
      refine ⟨k + 8, by omega, ?_⟩
      have h := toNat_xor_bit a hk
      simp only [flipBit, List.modify_zero_cons, beWords, List.sum_cons, hp]
      omega
    | 1 =>
      refine ⟨k, by omega, ?_⟩
      have h := toNat_xor_bit b hk
      simp only [flipBit, List.modify_succ_cons, List.modify_zero_cons, beWords, List.sum_cons]
      omega
    | i + 2 =>
      obtain ⟨e, he, h⟩ := ih (i := i) (by simpa using hi)
      refine ⟨e, he, ?_⟩
      simp only [flipBit, List.modify_succ_cons, beWords, List.sum_cons] at h ⊢
      omega

/-- A wrong bit in a string that sums to the largest word makes it sum to another. -/
theorem carryFold_flipBit {b : Bytes} {i k : Nat} (hi : i < b.length) (hk : k < 8)
    (h : carryFold 65536 (beWords b).sum = 65535) :
    carryFold 65536 (beWords (flipBit b i k)).sum ≠ 65535 := by
  intro h'
  obtain ⟨e, he, hs⟩ := sum_flipBit b hi hk
  have hm := ((carryFold_eq_iff (by decide) _).mp h).2
  have hm' := ((carryFold_eq_iff (by decide) _).mp h').2
  interval_cases e <;> omega

end BmoX.Base
