import Mathlib.Algebra.BigOperators.Group.List.Basic
import Mathlib.Algebra.Order.Ring.Int
import Mathlib.Data.Fintype.Card
import Mathlib.Data.Nat.Bitwise
import Mathlib.Tactic.Common

/-!
# A bitmap in words of 64 bits

Bits are read and written through masks of the word that holds them; what a reader wants is one
Boolean for each index. Words that are all ones are recognised without looking at their bits, and
the first zero of any other word is found by counting trailing zeros. How many entries of a table
satisfy a predicate follows the writes of one entry.
-/

namespace BmoX.Base

/-! ### Counting the places of a table -/

variable {ι α : Type} [Fintype ι]

/-- The number of places of `f` whose entry satisfies `p`. -/
def count (p : α → Prop) [DecidablePred p] (f : ι → α) : Nat :=
  (Finset.univ.filter fun i ↦ p (f i)).card

variable {p : α → Prop} [DecidablePred p]

theorem count_eq_zero {f : ι → α} : count p f = 0 ↔ ∀ i, ¬ p (f i) := by
  rw [count, Finset.card_eq_zero, Finset.filter_eq_empty_iff]
  exact ⟨fun h i ↦ h (Finset.mem_univ i), fun h i _ ↦ h i⟩

theorem count_pos {f : ι → α} : 0 < count p f ↔ ∃ i, p (f i) := by
  rw [Nat.pos_iff_ne_zero, ne_eq, count_eq_zero, not_forall]
  simp only [not_not]

theorem count_le (f : ι → α) : count p f ≤ Fintype.card ι :=
  Finset.card_le_univ _

theorem count_congr {β : Type} {q : β → Prop} [DecidablePred q] {f : ι → α} {g : ι → β}
    (h : ∀ i, p (f i) ↔ q (g i)) : count p f = count q g := by
  rw [count, count]
  congr 1
  exact Finset.filter_congr fun i _ ↦ h i

/-- Writing one entry changes the count by what was there and what comes. -/
theorem count_update [DecidableEq ι] (f : ι → α) (i : ι) (x : α) :
    count p (Function.update f i x) + (if p (f i) then 1 else 0) =
      count p f + (if p x then 1 else 0) := by
  have h : ∀ (g : ι → α), count p g =
      (Finset.univ.filter fun j ↦ j ≠ i ∧ p (g j)).card + if p (g i) then 1 else 0 := by
    intro g
    have hdisj : Disjoint (Finset.univ.filter fun j ↦ j ≠ i ∧ p (g j))
        (if p (g i) then {i} else ∅) := by
      rw [Finset.disjoint_left]
      intro j hj hji
      split at hji
      · exact (Finset.mem_filter.mp hj).2.1 (Finset.mem_singleton.mp hji)
      · exact absurd hji (Finset.notMem_empty j)
    have hcard : (if p (g i) then 1 else 0) = (if p (g i) then {i} else ∅ : Finset ι).card := by
      split <;> simp
    rw [hcard, ← Finset.card_union_of_disjoint hdisj, count]
    congr 1
    ext j
    by_cases hj : j = i
    · subst hj
      by_cases hp : p (g j) <;> simp [hp]
    · by_cases hp : p (g i) <;> simp [hj, hp]
  rw [h (Function.update f i x), h f, Function.update_self]
  have hrest : (Finset.univ.filter fun j ↦ j ≠ i ∧ p (Function.update f i x j)) =
      Finset.univ.filter fun j ↦ j ≠ i ∧ p (f j) := by
    refine Finset.filter_congr fun j _ ↦ and_congr_right fun hj ↦ ?_
    rw [Function.update_of_ne hj]
  rw [hrest]
  omega

/-- A run of counted places is no longer than the count. -/
theorem le_count {n b k : Nat} {f : Fin n → α} (hb : b + k ≤ n)
    (h : ∀ i : Fin n, b ≤ i → i < b + k → p (f i)) : k ≤ count p f := by
  have hcard := Finset.card_le_card_of_injOn (s := (Finset.univ : Finset (Fin k)))
    (t := Finset.univ.filter fun i ↦ p (f i)) (fun i ↦ (⟨b + i, by omega⟩ : Fin n))
    (fun i _ ↦ Finset.mem_coe.mpr (Finset.mem_filter.mpr
      ⟨Finset.mem_univ _, h ⟨b + i, by omega⟩ (Nat.le_add_right ..) (by dsimp only; omega)⟩))
    (fun i _ j _ hij ↦ by
      have hval := Fin.val_eq_of_eq hij
      exact Fin.ext (by dsimp only at hval; omega))
  rw [Finset.card_univ, Fintype.card_fin] at hcard
  exact hcard

/-! ### A bitmap in words of 64 bits -/

/-! ### One word -/

/-- The word with bit `b` alone. -/
def bitMask (b : Nat) : UInt64 := (1 : UInt64) <<< UInt64.ofNat b

/-- The number of zero bits below the lowest one bit, 64 for zero. -/
def trailingZeros (w : UInt64) : Nat :=
  ((List.range 64).find? fun b ↦ w.toNat.testBit b).getD 64

/-- The number of zero bits. -/
def countZeros (w : UInt64) : Nat := (List.range 64).countP fun b ↦ !w.toNat.testBit b

theorem toNat_bitMask {b : Nat} (hb : b < 64) : (bitMask b).toNat = 2 ^ b := by
  have h1 : (1 : UInt64).toNat = 1 := rfl
  have hlt : 2 ^ b < 2 ^ 64 := Nat.pow_lt_pow_right (by decide) hb
  rw [bitMask, UInt64.toNat_shiftLeft, UInt64.toNat_ofNat', h1,
    Nat.mod_eq_of_lt (show b < 2 ^ 64 by omega), Nat.mod_eq_of_lt hb, Nat.shiftLeft_eq,
    Nat.one_mul, Nat.mod_eq_of_lt hlt]

theorem testBit_not (w : UInt64) {b : Nat} (hb : b < 64) :
    (~~~w).toNat.testBit b = !w.toNat.testBit b := by
  have hw := w.toNat_lt
  have hs : UInt64.size - 1 - w.toNat = 2 ^ 64 - (w.toNat + 1) := by
    have hsize : UInt64.size = 2 ^ 64 := rfl
    omega
  rw [UInt64.toNat_not, hs, Nat.testBit_two_pow_sub_succ hw, decide_eq_true hb, Bool.true_and]

/-- A mask finds its bit clear. -/
theorem and_bitMask (w : UInt64) {b : Nat} (hb : b < 64) :
    w &&& bitMask b = 0 ↔ w.toNat.testBit b = false := by
  have h0 : (0 : UInt64).toNat = 0 := rfl
  rw [← UInt64.toNat_inj, UInt64.toNat_and, toNat_bitMask hb, h0]
  constructor
  · intro h
    have hbit := congrArg (fun n ↦ Nat.testBit n b) h
    simpa only [Nat.testBit_and, Nat.testBit_two_pow_self, Bool.and_true, Nat.zero_testBit]
      using hbit
  · intro h
    apply Nat.eq_of_testBit_eq
    intro i
    rw [Nat.testBit_and, Nat.testBit_two_pow, Nat.zero_testBit]
    by_cases hi : b = i
    · rw [← hi, h, Bool.false_and]
    · rw [decide_eq_false hi, Bool.and_false]

theorem testBit_or_bitMask (w : UInt64) {b : Nat} (hb : b < 64) (i : Nat) :
    (w ||| bitMask b).toNat.testBit i = (w.toNat.testBit i || decide (b = i)) := by
  rw [UInt64.toNat_or, Nat.testBit_or, toNat_bitMask hb, Nat.testBit_two_pow]

theorem testBit_and_not_bitMask (w : UInt64) {b i : Nat} (hb : b < 64) (hi : i < 64) :
    (w &&& ~~~bitMask b).toNat.testBit i = (w.toNat.testBit i && !decide (b = i)) := by
  rw [UInt64.toNat_and, Nat.testBit_and, testBit_not _ hi, toNat_bitMask hb, Nat.testBit_two_pow]

/-- A word is full when all its bits are. -/
theorem eq_full (w : UInt64) : w = ~~~0 ↔ ∀ b < 64, w.toNat.testBit b = true := by
  have hz : ∀ b < 64, (~~~(0 : UInt64)).toNat.testBit b = true := by
    intro b hb
    rw [testBit_not _ hb]
    exact congrArg Bool.not (Nat.zero_testBit b)
  constructor
  · rintro rfl
    exact hz
  · intro h
    apply UInt64.toNat_inj.mp
    apply Nat.eq_of_testBit_eq
    intro i
    by_cases hi : i < 64
    · rw [h i hi, hz i hi]
    · have hp : 2 ^ 64 ≤ 2 ^ i := Nat.pow_le_pow_right (by decide) (by omega)
      have hw := w.toNat_lt
      have hf := (~~~(0 : UInt64)).toNat_lt
      rw [Nat.testBit_lt_two_pow (by omega), Nat.testBit_lt_two_pow (by omega)]

/-- The lowest one bit of a word that is not zero. -/
theorem trailingZeros_not {w : UInt64} (h : w ≠ ~~~0) :
    trailingZeros (~~~w) < 64 ∧ w.toNat.testBit (trailingZeros (~~~w)) = false := by
  cases hf : (List.range 64).find? fun b ↦ (~~~w).toNat.testBit b with
  | none =>
    refine absurd ((eq_full w).mpr fun b hb ↦ ?_) h
    have hno := List.find?_eq_none.mp hf b (List.mem_range.mpr hb)
    rw [testBit_not _ hb, Bool.not_eq_true', Bool.not_eq_false] at hno
    exact hno
  | some b =>
    have hb := List.mem_range.mp (List.mem_of_find?_eq_some hf)
    have hbit := List.find?_some hf
    rw [testBit_not _ hb, Bool.not_eq_true'] at hbit
    rw [trailingZeros, hf, Option.getD_some]
    exact ⟨hb, hbit⟩

/-! ### The table of words -/

/-- `n` words of 64 bits. -/
abbrev Bitmap (n : Nat) : Type := Fin n → UInt64

namespace Bitmap

variable {n : Nat} [NeZero n]

/-- The word of bit `f`. -/
def word (f : Nat) : Fin n := Fin.ofNat n (f / 64)

/-- Bit `f`. -/
def get (bm : Bitmap n) (f : Nat) : Bool := (bm (word f)).toNat.testBit (f % 64)

/-- Write one to bit `f`. -/
def set (bm : Bitmap n) (f : Nat) : Bitmap n :=
  Function.update bm (word f) (bm (word f) ||| bitMask (f % 64))

/-- Write zero to bit `f`. -/
def clear (bm : Bitmap n) (f : Nat) : Bitmap n :=
  Function.update bm (word f) (bm (word f) &&& ~~~bitMask (f % 64))

/-- The number of bits that are zero. -/
def zeros (bm : Bitmap n) : Nat := count (fun b ↦ b = false) fun f : Fin (n * 64) ↦ bm.get f

theorem val_word {f : Nat} (hf : f < n * 64) : (word f : Fin n).val = f / 64 := by
  rw [word, Fin.val_ofNat, Nat.mod_eq_of_lt (by omega)]

theorem word_inj {f g : Nat} (hf : f < n * 64) (hg : g < n * 64) :
    (word f : Fin n) = word g ↔ f / 64 = g / 64 := by
  rw [Fin.ext_iff, val_word hf, val_word hg]

theorem and_bitMask_word (bm : Bitmap n) (f : Nat) :
    bm (word f) &&& bitMask (f % 64) = 0 ↔ bm.get f = false :=
  and_bitMask _ (Nat.mod_lt f (by decide))

theorem get_set (bm : Bitmap n) {f g : Nat} (hf : f < n * 64) (hg : g < n * 64) :
    (bm.set f).get g = (bm.get g || decide (f = g)) := by
  rw [get, set]
  by_cases h : (word g : Fin n) = word f
  · rw [h, Function.update_self, testBit_or_bitMask _ (Nat.mod_lt f (by decide)), get, h]
    have hd := (word_inj hg hf).mp h
    congr 1
    rw [decide_eq_decide]
    omega
  · rw [Function.update_of_ne h, get, decide_eq_false, Bool.or_false]
    rintro rfl
    exact h rfl

theorem get_clear (bm : Bitmap n) {f g : Nat} (hf : f < n * 64) (hg : g < n * 64) :
    (bm.clear f).get g = (bm.get g && !decide (f = g)) := by
  rw [get, clear]
  by_cases h : (word g : Fin n) = word f
  · rw [h, Function.update_self, testBit_and_not_bitMask _ (Nat.mod_lt f (by decide))
      (Nat.mod_lt g (by decide)), get, h]
    have hd := (word_inj hg hf).mp h
    congr 2
    rw [decide_eq_decide]
    omega
  · rw [Function.update_of_ne h, get, decide_eq_false, Bool.not_false, Bool.and_true]
    rintro rfl
    exact h rfl

/-- A word is full when all its bits are, seen on the table. -/
theorem word_full (bm : Bitmap n) (i : Fin n) :
    bm i = ~~~0 ↔ ∀ f : Nat, f / 64 = (i : Nat) → bm.get f = true := by
  rw [eq_full]
  constructor
  · intro h f hf
    have hw : (word f : Fin n) = i := by
      rw [Fin.ext_iff, word, Fin.val_ofNat, hf, Nat.mod_eq_of_lt i.isLt]
    rw [get, hw]
    exact h _ (Nat.mod_lt f (by decide))
  · intro h b hb
    have hf := h (i * 64 + b) (by omega)
    have hw : (word (i * 64 + b) : Fin n) = i := by
      rw [Fin.ext_iff, val_word (by omega)]
      omega
    rw [get, hw, show (i * 64 + b) % 64 = b by omega] at hf
    exact hf

theorem zeros_eq_zero (bm : Bitmap n) : bm.zeros = 0 ↔ ∀ f < n * 64, bm.get f = true := by
  rw [zeros, count_eq_zero]
  constructor
  · intro h f hf
    rw [← Bool.not_eq_false]
    exact h ⟨f, hf⟩
  · intro h f hf
    rw [h f f.isLt] at hf
    cases hf

private theorem zeros_update {bm bm' : Bitmap n} {f : Nat} (hf : f < n * 64) (b : Bool)
    (h : ∀ g < n * 64, bm'.get g = if g = f then b else bm.get g) :
    bm'.zeros + (if bm.get f = false then 1 else 0) = bm.zeros + if b = false then 1 else 0 := by
  have hup := count_update (p := fun b ↦ b = false) (fun g : Fin (n * 64) ↦ bm.get g) ⟨f, hf⟩ b
  rw [zeros, zeros, ← hup]
  congr 1
  refine count_congr fun g ↦ ?_
  rw [h g g.isLt, Function.update_apply]
  simp only [Fin.ext_iff]

/-- One bit fewer is zero once a zero bit is set. -/
theorem zeros_set (bm : Bitmap n) {f : Nat} (hf : f < n * 64) (h : bm.get f = false) :
    (bm.set f).zeros + 1 = bm.zeros := by
  have hup := @zeros_update n _ bm (bm.set f) f hf true fun g hg ↦ by
    rw [get_set bm hf hg]
    by_cases hgf : g = f
    · rw [if_pos hgf, decide_eq_true hgf.symm, Bool.or_true]
    · rw [if_neg hgf, decide_eq_false (Ne.symm hgf), Bool.or_false]
  rw [if_pos h, if_neg (by decide)] at hup
  exact hup

/-- One bit more is zero once a bit is cleared. -/
theorem zeros_clear (bm : Bitmap n) {f : Nat} (hf : f < n * 64) (h : bm.get f = true) :
    (bm.clear f).zeros = bm.zeros + 1 := by
  have hup := @zeros_update n _ bm (bm.clear f) f hf false fun g hg ↦ by
    rw [get_clear bm hf hg]
    by_cases hgf : g = f
    · rw [if_pos hgf, decide_eq_true hgf.symm, Bool.not_true, Bool.and_false]
    · rw [if_neg hgf, decide_eq_false (Ne.symm hgf), Bool.not_false, Bool.and_true]
  rw [if_neg (by rw [h]; decide), if_pos rfl] at hup
  exact hup

theorem le_zeros (bm : Bitmap n) {b k : Nat} (hb : b + k ≤ n * 64)
    (h : ∀ f, b ≤ f → f < b + k → bm.get f = false) : k ≤ bm.zeros :=
  le_count hb fun f hf hf' ↦ h f hf hf'

end Bitmap

end BmoX.Base
