import Mathlib.Data.List.Basic
import Mathlib.Tactic.Common

/-!
# Rings with a cycle bit

A producer and a consumer share `n` slots, each with one bit. The producer writes the bit of its
lap, which alternates, and the consumer takes a slot whose bit is that of its own lap. Neither
tells the other how far it has come.
-/

namespace BmoX.Base

/-- The bit of the lap of the `k`-th item: set on the first lap, and on every other one. -/
def lapBit (n k : Nat) : Bool := k / n % 2 = 0

section lapBit

variable {n k : Nat}

@[simp] theorem lapBit_zero : lapBit n 0 = true := by
  simp [lapBit]

theorem lapBit_of_div (h : k / n % 2 = 0) : lapBit n k = true := by
  simp [lapBit, h]

/-- The bit of a lap is the other one of that of the lap before. -/
theorem lapBit_of_div_succ {j : Nat} (h : k / n = j / n + 1) : lapBit n k = !lapBit n j := by
  simp only [lapBit, h]
  by_cases hj : j / n % 2 = 0
  · simp only [hj, decide_true, Bool.not_true, decide_eq_false_iff_not]
    omega
  · simp only [hj, decide_false, Bool.not_false, decide_eq_true_eq]
    omega

theorem lapBit_of_div_eq {j : Nat} (h : k / n = j / n) : lapBit n k = lapBit n j := by
  rw [lapBit, lapBit, h]

/-- Two places at most one lap apart: on the same lap the later is further on, and on the next one it
is not past the earlier. -/
theorem div_of_le {j : Nat} (hn : 0 < n) (hjk : j ≤ k) (hk : k ≤ j + n) :
    (k / n = j / n ∧ k % n = j % n + (k - j)) ∨
      (k / n = j / n + 1 ∧ k % n + n = j % n + (k - j)) := by
  have hj := Nat.div_add_mod j n
  have hk' := Nat.div_add_mod k n
  have hlo : j / n ≤ k / n := Nat.div_le_div_right hjk
  have hhi : k / n ≤ j / n + 1 := by
    have := Nat.div_le_div_right (c := n) hk
    rwa [Nat.add_div_right j hn] at this
  obtain h | h : k / n = j / n ∨ k / n = j / n + 1 := by omega
  · rw [h] at hk'
    exact .inl ⟨h, by omega⟩
  · rw [h, Nat.mul_succ] at hk'
    exact .inr ⟨h, by omega⟩

theorem lapBit_succ (hn : 0 < n) (h : k % n + 1 < n) :
    lapBit n (k + 1) = lapBit n k ∧ (k + 1) % n = k % n + 1 := by
  obtain ⟨hd, hm⟩ | ⟨hd, hm⟩ := div_of_le (k := k + 1) hn (Nat.le_add_right k 1) (by omega)
  · exact ⟨lapBit_of_div_eq hd, by omega⟩
  · omega

theorem lapBit_succ_of_end (hn : 0 < n) (h : k % n + 1 = n) :
    lapBit n (k + 1) = (!lapBit n k) ∧ (k + 1) % n = 0 := by
  obtain ⟨hd, hm⟩ | ⟨hd, hm⟩ := div_of_le (k := k + 1) hn (Nat.le_add_right k 1) (by omega)
  · have := Nat.mod_lt (k + 1) hn
    omega
  · exact ⟨lapBit_of_div_succ hd, by omega⟩

end lapBit

/-- Slots whose bits are `bit` and contents `item`, after the items `l` were produced and `c` of them
consumed. -/
structure CycleRing {α : Type} (n : Nat) (bit : Nat → Bool) (item : Nat → α) (l : List α)
    (c : Nat) : Prop where
  bits : ∀ i < n, bit i = if i < l.length % n then lapBit n l.length else !lapBit n l.length
  items : ∀ k a, c ≤ k → l[k]? = some a → item (k % n) = a
  consumed : c ≤ l.length
  room : l.length ≤ c + n

namespace CycleRing

variable {α : Type} {n c : Nat} {bit bit' : Nat → Bool} {item item' : Nat → α} {l : List α}

theorem start (h : ∀ i < n, bit i = false) : CycleRing n bit item [] 0 where
  bits i hi := by simp [h i hi]
  items k a _ hk := by simp at hk
  consumed := Nat.zero_le _
  room := Nat.zero_le _

/-- The consumer finds a slot of its own lap just when there is an item for it. -/
theorem ready (hn : 0 < n) (h : CycleRing n bit item l c) :
    bit (c % n) = lapBit n c ↔ c < l.length := by
  have hc := h.consumed
  have hr := h.room
  rw [h.bits _ (Nat.mod_lt c hn)]
  obtain ⟨hd, hm⟩ | ⟨hd, hm⟩ := div_of_le hn hc hr
  · rw [lapBit_of_div_eq hd]
    split
    · simp only [true_iff]
      omega
    · simp only [Bool.not_eq_eq_eq_not, Bool.eq_not_self, false_iff]
      omega
  · have := Nat.mod_lt c hn
    rw [lapBit_of_div_succ hd, if_neg (by omega), Bool.not_not]
    simp only [true_iff]
    omega

theorem next (h : CycleRing n bit item l c) (hc : c < l.length) : l[c]? = some (item (c % n)) := by
  rw [List.getElem?_eq_getElem hc, h.items c _ (Nat.le_refl c) (List.getElem?_eq_getElem hc)]

theorem consume (h : CycleRing n bit item l c) (hc : c < l.length) :
    CycleRing n bit item l (c + 1) :=
  ⟨h.bits, fun k a hk ↦ h.items k a (by omega), hc, by have := h.room; omega⟩

/-- While an item is written into the producer's slot, with the bit still the old one, nothing
changes. -/
theorem fill (hn : 0 < n) (h : CycleRing n bit item l c) (hroom : l.length < c + n)
    (hbit : ∀ i < n, bit' i = bit i) (hitem : ∀ i < n, i ≠ l.length % n → item' i = item i) :
    CycleRing n bit' item' l c := by
  refine ⟨fun i hi ↦ by rw [hbit i hi, h.bits i hi], fun k a hk ha ↦ ?_, h.consumed, h.room⟩
  have hlt : k < l.length := (List.getElem?_eq_some_iff.mp ha).1
  have hne : k % n ≠ l.length % n := by
    obtain ⟨hd, hm⟩ | ⟨hd, hm⟩ := div_of_le hn (Nat.le_of_lt hlt)
      (by have := h.room; have := h.consumed; omega)
    · omega
    · have := Nat.mod_lt l.length hn
      omega
  rw [hitem _ (Nat.mod_lt k hn) hne]
  exact h.items k a hk ha

/-- The bit goes last, and with it the item is produced. -/
theorem produce (hn : 0 < n) (h : CycleRing n bit item l c) (hroom : l.length < c + n) {a : α}
    (hbit : bit' (l.length % n) = lapBit n l.length)
    (hbit' : ∀ i < n, i ≠ l.length % n → bit' i = bit i)
    (hitem : item' (l.length % n) = a) (hitem' : ∀ i < n, i ≠ l.length % n → item' i = item i) :
    CycleRing n bit' item' (l ++ [a]) c := by
  have hfill := h.fill hn hroom (fun _ _ ↦ rfl) hitem'
  refine ⟨fun i hi ↦ ?_, fun k b hk hb ↦ ?_, ?_, ?_⟩
  · have hlt := Nat.mod_lt l.length hn
    have hold : i ≠ l.length % n →
        bit' i = if i < l.length % n then lapBit n l.length else !lapBit n l.length := fun hne ↦ by
      rw [hbit' i hi hne, h.bits i hi]
    rw [List.length_append, List.length_singleton]
    by_cases hend : l.length % n + 1 = n
    · obtain ⟨hl, hm⟩ := lapBit_succ_of_end hn hend
      rw [hl, hm, if_neg (Nat.not_lt_zero i), Bool.not_not]
      by_cases hi' : i = l.length % n
      · rw [hi', hbit]
      · rw [hold hi', if_pos (by omega)]
    · obtain ⟨hl, hm⟩ := lapBit_succ hn (k := l.length) (by omega)
      rw [hl, hm]
      by_cases hi' : i = l.length % n
      · rw [hi', hbit, if_pos (Nat.lt_succ_self _)]
      · rw [hold hi']
        by_cases hlo : i < l.length % n
        · rw [if_pos hlo, if_pos (by omega)]
        · rw [if_neg hlo, if_neg (by omega)]
  · rw [List.getElem?_append] at hb
    split at hb
    · exact hfill.items k b hk hb
    · next hge =>
      have hk' : k = l.length := by
        have := (List.getElem?_eq_some_iff.mp hb).1
        simp only [List.length_singleton] at this
        omega
      subst hk'
      simp only [Nat.sub_self, List.getElem?_cons_zero, Option.some.injEq] at hb
      rw [hitem, hb]
  · have := h.consumed
    simp only [List.length_append, List.length_singleton]
    omega
  · simp only [List.length_append, List.length_singleton]
    omega

/-- After an even number of laps the ring is as good as new. -/
theorem restart (hn : 0 < n) (h : CycleRing n bit item l c) (hl : l.length % (2 * n) = 0) :
    CycleRing n bit item [] 0 := by
  obtain ⟨q, hq⟩ := Nat.dvd_of_mod_eq_zero hl
  have hmul : l.length = n * (2 * q) := by rw [hq, Nat.mul_comm 2 n, Nat.mul_assoc]
  have hmod : l.length % n = 0 := by rw [hmul, Nat.mul_mod_right]
  have hdiv : l.length / n % 2 = 0 := by rw [hmul, Nat.mul_div_cancel_left _ hn, Nat.mul_mod_right]
  refine start fun i hi ↦ ?_
  rw [h.bits i hi, hmod, if_neg (Nat.not_lt_zero i), lapBit_of_div hdiv, Bool.not_true]

end CycleRing

end BmoX.Base
