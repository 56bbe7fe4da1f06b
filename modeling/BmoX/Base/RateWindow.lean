import Mathlib.Data.List.Basic
import Mathlib.Tactic.Common

/-!
# Counting by windows

A limiter that counts events in windows of `L` ticks, at most `n` in each, and starts the next
window at the first event after the end of one. Between the ends of two windows it lets at most `n`
through, and so no more than `2 * n` in any `L` ticks.
-/

namespace BmoX.Base

/-- The events at the times `ts`, the last `c` of them in the window that began at `s`. -/
structure RateWindow (L n s c : Nat) (ts : List Nat) : Prop where
  count_le : c ≤ n
  split : ∃ old cur, ts = old ++ cur ∧ cur.length = c ∧ (∀ t ∈ cur, s ≤ t ∧ t < s + L) ∧
    (∀ t ∈ old, t < s) ∧ (∀ a, s < a + L → (old.filter fun t ↦ a ≤ t).length ≤ n) ∧
    ∀ a, (old.filter fun t ↦ a ≤ t ∧ t < a + L).length ≤ 2 * n

namespace RateWindow

variable {L n s c t a : Nat} {ts : List Nat}

theorem start : RateWindow L n s 0 [] :=
  ⟨Nat.zero_le _, [], [], rfl, rfl, by simp, by simp, by simp, by simp⟩

private theorem length_within_le (l : List Nat) :
    (l.filter fun t ↦ a ≤ t ∧ t < a + L).length ≤ (l.filter fun t ↦ a ≤ t).length := by
  apply List.Sublist.length_le
  apply List.monotone_filter_right
  intro t ht
  simp only [decide_eq_true_eq] at ht ⊢
  exact ht.1

/-- In any `L` ticks there are at most `2 * n` events. -/
theorem within_le (h : RateWindow L n s c ts) (a : Nat) :
    (ts.filter fun t ↦ a ≤ t ∧ t < a + L).length ≤ 2 * n := by
  obtain ⟨old, cur, rfl, hcur, hge, -, hnear, hall⟩ := h.split
  have hc := h.count_le
  rw [List.filter_append, List.length_append]
  by_cases hs : s < a + L
  · have hold := Nat.le_trans (length_within_le (L := L) (a := a) old) (hnear a hs)
    have hnew := (cur.length_filter_le fun t ↦ a ≤ t ∧ t < a + L)
    omega
  · have hnone : (cur.filter fun t ↦ a ≤ t ∧ t < a + L) = [] := by
      rw [List.filter_eq_nil_iff]
      intro t ht
      have := (hge t ht).1
      simp only [decide_eq_true_eq]
      omega
    have hold := hall a
    rw [hnone, List.length_nil]
    exact hold

/-- One more event in the window. -/
theorem count (h : RateWindow L n s c ts) (hc : c < n) (ht : s ≤ t) (ht' : t < s + L) :
    RateWindow L n s (c + 1) (ts ++ [t]) := by
  obtain ⟨old, cur, rfl, hcur, hge, hlt, hnear, hall⟩ := h.split
  refine ⟨hc, old, cur ++ [t], List.append_assoc .., by simp [hcur], fun u hu ↦ ?_, hlt, hnear, hall⟩
  rcases List.mem_append.mp hu with hu | hu
  · exact hge u hu
  · rw [List.mem_singleton.mp hu]
    exact ⟨ht, ht'⟩

/-- The first event after the end of a window begins the next. -/
theorem next (h : RateWindow L n s c ts) (hL : 0 < L) (hn : 0 < n) (ht : s + L ≤ t) :
    RateWindow L n t 1 (ts ++ [t]) := by
  have hall := h.within_le
  obtain ⟨old, cur, rfl, hcur, hge, hlt, -, -⟩ := h.split
  have hc := h.count_le
  refine ⟨hn, old ++ cur, [t], rfl, rfl, fun u hu ↦ ?_, fun u hu ↦ ?_, fun a ha ↦ ?_, hall⟩
  · rw [List.mem_singleton.mp hu]
    omega
  · rcases List.mem_append.mp hu with hu | hu
    · have := hlt u hu
      omega
    · have := hge u hu
      omega
  · -- what is within `L` ticks of the new window lies in the last one
    have hnone : (old.filter fun u ↦ a ≤ u) = [] := by
      rw [List.filter_eq_nil_iff]
      intro u hu
      have := hlt u hu
      simp only [decide_eq_true_eq]
      omega
    have hcur' := cur.length_filter_le fun u ↦ decide (a ≤ u)
    rw [List.filter_append, hnone, List.nil_append]
    omega

end RateWindow

end BmoX.Base
