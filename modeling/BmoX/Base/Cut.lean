import Mathlib.Data.List.Basic
import Mathlib.Data.Nat.Digits.Defs
import Mathlib.Tactic.Common
import Mathlib.Tactic.Ring

/-!
# Cutting a list at a separator, and reading digits

A text of fields is cut at the first separator, again and again; a field of digits is a number.
-/

namespace BmoX.Base

/-! ### The first separator -/

section

variable {α : Type*} [DecidableEq α] {sep : α} {l p r : List α}

/-- What stands before the first separator and what stands after it. -/
def cut? (sep : α) (l : List α) : Option (List α × List α) :=
  (l.findIdx? (· == sep)).map fun i ↦ (l.take i, l.drop (i + 1))

/-- What stands before the first separator, or all, and what stands after it, or nothing. -/
def cut (sep : α) (l : List α) : List α × List α := (cut? sep l).getD (l, [])

@[simp] theorem cut?_nil : cut? sep ([] : List α) = none := rfl

theorem cut?_cons (a : α) : cut? sep (a :: l) =
    if a = sep then some ([], l) else (cut? sep l).map fun q ↦ (a :: q.1, q.2) := by
  rw [cut?, List.findIdx?_cons]
  by_cases h : a = sep
  · simp [h]
  · simp [h, cut?, Function.comp_def]

/-- The first part has no separator, and the parts make the list. -/
theorem cut?_eq_some : cut? sep l = some (p, r) ↔ sep ∉ p ∧ l = p ++ sep :: r := by
  induction l generalizing p r with
  | nil => simp
  | cons a l ih =>
    rw [cut?_cons]
    split
    · next h =>
      subst h
      cases p with
      | nil => simp
      | cons b p => simp +contextual
    · next h =>
      cases p with
      | nil => simp [h]
      | cons b p =>
        simp only [Option.map_eq_some_iff, Prod.exists, ih, Prod.mk.injEq, List.cons_append,
          List.cons.injEq]
        constructor
        · rintro ⟨p, r, ⟨hp, hl⟩, ⟨rfl, rfl⟩, rfl⟩
          exact ⟨by simp [hp, Ne.symm h], rfl, hl⟩
        · rintro ⟨hp, rfl, hl⟩
          exact ⟨p, r, ⟨fun hm ↦ hp (List.mem_cons_of_mem _ hm), hl⟩, ⟨rfl, rfl⟩, rfl⟩

theorem cut?_eq_none : cut? sep l = none ↔ sep ∉ l := by
  simp only [cut?, Option.map_eq_none_iff, List.findIdx?_eq_none_iff, beq_eq_false_iff_ne]
  exact ⟨fun h hm ↦ h sep hm rfl, fun h x hx heq ↦ h (heq ▸ hx)⟩

theorem cut_append (h : sep ∉ p) : cut sep (p ++ sep :: r) = (p, r) := by
  rw [cut, cut?_eq_some.mpr ⟨h, rfl⟩]
  rfl

theorem cut_of_notMem (h : sep ∉ l) : cut sep l = (l, []) := by
  rw [cut, cut?_eq_none.mpr h]
  rfl

/-- Where something stands after the cut, the list is cut at its first separator. -/
theorem eq_of_cut (h : cut sep l = (p, r)) :
    sep ∉ p ∧ (l = p ++ sep :: r ∨ l = p ∧ r = []) := by
  cases hc : cut? sep l with
  | some q =>
    rw [cut, hc, Option.getD_some] at h
    subst h
    obtain ⟨hp, hl⟩ := cut?_eq_some.mp hc
    exact ⟨hp, .inl hl⟩
  | none =>
    rw [cut, hc, Option.getD_none] at h
    cases h
    exact ⟨cut?_eq_none.mp hc, .inr ⟨rfl, rfl⟩⟩

/-! ### All the separators -/

/-- One element more after the last separator, or a separator more. -/
theorem splitOn_concat {a : α} {ls : List (List α)} {t : List α} (h : l.splitOn sep = ls ++ [t]) :
    (l ++ [a]).splitOn sep = if a = sep then ls ++ [t] ++ [[]] else ls ++ [t ++ [a]] := by
  induction l generalizing ls t with
  | nil =>
    rw [List.splitOn_nil, List.singleton_eq_append_iff] at h
    simp only [List.cons_ne_nil, and_false, or_false] at h
    obtain ⟨rfl, h⟩ := h
    cases h
    rw [List.nil_append, List.splitOn_cons_eq_if_modifyHead, List.splitOn_nil]
    by_cases ha : a = sep <;> simp [ha]
  | cons x l ih =>
    rw [List.splitOn_cons_eq_if_modifyHead] at h
    rw [List.cons_append, List.splitOn_cons_eq_if_modifyHead]
    obtain ⟨ls', t', hls⟩ : ∃ ls' t', l.splitOn sep = ls' ++ [t'] :=
      ⟨_, _, (List.dropLast_append_getLast (List.splitOn_ne_nil sep l)).symm⟩
    rw [ih hls]
    rw [hls] at h
    by_cases hx : x = sep
    · -- the separator opens the list: the rest is cut as before
      simp only [hx, beq_self_eq_true, if_true] at h ⊢
      obtain ⟨rfl, ht⟩ := List.append_inj' (h.symm.trans (List.cons_append ..).symm) rfl
      cases ht
      split <;> simp
    · simp only [beq_iff_eq, hx, if_false] at h ⊢
      cases ls' with
      | nil =>
        have h' : ls ++ [t] = [] ++ [x :: t'] := h.symm
        obtain ⟨rfl, ht⟩ := List.append_inj' h' rfl
        cases ht
        split <;> simp
      | cons l₀ ls' =>
        have h' : ls ++ [t] = ((x :: l₀) :: ls') ++ [t'] := h.symm
        obtain ⟨rfl, ht⟩ := List.append_inj' h' rfl
        cases ht
        split <;> simp

end

/-! ### Digits, the highest first -/

/-- Digits read one by one make the number they are the digits of. -/
theorem foldl_digits (b n : Nat) (ds : List Nat) :
    ds.foldl (fun n d ↦ n * b + d) n = n * b ^ ds.length + Nat.ofDigits b ds.reverse := by
  induction ds generalizing n with
  | nil => simp
  | cons d ds ih =>
    rw [List.foldl_cons, ih, List.reverse_cons, Nat.ofDigits_append, Nat.ofDigits_singleton,
      List.length_reverse, List.length_cons, Nat.pow_succ]
    ring

theorem le_foldl_digits {b n : Nat} (hb : 0 < b) (ds : List Nat) :
    n ≤ ds.foldl (fun n d ↦ n * b + d) n := by
  rw [foldl_digits]
  exact (Nat.le_mul_of_pos_right n (Nat.pow_pos hb)).trans (Nat.le_add_right ..)

end BmoX.Base
