import Mathlib.Data.List.Basic
import Mathlib.Tactic.Common

/-!
# Linked lists in memory

A list of addresses, each with a link to the next one and the last with a null one: which changes of
the links keep it, and what a walk over it finds.
-/

namespace BmoX.Base

/-- The addresses of `l`, the first at `a`, each linked to the next. -/
inductive Linked (next : Nat → Nat) : Nat → List Nat → Prop
  | nil : Linked next 0 []
  | cons {a : Nat} {l : List Nat} (h : a ≠ 0) (t : Linked next (next a) l) : Linked next a (a :: l)

/-- Walk from a node until `stop`, with the node before: the null node ends the list. The first
number bounds the nodes. -/
def walk (next : Nat → Nat) (stop : Nat → Bool) : Nat → Nat → Nat → Option (Nat × Nat)
  | 0, _, _ => none
  | n + 1, prev, curr =>
    if curr = 0 then some (prev, 0)
    else if stop curr then some (prev, curr)
    else walk next stop n curr (next curr)

namespace Linked

variable {next next' : Nat → Nat} {stop : Nat → Bool} {a p b : Nat} {l l' pre post : List Nat}

theorem congr (hl : Linked next a l) (h : ∀ x ∈ l, next' x = next x) : Linked next' a l := by
  induction hl with
  | nil => exact nil
  | cons h0 t ih =>
    obtain ⟨h1, h2⟩ := List.forall_mem_cons.mp h
    apply cons h0
    rw [h1]
    exact ih h2

/-- The links decide the list. -/
theorem unique (hl : Linked next a l) (hl' : Linked next a l') : l = l' := by
  induction hl generalizing l' with
  | nil =>
    cases hl' with
    | nil => rfl
    | cons h0 t => exact absurd rfl h0
  | cons h0 t ih =>
    cases hl' with
    | nil => exact absurd rfl h0
    | cons _ t' => rw [ih t']

/-- What follows a node of the list is a list. -/
theorem tail (hl : Linked next a (pre ++ b :: post)) : Linked next (next b) post := by
  induction pre generalizing a with
  | nil =>
    cases hl with
    | cons _ t => exact t
  | cons x pre ih =>
    cases hl with
    | cons _ t => exact ih t

theorem head (hl : Linked next a (b :: post)) : a = b := by
  cases hl with
  | cons _ _ => rfl

/-- A node goes out when the one before it is linked to the one after. -/
theorem unlink (hl : Linked next a (pre ++ p :: b :: post)) (hp : next' p = next b)
    (h : ∀ x ∈ pre ++ post, next' x = next x) : Linked next' a (pre ++ p :: post) := by
  induction pre generalizing a with
  | nil =>
    cases hl with
    | cons h0 t =>
      apply cons h0
      have hb : Linked next p ([p] ++ b :: post) := cons h0 t
      rw [hp]
      exact hb.tail.congr h
  | cons x pre ih =>
    cases hl with
    | cons h0 t =>
      obtain ⟨h1, h2⟩ := List.forall_mem_cons.mp h
      apply cons h0
      rw [h1]
      exact ih t h2

/-- A walk over a list ends: at the null node, where no node of the list stops it, or at the first
node that does. -/
theorem walk_cases (hl : Linked next a l) {n prev : Nat} (hn : l.length < n) :
    ((∀ x ∈ l, stop x = false) ∧ ∃ q, walk next stop n prev a = some (q, 0)) ∨
    ∃ pre b post, l = pre ++ b :: post ∧ (∀ x ∈ pre, stop x = false) ∧ stop b = true ∧
      walk next stop n prev a = some (pre.getLast?.getD prev, b) := by
  induction hl generalizing n prev with
  | nil =>
    cases n with
    | zero => cases hn
    | succ n =>
      left
      exact ⟨by simp, prev, by simp [walk]⟩
  | @cons a l h0 t ih =>
    cases n with
    | zero => cases hn
    | succ n =>
      have hlen : l.length < n := by
        rw [List.length_cons] at hn
        omega
      cases hs : stop a with
      | true =>
        right
        exact ⟨[], a, l, rfl, by simp, hs, by simp [walk, h0, hs]⟩
      | false =>
        have hw : walk next stop (n + 1) prev a = walk next stop n a (next a) := by
          simp [walk, h0, hs]
        rw [hw]
        rcases @ih n a hlen with ⟨h1, q, hq⟩ | ⟨pre, b, post, rfl, h1, h2, h3⟩
        · left
          exact ⟨List.forall_mem_cons.mpr ⟨hs, h1⟩, q, hq⟩
        · right
          refine ⟨a :: pre, b, post, rfl, List.forall_mem_cons.mpr ⟨hs, h1⟩, h2, ?_⟩
          rw [h3, List.getLast?_cons]
          cases pre.getLast? <;> rfl

end Linked

end BmoX.Base
