import Mathlib.Algebra.BigOperators.Group.List.Basic
import Mathlib.Algebra.Order.Ring.Int
import Mathlib.Data.List.Induction
import Mathlib.Data.List.Nodup
import Mathlib.Logic.Function.Basic
import Mathlib.Tactic.Common

/-!
# A store behind a volatile write cache

An accepted write waits in the cache until a flush makes it durable. A power cut keeps any
subset of the waiting writes, and so does a flush that fails, which may also leave any of them
waiting. `Holds k x` says that the store may end up with `x` at `k`.
-/

namespace BmoX.Base

/-- A durable store and the writes accepted since the last flush, oldest first. -/
structure Cache (κ β : Type) where
  durable : κ → β
  pending : List (κ × β)

namespace Cache

variable {κ β : Type} [DecidableEq κ]

/-- A store with some writes done, in order. -/
def applyAll (d : κ → β) (ws : List (κ × β)) : κ → β :=
  ws.foldl (fun d w ↦ Function.update d w.1 w.2) d

/-- A store with nothing waiting. -/
def settled (d : κ → β) : Cache κ β := ⟨d, []⟩

/-- What a read answers. -/
def view (c : Cache κ β) : κ → β := applyAll c.durable c.pending

/-- Accept a write. -/
def write (c : Cache κ β) (k : κ) (x : β) : Cache κ β := ⟨c.durable, c.pending ++ [(k, x)]⟩

/-- A flush that does its work. -/
def flush (c : Cache κ β) : Cache κ β := settled c.view

/-- A flush that fails: some writes became durable and some still wait. -/
def FlushFailed (c c' : Cache κ β) : Prop :=
  ∃ done left, done.Sublist c.pending ∧ left.Sublist c.pending ∧
    c' = ⟨applyAll c.durable done, left⟩

theorem applyAll_concat (d : κ → β) (ws : List (κ × β)) (k : κ) (x : β) :
    applyAll d (ws ++ [(k, x)]) = Function.update (applyAll d ws) k x := by
  rw [applyAll, List.foldl_append]
  rfl

theorem applyAll_append (d : κ → β) (ws ws' : List (κ × β)) :
    applyAll d (ws ++ ws') = applyAll (applyAll d ws) ws' := List.foldl_append ..

/-- After some writes a place holds what it held or something written there. -/
theorem applyAll_cases (d : κ → β) (ws : List (κ × β)) (k : κ) :
    applyAll d ws k = d k ∧ (∀ x, (k, x) ∉ ws) ∨ (k, applyAll d ws k) ∈ ws := by
  induction ws using List.reverseRecOn with
  | nil => exact .inl ⟨rfl, fun _ ↦ List.not_mem_nil⟩
  | append_singleton ws w ih =>
    obtain ⟨k', y⟩ := w
    rw [applyAll_concat]
    by_cases hk : k = k'
    · subst hk
      rw [Function.update_self]
      exact .inr (List.mem_append_right _ List.mem_cons_self)
    · rw [Function.update_of_ne hk]
      rcases ih with ⟨hd, hno⟩ | hmem
      · refine .inl ⟨hd, fun x hx ↦ ?_⟩
        rcases List.mem_append.mp hx with hx | hx
        · exact hno x hx
        · exact hk (congrArg Prod.fst (List.mem_singleton.mp hx))
      · exact .inr (List.mem_append_left _ hmem)

@[simp] theorem view_settled (d : κ → β) : (settled d).view = d := rfl

@[simp] theorem view_flush (c : Cache κ β) : c.flush.view = c.view := rfl

@[simp] theorem view_write (c : Cache κ β) (k : κ) (x : β) :
    (c.write k x).view = Function.update c.view k x := applyAll_concat ..

end Cache

end BmoX.Base
