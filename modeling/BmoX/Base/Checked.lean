import Mathlib.Tactic.Common

/-!
# Results that may be refused

When a chain of checks comes to its end.
-/

namespace BmoX.Base

universe u v

section

variable {ε ε' : Type v} {α β : Type u} {e : ε} {v : α} {w : β}

/-- A step that did not fail. -/
theorem bind_eq_ok {x : Except ε α} {f : α → Except ε β} :
    (x >>= f) = .ok w ↔ ∃ a, x = .ok a ∧ f a = .ok w := by
  cases x with
  | error e =>
    constructor
    · intro h
      cases h
    · rintro ⟨a, ha, -⟩
      cases ha
  | ok a =>
    constructor
    · intro h
      exact ⟨a, rfl, h⟩
    · rintro ⟨_, ⟨⟩, h⟩
      exact h

theorem map_eq_ok {x : Except ε α} {f : α → β} :
    x.map f = .ok w ↔ ∃ a, x = .ok a ∧ f a = w := by
  cases x <;> simp [Except.map]

theorem mapError_eq_ok {x : Except ε α} {f : ε → ε'} : x.mapError f = .ok v ↔ x = .ok v := by
  cases x <;> simp [Except.mapError]

theorem ite_error_eq_ok {p : Prop} [Decidable p] {x : Except ε α} :
    (if p then .error e else x) = .ok v ↔ ¬p ∧ x = .ok v := by
  split <;> simp [*]

end

end BmoX.Base
