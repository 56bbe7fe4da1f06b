import Mathlib.Computability.Language
import Mathlib.Tactic.Common

/-!
# Runs of a deterministic machine

The events of a run are listed with the last first, so that a run is one step after another run. A
property of a step is about the state it starts from and its event.

A deterministic machine and the words that each of its states still allows. Then a word of events was
taken if and only if it can be continued to one of the language.
-/

namespace BmoX.Base

open Computability

/-! ### Machines that take events one by one -/

variable {σ ε : Type*}

/-! ### Words, letter by letter -/

/-- The words of one letter. -/
def letter (p : ε → Prop) : Language ε := {w | ∃ e, p e ∧ w = [e]}

section

variable {p : ε → Prop} {l m : Language ε} {e : ε} {w : List ε}

theorem cons_mem_letter_mul : e :: w ∈ letter p * l ↔ p e ∧ w ∈ l := by
  rw [Language.mem_mul]
  constructor
  · rintro ⟨_, ⟨e', he, rfl⟩, v, hv, h⟩
    cases h
    exact ⟨he, hv⟩
  · rintro ⟨he, hw⟩
    exact ⟨[e], ⟨e, he, rfl⟩, w, hw, rfl⟩

theorem letter_pow_succ_mul (n : ℕ) : letter p ^ (n + 1) * l = letter p * (letter p ^ n * l) := by
  rw [pow_succ', mul_assoc]

theorem kstar_mul : l∗ * m = m + l * (l∗ * m) := by
  conv_lhs => rw [← Language.one_add_self_mul_kstar_eq_kstar, add_mul, one_mul, mul_assoc]

end

/-! ### The words that a state allows -/

/-- A machine, and for each of its states the words that are left. -/
structure Residual (step : σ → ε → Option σ) (L : σ → Language ε) : Prop where
  cons : ∀ {s e w}, e :: w ∈ L s ↔ ∃ t, step s e = some t ∧ w ∈ L t
  live : ∀ s, ∃ w, w ∈ L s

namespace Residual

variable {step : σ → ε → Option σ} {L : σ → Language ε} {s t : σ} {h w : List ε} {e : ε}

/-- What is left after some events. -/
theorem append (hr : Residual step L) (hst : h.foldlM step s = some t) :
    h ++ w ∈ L s ↔ w ∈ L t := by
  induction h generalizing s with
  | nil =>
    cases hst
    rfl
  | cons e h ih =>
    obtain ⟨u, hu, hst⟩ := Option.bind_eq_some_iff.mp hst
    rw [List.cons_append, hr.cons]
    constructor
    · rintro ⟨u', hu', hw⟩
      rw [hu] at hu'
      cases hu'
      exact (ih hst).mp hw
    · intro hw
      exact ⟨u, hu, (ih hst).mpr hw⟩

/-- The events that may come next are those that the machine takes. -/
theorem next (hr : Residual step L) (hst : h.foldlM step s = some t) :
    (∃ w, h ++ e :: w ∈ L s) ↔ ∃ u, step t e = some u := by
  simp only [hr.append hst, hr.cons]
  constructor
  · rintro ⟨w, u, hu, -⟩
    exact ⟨u, hu⟩
  · rintro ⟨u, hu⟩
    obtain ⟨w, hw⟩ := hr.live u
    exact ⟨w, u, hu, hw⟩

end Residual

/-! ### Runs of a deterministic machine -/

variable {σ ε : Type*} {step : σ → ε → σ} {s : σ} {P Q : σ → ε → Prop} {e : ε} {es : List ε}

/-- Where a run leads. -/
def runOn (step : σ → ε → σ) (s : σ) : List ε → σ
  | [] => s
  | e :: es => step (runOn step s es) e

/-- At every step of a run. -/
def AtSteps (step : σ → ε → σ) (s : σ) (P : σ → ε → Prop) : List ε → Prop
  | [] => True
  | e :: es => AtSteps step s P es ∧ P (runOn step s es) e

@[simp] theorem runOn_nil : runOn step s [] = s := rfl

@[simp] theorem runOn_cons : runOn step s (e :: es) = step (runOn step s es) e := rfl

theorem runOn_append {es' : List ε} :
    runOn step s (es ++ es') = runOn step (runOn step s es') es := by
  induction es with
  | nil => rfl
  | cons e es ih => rw [List.cons_append, runOn_cons, runOn_cons, ih]

theorem runOn_induction {J : σ → Prop} (hs : J s) (hstep : ∀ s e, J s → J (step s e))
    (es : List ε) : J (runOn step s es) := by
  induction es with
  | nil => exact hs
  | cons e es ih => exact hstep _ e ih

theorem atSteps_of_invariant {J : σ → Prop} (hs : J s) (hstep : ∀ s e, J s → J (step s e))
    (h : ∀ s e, J s → P s e) (es : List ε) : AtSteps step s P es := by
  induction es with
  | nil => trivial
  | cons e es ih => exact ⟨ih, h _ e (runOn_induction hs hstep es)⟩

/-- At every step: whatever happened before it. -/
theorem atSteps_iff : AtSteps step s P es ↔ ∀ e pre, e :: pre <:+ es → P (runOn step s pre) e := by
  induction es with
  | nil => simp [AtSteps]
  | cons e es ih =>
    rw [AtSteps, ih]
    constructor
    · rintro ⟨hes, he⟩ e' pre hpre
      rcases List.suffix_cons_iff.mp hpre with heq | hsuf
      · cases heq
        exact he
      · exact hes e' pre hsuf
    · intro h
      exact ⟨fun e' pre hpre ↦ h e' pre (hpre.trans (List.suffix_cons e es)),
        h e es List.suffix_rfl⟩

theorem atSteps_congr (h : AtSteps step s (fun s e ↦ P s e ↔ Q s e) es) :
    AtSteps step s P es ↔ AtSteps step s Q es := by
  induction es with
  | nil => exact Iff.rfl
  | cons e es ih => exact and_congr (ih h.1) h.2

end BmoX.Base
