import Mathlib.Algebra.BigOperators.Group.List.Basic
import Mathlib.Algebra.Order.Ring.Int
import Mathlib.Logic.Relation
import Mathlib.Tactic.Common

/-!
# Programs over an interface

A program that talks to its surroundings is a tree of calls: each call waits for an answer and
goes on with it. The surroundings are a relation, so that one program is studied both where
every call does its work and where any of them may fail. `Safe` is the weakest precondition of
a guard on every call and a condition on the result.
-/

namespace BmoX.Base

/-- The calls a program can make and what each of them answers. -/
structure Interface where
  Op : Type
  Res : Op → Type

/-- A program: a result, or a call and what follows each answer. -/
inductive Prog (I : Interface) (α : Type) : Type
  | ret (a : α)
  | call (o : I.Op) (k : I.Res o → Prog I α)

namespace Prog

variable {I : Interface} {α β ε σ : Type}

/-- Run one program and then another on its result. -/
protected def bind : Prog I α → (α → Prog I β) → Prog I β
  | ret a, f => f a
  | call o k, f => call o fun r ↦ (k r).bind f

instance : Monad (Prog I) where
  pure := ret
  bind := Prog.bind

/-- Make one call. -/
def op (o : I.Op) : Prog I (I.Res o) := call o ret

private theorem bind_ret (p : Prog I α) : (p >>= ret) = p := by
  induction p with
  | ret a => rfl
  | call o k ih => exact congrArg (call o) (funext ih)

private theorem bind_bind {γ : Type} (p : Prog I α) (f : α → Prog I β) (g : β → Prog I γ) :
    (p >>= f >>= g) = (p >>= fun a ↦ f a >>= g) := by
  induction p with
  | ret a => rfl
  | call o k ih => exact congrArg (call o) (funext ih)

instance : LawfulMonad (Prog I) :=
  LawfulMonad.mk' (Prog I) bind_ret (fun _ _ ↦ rfl) bind_bind

/-! ### Surroundings that decide every answer -/

/-- Surroundings that answer every call in one way. -/
abbrev Handler (I : Interface) (σ : Type) := (o : I.Op) → σ → I.Res o × σ

/-- The result of a program and the state it leaves. -/
def exec (h : Handler I σ) : Prog I α → σ → α × σ
  | ret a, s => (a, s)
  | call o k, s => exec h (k (h o s).1) (h o s).2

@[simp] theorem exec_ret (h : Handler I σ) (a : α) (s : σ) : exec h (ret a) s = (a, s) := rfl

@[simp] theorem exec_pure (h : Handler I σ) (a : α) (s : σ) : exec h (pure a) s = (a, s) := rfl

@[simp] theorem exec_call (h : Handler I σ) (o : I.Op) (k : I.Res o → Prog I α) (s : σ) :
    exec h (call o k) s = exec h (k (h o s).1) (h o s).2 := rfl

@[simp] theorem exec_op (h : Handler I σ) (o : I.Op) (s : σ) : exec h (op o) s = h o s := rfl

@[simp] theorem exec_bind (h : Handler I σ) (p : Prog I α) (f : α → Prog I β) (s : σ) :
    exec h (p >>= f) s = exec h (f (exec h p s).1) (exec h p s).2 := by
  induction p generalizing s with
  | ret a => rfl
  | call o k ih => exact ih _ _

/-- A program that may stop with an error goes on only where its first part did not stop. -/
theorem exec_run_bind (h : Handler I σ) (x : ExceptT ε (Prog I) α)
    (f : α → ExceptT ε (Prog I) β) (s : σ) :
    exec h (x >>= f).run s =
      match exec h x.run s with
      | (.ok a, s') => exec h (f a).run s'
      | (.error e, s') => (.error e, s') := by
  rw [ExceptT.run_bind, exec_bind]
  cases hx : exec h x.run s with
  | mk r s' => cases r <;> rfl

theorem exec_lift_bind (h : Handler I σ) (p : Prog I α) (f : α → ExceptT ε (Prog I) β) (s : σ) :
    exec h (liftM p >>= f : ExceptT ε (Prog I) β).run s =
      exec h (f (exec h p s).1).run (exec h p s).2 := by
  have hlift : (liftM p : ExceptT ε (Prog I) α) = ExceptT.lift p := rfl
  rw [hlift, ExceptT.run_bind_lift, exec_bind]

@[simp] theorem exec_run_pure (h : Handler I σ) (a : α) (s : σ) :
    exec h (pure a : ExceptT ε (Prog I) α).run s = (.ok a, s) := rfl

@[simp] theorem exec_run_throw (h : Handler I σ) (e : ε) (s : σ) :
    exec h (throw e : ExceptT ε (Prog I) α).run s = (.error e, s) := rfl

/-! ### Surroundings that choose -/

/-- Surroundings: `E o s r s'` when the call `o` in state `s` can answer `r` and leave `s'`. -/
abbrev Env (I : Interface) (σ : Type) := (o : I.Op) → σ → I.Res o → σ → Prop

/-- The surroundings that answer as a handler does. -/
def Handler.env (h : Handler I σ) : Env I σ := fun o s r s' ↦ h o s = (r, s')

/-- The calls of a program meet `G` in the state they are made in, and its result meets `Q`. -/
def Safe (E : Env I σ) (G : I.Op → σ → Prop) (Q : α → σ → Prop) : Prog I α → σ → Prop
  | ret a, s => Q a s
  | call o k, s => G o s ∧ ∀ r s', E o s r s' → Safe E G Q (k r) s'

section Rules

variable {E E' : Env I σ} {G G' : I.Op → σ → Prop} {s : σ}

@[simp] theorem safe_ret {Q : α → σ → Prop} {a : α} : Safe E G Q (ret a) s ↔ Q a s := Iff.rfl

@[simp] theorem safe_pure {Q : α → σ → Prop} {a : α} : Safe E G Q (pure a) s ↔ Q a s := Iff.rfl

@[simp] theorem safe_call {Q : α → σ → Prop} {o : I.Op} {k : I.Res o → Prog I α} :
    Safe E G Q (call o k) s ↔ G o s ∧ ∀ r s', E o s r s' → Safe E G Q (k r) s' := Iff.rfl

@[simp] theorem safe_op {o : I.Op} {Q : I.Res o → σ → Prop} :
    Safe E G Q (op o) s ↔ G o s ∧ ∀ r s', E o s r s' → Q r s' := Iff.rfl

@[simp] theorem safe_bind {p : Prog I α} {f : α → Prog I β} {Q : β → σ → Prop} :
    Safe E G Q (p >>= f) s ↔ Safe E G (fun a ↦ Safe E G Q (f a)) p s := by
  induction p generalizing s with
  | ret a => exact Iff.rfl
  | call o k ih => exact and_congr Iff.rfl (forall₃_congr fun r s' _ ↦ ih r)

theorem Safe.mono {p : Prog I α} {Q Q' : α → σ → Prop} (h : Safe E G Q p s)
    (hE : ∀ o s r s', E' o s r s' → E o s r s') (hG : ∀ o s, G o s → G' o s)
    (hQ : ∀ a s, Q a s → Q' a s) : Safe E' G' Q' p s := by
  induction p generalizing s with
  | ret a => exact hQ a s h
  | call o k ih => exact ⟨hG o s h.1, fun r s' hr ↦ ih r (h.2 r s' (hE o s r s' hr))⟩

theorem Safe.post {p : Prog I α} {Q Q' : α → σ → Prop} (h : Safe E G Q p s)
    (hQ : ∀ a s, Q a s → Q' a s) : Safe E G Q' p s :=
  h.mono (fun _ _ _ _ ↦ id) (fun _ _ ↦ id) hQ

theorem safe_true (p : Prog I α) : Safe E (fun _ _ ↦ True) (fun _ _ ↦ True) p s := by
  induction p generalizing s with
  | ret a => trivial
  | call o k ih => exact ⟨trivial, fun r s' _ ↦ ih r⟩

/-- The rule of sequencing, for a program that may stop with an error. -/
theorem Safe.tryBind {x : ExceptT ε (Prog I) α} {f : α → ExceptT ε (Prog I) β}
    {R : Except ε α → σ → Prop} {Q : Except ε β → σ → Prop} (hx : Safe E G R x.run s)
    (hok : ∀ a s', R (.ok a) s' → Safe E G Q (f a).run s')
    (herr : ∀ e s', R (.error e) s' → Q (.error e) s') : Safe E G Q (x >>= f).run s := by
  rw [ExceptT.run_bind, safe_bind]
  refine hx.post fun r s' hr ↦ ?_
  cases r with
  | ok a => exact hok a s' hr
  | error e => exact herr e s' hr

/-- A call made by a program that may stop with an error. -/
@[simp] theorem safe_lift_bind {p : Prog I α} {f : α → ExceptT ε (Prog I) β}
    {Q : Except ε β → σ → Prop} :
    Safe E G Q (liftM p >>= f : ExceptT ε (Prog I) β).run s ↔
      Safe E G (fun a ↦ Safe E G Q (f a).run) p s := by
  have hlift : (liftM p : ExceptT ε (Prog I) α) = ExceptT.lift p := rfl
  rw [hlift, ExceptT.run_bind_lift, safe_bind]

@[simp] theorem safe_run_pure {a : α} {Q : Except ε α → σ → Prop} :
    Safe E G Q (pure a : ExceptT ε (Prog I) α).run s ↔ Q (.ok a) s := Iff.rfl

@[simp] theorem safe_run_throw {e : ε} {Q : Except ε α → σ → Prop} :
    Safe E G Q (throw e : ExceptT ε (Prog I) α).run s ↔ Q (.error e) s := Iff.rfl

end Rules

/-! ### Programs that only make some calls -/

/-- Every call of the program, whatever the answers, is one of `P`. -/
def Calls (P : I.Op → Prop) : Prog I α → Prop
  | ret _ => True
  | call o k => P o ∧ ∀ r, Calls P (k r)

section Calls

variable {P : I.Op → Prop}

@[simp] theorem calls_pure {a : α} : Calls P (pure a : Prog I α) ↔ True := Iff.rfl

@[simp] theorem calls_op {o : I.Op} : Calls P (op o) ↔ P o := and_iff_left fun _ ↦ trivial

@[simp] theorem calls_run_pure {a : α} :
    Calls P (pure a : ExceptT ε (Prog I) α).run ↔ True := Iff.rfl

@[simp] theorem calls_run_throw {e : ε} :
    Calls P (throw e : ExceptT ε (Prog I) α).run ↔ True := Iff.rfl

theorem Calls.bind {p : Prog I α} {f : α → Prog I β} (hp : Calls P p) (hf : ∀ a, Calls P (f a)) :
    Calls P (p >>= f) := by
  induction p with
  | ret a => exact hf a
  | call o k ih => exact ⟨hp.1, fun r ↦ ih r (hp.2 r)⟩

/-- So does one that may stop with an error. -/
theorem Calls.tryBind {x : ExceptT ε (Prog I) α} {f : α → ExceptT ε (Prog I) β}
    (hx : Calls P x.run) (hf : ∀ a, Calls P (f a).run) : Calls P (x >>= f).run := by
  rw [ExceptT.run_bind]
  apply hx.bind
  intro r
  cases r with
  | ok a => exact hf a
  | error e => trivial

theorem Calls.liftBind {p : Prog I α} {f : α → ExceptT ε (Prog I) β} (hp : Calls P p)
    (hf : ∀ a, Calls P (f a).run) : Calls P (liftM p >>= f : ExceptT ε (Prog I) β).run := by
  have hlift : (liftM p : ExceptT ε (Prog I) α) = ExceptT.lift p := rfl
  rw [hlift, ExceptT.run_bind_lift]
  exact hp.bind hf

theorem Calls.adapt {ε' : Type} {x : ExceptT ε (Prog I) α} {f : ε → ε'} (hx : Calls P x.run) :
    Calls P (x.adapt f).run := by
  have hadapt : (x.adapt f).run = x.run >>= fun r ↦ pure (r.mapError f) :=
    map_eq_pure_bind (Except.mapError f) x.run
  rw [hadapt]
  exact hx.bind fun _ ↦ trivial

/-- What every one of its calls keeps, a program keeps. -/
theorem Calls.safe {E : Env I σ} {J : σ → Prop} {p : Prog I α} {s : σ} (h : Calls P p)
    (hE : ∀ o s r s', P o → E o s r s' → J s → J s') (hs : J s) :
    Safe E (fun _ _ ↦ True) (fun _ ↦ J) p s := by
  induction p generalizing s with
  | ret a => exact hs
  | call o k ih => exact ⟨trivial, fun r s' hr ↦ ih r (h.2 r) (hE o s r s' h.1 hr hs)⟩

end Calls

/-- One call answered. -/
inductive Step (E : Env I σ) : Prog I α × σ → Prog I α × σ → Prop
  | call {o : I.Op} {k : I.Res o → Prog I α} {s s' : σ} {r : I.Res o} :
    E o s r s' → Step E (.call o k, s) (k r, s')

/-- Any number of calls answered. -/
abbrev Runs (E : Env I σ) : Prog I α × σ → Prog I α × σ → Prop := Relation.ReflTransGen (Step E)

/-- What a run that stops here shows: its guard before a call, its condition at the end. -/
def Shows (G : I.Op → σ → Prop) (Q : α → σ → Prop) : Prog I α × σ → Prop
  | (ret a, s) => Q a s
  | (call o _, s) => G o s

section Runs

variable {E : Env I σ} {G : I.Op → σ → Prop} {Q : α → σ → Prop}

theorem Safe.step {c c' : Prog I α × σ} (h : Safe E G Q c.1 c.2) (hs : Step E c c') :
    Safe E G Q c'.1 c'.2 := by
  cases hs with
  | call hr => exact h.2 _ _ hr

theorem Safe.runs {c c' : Prog I α × σ} (h : Safe E G Q c.1 c.2) (hs : Runs E c c') :
    Safe E G Q c'.1 c'.2 := by
  induction hs with
  | refl => exact h
  | tail _ hstep ih => exact ih.step hstep

/-- Safety is what every run shows wherever it stops. -/
theorem safe_iff {p : Prog I α} {s : σ} :
    Safe E G Q p s ↔ ∀ c, Runs E (p, s) c → Shows G Q c := by
  constructor
  · intro h c hc
    have h' := Safe.runs (c := (p, s)) h hc
    obtain ⟨p', s'⟩ := c
    cases p' with
    | ret a => exact h'
    | call o k => exact h'.1
  · intro h
    induction p generalizing s with
    | ret a => exact h _ .refl
    | call o k ih =>
      exact ⟨h _ .refl, fun r s' hr ↦ ih r fun c hc ↦ h c (.head (.call hr) hc)⟩

end Runs

/-- Under a handler a program has one run, and it ends. -/
theorem safe_env_iff {h : Handler I σ} {Q : α → σ → Prop} {p : Prog I α} {s : σ} :
    Safe h.env (fun _ _ ↦ True) Q p s ↔ Q (exec h p s).1 (exec h p s).2 := by
  induction p generalizing s with
  | ret a => exact Iff.rfl
  | call o k ih =>
    constructor
    · exact fun hs ↦ (ih _).mp (hs.2 _ _ rfl)
    · intro hQ
      refine ⟨trivial, fun r s' hr ↦ ?_⟩
      have hr : h o s = (r, s') := hr
      rw [exec_call, hr] at hQ
      exact (ih r).mpr hQ

theorem runs_exec {E : Env I σ} {h : Handler I σ} (hE : ∀ o s, E o s (h o s).1 (h o s).2)
    (p : Prog I α) (s : σ) : Runs E (p, s) (ret (exec h p s).1, (exec h p s).2) := by
  induction p generalizing s with
  | ret a => exact .refl
  | call o k ih => exact .head (.call (hE o s)) (ih _ _)

end Prog

end BmoX.Base
