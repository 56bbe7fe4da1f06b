import BmoX.Base.Prog
import Mathlib.Logic.Function.Basic

/-!
# Programs that share a state

Several parties answer requests with programs over one state, and the calls of those programs
interleave in any order. `Role.Keeps` is what a program does while the others change the state
under it: the rely and the guarantee of one party. `System.invariant` puts the parties together.
-/

namespace BmoX.Base

/-! ### One program among others -/

/-- The part of one program: how its calls act on the state `μ`, which of them are allowed, what
the others may change and what it may change itself. The component `γ` is bookkeeping. -/
structure Role (I : Interface) (μ γ : Type) where
  handle : Prog.Handler I μ
  allowed : I.Op → μ → Prop
  rely : μ × γ → μ × γ → Prop
  guar : μ × γ → μ × γ → Prop
  refl : ∀ s, rely s s
  trans : ∀ {s t u}, rely s t → rely t u → rely s u

namespace Role

variable {I : Interface} {μ γ α β : Type} {r : Role I μ γ} {D D' : μ × γ → Prop}
  {s t : μ × γ}

/-- A program begun in `s`: `D` holds at its every point, each allowed call changes the state within
`guar` (with bookkeeping of the proof's choice), and its result meets `Q`. -/
def Keeps (r : Role I μ γ) (D : μ × γ → Prop) (Q : α → μ × γ → Prop) : Prog I α → μ × γ → Prop
  | .ret a, s => ∀ t, r.rely s t → D t ∧ Q a t
  | .call o k, s => ∀ t, r.rely s t → D t ∧ (r.allowed o t.1 →
      ∃ g, r.guar t ((r.handle o t.1).2, g) ∧
        Keeps r D Q (k (r.handle o t.1).1) ((r.handle o t.1).2, g))

/-- What the others may not change. -/
def Stable (r : Role I μ γ) (P : μ × γ → Prop) : Prop := ∀ s t, r.rely s t → P s → P t

theorem Keeps.stable {Q : α → μ × γ → Prop} {p : Prog I α} (h : r.Keeps D Q p s)
    (hr : r.rely s t) : r.Keeps D Q p t := by
  cases p with
  | ret a => exact fun u hu ↦ h u (r.trans hr hu)
  | call o k => exact fun u hu ↦ h u (r.trans hr hu)

theorem Keeps.now {Q : α → μ × γ → Prop} {p : Prog I α} (h : r.Keeps D Q p s) : D s := by
  cases p with
  | ret a => exact (h s (r.refl s)).1
  | call o k => exact (h s (r.refl s)).1

/-- The rule of consequence. -/
theorem Keeps.mono {Q Q' : α → μ × γ → Prop} {p : Prog I α} (h : r.Keeps D Q p s)
    (hD : ∀ s, D s → D' s) (hQ : ∀ a s, Q a s → Q' a s) : r.Keeps D' Q' p s := by
  induction p generalizing s with
  | ret a =>
    intro t ht
    obtain ⟨hd, hq⟩ := h t ht
    exact ⟨hD t hd, hQ a t hq⟩
  | call o k ih =>
    intro t ht
    obtain ⟨hd, hk⟩ := h t ht
    refine ⟨hD t hd, fun ha ↦ ?_⟩
    obtain ⟨g, hg, hp⟩ := hk ha
    exact ⟨g, hg, ih _ hp⟩

/-- The rule of sequencing. -/
theorem Keeps.bind {Q : β → μ × γ → Prop} {M : α → μ × γ → Prop} {p : Prog I α}
    {f : α → Prog I β} (h : r.Keeps D M p s) (hf : ∀ a s, M a s → r.Keeps D Q (f a) s) :
    r.Keeps D Q (p >>= f) s := by
  induction p generalizing s with
  | ret a => exact hf a s (h s (r.refl s)).2
  | call o k ih =>
    intro t ht
    obtain ⟨hd, hk⟩ := h t ht
    refine ⟨hd, fun ha ↦ ?_⟩
    obtain ⟨g, hg, hp⟩ := hk ha
    exact ⟨g, hg, ih _ hp⟩

/-- The rule of constancy: what neither the others nor the program itself can spoil stays. -/
theorem Keeps.frame {Q : α → μ × γ → Prop} {H : μ × γ → Prop} {p : Prog I α} (h : r.Keeps D Q p s)
    (hr : r.Stable H) (hg : ∀ s t, r.guar s t → H s → H t) (hs : H s) :
    r.Keeps (fun t ↦ D t ∧ H t) (fun a t ↦ Q a t ∧ H t) p s := by
  induction p generalizing s with
  | ret a =>
    intro t ht
    obtain ⟨hd, hq⟩ := h t ht
    have hH := hr s t ht hs
    exact ⟨⟨hd, hH⟩, hq, hH⟩
  | call o k ih =>
    intro t ht
    obtain ⟨hd, hk⟩ := h t ht
    have hH := hr s t ht hs
    refine ⟨⟨hd, hH⟩, fun ha ↦ ?_⟩
    obtain ⟨g, hgt, hp⟩ := hk ha
    exact ⟨g, hgt, ih _ hp (hg _ _ hgt hH)⟩

theorem Keeps.ret {Q : α → μ × γ → Prop} {P : μ × γ → Prop} {a : α} (hP : r.Stable P) (hs : P s)
    (h : ∀ s, P s → D s ∧ Q a s) : r.Keeps D Q (pure a) s :=
  fun t ht ↦ h t (hP s t ht hs)

/-- One call and what follows it, from a condition that the others cannot spoil. -/
theorem Keeps.call {Q : α → μ × γ → Prop} {P : μ × γ → Prop} {o : I.Op} {f : I.Res o → Prog I α}
    (hP : r.Stable P) (hs : P s) (hD : ∀ s, P s → D s)
    (h : ∀ s, P s → r.allowed o s.1 → ∃ g, r.guar s ((r.handle o s.1).2, g) ∧
      r.Keeps D Q (f (r.handle o s.1).1) ((r.handle o s.1).2, g)) :
    r.Keeps D Q (Prog.op o >>= f) s := by
  intro t ht
  have hp := hP s t ht hs
  exact ⟨hD t hp, h t hp⟩

end Role

/-! ### The parties together -/

/-- Parties that share a state: what each may be asked for, and the program that does it from the
party's private state to its next. -/
structure System (ι : Type) (I : Interface) (μ : Type) where
  Priv : ι → Type
  Call : ι → Type
  prog : ∀ i, Call i → Priv i → Prog I (Priv i)
  handle : ι → Prog.Handler I μ

namespace System

variable {ι : Type} [DecidableEq ι] {I : Interface} {μ γ : Type}

/-- The shared state, and for each party its private state and the request it is at. -/
structure Config (S : System ι I μ) where
  mem : μ
  priv : ∀ i, S.Priv i
  run : ∀ i, Option (S.Call i × Prog I (S.Priv i))

variable {S : System ι I μ}

namespace Config

/-- Nobody is at a request. -/
def start (m : μ) (p : ∀ i, S.Priv i) : S.Config := ⟨m, p, fun _ ↦ none⟩

/-- A party with nothing to do is asked for something. -/
def ask (s : S.Config) (i : ι) (c : S.Call i) : S.Config :=
  { s with run := Function.update s.run i (some (c, S.prog i c (s.priv i))) }

/-- A party makes a call. -/
def act (s : S.Config) (i : ι) (c : S.Call i) (o : I.Op) (k : I.Res o → Prog I (S.Priv i)) :
    S.Config :=
  { s with
    mem := (S.handle i o s.mem).2
    run := Function.update s.run i (some (c, k (S.handle i o s.mem).1)) }

/-- A party ends its request with a new private state. -/
def done (s : S.Config) (i : ι) (l : S.Priv i) : S.Config :=
  { s with priv := Function.update s.priv i l, run := Function.update s.run i none }

end Config

/-- One step of one party, within what `A` allows. -/
inductive Step (S : System ι I μ) (A : ι → I.Op → μ → Prop) : S.Config → S.Config → Prop
  | ask {s : S.Config} (i : ι) (c : S.Call i) : s.run i = none → Step S A s (s.ask i c)
  | act {s : S.Config} (i : ι) {c : S.Call i} {o : I.Op} {k : I.Res o → Prog I (S.Priv i)} :
    s.run i = some (c, .call o k) → A i o s.mem → Step S A s (s.act i c o k)
  | done {s : S.Config} (i : ι) {c : S.Call i} {l : S.Priv i} :
    s.run i = some (c, .ret l) → Step S A s (s.done i l)

/-- Any number of steps. -/
abbrev Steps (S : System ι I μ) (A : ι → I.Op → μ → Prop) : S.Config → S.Config → Prop :=
  Relation.ReflTransGen (Step S A)

/-- A run within what `A` allows is one within what allows more. -/
theorem Steps.mono {A B : ι → I.Op → μ → Prop} (hAB : ∀ i o m, A i o m → B i o m)
    {s t : S.Config} (h : S.Steps A s t) : S.Steps B s t := by
  refine Relation.ReflTransGen.mono (fun _ _ hst ↦ ?_) _ _ h
  cases hst with
  | ask i c hi => exact .ask i c hi
  | act i hi ha => exact .act i hi (hAB i _ _ ha)
  | done i hi => exact .done i hi

/-- Roles for the parties of a system that fit together: what one may do, the others put up with;
`idle` is what a party keeps between requests and `busy` what it keeps during one. -/
structure Roles (S : System ι I μ) (A : ι → I.Op → μ → Prop) (γ : Type) where
  role : ι → Role I μ γ
  idle : ∀ i, S.Priv i → μ × γ → Prop
  busy : ∀ i, S.Call i → S.Priv i → μ × γ → Prop
  handle_eq : ∀ i, (role i).handle = S.handle i
  allowed_eq : ∀ i, (role i).allowed = A i
  compat : ∀ {i j}, i ≠ j → ∀ {s t}, (role i).guar s t → (role j).rely s t
  stable : ∀ i l, (role i).Stable (idle i l)
  prog : ∀ i c l s, idle i l s → (role i).Keeps (busy i c l) (idle i) (S.prog i c l) s

/-- What a system with roles keeps of each party. -/
def Roles.Holds {A : ι → I.Op → μ → Prop} (R : S.Roles A γ) (s : S.Config) (g : γ) (i : ι) : Prop :=
  match s.run i with
  | none => R.idle i (s.priv i) (s.mem, g)
  | some (c, p) => (R.role i).Keeps (R.busy i c (s.priv i)) (R.idle i) p (s.mem, g)

/-- One step keeps what the roles say. -/
theorem Roles.step {A : ι → I.Op → μ → Prop} (R : S.Roles A γ) {s t : S.Config} {g : γ}
    (h : ∀ i, R.Holds s g i) (hst : Step S A s t) : ∃ g', ∀ i, R.Holds t g' i := by
  cases hst with
  | ask i c hi =>
    refine ⟨g, fun j ↦ ?_⟩
    have hj := h j
    unfold Roles.Holds at hj ⊢
    by_cases hji : j = i
    · subst hji
      rw [hi] at hj
      simpa only [Config.ask, Function.update_self] using R.prog j c _ _ hj
    · simpa only [Config.ask, Function.update_of_ne hji] using hj
  | @act i c o k hi ha =>
    have hown := h i
    simp only [Roles.Holds, hi] at hown
    rw [← R.allowed_eq] at ha
    obtain ⟨g', hg, hk⟩ := (hown _ ((R.role i).refl _)).2 ha
    refine ⟨g', fun j ↦ ?_⟩
    by_cases hji : j = i
    · subst hji
      simp only [Roles.Holds, Config.act, Function.update_self]
      simpa only [R.handle_eq] using hk
    · have hr := R.compat (Ne.symm hji) hg
      have hj := h j
      simp only [Roles.Holds, Config.act, Function.update_of_ne hji] at hj ⊢
      rw [R.handle_eq] at hr
      split at hj
      · exact R.stable j _ _ _ hr hj
      · exact hj.stable hr
  | @done i c l hi =>
    refine ⟨g, fun j ↦ ?_⟩
    have hj := h j
    unfold Roles.Holds at hj ⊢
    by_cases hji : j = i
    · subst hji
      rw [hi] at hj
      simpa only [Config.done, Function.update_self] using (hj _ ((R.role j).refl _)).2
    · simpa only [Config.done, Function.update_of_ne hji] using hj

/-- A system with roles keeps them in every state it reaches. -/
theorem Roles.invariant {A : ι → I.Op → μ → Prop} (R : S.Roles A γ) {s t : S.Config} {g : γ}
    (h : ∀ i, R.Holds s g i) (hst : S.Steps A s t) : ∃ g', ∀ i, R.Holds t g' i := by
  induction hst with
  | refl => exact ⟨g, h⟩
  | tail _ hstep ih =>
    obtain ⟨g', hg'⟩ := ih
    exact R.step hg' hstep

/-- A party that the others leave alone carries its program through. -/
theorem steps_of_safe (A : ι → I.Op → μ → Prop) {i : ι} {s : S.Config} {c : S.Call i}
    {p : Prog I (S.Priv i)} {Q : S.Priv i → μ → Prop} (hrun : s.run i = some (c, p))
    (h : Prog.Safe (Prog.Handler.env (S.handle i)) (A i) Q p s.mem) :
    ∃ l m, Q l m ∧
      S.Steps A s ⟨m, s.priv, Function.update s.run i (some (c, .ret l))⟩ := by
  induction p generalizing s with
  | ret l =>
    refine ⟨l, s.mem, h, ?_⟩
    rw [← hrun, Function.update_eq_self]
  | call o k ih =>
    obtain ⟨ha, hk⟩ := h
    have hown : (s.act i c o k).run i = some (c, k (S.handle i o s.mem).1) :=
      Function.update_self ..
    obtain ⟨l, m, hQ, hst⟩ := ih _ hown (hk _ _ rfl)
    refine ⟨l, m, hQ, .head (.act i hrun ha) ?_⟩
    simpa only [Config.act, Function.update_idem] using hst

/-! ### Schedules -/

/-- One entry of a schedule: a request, some calls, or the end of a request. -/
inductive Turn (S : System ι I μ)
  | ask (i : ι) (c : S.Call i)
  | act (i : ι) (n : Nat)
  | done (i : ι)

namespace Config

variable (A : ι → I.Op → μ → Prop) [∀ i o m, Decidable (A i o m)]

/-- A party makes `n` calls, if it has them to make and they are allowed. -/
def acts (i : ι) : Nat → S.Config → Option S.Config
  | 0, s => some s
  | n + 1, s =>
    match s.run i with
    | some (c, .call o k) => if A i o s.mem then acts i n (s.act i c o k) else none
    | _ => none

/-- One entry of a schedule, if it can be done. -/
def turn (s : S.Config) : Turn S → Option S.Config
  | .ask i c =>
    match s.run i with
    | none => some (s.ask i c)
    | some _ => none
  | .act i n => s.acts A i n
  | .done i =>
    match s.run i with
    | some (_, .ret l) => some (s.done i l)
    | _ => none

/-- A whole schedule. -/
def play (s : S.Config) : List (Turn S) → Option S.Config
  | [] => some s
  | t :: ts => (s.turn A t).bind fun s' ↦ s'.play ts

variable {A}

theorem steps_of_acts {i : ι} {n : Nat} {s t : S.Config} (h : s.acts A i n = some t) :
    S.Steps A s t := by
  induction n generalizing s with
  | zero =>
    cases h
    exact .refl
  | succ n ih =>
    rw [acts] at h
    split at h
    · next c o k hrun =>
      split at h
      · next ha => exact .head (.act i hrun ha) (ih h)
      · cases h
    · cases h

/-- A schedule that goes through is a run. -/
theorem steps_of_play {s t : S.Config} {ts : List (Turn S)} (h : s.play A ts = some t) :
    S.Steps A s t := by
  induction ts generalizing s with
  | nil =>
    cases h
    exact .refl
  | cons x ts ih =>
    rw [play] at h
    obtain ⟨u, hu, ht⟩ := Option.bind_eq_some_iff.mp h
    refine .trans ?_ (ih ht)
    cases x with
    | ask i c =>
      rw [turn] at hu
      split at hu
      · next hrun =>
        cases hu
        exact .single (.ask i c hrun)
      · cases hu
    | act i n => exact steps_of_acts hu
    | done i =>
      rw [turn] at hu
      split at hu
      · next hrun =>
        cases hu
        exact .single (.done i hrun)
      · cases hu

end Config

/-! ### Counting along a run -/

/-- The same parties, with a count that no program sees. -/
def counted (S : System ι I μ) (tick : I.Op → μ → γ → γ) : System ι I (μ × γ) :=
  { S with handle := fun i o s ↦ ((S.handle i o s.1).1, (S.handle i o s.1).2, tick o s.1 s.2) }

variable {tick : I.Op → μ → γ → γ}

def Config.count (s : S.Config) (g : γ) : (S.counted tick).Config := ⟨(s.mem, g), s.priv, s.run⟩

def Config.uncount (s : (S.counted tick).Config) : S.Config := ⟨s.mem.1, s.priv, s.run⟩

/-- What is allowed can be told from a count that goes with the state. -/
theorem steps_of_counted {A : ι → I.Op → μ → Prop} {B : ι → I.Op → μ × γ → Prop} {Q : μ × γ → Prop}
    (hQ : ∀ i o s, Q s → Q (((S.counted tick).handle i o s).2)) (hB : ∀ i o s, Q s → B i o s → A i o s.1)
    {s t : (S.counted tick).Config} (hs : Q s.mem) (h : (S.counted tick).Steps B s t) :
    Q t.mem ∧ S.Steps A s.uncount t.uncount := by
  induction h with
  | refl => exact ⟨hs, .refl⟩
  | tail _ hstep ih =>
    obtain ⟨hq, hst⟩ := ih
    cases hstep with
    | ask i c hrun => exact ⟨hq, hst.tail (Step.ask (S := S) i c hrun)⟩
    | act i hrun ha => exact ⟨hQ i _ _ hq, hst.tail (Step.act (S := S) i hrun (hB i _ _ hq ha))⟩
    | done i hrun => exact ⟨hq, hst.tail (Step.done (S := S) i hrun)⟩

end System

end BmoX.Base
