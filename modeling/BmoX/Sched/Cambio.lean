import BmoX.Sched.Scheduler
import Mathlib.Data.List.Nodup

/-!
# What a switch does

The three functions every operation goes through: `choose_next` picks the first of the ready tasks
of the highest priority, going round from the task that runs; `reap` empties slots of exited tasks
and touches no other; `schedule_locked` puts the two together.
-/

namespace BmoX.Sched.Scheduler

/-! ### The choice -/

/-- The slot `offset` places after the task that runs. -/
def en (s : Scheduler) (offset : Nat) : Fin maxTasks := Fin.ofNat maxTasks (s.current + offset)

/-- A slot competes for the CPU. -/
def Candidata (s : Scheduler) (i : Fin maxTasks) : Prop := some i ≠ s.idle ∧ s.estado i = .ready

/-- Every slot is on the wheel, once. -/
theorem exists_en (s : Scheduler) (i : Fin maxTasks) :
    ∃ o, 1 ≤ o ∧ o ≤ maxTasks ∧ s.en o = i := by
  have hi : (i : Nat) < 64 := i.isLt
  have hc : (s.current : Nat) < 64 := s.current.isLt
  refine ⟨((i : Nat) + 63 - s.current) % 64 + 1, by omega, ?_, ?_⟩
  · show ((i : Nat) + 63 - s.current) % 64 + 1 ≤ 64
    omega
  · apply Fin.ext
    show ((s.current : Nat) + (((i : Nat) + 63 - s.current) % 64 + 1)) % 64 = i
    omega

/-- What the loop of `choose_next` holds after `n` slots: the first of the candidates seen that
have the highest priority among them. -/
private def Mejor (s : Scheduler) (n : Nat) : Option (Fin maxTasks) × UInt8 → Prop
  | (none, _) => ∀ o, 1 ≤ o → o ≤ n → ¬ s.Candidata (s.en o)
  | (some i, p) => p = (s.tasks i).priority ∧ s.Candidata i ∧ ∃ o, 1 ≤ o ∧ o ≤ n ∧ s.en o = i ∧
      ∀ o', 1 ≤ o' → o' ≤ n → s.Candidata (s.en o') →
        (s.tasks (s.en o')).priority ≤ p ∧ (o' < o → (s.tasks (s.en o')).priority < p)

private theorem mejor_compara {s : Scheduler} {n : Nat} {r : Option (Fin maxTasks) × UInt8}
    (h : s.Mejor n r) : s.Mejor (n + 1) (s.compara r (s.en (n + 1))) := by
  rw [compara]
  split
  · next hidle =>
    -- the idle task stands aside
    have hno : ¬ s.Candidata (s.en (n + 1)) := fun hc ↦ hc.1 hidle
    rcases r with ⟨_ | i, p⟩
    · intro o ho hn
      rcases Nat.lt_or_ge n o with ho' | ho'
      · rw [show o = n + 1 by omega]
        exact hno
      · exact h o ho ho'
    · obtain ⟨hp, hc, o, ho, hon, hi, hmax⟩ := h
      refine ⟨hp, hc, o, ho, by omega, hi, fun o' ho' hn hc' ↦ ?_⟩
      rcases Nat.lt_or_ge n o' with hlt | hge
      · rw [show o' = n + 1 by omega] at hc'
        exact absurd hc' hno
      · exact hmax o' ho' hge hc'
  · next hidle =>
    split
    · next hready =>
      -- the slot takes the lead
      refine ⟨rfl, ⟨hidle, hready.1⟩, n + 1, by omega, le_refl _, rfl, fun o' ho' hn hc' ↦ ?_⟩
      rcases Nat.lt_or_ge n o' with hlt | hge
      · rw [show o' = n + 1 by omega]
        exact ⟨UInt8.le_refl _, fun h ↦ absurd h (Nat.lt_irrefl _)⟩
      · rcases r with ⟨_ | i, p⟩
        · exact absurd hc' (h o' ho' hge)
        · obtain ⟨hp, -, o, -, -, -, hmax⟩ := h
          have hgt : (s.tasks (s.en (n + 1))).priority > p := by
            rcases hready.2 with h | h
            · cases h
            · exact h
          have hlt := UInt8.lt_of_le_of_lt (hmax o' ho' hge hc').1 hgt
          exact ⟨UInt8.le_of_lt hlt, fun _ ↦ hlt⟩
    · next hready =>
      -- the lead stays
      rcases r with ⟨_ | i, p⟩
      · intro o ho hn hc
        rcases Nat.lt_or_ge n o with ho' | ho'
        · rw [show o = n + 1 by omega] at hc
          exact hready ⟨hc.2, .inl rfl⟩
        · exact h o ho ho' hc
      · obtain ⟨hp, hc, o, ho, hon, hi, hmax⟩ := h
        refine ⟨hp, hc, o, ho, by omega, hi, fun o' ho' hn hc' ↦ ?_⟩
        rcases Nat.lt_or_ge n o' with hlt | hge
        · rw [show o' = n + 1 by omega] at hc' ⊢
          refine ⟨UInt8.not_lt.mp fun hgt ↦ hready ⟨hc'.2, .inr hgt⟩, fun h ↦ ?_⟩
          omega
        · exact hmax o' ho' hge hc'

private theorem mejor_foldl (s : Scheduler) (n : Nat) :
    s.Mejor n (((List.range' 1 n).map s.en).foldl s.compara (none, 0)) := by
  induction n with
  | zero => exact fun o ho hn ↦ by omega
  | succ n ih =>
    rw [List.range'_concat, Nat.one_mul, List.map_append, List.foldl_append, List.map_cons,
      List.map_nil, List.foldl_cons, List.foldl_nil, Nat.add_comm 1 n]
    exact mejor_compara ih

/-- What `choose_next` answers: the first candidate of the highest priority on the wheel, or, where
there is none, the idle task if it is ready. -/
theorem chooseNext_cases (s : Scheduler) :
    (s.Candidata s.chooseNext ∧ ∃ o, 1 ≤ o ∧ o ≤ maxTasks ∧ s.en o = s.chooseNext ∧
      ∀ o', 1 ≤ o' → o' ≤ maxTasks → s.Candidata (s.en o') →
        (s.tasks (s.en o')).priority ≤ (s.tasks s.chooseNext).priority ∧
        (o' < o → (s.tasks (s.en o')).priority < (s.tasks s.chooseNext).priority)) ∨
    ((∀ i, ¬ s.Candidata i) ∧ ∀ k, s.idle = some k → s.estado k = .ready →
      s.chooseNext = k) := by
  have h := s.mejor_foldl maxTasks
  rw [chooseNext]
  have hrueda : s.rueda = (List.range' 1 maxTasks).map s.en := rfl
  rw [hrueda]
  generalize ((List.range' 1 maxTasks).map s.en).foldl s.compara (none, 0) = r at h
  rcases r with ⟨_ | i, p⟩
  · refine .inr ⟨fun i hc ↦ ?_, fun k hk hready ↦ ?_⟩
    · obtain ⟨o, ho, hn, rfl⟩ := s.exists_en i
      exact h o ho hn hc
    · simp only [hk]
      rw [if_pos hready]
  · obtain ⟨rfl, hc, o, ho, hon, hi, hmax⟩ := h
    exact .inl ⟨hc, o, ho, hon, hi, hmax⟩

/-! ### Recycling -/

/-- Slots were emptied: those recycled, which held exited tasks other than the one that runs; the
rest is as it was. -/
structure Barre (s : Scheduler) (m : Maquina) (r : List Recogida × Scheduler) : Prop where
  resto : r.2 = { s with tasks := r.2.tasks }
  ranuras : (r.1.map Recogida.ranura).Nodup
  marcos : ∀ x ∈ r.1, x.marcos = (s.tasks x.ranura).pila
  vacia : ∀ i ∈ r.1.map Recogida.ranura, r.2.tasks i = Task.empty ∧ s.estado i = .exited ∧
    (s.tasks i).tid ≠ (s.tasks s.current).tid ∧ (s.tasks i).pisa m.rsp = false
  queda : ∀ i, i ∉ r.1.map Recogida.ranura → r.2.tasks i = s.tasks i

private theorem barre_reapUna {s : Scheduler} {m : Maquina} {r : List Recogida × Scheduler}
    (h : Barre s m r) {i : Fin maxTasks} (hi : i ∉ r.1.map Recogida.ranura) :
    Barre s m (reapUna m (s.tasks s.current).tid r i) ∧
      ∀ j ∈ (reapUna m (s.tasks s.current).tid r i).1.map Recogida.ranura,
        j ∈ r.1.map Recogida.ranura ∨ j = i := by
  have htask := h.queda i hi
  rw [reapUna]
  dsimp only
  split
  · exact ⟨h, fun j hj ↦ .inl hj⟩
  · next hvive =>
    split
    · exact ⟨h, fun j hj ↦ .inl hj⟩
    · next hpisa =>
      rw [htask] at hvive hpisa ⊢
      rw [not_or, not_not] at hvive
      have hmap : ∀ e, (r.1 ++ [(⟨i, (s.tasks i).pila, e⟩ : Recogida)]).map Recogida.ranura =
          r.1.map Recogida.ranura ++ [i] := fun e ↦ by
        rw [List.map_append, List.map_singleton]
      refine ⟨⟨?_, ?_, fun x hx ↦ ?_, fun j hj ↦ ?_, fun j hj ↦ ?_⟩, fun j hj ↦ ?_⟩
      · dsimp only [pon]
        rw [h.resto]
      · rw [hmap]
        exact List.Nodup.append h.ranuras (List.nodup_singleton i) fun j hj hj' ↦
          hi (List.mem_singleton.mp hj' ▸ hj)
      · rcases List.mem_append.mp hx with hx | hx
        · exact h.marcos x hx
        · rw [List.mem_singleton.mp hx]
      · rw [hmap] at hj
        dsimp only [pon]
        rcases List.mem_append.mp hj with hj | hj
        · have hne : j ≠ i := fun he ↦ hi (he ▸ hj)
          rw [Function.update_of_ne hne]
          exact h.vacia j hj
        · rw [List.mem_singleton.mp hj, Function.update_self]
          exact ⟨rfl, hvive.1, hvive.2, Bool.not_eq_true _ ▸ hpisa⟩
      · rw [hmap, List.mem_append, not_or, List.mem_singleton] at hj
        dsimp only [pon]
        rw [Function.update_of_ne hj.2]
        exact h.queda j hj.1
      · rw [hmap, List.mem_append, List.mem_singleton] at hj
        exact hj

private theorem barre_foldl {s : Scheduler} {m : Maquina} {l : List (Fin maxTasks)}
    (hl : l.Nodup) {r : List Recogida × Scheduler} (h : Barre s m r)
    (hno : ∀ i ∈ l, i ∉ r.1.map Recogida.ranura) :
    Barre s m (l.foldl (reapUna m (s.tasks s.current).tid) r) := by
  induction l generalizing r with
  | nil => exact h
  | cons i l ih =>
    obtain ⟨hil, hl⟩ := List.nodup_cons.mp hl
    obtain ⟨h', hmem⟩ := barre_reapUna h (hno i (.head _))
    refine ih hl h' fun j hj hj' ↦ ?_
    rcases hmem j hj' with hold | rfl
    · exact hno j (.tail _ hj) hold
    · exact hil hj

theorem barre_reap (s : Scheduler) (m : Maquina) : Barre s m (s.reap m) := by
  refine barre_foldl (List.nodup_finRange maxTasks)
    ⟨rfl, List.nodup_nil, fun _ h ↦ ?_, fun _ h ↦ ?_, fun _ _ ↦ rfl⟩ fun _ _ ↦ List.not_mem_nil
  · exact absurd h List.not_mem_nil
  · exact absurd h List.not_mem_nil

/-! ### The switch -/

/-- The state in which `choose_next` runs: the task that was running competes. -/
def compite (s : Scheduler) : Scheduler :=
  if s.estado s.current = .running then s.ponEstado s.current .ready else s

/-- `schedule_locked`, by what it decides: the task stays, the switch is not possible, or the
switch happens. -/
theorem scheduleLocked_cases (s : Scheduler) (m : Maquina) (sal : Saliente) :
    (s.compite.chooseNext = s.compite.current ∧
      s.scheduleLocked m sal =
        let t := if s.compite.estado s.compite.current = .ready then
          s.compite.ponEstado s.compite.current .running else s.compite
        ⟨(t.reap m).2, some t.current, (t.reap m).1, none⟩) ∨
    (s.compite.chooseNext ≠ s.compite.current ∧
      (s.compite.tasks s.compite.chooseNext).contextRsp = 0 ∧
      (s.scheduleLocked m sal).elegida = none) ∨
    (s.compite.chooseNext ≠ s.compite.current ∧
      (s.compite.tasks s.compite.chooseNext).contextRsp ≠ 0 ∧
      s.scheduleLocked m sal =
        let t := s.compite.cambia m sal s.compite.chooseNext
        ⟨(t.reap m).2, some s.compite.chooseNext, (t.reap m).1, none⟩) := by
  rw [scheduleLocked]
  dsimp only
  rw [show (if s.estado s.current = .running then s.ponEstado s.current .ready else s) =
    s.compite from rfl]
  generalize s.compite = c
  split
  · next h =>
    refine .inl ⟨h, ?_⟩
    rw [h]
    have hcur : (if c.estado c.current = .ready then c.ponEstado c.current .running else c).current
        = c.current := by
      split <;> rfl
    rw [hcur]
  · next h =>
    split
    · next h0 => exact .inr (.inl ⟨h, h0, rfl⟩)
    · next h0 => exact .inr (.inr ⟨h, h0, rfl⟩)

end BmoX.Sched.Scheduler
