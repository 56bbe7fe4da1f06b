import BmoX.Sched.Censo

/-!
# The wheel

Taking turns in `kernel/src/ring0/task/scheduler/roja.rs`. Nothing remembers whose turn it was:
`choose_next` starts at the slot of the task that runs. So a task waits for one turn of each of its
equals, unless a task of higher priority gets the CPU from a slot between the two.
-/

namespace BmoX.Sched

namespace Scheduler

/-- Slots from `i` round to `j`. -/
def vueltas (i j : Fin maxTasks) : Nat := (j + maxTasks - i) % maxTasks

/-- Going round from `i`, the slot `k` comes after it and before `j`. -/
def Entre (i k j : Fin maxTasks) : Prop := 0 < vueltas i k ∧ vueltas i k < vueltas i j

/-- `b` may compete, and whoever has the CPU from a slot after `b` and before `a` has no higher
priority than `b`. -/
def SinAdelanto (a b : Fin maxTasks) (s : Scheduler) : Prop :=
  some b ≠ s.idle ∧ (Entre b s.current a → (s.tasks s.current).priority ≤ (s.tasks b).priority)

end Scheduler

/-- The task of `a` was selected, and since then that of `b` has been ready and neither has been
selected; `C` held before each operation since. -/
inductive Espera (C : Scheduler → Prop) (a b : Fin maxTasks) : Censo → Prop
  | elegida {c : Censo} (o : Operacion) (h : Corre (fun _ _ ↦ True) c)
      (ha : (c.sched.opera o).elegida = some a) (hb : (c.paso o).sched.estado b = .ready) :
      Espera C a b (c.paso o)
  | paso {c : Censo} (o : Operacion) (h : Espera C a b c) (hc : C c.sched)
      (ha : (c.sched.opera o).elegida ≠ some a) (hb : (c.sched.opera o).elegida ≠ some b)
      (hcuna : (c.paso o).cuna a = c.cuna a ∧ (c.paso o).cuna b = c.cuna b)
      (hready : (c.paso o).sched.estado b = .ready) : Espera C a b (c.paso o)

namespace Scheduler

/-! ### The order of the wheel -/

private theorem en_vueltas {s : Scheduler} {o : Nat} (ho : 1 ≤ o) (hn : o ≤ maxTasks) :
    (s.en o = s.current → o = maxTasks) ∧
      (s.en o ≠ s.current → o = vueltas s.current (s.en o)) := by
  have hc : (s.current : Nat) < 64 := s.current.isLt
  have hn : o ≤ 64 := hn
  constructor
  · intro h
    have h : ((s.current : Nat) + o) % 64 = s.current := Fin.val_eq_of_eq h
    show o = 64
    omega
  · intro h
    have h : ((s.current : Nat) + o) % 64 ≠ s.current := fun he ↦ h (Fin.ext he)
    show o = (((s.current : Nat) + o) % 64 + 64 - s.current) % 64
    omega

/-- A candidate that comes first, going round from the task that runs, has a lower priority than
the one chosen. -/
private theorem chooseNext_primero {s : Scheduler} {j : Fin maxTasks} (hj : s.Candidata j)
    (hcur : j ≠ s.current) (hlt : s.chooseNext = s.current ∨
      vueltas s.current j < vueltas s.current s.chooseNext) :
    (s.tasks j).priority < (s.tasks s.chooseNext).priority := by
  rcases s.chooseNext_cases with ⟨-, o, ho, hon, hen, hmax⟩ | ⟨hno, -⟩
  · obtain ⟨o', ho', hon', rfl⟩ := s.exists_en j
    refine (hmax o' ho' hon' hj).2 ?_
    have hj' := (en_vueltas ho' hon').2 hcur
    have hn := @en_vueltas s o ho hon
    rw [hen] at hn
    have h64 : vueltas s.current (s.en o') < maxTasks := Nat.mod_lt _ (by decide)
    by_cases hc : s.chooseNext = s.current
    · rw [hn.1 hc]
      omega
    · have hn := hn.2 hc
      rcases hlt with hlt | hlt
      · exact absurd hlt hc
      · omega
  · exact absurd hj (hno j)

/-! ### One operation -/

/-- What is done before the next task is chosen: a ready task stays so, unless it is the one that
runs. -/
structure Previo (s t : Scheduler) : Prop where
  current : t.current = s.current
  idle : t.idle = s.idle
  priority : ∀ i, (t.tasks i).priority = (s.tasks i).priority
  ready : ∀ i, i ≠ s.current → s.estado i = .ready → t.estado i = .ready

theorem Previo.refl (s : Scheduler) : Previo s s := ⟨rfl, rfl, fun _ ↦ rfl, fun _ _ h ↦ h⟩

theorem Previo.trans {s t u : Scheduler} (h : Previo s t) (h' : Previo t u) : Previo s u where
  current := h'.current.trans h.current
  idle := h'.idle.trans h.idle
  priority i := (h'.priority i).trans (h.priority i)
  ready i hi hr := h'.ready i (h.current ▸ hi) (h.ready i hi hr)

private theorem previo_pon {s : Scheduler} {t : Task}
    (h : t.priority = (s.tasks s.current).priority) : Previo s (s.pon s.current t) where
  current := rfl
  idle := rfl
  priority i := by
    rw [pon_tasks]
    split
    · next hi => rw [hi, h]
    · rfl
  ready i hi hr := by
    rw [estado_pon, if_neg hi]
    exact hr

private theorem previo_todas {s : Scheduler} {f : Task → Task}
    (hp : ∀ t, (f t).priority = t.priority) (hr : ∀ t, t.state = .ready → (f t).state = .ready) :
    Previo s { s with tasks := fun i ↦ f (s.tasks i) } where
  current := rfl
  idle := rfl
  priority i := hp (s.tasks i)
  ready i _ h := hr (s.tasks i) h

private theorem previo_markYield (s : Scheduler) : Previo s s.markYield := by
  rw [markYield]
  split
  · exact previo_pon rfl
  · exact Previo.refl s

private theorem previo_markExit (s : Scheduler) : Previo s s.markExit := by
  rw [markExit]
  split
  · exact previo_pon rfl
  · exact Previo.refl s

private theorem previo_markWait (s : Scheduler) (key deadline : UInt64) :
    Previo s (s.markWait key deadline) := by
  rw [markWait]
  split
  · exact previo_pon rfl
  · exact Previo.refl s

private theorem previo_compite (s : Scheduler) : Previo s s.compite := s.previo_markYield

private theorem previo_onTimer (s : Scheduler) (now : UInt64) :
    Previo s { s with tasks := fun i ↦ vence now (s.tasks i) } := by
  apply previo_todas
  · intro t
    rcases vence_cases now t with h | ⟨-, h⟩ <;> rw [h]
    rfl
  · intro t ht
    rcases vence_cases now t with h | ⟨hb, -⟩
    · rw [h, ht]
    · rw [ht] at hb
      cases hb

/-- An operation selects nobody, and the same task has the CPU; or it goes through
`schedule_locked`. -/
private theorem opera_elige (s : Scheduler) (o : Operacion) :
    ((s.opera o).elegida = none ∧ (s.opera o).scheduler.current = s.current) ∨
      ∃ t m sal, Previo s t ∧ s.opera o = t.scheduleLocked m sal := by
  cases o with
  | trap rsp => exact .inl ⟨rfl, rfl⟩
  | onTimer m =>
    rw [opera, onTimer]
    dsimp only
    split
    · exact .inl ⟨rfl, rfl⟩
    · refine .inr ⟨_, m, .publicado, (s.previo_onTimer m.rdtsc).trans ?_, rfl⟩
      exact previo_pon rfl
  | yieldCurrent m => exact .inr ⟨_, m, .publicado, s.previo_markYield, rfl⟩
  | exitCurrent m => exact .inr ⟨_, m, .publicado, s.previo_markExit, rfl⟩
  | killCurrentAndPick m => exact .inr ⟨_, m, .ninguno, s.previo_markExit, rfl⟩
  | waitCurrent m key deadline =>
    exact .inr ⟨_, m, .publicado, s.previo_markWait key deadline, rfl⟩
  | waitCurrentChecked m key deadline observed seq =>
    rw [opera, waitCurrentChecked]
    split
    · exact .inl ⟨rfl, rfl⟩
    · exact .inr ⟨_, m, .publicado, s.previo_markWait key deadline, rfl⟩
  | parkUntil deadline => exact .inl ⟨rfl, (s.previo_markWait 0 deadline).current⟩
  | exitAndPark => exact .inl ⟨rfl, s.previo_markExit.current⟩
  | wakeByKey key => exact .inl ⟨rfl, rfl⟩
  | spawnKernel stackBase context priority =>
    cases stackBase with
    | none => exact .inl ⟨rfl, rfl⟩
    | some stackBase =>
      rw [opera, spawnKernel, spawn]
      split <;> exact .inl ⟨rfl, rfl⟩
  | spawnUser pid context stackPhys stackPages stackTop cr3 priority =>
    rw [opera, spawnUser, spawn]
    split <;> exact .inl ⟨rfl, rfl⟩
  | delante tid => exact .inl ⟨rfl, rfl⟩
  | terminar tid =>
    rw [opera, terminar]
    split
    · exact .inl ⟨rfl, rfl⟩
    · split <;> exact .inl ⟨rfl, rfl⟩
  | reap m =>
    refine .inl ⟨rfl, ?_⟩
    rw [opera]
    dsimp only
    rw [(s.barre_reap m).resto]

private theorem reap_tasks (s : Scheduler) (m : Maquina) (i : Fin maxTasks)
    (h : i = s.current ∨ (s.reap m).2.estado i ≠ .empty) : (s.reap m).2.tasks i = s.tasks i := by
  by_cases hi : i ∈ (s.reap m).1.map Recogida.ranura
  · obtain ⟨hempty, -, htid, -⟩ := (s.barre_reap m).vacia i hi
    rcases h with h | h
    · rw [h] at htid
      exact absurd rfl htid
    · rw [estado, hempty] at h
      exact absurd rfl h
  · exact (s.barre_reap m).queda i hi

/-- `schedule_locked` selects nobody, and the same task has the CPU; or it selects the task that
`choose_next` answers. -/
private theorem scheduleLocked_elige (t : Scheduler) (m : Maquina) (sal : Saliente) :
    ((t.scheduleLocked m sal).elegida = none ∧
      (t.scheduleLocked m sal).scheduler.current = t.current) ∨
    ((t.scheduleLocked m sal).elegida = some t.compite.chooseNext ∧
      (t.scheduleLocked m sal).scheduler.current = t.compite.chooseNext ∧
      ∀ i, i = t.compite.chooseNext ∨ (t.scheduleLocked m sal).scheduler.estado i ≠ .empty →
        ((t.scheduleLocked m sal).scheduler.tasks i).priority = (t.tasks i).priority) := by
  rw [scheduleLocked]
  dsimp only
  rw [show (if t.estado t.current = .running then t.ponEstado t.current .ready else t) =
    t.compite from rfl]
  have hp := t.previo_compite
  generalize t.compite = c at hp
  rw [← hp.current]
  split
  · next hnext =>
    right
    generalize hd : (if c.estado c.chooseNext = .ready then c.ponEstado c.chooseNext .running
      else c) = d
    have hdcur : d.current = c.chooseNext := by
      rw [hnext, ← hd]
      split <;> rfl
    have hdprio : ∀ i, (d.tasks i).priority = (c.tasks i).priority := by
      intro i
      rw [← hd, hnext]
      split
      · exact (@previo_pon c { c.tasks c.current with state := .running } rfl).priority i
      · rfl
    refine ⟨rfl, ?_, fun i hi ↦ ?_⟩
    · rw [(d.barre_reap m).resto]
      exact hdcur
    · dsimp only at hi ⊢
      rw [← hdcur] at hi
      rw [reap_tasks d m i hi, hdprio, hp.priority]
  · next hnext =>
    split
    · left
      refine ⟨rfl, ?_⟩
      dsimp only
      split <;> rfl
    · right
      refine ⟨rfl, ?_, fun i hi ↦ ?_⟩
      · rw [((c.cambia m sal c.chooseNext).barre_reap m).resto]
        rfl
      · dsimp only at hi ⊢
        rw [reap_tasks (c.cambia m sal c.chooseNext) m i hi, (fijo_cambia m sal hnext i).2.2.1,
          hp.priority]

/-! ### Taking turns -/

private theorem adelanta {a b c : Fin maxTasks} (hab : a ≠ b) (hbc : b ≠ c)
    (h : ¬ Entre b c a) : a = c ∨ vueltas c b < vueltas c a := by
  have ha : (a : Nat) < 64 := a.isLt
  have hb : (b : Nat) < 64 := b.isLt
  have hc : (c : Nat) < 64 := c.isLt
  have hab : (a : Nat) ≠ b := fun he ↦ hab (Fin.ext he)
  have hbc : (b : Nat) ≠ c := fun he ↦ hbc (Fin.ext he)
  by_cases hac : (a : Nat) = c
  · exact .inl (Fin.ext hac)
  · right
    have h : ¬ (0 < ((c : Nat) + 64 - b) % 64 ∧
      ((c : Nat) + 64 - b) % 64 < ((a : Nat) + 64 - b) % 64) := h
    show ((b : Nat) + 64 - c) % 64 < ((a : Nat) + 64 - c) % 64
    omega

private theorem adelanta_entre {a b c n : Fin maxTasks} (hbc : b ≠ c) (h : ¬ Entre b c a)
    (hn : Entre b n a) : vueltas c b < vueltas c n := by
  have ha : (a : Nat) < 64 := a.isLt
  have hb : (b : Nat) < 64 := b.isLt
  have hc : (c : Nat) < 64 := c.isLt
  have hnlt : (n : Nat) < 64 := n.isLt
  have hbc : (b : Nat) ≠ c := fun he ↦ hbc (Fin.ext he)
  have h : ¬ (0 < ((c : Nat) + 64 - b) % 64 ∧
    ((c : Nat) + 64 - b) % 64 < ((a : Nat) + 64 - b) % 64) := h
  have hn : 0 < ((n : Nat) + 64 - b) % 64 ∧
    ((n : Nat) + 64 - b) % 64 < ((a : Nat) + 64 - b) % 64 := hn
  show ((b : Nat) + 64 - c) % 64 < ((n : Nat) + 64 - c) % 64
  omega

/-- One operation, where `b` is ready and somebody else has the CPU from a slot that is not between
`b` and `a`: it does not select `a`, and who gets the CPU is not between them either. -/
private theorem opera_turno {s : Scheduler} {a b : Fin maxTasks} {o : Operacion} (hab : a ≠ b)
    (hidle : some b ≠ s.idle) (hb : s.estado b = .ready) (hcur : b ≠ s.current)
    (hentre : ¬ Entre b s.current a) :
    ((s.tasks a).priority = (s.tasks b).priority → (s.opera o).elegida ≠ some a) ∧
    ((s.opera o).elegida ≠ some b → (s.opera o).scheduler.estado b = .ready →
      (Entre b (s.opera o).scheduler.current a →
        ((s.opera o).scheduler.tasks (s.opera o).scheduler.current).priority ≤
          ((s.opera o).scheduler.tasks b).priority) →
      b ≠ (s.opera o).scheduler.current ∧ ¬ Entre b (s.opera o).scheduler.current a) := by
  rcases s.opera_elige o with ⟨hnone, hc⟩ | ⟨t, m, sal, ht, ho⟩
  · rw [hnone, hc]
    exact ⟨fun _ h ↦ Option.some_ne_none a h.symm, fun _ _ _ ↦ ⟨hcur, hentre⟩⟩
  rw [ho]
  rcases t.scheduleLocked_elige m sal with ⟨hnone, hc⟩ | ⟨hsome, hc, hprio⟩
  · rw [hnone, hc, ht.current]
    exact ⟨fun _ h ↦ Option.some_ne_none a h.symm, fun _ _ _ ↦ ⟨hcur, hentre⟩⟩
  have ht' := ht.trans t.previo_compite
  have hcand : t.compite.Candidata b := ⟨by rw [ht'.idle]; exact hidle, ht'.ready b hcur hb⟩
  have hprimero := chooseNext_primero hcand (by rw [ht'.current]; exact hcur)
  rw [ht'.current] at hprimero
  rw [hsome, hc]
  constructor
  · intro heq h
    have hn : t.compite.chooseNext = a := Option.some.inj h
    rw [hn, ht'.priority, ht'.priority, heq] at hprimero
    exact UInt8.lt_irrefl _ (hprimero (adelanta hab hcur hentre))
  · intro hnb hready hle
    have hbn : b ≠ t.compite.chooseNext := fun h ↦ hnb (congrArg some h.symm)
    refine ⟨hbn, fun hn ↦ ?_⟩
    have hlt := hprimero (.inr (adelanta_entre hcur hentre hn))
    have hle := hle hn
    rw [hprio _ (.inl rfl), hprio b (.inr (by rw [hready]; decide))] at hle
    rw [(t.previo_compite).priority, (t.previo_compite).priority] at hlt
    exact UInt8.lt_irrefl _ (UInt8.lt_of_lt_of_le hlt hle)

private theorem current_elegida {s : Scheduler} {o : Operacion} {a : Fin maxTasks}
    (h : (s.opera o).elegida = some a) : (s.opera o).scheduler.current = a := by
  rcases s.opera_elige o with ⟨hnone, -⟩ | ⟨t, m, sal, -, ho⟩
  · rw [hnone] at h
    cases h
  rw [ho] at h ⊢
  rcases t.scheduleLocked_elige m sal with ⟨hnone, -⟩ | ⟨hsome, hc, -⟩
  · rw [hnone] at h
    cases h
  · rw [hsome] at h
    rw [hc]
    exact Option.some.inj h

end Scheduler

private theorem Espera.fuera {a b : Fin maxTasks} (hab : a ≠ b) {c : Censo}
    (h : Espera (Scheduler.SinAdelanto a b) a b c) (hc : c.sched.SinAdelanto a b) :
    c.sched.estado b = .ready ∧ b ≠ c.sched.current ∧
      ¬ Scheduler.Entre b c.sched.current a := by
  induction h with
  | elegida o h ha hb =>
    have hcur := Scheduler.current_elegida ha
    refine ⟨hb, ?_, ?_⟩
    · show b ≠ (Scheduler.opera _ o).scheduler.current
      rw [hcur]
      exact hab.symm
    · show ¬ Scheduler.Entre b (Scheduler.opera _ o).scheduler.current a
      rw [hcur]
      exact fun h ↦ Nat.lt_irrefl _ h.2
  | paso o h hpre ha hb hcuna hready ih =>
    obtain ⟨hbready, hcur, hentre⟩ := ih hpre
    have hturno := @Scheduler.opera_turno _ a b o hab hpre.1 hbready hcur hentre
    exact ⟨hready, hturno.2 hb hready hc.2⟩

/-- In every run, from a turn of `a` on: while `b` is ready, and no task of higher priority gets
the CPU from a slot after `b` and before `a`, the next turn of `a` waits for one of `b`. -/
theorem turno_de_cada_una (a b : Fin maxTasks) (hab : a ≠ b) (c : Censo)
    (h : Espera (Scheduler.SinAdelanto a b) a b c) (hc : c.sched.SinAdelanto a b)
    (hp : (c.sched.tasks a).priority = (c.sched.tasks b).priority) (o : Operacion) :
    (c.sched.opera o).elegida ≠ some a := by
  obtain ⟨hready, hcur, hentre⟩ := h.fuera hab hc
  exact (Scheduler.opera_turno hab hc.1 hready hcur hentre).1 hp

/-- Two user tasks: the first one has its turn. -/
def dosTareas : Censo :=
  ((((Censo.inicial 0x800000 0x803000).paso (.trap 0x7000)).paso
    (.spawnUser 7 0x903000 0x900000 4 0x904000 0x6000 0)).paso
    (.spawnUser 8 0xA03000 0xA00000 4 0xA04000 0x8000 0)).paso (.yieldCurrent ⟨0, 0, 0x5000⟩)

set_option maxRecDepth 4096 in
theorem turno_de_la_segunda :
    (dosTareas.sched.opera (.yieldCurrent ⟨0, 0, 0x5000⟩)).elegida ≠ some 2 := by
  refine turno_de_cada_una 2 3 (by decide) dosTareas ?_ ?_ ?_ (.yieldCurrent ⟨0, 0, 0x5000⟩)
  · refine .elegida _ (.paso _ (.paso _ (.paso _ (.inicial _ _ ?_) trivial) trivial) trivial) ?_ ?_
    · decide
    · decide
    · decide
  · refine ⟨?_, fun _ ↦ ?_⟩
    · decide
    · decide
  · decide

/-! ### A task that waits for ever -/

/-- A task of higher priority in slot 2, which has run and waits, and two others in slots 3 and 4,
the first of which has its turn. -/
def tresTareas : Censo :=
  ((((((Censo.inicial 0x800000 0x803000).paso (.trap 0x7000)).paso
    (.spawnUser 7 0x903000 0x900000 4 0x904000 0x6000 1)).paso
    (.spawnUser 8 0xA03000 0xA00000 4 0xA04000 0x8000 0)).paso
    (.spawnUser 9 0xB03000 0xB00000 4 0xB04000 0x9000 0)).paso (.yieldCurrent ⟨0, 0, 0x5000⟩)).paso
    (.waitCurrent ⟨0, 0, 0x5000⟩ 55 0)

set_option maxRecDepth 4096 in
/-- The task of slot 2 wakes, runs and waits again, and slot 3 has its turn once more: slot 4 is
always ready and never selected. -/
theorem no_siempre_turno_de_cada_una :
    ¬ ∀ a b, a ≠ b → ∀ c, Espera (fun s ↦ some b ≠ s.idle) a b c → some b ≠ c.sched.idle →
      (c.sched.tasks a).priority = (c.sched.tasks b).priority →
      ∀ o, (c.sched.opera o).elegida ≠ some a := by
  intro h
  have hespera : Espera (fun s ↦ some (4 : Fin maxTasks) ≠ s.idle) 3 4
      ((tresTareas.paso (.wakeByKey 55)).paso (.yieldCurrent ⟨0, 0, 0x5000⟩)) := by
    refine .paso _ (.paso _ (.elegida _ (.paso _ (.paso _ (.paso _ (.paso _ (.paso _
      (.inicial _ _ ?_) trivial) trivial) trivial) trivial) trivial) ?_ ?_) ?_ ?_ ?_ ?_ ?_)
      ?_ ?_ ?_ ?_ ?_ <;> decide
  refine h 3 4 (by decide) _ hespera ?_ ?_ (.waitCurrent ⟨0, 0, 0x5000⟩ 55 0) ?_ <;>
    decide

end BmoX.Sched
