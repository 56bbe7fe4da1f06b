import BmoX.Sched.Cambio

/-!
# The census of tasks

What the operations of `kernel/src/ring0/task/scheduler/roja.rs` keep true over whole runs: who
runs, who may run next, and that a task dies once. Slots and tids are used again, so the census
gives each task a number of its own when it is born.
-/

namespace BmoX.Sched

/-- The operations of the scheduler, and the publication of a context by the stub of a trap. -/
inductive Operacion
  | trap (rsp : UInt64)
  | onTimer (m : Maquina)
  | yieldCurrent (m : Maquina)
  | exitCurrent (m : Maquina)
  | killCurrentAndPick (m : Maquina)
  | waitCurrent (m : Maquina) (key deadline : UInt64)
  | waitCurrentChecked (m : Maquina) (key deadline observed seq : UInt64)
  | parkUntil (deadline : UInt64)
  | exitAndPark
  | wakeByKey (key : UInt64)
  | spawnKernel (stackBase : Option UInt64) (context : UInt64) (priority : UInt8)
  | spawnUser (pid : UInt32) (context stackPhys stackPages stackTop cr3 : UInt64)
      (priority : UInt8)
  | delante (tid : UInt32)
  | terminar (tid : UInt32)
  | reap (m : Maquina)

namespace Scheduler

/-- One operation. -/
def opera (s : Scheduler) : Operacion → Efecto
  | .trap rsp => quieto { s with trapRsp := rsp }
  | .onTimer m => s.onTimer m
  | .yieldCurrent m => s.yieldCurrent m
  | .exitCurrent m => s.exitCurrent m
  | .killCurrentAndPick m => s.killCurrentAndPick m
  | .waitCurrent m key deadline => s.waitCurrent m key deadline
  | .waitCurrentChecked m key deadline observed seq =>
    (s.waitCurrentChecked m key deadline observed seq).2
  | .parkUntil deadline => s.parkUntil deadline
  | .exitAndPark => s.exitAndPark
  | .wakeByKey key => s.wakeByKey key
  | .spawnKernel stackBase context priority => (s.spawnKernel stackBase context priority).2
  | .spawnUser pid context stackPhys stackPages stackTop cr3 priority =>
    (s.spawnUser pid context stackPhys stackPages stackTop cr3 priority).2
  | .delante tid => (s.delante tid).2
  | .terminar tid => (s.terminar tid).2
  | .reap m => ⟨(s.reap m).2, none, (s.reap m).1, none⟩

/-- The scheduler after `init` and `init_idle`, with the stack and the context of the idle task. -/
def arranque (stackBase context : UInt64) : Scheduler :=
  (init.initIdle (some stackBase) context).2

/-- The slot whose task the operation ends. -/
def mata (s : Scheduler) : Operacion → Option (Fin maxTasks)
  | .exitCurrent _ | .killCurrentAndPick _ | .exitAndPark =>
    if s.current ≠ 0 ∧ s.estado s.current = .running then some s.current else none
  | .terminar tid => (s.deTid tid).filter s.cerrable
  | _ => none

/-- The tid for the next task is not that of a task in the table. -/
def TidLibre (s : Scheduler) : Prop :=
  ∀ i, s.estado i ≠ .empty → (s.tasks i).tid ≠ s.nextTid

/-- There is a context to come back to: an old one, or the one the trap published. -/
def Vuelve (s : Scheduler) (sal : Saliente) : Prop :=
  (s.tasks s.current).contextRsp ≠ 0 ∨ (sal = .publicado ∧ s.trapRsp ≠ 0)

/-- New tasks get a free tid and a context; who leaves the CPU can come back to it; and the idle
task does not wait, exit or fault. -/
def Limpia (s : Scheduler) : Operacion → Prop
  | .onTimer _ | .yieldCurrent _ => s.Vuelve .publicado
  | .exitCurrent _ | .waitCurrent _ _ _ | .waitCurrentChecked _ _ _ _ _ =>
    some s.current ≠ s.idle ∧ s.Vuelve .publicado
  | .killCurrentAndPick _ => some s.current ≠ s.idle ∧ s.Vuelve .ninguno
  | .parkUntil _ | .exitAndPark => some s.current ≠ s.idle
  | .spawnKernel _ context _ | .spawnUser _ context _ _ _ _ _ => context ≠ 0 ∧ s.TidLibre
  | _ => True

end Scheduler

/-- The scheduler with the numbers of the tasks in its slots, how many have been born, and those
that were ended and those whose slot was recycled. -/
structure Censo where
  sched : Scheduler
  cuna : Fin maxTasks → Nat
  nacidos : Nat
  muertos : List Nat
  sueltos : List Nat

namespace Censo

/-- After the boot there are two tasks: the boot context and the idle task. -/
def inicial (stackBase context : UInt64) : Censo :=
  ⟨.arranque stackBase context, fun i ↦ i, 2, [], []⟩

/-- One operation, entered in the census. -/
def paso (c : Censo) (o : Operacion) : Censo :=
  let e := c.sched.opera o
  { sched := e.scheduler
    cuna := e.nueva.elim c.cuna fun i ↦ Function.update c.cuna i c.nacidos
    nacidos := e.nueva.elim c.nacidos fun _ ↦ c.nacidos + 1
    muertos := ((c.sched.mata o).elim [] fun i ↦ [c.cuna i]) ++ c.muertos
    sueltos := c.sueltos ++ e.recogidas.map fun x ↦ c.cuna x.ranura }

/-- The slot holds a task. -/
def Vive (c : Censo) (i : Fin maxTasks) : Prop := c.sched.estado i ≠ .empty

/-- What every state is to say. -/
structure Exacto (c : Censo) : Prop where
  /-- At most one task runs, and it is the current one. -/
  corre : ∀ i, c.sched.estado i = .running → i = c.sched.current
  /-- A task that was ended is exited for as long as it has a slot. -/
  muertos : ∀ i, c.Vive i → c.cuna i ∈ c.muertos → c.sched.estado i = .exited
  /-- The slot of a task is recycled once: not before, and not twice. -/
  sueltos : c.sueltos.Nodup
  presentes : ∀ i, c.Vive i → c.cuna i ∉ c.sueltos
  ausentes : ∀ b < c.nacidos, (∀ i, c.Vive i → c.cuna i ≠ b) → b ∈ c.sueltos
  /-- No two tasks share a tid. -/
  tids : ∀ i j, c.Vive i → c.Vive j → (c.sched.tasks i).tid = (c.sched.tasks j).tid → i = j
  /-- At most one user task has the long quantum. -/
  largo : ∀ i j, c.Vive i → c.Vive j → (c.sched.tasks i).isUser = true →
    (c.sched.tasks j).isUser = true → (c.sched.tasks i).quantum = quantumDelante →
    (c.sched.tasks j).quantum = quantumDelante → i = j

/-- What an operation is to do. -/
structure Cumple (c : Censo) (o : Operacion) : Prop where
  /-- The idle task is selected when no other one is ready. -/
  idle : ∀ k, (c.sched.opera o).elegida = some k → c.sched.idle = some k →
    ∀ i, (c.sched.opera o).scheduler.estado i ≠ .ready
  /-- The task selected is the current one, and no ready task has a higher priority. -/
  elegida : ∀ n, (c.sched.opera o).elegida = some n → (c.sched.opera o).scheduler.current = n ∧
    ∀ i, (c.sched.opera o).scheduler.estado i = .ready →
      ((c.sched.opera o).scheduler.tasks i).priority ≤
        ((c.sched.opera o).scheduler.tasks n).priority
  /-- The frames that come back are the stacks of ended tasks that do not run. -/
  recogidas : ∀ x ∈ (c.sched.opera o).recogidas,
    x.ranura ≠ (c.sched.opera o).scheduler.current ∧
    (c.sched.opera o).scheduler.estado x.ranura = .empty ∧
    x.marcos = (c.sched.tasks x.ranura).pila ∧ c.cuna x.ranura ∈ (c.paso o).muertos

end Censo

/-- The runs after a boot in which every operation satisfies `C`. -/
inductive Corre (C : Scheduler → Operacion → Prop) : Censo → Prop
  | inicial (stackBase context : UInt64) (h : context ≠ 0) : Corre C (.inicial stackBase context)
  | paso {c : Censo} (o : Operacion) (h : Corre C c) (hc : C c.sched o) : Corre C (c.paso o)

/-! ### The invariant of the table -/

namespace Scheduler

/-- At most one user task has the long quantum. -/
def Largo (s : Scheduler) : Prop :=
  ∀ i j, s.estado i ≠ .empty → s.estado j ≠ .empty → (s.tasks i).isUser = true →
    (s.tasks j).isUser = true → (s.tasks i).quantum = quantumDelante →
    (s.tasks j).quantum = quantumDelante → i = j

/-- What every operation keeps: the current task is the only one that may run, every other one has a
context, and the idle task is there, of no priority, ready or running. -/
structure Inv (s : Scheduler) : Prop where
  corre : ∀ i, s.estado i = .running → i = s.current
  tids : ∀ i j, s.estado i ≠ .empty → s.estado j ≠ .empty → (s.tasks i).tid = (s.tasks j).tid →
    i = j
  contexto : ∀ i, i ≠ s.current → s.estado i ≠ .empty → (s.tasks i).contextRsp ≠ 0
  idle : ∃ k, s.idle = some k ∧ (s.tasks k).isUser = false ∧ (s.tasks k).priority = 0 ∧
    (s.estado k = .ready ∨ s.estado k = .running)
  viva : s.estado s.current ≠ .empty
  largo : s.Largo

/-- A task in its slot changes; it stays the same task. -/
structure Retoque (t t' : Task) : Prop where
  tid : t'.tid = t.tid
  isUser : t'.isUser = t.isUser
  priority : t'.priority = t.priority
  contextRsp : t'.contextRsp = t.contextRsp
  pila : t'.pila = t.pila
  vacia : t'.state = .empty ↔ t.state = .empty

theorem Retoque.refl (t : Task) : Retoque t t := ⟨rfl, rfl, rfl, rfl, rfl, Iff.rfl⟩

private theorem Inv.retoca {s s' : Scheduler} (hs : Inv s) (hcur : s'.current = s.current)
    (hidle : s'.idle = s.idle) (h : ∀ i, Retoque (s.tasks i) (s'.tasks i))
    (hrun : ∀ i, s'.estado i = .running → s.estado i = .running ∨ i = s.current)
    (hk : ∀ k, s.idle = some k → s.estado k = .ready ∨ s.estado k = .running →
      s'.estado k = .ready ∨ s'.estado k = .running) (hl : s'.Largo) : Inv s' where
  corre i hi := by
    rw [hcur]
    rcases hrun i hi with hi | hi
    · exact hs.corre i hi
    · exact hi
  tids i j hi hj htid := by
    refine hs.tids i j (fun he ↦ hi ((h i).vacia.mpr he)) (fun he ↦ hj ((h j).vacia.mpr he)) ?_
    rw [← (h i).tid, ← (h j).tid]
    exact htid
  contexto i hi hv := by
    rw [(h i).contextRsp]
    exact hs.contexto i (hcur ▸ hi) fun he ↦ hv ((h i).vacia.mpr he)
  idle := by
    obtain ⟨k, hsome, huser, hprio, hest⟩ := hs.idle
    exact ⟨k, hidle.trans hsome, (h k).isUser.trans huser, (h k).priority.trans hprio,
      hk k hsome hest⟩
  viva := by
    rw [hcur]
    exact fun he ↦ hs.viva ((h _).vacia.mp he)
  largo := hl

private theorem Largo.retoca {s s' : Scheduler} (hs : s.Largo)
    (h : ∀ i, (s'.estado i = .empty ↔ s.estado i = .empty) ∧
      (s'.tasks i).isUser = (s.tasks i).isUser ∧
      (s'.tasks i).quantum = (s.tasks i).quantum) : s'.Largo := by
  intro i j hvi hvj hi hj hqi hqj
  rw [(h i).2.1] at hi
  rw [(h j).2.1] at hj
  rw [(h i).2.2] at hqi
  rw [(h j).2.2] at hqj
  exact hs i j (fun he ↦ hvi ((h i).1.mpr he)) (fun he ↦ hvj ((h j).1.mpr he)) hi hj hqi hqj

/-! ### Writes of one slot -/

@[simp] theorem pon_current (s : Scheduler) (i : Fin maxTasks) (t : Task) :
    (s.pon i t).current = s.current := rfl

@[simp] theorem pon_idle (s : Scheduler) (i : Fin maxTasks) (t : Task) :
    (s.pon i t).idle = s.idle := rfl

theorem pon_tasks (s : Scheduler) (i j : Fin maxTasks) (t : Task) :
    (s.pon i t).tasks j = if j = i then t else s.tasks j := Function.update_apply ..

theorem estado_pon (s : Scheduler) (i j : Fin maxTasks) (t : Task) :
    (s.pon i t).estado j = if j = i then t.state else s.estado j := by
  rw [estado, pon_tasks]
  split <;> rfl

private theorem estado_ponEstado (s : Scheduler) (i j : Fin maxTasks) (e : TaskState) :
    (s.ponEstado i e).estado j = if j = i then e else s.estado j := estado_pon ..

/-- A write that keeps the task is a change of its slot. -/
theorem retoque_pon {s : Scheduler} {i : Fin maxTasks} {t : Task} (h : Retoque (s.tasks i) t)
    (j : Fin maxTasks) : Retoque (s.tasks j) ((s.pon i t).tasks j) := by
  rw [pon_tasks]
  split
  · next hj =>
    rw [hj]
    exact h
  · exact Retoque.refl _

private theorem retoque_ponEstado {s : Scheduler} {i : Fin maxTasks} {e : TaskState}
    (h : e = .empty ↔ s.estado i = .empty) (j : Fin maxTasks) :
    Retoque (s.tasks j) ((s.ponEstado i e).tasks j) :=
  @retoque_pon s i { s.tasks i with state := e } ⟨rfl, rfl, rfl, rfl, rfl, h⟩ j

private theorem Largo.pon {s : Scheduler} (hs : s.Largo) {i : Fin maxTasks} {t : Task}
    (h : Retoque (s.tasks i) t) (hq : t.quantum = (s.tasks i).quantum) : (s.pon i t).Largo := by
  refine hs.retoca fun j ↦ ⟨(retoque_pon h j).vacia, (retoque_pon h j).isUser, ?_⟩
  rw [pon_tasks]
  split
  · next hj =>
    rw [hj]
    exact hq
  · rfl

private theorem Inv.ponEstado {s : Scheduler} (hs : Inv s) {i : Fin maxTasks} {e : TaskState}
    (hi : s.estado i ≠ .empty) (he : e ≠ .empty) (hrun : e = .running → i = s.current)
    (hk : s.idle = some i → e = .ready ∨ e = .running) : Inv (s.ponEstado i e) := by
  refine hs.retoca rfl rfl (retoque_ponEstado (iff_of_false he hi))
    (fun j hj ↦ ?_) (fun k hidle hest ↦ ?_)
    (hs.largo.pon ⟨rfl, rfl, rfl, rfl, rfl, iff_of_false he hi⟩ rfl)
  · rw [estado_ponEstado] at hj
    split at hj
    · next heq => exact .inr (heq.trans (hrun hj))
    · exact .inl hj
  · rw [estado_ponEstado]
    split
    · next heq => exact hk (heq ▸ hidle)
    · exact hest

/-! ### The switch -/

private theorem compite_current (s : Scheduler) : s.compite.current = s.current := by
  rw [compite]
  split <;> rfl

private theorem compite_idle (s : Scheduler) : s.compite.idle = s.idle := by
  rw [compite]
  split <;> rfl

private theorem estado_compite (s : Scheduler) (i : Fin maxTasks) :
    s.compite.estado i = if i = s.current ∧ s.estado i = .running then .ready else s.estado i := by
  rw [compite]
  split
  · next h =>
    rw [estado_ponEstado]
    by_cases hi : i = s.current
    · rw [if_pos hi, if_pos ⟨hi, hi ▸ h⟩]
    · rw [if_neg hi, if_neg fun hc ↦ hi hc.1]
  · next h =>
    rw [if_neg]
    rintro ⟨rfl, hr⟩
    exact h hr

private theorem retoque_compite (s : Scheduler) (i : Fin maxTasks) :
    Retoque (s.tasks i) (s.compite.tasks i) ∧
      (s.compite.tasks i).quantum = (s.tasks i).quantum := by
  rw [compite]
  split
  · next h =>
    refine ⟨retoque_ponEstado (iff_of_false (by decide) (by rw [h]; decide)) i, ?_⟩
    rw [Scheduler.ponEstado, pon_tasks]
    split
    · next hi => rw [hi]
    · rfl
  · exact ⟨Retoque.refl _, rfl⟩

private theorem Inv.compite {s : Scheduler} (hs : Inv s) : Inv s.compite := by
  refine hs.retoca s.compite_current s.compite_idle (fun i ↦ (s.retoque_compite i).1)
    (fun i hi ↦ ?_) (fun k _ hest ↦ ?_) (hs.largo.retoca fun i ↦
      ⟨(s.retoque_compite i).1.vacia, (s.retoque_compite i).1.isUser, (s.retoque_compite i).2⟩)
  · rw [estado_compite] at hi
    split at hi
    · cases hi
    · exact .inl hi
  · rw [estado_compite]
    split
    · exact .inl rfl
    · exact hest

private theorem Inv.nadie {s : Scheduler} (hs : Inv s) (i : Fin maxTasks) :
    s.compite.estado i ≠ .running := by
  rw [estado_compite]
  split
  · decide
  · next h => exact fun hr ↦ h ⟨hs.corre i hr, hr⟩

private theorem Inv.ociosa {s : Scheduler} (hs : Inv s) : ∃ k, s.compite.idle = some k ∧
    (s.compite.tasks k).priority = 0 ∧ s.compite.estado k = .ready := by
  obtain ⟨k, hidle, -, hprio, hest⟩ := hs.compite.idle
  refine ⟨k, hidle, hprio, ?_⟩
  rcases hest with h | h
  · exact h
  · exact absurd h (hs.nadie k)

/-- What `choose_next` answers has the highest priority, and is the idle task when no other one is
ready. -/
private theorem Inv.chooseNext {s : Scheduler} (hs : Inv s) :
    s.compite.estado s.compite.chooseNext = .ready ∧ ∀ i, s.compite.estado i = .ready →
      (s.compite.tasks i).priority ≤ (s.compite.tasks s.compite.chooseNext).priority ∧
      (s.compite.idle = some s.compite.chooseNext → i = s.compite.chooseNext) := by
  obtain ⟨k, hidle, hprio, hk⟩ := hs.ociosa
  rcases s.compite.chooseNext_cases with ⟨hc, o, -, -, -, hmax⟩ | ⟨hno, hnext⟩
  · refine ⟨hc.2, fun i hi ↦ ⟨?_, fun h ↦ absurd h.symm hc.1⟩⟩
    by_cases hik : i = k
    · rw [hik, hprio]
      exact UInt8.zero_le
    · obtain ⟨o', ho', hn', rfl⟩ := s.compite.exists_en i
      refine (hmax o' ho' hn' ⟨?_, hi⟩).1
      rw [hidle]
      exact fun h ↦ hik (Option.some.inj h)
  · rw [hnext k hidle hk]
    refine ⟨hk, fun i hi ↦ ?_⟩
    by_cases hik : i = k
    · rw [hik]
      exact ⟨UInt8.le_refl _, fun _ ↦ rfl⟩
    · refine absurd ⟨?_, hi⟩ (hno i)
      rw [hidle]
      exact fun h ↦ hik (Option.some.inj h)

/-! ### What an operation does to the table -/

/-- From the table as an operation marked it to the one it leaves: slots of exited tasks may have
been recycled and one task selected; the rest is what it was. -/
structure Turna (s : Scheduler) (e : Efecto) : Prop where
  inv : Inv e.scheduler
  nueva : e.nueva = none
  ranuras : (e.recogidas.map Recogida.ranura).Nodup
  marcos : ∀ x ∈ e.recogidas, x.marcos = (s.tasks x.ranura).pila
  vacia : ∀ i ∈ e.recogidas.map Recogida.ranura,
    e.scheduler.estado i = .empty ∧ s.estado i = .exited ∧ i ≠ e.scheduler.current
  queda : ∀ i ∉ e.recogidas.map Recogida.ranura,
    (e.scheduler.estado i = .exited ↔ s.estado i = .exited) ∧
    (e.scheduler.estado i = .empty ↔ s.estado i = .empty)
  elegida : ∀ n, e.elegida = some n → e.scheduler.current = n ∧
    ∀ i, e.scheduler.estado i = .ready →
      (e.scheduler.tasks i).priority ≤ (e.scheduler.tasks n).priority ∧ s.idle ≠ some n

private theorem tasks_of_barre {t : Scheduler} {m : Maquina} {r : List Recogida × Scheduler}
    (hb : Barre t m r) {i : Fin maxTasks} (hi : r.2.estado i ≠ .empty) :
    r.2.tasks i = t.tasks i := by
  refine hb.queda i fun hmem ↦ hi ?_
  exact congrArg Task.state (hb.vacia i hmem).1

private theorem Inv.barre {t : Scheduler} (ht : Inv t) {m : Maquina}
    {r : List Recogida × Scheduler} (hb : Barre t m r) : Inv r.2 := by
  have hcur : r.2.current = t.current := by rw [hb.resto]
  have hidle : r.2.idle = t.idle := by rw [hb.resto]
  have hestado : ∀ {i e}, e ≠ .empty → r.2.estado i = e → t.estado i = e := by
    intro i e he hi
    rw [← hi]
    exact (congrArg Task.state (tasks_of_barre hb (by rw [hi]; exact he))).symm
  have hviva : ∀ {i}, r.2.estado i ≠ .empty → t.estado i ≠ .empty :=
    fun {i} hi ↦ by rw [hestado hi rfl]; exact hi
  have hqueda : ∀ {i}, t.estado i ≠ .exited ∨ i = t.current → r.2.tasks i = t.tasks i := by
    intro i hi
    refine hb.queda i fun hmem ↦ ?_
    obtain ⟨-, hex, htid, -⟩ := hb.vacia i hmem
    rcases hi with hi | hi
    · exact hi hex
    · exact htid (by rw [hi])
  constructor
  · intro i hi
    rw [hcur]
    exact ht.corre i (hestado (by decide) hi)
  · intro i j hi hj htid
    rw [tasks_of_barre hb hi, tasks_of_barre hb hj] at htid
    exact ht.tids i j (hviva hi) (hviva hj) htid
  · intro i hi hv
    rw [tasks_of_barre hb hv]
    exact ht.contexto i (hcur ▸ hi) (hviva hv)
  · obtain ⟨k, hk, huser, hprio, hest⟩ := ht.idle
    have hno : t.estado k ≠ .exited := by
      rcases hest with h | h <;> rw [h] <;> decide
    refine ⟨k, hidle.trans hk, ?_⟩
    rw [estado, hqueda (.inl hno)]
    exact ⟨huser, hprio, hest⟩
  · rw [hcur, estado, hqueda (.inr rfl)]
    exact ht.viva
  · intro i j hvi hvj hi hj hqi hqj
    rw [tasks_of_barre hb hvi] at hi hqi
    rw [tasks_of_barre hb hvj] at hj hqj
    exact ht.largo i j (hviva hvi) (hviva hvj) hi hj hqi hqj

private theorem turna_reap {s t : Scheduler} (ht : Inv t) (m : Maquina)
    (hs : ∀ i, (t.estado i = .exited ↔ s.estado i = .exited) ∧
      (t.estado i = .empty ↔ s.estado i = .empty) ∧ (t.tasks i).pila = (s.tasks i).pila)
    {elegida : Option (Fin maxTasks)}
    (he : ∀ n, elegida = some n → t.current = n ∧ ∀ i, t.estado i = .ready →
      (t.tasks i).priority ≤ (t.tasks n).priority ∧ s.idle ≠ some n) :
    Turna s ⟨(t.reap m).2, elegida, (t.reap m).1, none⟩ := by
  have hb := barre_reap t m
  generalize t.reap m = r at hb
  have hcur : r.2.current = t.current := by rw [hb.resto]
  constructor
  · exact ht.barre hb
  · rfl
  · exact hb.ranuras
  · intro x hx
    rw [hb.marcos x hx, (hs x.ranura).2.2]
  · intro i hi
    obtain ⟨hempty, hex, htid, -⟩ := hb.vacia i hi
    refine ⟨congrArg Task.state hempty, (hs i).1.mp hex, fun h ↦ htid ?_⟩
    rw [h, hcur]
  · intro i hi
    have htask := hb.queda i hi
    show ((r.2.tasks i).state = .exited ↔ _) ∧ ((r.2.tasks i).state = .empty ↔ _)
    rw [htask]
    exact ⟨(hs i).1, (hs i).2.1⟩
  · intro n hn
    obtain ⟨hcurn, hmax⟩ := he n hn
    refine ⟨hcur.trans hcurn, fun i hi ↦ ?_⟩
    have hi' : r.2.tasks i = t.tasks i := tasks_of_barre hb (by rw [hi]; decide)
    have hn' : r.2.tasks n = t.tasks n := by
      refine hb.queda n fun hmem ↦ ?_
      exact (hb.vacia n hmem).2.2.1 (by rw [hcurn])
    show (r.2.tasks i).priority ≤ (r.2.tasks n).priority ∧ _
    rw [hi', hn']
    exact hmax i (by rw [estado, ← hi']; exact hi)

private theorem turna_quieto {s : Scheduler} (hs : Inv s) : Turna s s.quieto where
  inv := hs
  nueva := rfl
  ranuras := List.nodup_nil
  marcos _ h := absurd h List.not_mem_nil
  vacia _ h := absurd h List.not_mem_nil
  queda _ _ := ⟨Iff.rfl, Iff.rfl⟩
  elegida _ h := absurd h.symm (Option.some_ne_none _)

private theorem Inv.elegida {s t : Scheduler} (hs : Inv s)
    (ht : ∀ i, t.estado i = .ready → i ≠ s.compite.chooseNext ∧ s.compite.estado i = .ready)
    (hp : ∀ i, (t.tasks i).priority = (s.compite.tasks i).priority) (i : Fin maxTasks)
    (hi : t.estado i = .ready) :
    (t.tasks i).priority ≤ (t.tasks s.compite.chooseNext).priority ∧
      s.idle ≠ some s.compite.chooseNext := by
  obtain ⟨hne, hready⟩ := ht i hi
  obtain ⟨hle, hidle⟩ := hs.chooseNext.2 i hready
  rw [hp, hp]
  refine ⟨hle, fun h ↦ hne (hidle ?_)⟩
  rw [compite_idle]
  exact h

private theorem tasks_cambia {c : Scheduler} (m : Maquina) (sal : Saliente) {n : Fin maxTasks}
    (hn : n ≠ c.current) (i : Fin maxTasks) : (c.cambia m sal n).tasks i =
      if i = n then entraEn (c.tasks n) m.rdtsc
      else if i = c.current then saleDe (c.tasks c.current) sal c.trapRsp m.rdtsc
      else c.tasks i := by
  rw [cambia]
  dsimp only
  rw [pon_tasks, pon_tasks, pon_tasks, if_neg hn]

private theorem estado_cambia {c : Scheduler} (m : Maquina) (sal : Saliente) {n : Fin maxTasks}
    (hn : n ≠ c.current) (i : Fin maxTasks) :
    (c.cambia m sal n).estado i = if i = n then .running else c.estado i := by
  rw [estado, tasks_cambia m sal hn]
  split
  · rfl
  · split
    · next h =>
      rw [h]
      rfl
    · rfl

/-- What the switch keeps of every task. -/
theorem fijo_cambia {c : Scheduler} (m : Maquina) (sal : Saliente) {n : Fin maxTasks}
    (hn : n ≠ c.current) (i : Fin maxTasks) :
    ((c.cambia m sal n).tasks i).tid = (c.tasks i).tid ∧
    ((c.cambia m sal n).tasks i).isUser = (c.tasks i).isUser ∧
    ((c.cambia m sal n).tasks i).priority = (c.tasks i).priority ∧
    ((c.cambia m sal n).tasks i).quantum = (c.tasks i).quantum ∧
    ((c.cambia m sal n).tasks i).pila = (c.tasks i).pila := by
  rw [tasks_cambia m sal hn]
  split
  · next h =>
    rw [h]
    exact ⟨rfl, rfl, rfl, rfl, rfl⟩
  · split
    · next h =>
      rw [h]
      exact ⟨rfl, rfl, rfl, rfl, rfl⟩
    · exact ⟨rfl, rfl, rfl, rfl, rfl⟩

private theorem Inv.cambia {c : Scheduler} (hc : Inv c) (m : Maquina) {sal : Saliente}
    {n : Fin maxTasks} (hn : n ≠ c.current) (hready : c.estado n = .ready)
    (hno : ∀ i, c.estado i ≠ .running) (hv : c.Vuelve sal) : Inv (c.cambia m sal n) := by
  have hfijo := fijo_cambia m sal hn
  have hviva : ∀ {i}, (c.cambia m sal n).estado i ≠ .empty → c.estado i ≠ .empty := by
    intro i hi h
    rw [estado_cambia m sal hn] at hi
    split at hi
    · next hin =>
      rw [hin, hready] at h
      cases h
    · exact hi h
  constructor
  · intro i hi
    rw [estado_cambia m sal hn] at hi
    split at hi
    · next hin => exact hin
    · exact absurd hi (hno i)
  · intro i j hi hj htid
    rw [(hfijo i).1, (hfijo j).1] at htid
    exact hc.tids i j (hviva hi) (hviva hj) htid
  · intro i hi hvi
    have hin : i ≠ n := hi
    rw [tasks_cambia m sal hn, if_neg hin]
    split
    · next hcur =>
      rw [saleDe]
      dsimp only
      split
      · next hp => exact hp.2
      · next hp =>
        rcases hv with hv | hv
        · exact hv
        · exact absurd hv hp
    · next hcur => exact hc.contexto i hcur (hviva hvi)
  · obtain ⟨k, hk, huser, hprio, hest⟩ := hc.idle
    refine ⟨k, hk, (hfijo k).2.1.trans huser, (hfijo k).2.2.1.trans hprio, ?_⟩
    rw [estado_cambia m sal hn]
    split
    · exact .inr rfl
    · exact hest
  · have hcur : (c.cambia m sal n).current = n := rfl
    rw [estado_cambia m sal hn, if_pos hcur]
    decide
  · refine hc.largo.retoca fun i ↦ ⟨?_, (hfijo i).2.1, (hfijo i).2.2.2.1⟩
    rw [estado_cambia m sal hn]
    split
    · next hin =>
      rw [hin, hready]
      exact iff_of_false (by decide) (by decide)
    · exact Iff.rfl

private theorem turna_puesta {s t : Scheduler} (hs : Inv s) (ht : Inv t) (m : Maquina)
    (hcur : t.current = s.compite.chooseNext)
    (hest : ∀ i, t.estado i = if i = s.compite.chooseNext then .running else s.compite.estado i)
    (hprio : ∀ i, (t.tasks i).priority = (s.compite.tasks i).priority)
    (hpila : ∀ i, (t.tasks i).pila = (s.compite.tasks i).pila) :
    Turna s ⟨(t.reap m).2, some s.compite.chooseNext, (t.reap m).1, none⟩ := by
  obtain ⟨hready, -⟩ := hs.chooseNext
  -- what competes is what there was, the exited and the empty slots included
  have hcomp : ∀ i e, e = .exited ∨ e = .empty → (t.estado i = e ↔ s.estado i = e) := by
    intro i e he
    rw [hest]
    split
    · next h =>
      have hviva : s.compite.estado i ≠ e := by
        rw [h, hready]
        rcases he with rfl | rfl <;> decide
      rw [estado_compite] at hviva
      split at hviva
      · next hr => rw [hr.2]
      · rcases he with rfl | rfl
        · exact iff_of_false (by decide) hviva
        · exact iff_of_false (by decide) hviva
    · rw [estado_compite]
      split
      · next h =>
        rw [h.2]
        rcases he with rfl | rfl <;> decide
      · exact Iff.rfl
  refine turna_reap ht m (fun i ↦ ⟨hcomp i _ (.inl rfl), hcomp i _ (.inr rfl), ?_⟩) fun n hn ↦ ?_
  · rw [hpila]
    exact (s.retoque_compite i).1.pila
  · obtain rfl := Option.some.inj hn
    refine ⟨hcur, hs.elegida (fun i hi ↦ ?_) hprio⟩
    rw [hest] at hi
    split at hi
    · cases hi
    · next h => exact ⟨h, hi⟩

private theorem turna_scheduleLocked {s : Scheduler} (hs : Inv s) (m : Maquina) {sal : Saliente}
    (hv : s.Vuelve sal) : Turna s (s.scheduleLocked m sal) := by
  obtain ⟨hready, -⟩ := hs.chooseNext
  have hc := hs.compite
  rcases s.scheduleLocked_cases m sal with ⟨hnext, heq⟩ | ⟨hnext, hz, -⟩ | ⟨hnext, hz, heq⟩
  · -- the task stays
    have hready' : s.compite.estado s.compite.current = .ready := by
      rw [← hnext]
      exact hready
    rw [heq]
    dsimp only
    rw [if_pos hready', ← hnext]
    have hcur : (s.compite.ponEstado s.compite.chooseNext .running).current =
        s.compite.chooseNext := hnext.symm
    rw [hcur]
    refine turna_puesta hs (hc.ponEstado (by rw [hready]; decide) (by decide) (fun _ ↦ hnext)
      fun _ ↦ .inr rfl) m hcur (fun i ↦ estado_ponEstado ..) (fun i ↦ ?_) fun i ↦ ?_
    · exact (retoque_ponEstado (iff_of_false (by decide) (by rw [hready]; decide)) i).priority
    · exact (retoque_ponEstado (iff_of_false (by decide) (by rw [hready]; decide)) i).pila
  · -- a ready task has a context
    refine absurd hz (hc.contexto _ hnext ?_)
    rw [hready]
    decide
  · -- the task switches
    have hv' : s.compite.Vuelve sal := by
      rw [Vuelve, compite_current, (s.retoque_compite _).1.contextRsp]
      rw [Vuelve] at hv
      rcases hv with hv | ⟨hsal, hv⟩
      · exact .inl hv
      · refine .inr ⟨hsal, ?_⟩
        rw [Scheduler.compite]
        split <;> exact hv
    rw [heq]
    exact turna_puesta hs (hc.cambia m hnext hready hs.nadie hv') m rfl
      (estado_cambia m sal hnext) (fun i ↦ (fijo_cambia m sal hnext i).2.2.1)
      fun i ↦ (fijo_cambia m sal hnext i).2.2.2.2

/-! ### The marks -/

/-- From a table to the one an operation marks before it lets anybody choose: the tasks are the same
ones, and at most one of them is ended. -/
structure Marca (s t : Scheduler) (mata : Option (Fin maxTasks)) : Prop where
  inv : Inv t
  idle : t.idle = s.idle
  pila : ∀ i, (t.tasks i).pila = (s.tasks i).pila
  vacia : ∀ i, t.estado i = .empty ↔ s.estado i = .empty
  muerta : ∀ i, t.estado i = .exited ↔ s.estado i = .exited ∨ mata = some i
  viva : ∀ i, mata = some i → s.estado i ≠ .empty

private theorem Marca.nada {s : Scheduler} (hs : Inv s) : Marca s s none where
  inv := hs
  idle := rfl
  pila _ := rfl
  vacia _ := Iff.rfl
  muerta i := ⟨.inl, fun h ↦ h.resolve_right (Option.some_ne_none i).symm⟩
  viva i h := absurd h.symm (Option.some_ne_none i)

private theorem Marca.trans {s t u : Scheduler} {mata : Option (Fin maxTasks)}
    (h : Marca s t none) (h' : Marca t u mata) : Marca s u mata where
  inv := h'.inv
  idle := h'.idle.trans h.idle
  pila i := (h'.pila i).trans (h.pila i)
  vacia i := (h'.vacia i).trans (h.vacia i)
  muerta i := by
    rw [h'.muerta, h.muerta]
    simp
  viva i hi he := h'.viva i hi ((h.vacia i).mpr he)

private theorem Marca.retoca {s t : Scheduler} (hs : Inv s) (hcur : t.current = s.current)
    (hidle : t.idle = s.idle) (h : ∀ i, Retoque (s.tasks i) (t.tasks i))
    (hf : ∀ i, t.estado i = s.estado i ∨ s.estado i = .blocked ∧ t.estado i = .ready)
    (hl : t.Largo) : Marca s t none where
  inv := by
    refine hs.retoca hcur hidle h (fun i hi ↦ ?_) (fun k _ hest ↦ ?_) hl
    · rcases hf i with heq | ⟨-, heq⟩
      · exact .inl (heq.symm.trans hi)
      · exact absurd (heq.symm.trans hi) (by decide)
    · rcases hf k with heq | ⟨-, heq⟩
      · rw [heq]
        exact hest
      · exact .inl heq
  idle := hidle
  pila i := (h i).pila
  vacia i := (h i).vacia
  muerta i := by
    refine Iff.intro (fun hi ↦ .inl ?_) fun hi ↦ ?_
    · rcases hf i with heq | ⟨-, heq⟩
      · exact heq.symm.trans hi
      · exact absurd (heq.symm.trans hi) (by decide)
    · have hi := hi.resolve_right (Option.some_ne_none i).symm
      rcases hf i with heq | ⟨hb, -⟩
      · exact heq.trans hi
      · exact absurd (hb.symm.trans hi) (by decide)
  viva i h := absurd h.symm (Option.some_ne_none i)

private theorem Marca.pon {s : Scheduler} (hs : Inv s) {i : Fin maxTasks} {t : Task}
    (h : Retoque (s.tasks i) t) (hq : t.quantum = (s.tasks i).quantum)
    (hv : s.estado i ≠ .empty) (hno : s.estado i ≠ .exited)
    (hrun : t.state = .running → i = s.current)
    (hk : s.idle = some i → t.state = .ready ∨ t.state = .running) :
    Marca s (s.pon i t) (if t.state = .exited then some i else none) where
  inv := by
    refine hs.retoca rfl rfl (retoque_pon h) (fun j hj ↦ ?_) (fun k hidle hest ↦ ?_)
      (hs.largo.pon h hq)
    · rw [estado_pon] at hj
      split at hj
      · next heq => exact .inr (heq.trans (hrun hj))
      · exact .inl hj
    · rw [estado_pon]
      split
      · next heq => exact hk (heq ▸ hidle)
      · exact hest
  idle := rfl
  pila j := (retoque_pon h j).pila
  vacia j := (retoque_pon h j).vacia
  muerta j := by
    rw [estado_pon]
    by_cases hji : j = i
    · subst hji
      rw [if_pos rfl]
      split
      · next he => exact iff_of_true he (.inr rfl)
      · next he =>
        refine iff_of_false he ?_
        rintro (h | h)
        · exact hno h
        · exact absurd h.symm (Option.some_ne_none _)
    · rw [if_neg hji]
      refine ⟨.inl, fun h ↦ h.resolve_right ?_⟩
      split
      · exact fun h ↦ hji (Option.some.inj h).symm
      · exact (Option.some_ne_none _).symm
  viva j hj := by
    split at hj
    · rw [← Option.some.inj hj]
      exact hv
    · exact absurd hj.symm (Option.some_ne_none _)

private theorem Marca.corre {s : Scheduler} (hs : Inv s) (h : s.estado s.current = .running)
    {t : Task} (ht : t.state = .ready ∨ some s.current ≠ s.idle) (he : t.state ≠ .empty)
    (hr : t.state ≠ .running) (htid : t.tid = (s.tasks s.current).tid)
    (huser : t.isUser = (s.tasks s.current).isUser)
    (hprio : t.priority = (s.tasks s.current).priority)
    (hctx : t.contextRsp = (s.tasks s.current).contextRsp)
    (hpila : t.pila = (s.tasks s.current).pila) (hq : t.quantum = (s.tasks s.current).quantum) :
    Marca s (s.pon s.current t) (if t.state = .exited then some s.current else none) := by
  have hv : s.estado s.current ≠ .empty := by
    rw [h]
    decide
  refine Marca.pon hs ⟨htid, huser, hprio, hctx, hpila, iff_of_false he hv⟩ hq hv
    (by rw [h]; decide) (fun h ↦ absurd h hr) fun hidle ↦ ?_
  rcases ht with ht | ht
  · exact .inl ht
  · exact absurd hidle.symm ht

private theorem marca_markYield {s : Scheduler} (hs : Inv s) : Marca s s.markYield none := by
  rw [markYield]
  split
  · next h =>
    exact Marca.corre hs h (.inl rfl) (fun h ↦ TaskState.noConfusion h)
      (fun h ↦ TaskState.noConfusion h) rfl rfl rfl rfl rfl rfl
  · exact Marca.nada hs

private theorem marca_markExit {s : Scheduler} (hs : Inv s) (hidle : some s.current ≠ s.idle) :
    Marca s s.markExit
      (if s.current ≠ 0 ∧ s.estado s.current = .running then some s.current else none) := by
  rw [markExit]
  split
  · next h =>
    exact Marca.corre hs h.2 (.inr hidle) (fun h ↦ TaskState.noConfusion h)
      (fun h ↦ TaskState.noConfusion h) rfl rfl rfl rfl rfl rfl
  · exact Marca.nada hs

private theorem marca_markWait {s : Scheduler} (hs : Inv s) (hidle : some s.current ≠ s.idle)
    (key deadline : UInt64) : Marca s (s.markWait key deadline) none := by
  rw [markWait]
  split
  · next h =>
    exact Marca.corre hs h (.inr hidle) (fun h ↦ TaskState.noConfusion h)
      (fun h ↦ TaskState.noConfusion h) rfl rfl rfl rfl rfl rfl
  · exact Marca.nada hs

private theorem retoque_despierta {t : Task} (h : t.state = .blocked) : Retoque t (despierta t) :=
  ⟨rfl, rfl, rfl, rfl, rfl, iff_of_false (fun h ↦ TaskState.noConfusion h) (by rw [h]; decide)⟩

private theorem marca_despierta {s : Scheduler} (hs : Inv s) {f : Task → Task}
    (hf : ∀ t, f t = t ∨ t.state = .blocked ∧ f t = despierta t) :
    Marca s { s with tasks := fun i ↦ f (s.tasks i) } none := by
  have hfijo : ∀ t, Retoque t (f t) ∧ (f t).quantum = t.quantum := by
    intro t
    rcases hf t with h | ⟨hb, h⟩
    · rw [h]
      exact ⟨Retoque.refl t, rfl⟩
    · rw [h]
      exact ⟨retoque_despierta hb, rfl⟩
  refine Marca.retoca hs rfl rfl (fun i ↦ (hfijo _).1) (fun i ↦ ?_) (hs.largo.retoca fun i ↦
    ⟨(hfijo _).1.vacia, (hfijo _).1.isUser, (hfijo _).2⟩)
  rcases hf (s.tasks i) with h | ⟨hb, h⟩
  · exact .inl (congrArg Task.state h)
  · exact .inr ⟨hb, congrArg Task.state h⟩

/-- A tick leaves a task as it is, or ends its wait. -/
theorem vence_cases (now : UInt64) (t : Task) :
    vence now t = t ∨ t.state = .blocked ∧ vence now t = despierta t := by
  rw [vence]
  split
  · next h => exact .inr ⟨h.1, rfl⟩
  · split
    · next h => exact .inr ⟨h.1, rfl⟩
    · exact .inl rfl

private theorem avisa_cases (key : UInt64) (t : Task) :
    avisa key t = t ∨ t.state = .blocked ∧ avisa key t = despierta t := by
  rw [avisa]
  split
  · next h => exact .inr ⟨h.1, rfl⟩
  · exact .inl rfl

private theorem marca_ticks {s : Scheduler} (hs : Inv s) (n : UInt16) :
    Marca s (s.pon s.current { s.tasks s.current with remainingTicks := n }) none := by
  have hr : Retoque (s.tasks s.current) { s.tasks s.current with remainingTicks := n } :=
    ⟨rfl, rfl, rfl, rfl, rfl, Iff.rfl⟩
  refine Marca.retoca hs rfl rfl (retoque_pon hr) (fun i ↦ .inl ?_) (hs.largo.pon hr rfl)
  rw [estado_pon]
  split
  · next h => rw [h, estado]
  · rfl

private theorem marca_delante {s : Scheduler} (hs : Inv s) (tid : UInt32) :
    Marca s { s with tasks := fun i ↦ turno tid (s.tasks i) } none := by
  have hfijo : ∀ t, Retoque t (turno tid t) ∧ (turno tid t).state = t.state := by
    intro t
    rw [turno]
    split
    · exact ⟨Retoque.refl t, rfl⟩
    · exact ⟨⟨rfl, rfl, rfl, rfl, rfl, Iff.rfl⟩, rfl⟩
  have hlargo : ∀ {t}, t.isUser = true → t.state ≠ .empty →
      (turno tid t).quantum = quantumDelante → t.tid = tid := by
    intro t hu hv hq
    rw [turno, if_neg (by rw [hu, not_or]; exact ⟨by decide, hv⟩)] at hq
    dsimp only at hq
    split at hq
    · next h => exact h
    · exact absurd hq (by decide)
  refine Marca.retoca hs rfl rfl (fun i ↦ (hfijo _).1) (fun i ↦ .inl (hfijo _).2) ?_
  intro i j hvi hvj hi hj hqi hqj
  have hvi' : s.estado i ≠ .empty := fun h ↦ hvi ((hfijo _).2.trans h)
  have hvj' : s.estado j ≠ .empty := fun h ↦ hvj ((hfijo _).2.trans h)
  refine hs.tids i j hvi' hvj' ?_
  rw [hlargo ((hfijo _).1.isUser.symm.trans hi) hvi' hqi,
    hlargo ((hfijo _).1.isUser.symm.trans hj) hvj' hqj]

private theorem marca_terminar {s : Scheduler} (hs : Inv s) {i : Fin maxTasks}
    (h : s.cerrable i = true) : Marca s (s.ponEstado i .exited) (some i) := by
  rw [cerrable, decide_eq_true_eq] at h
  obtain ⟨huser, hv, hno⟩ := h
  refine Marca.pon hs (t := { s.tasks i with state := .exited })
    ⟨rfl, rfl, rfl, rfl, rfl, iff_of_false (fun h ↦ TaskState.noConfusion h) hv⟩ rfl hv hno
    (fun h ↦ TaskState.noConfusion h) fun hidle ↦ ?_
  obtain ⟨k, hk, hku, -⟩ := hs.idle
  rw [← Option.some.inj (hk.symm.trans hidle), hku] at huser
  cases huser

private theorem Vuelve.pon {s : Scheduler} {sal : Saliente} (hv : s.Vuelve sal) {t : Task}
    (h : t.contextRsp = (s.tasks s.current).contextRsp) :
    (s.pon s.current t).Vuelve sal := by
  rw [Vuelve, pon_current, pon_tasks, if_pos rfl, h]
  exact hv

private theorem turna_wait {s : Scheduler} (hs : Inv s)
    (hl : some s.current ≠ s.idle ∧ s.Vuelve .publicado) (m : Maquina) (key deadline : UInt64) :
    Marca s (s.markWait key deadline) none ∧
      Turna (s.markWait key deadline) (s.waitCurrent m key deadline) := by
  have hm := marca_markWait hs hl.1 key deadline
  refine ⟨hm, turna_scheduleLocked hm.inv m ?_⟩
  rw [markWait]
  split
  · exact Vuelve.pon hl.2 rfl
  · exact hl.2

private theorem opera_cases {s : Scheduler} (hs : Inv s) {o : Operacion} (hl : s.Limpia o) :
    (∃ t, Marca s t (s.mata o) ∧ Turna t (s.opera o)) ∨
    (∃ t, s.opera o = (s.spawn t).2 ∧ s.mata o = none ∧ t.state = .ready ∧
      t.quantum = defaultQuantumTicks ∧ t.contextRsp ≠ 0 ∧ s.TidLibre) := by
  have hquieta : ∀ {t : Scheduler}, Marca s t (s.mata o) → s.opera o = t.quieto →
      ∃ t, Marca s t (s.mata o) ∧ Turna t (s.opera o) :=
    fun hm heq ↦ ⟨_, hm, heq ▸ turna_quieto hm.inv⟩
  cases o with
  | trap rsp =>
    exact .inl (hquieta (Marca.retoca (t := { s with trapRsp := rsp }) hs rfl rfl
      (fun i ↦ Retoque.refl _) (fun i ↦ .inl rfl) hs.largo) rfl)
  | onTimer m =>
    have hm := marca_despierta hs (vence_cases m.rdtsc)
    left
    simp only [opera, onTimer]
    split
    · have hm' := hm.trans (marca_ticks hm.inv
        ((vence m.rdtsc (s.tasks s.current)).remainingTicks - 1))
      exact ⟨_, hm', turna_quieto hm'.inv⟩
    · have hm' := hm.trans (marca_ticks hm.inv (vence m.rdtsc (s.tasks s.current)).quantum)
      refine ⟨_, hm', turna_scheduleLocked hm'.inv m ?_⟩
      have hctx : (vence m.rdtsc (s.tasks s.current)).contextRsp =
          (s.tasks s.current).contextRsp := by
        rcases vence_cases m.rdtsc (s.tasks s.current) with h | ⟨-, h⟩ <;> rw [h]
        rfl
      refine Vuelve.pon ?_ rfl
      rw [Vuelve]
      dsimp only
      rw [hctx]
      exact hl
  | yieldCurrent m =>
    have hm := marca_markYield hs
    refine .inl ⟨_, hm, turna_scheduleLocked hm.inv m ?_⟩
    rw [markYield]
    split
    · exact Vuelve.pon hl rfl
    · exact hl
  | exitCurrent m =>
    have hm := marca_markExit hs hl.1
    refine .inl ⟨_, hm, turna_scheduleLocked hm.inv m ?_⟩
    rw [markExit]
    split
    · exact Vuelve.pon hl.2 rfl
    · exact hl.2
  | killCurrentAndPick m =>
    have hm := marca_markExit hs hl.1
    refine .inl ⟨_, hm, turna_scheduleLocked hm.inv m ?_⟩
    rw [markExit]
    split
    · exact Vuelve.pon hl.2 rfl
    · exact hl.2
  | waitCurrent m key deadline => exact .inl ⟨_, turna_wait hs hl m key deadline⟩
  | waitCurrentChecked m key deadline observed seq =>
    simp only [opera, waitCurrentChecked]
    split
    · exact .inl ⟨s, Marca.nada hs, turna_quieto hs⟩
    · exact .inl ⟨_, turna_wait hs hl m key deadline⟩
  | parkUntil deadline => exact .inl (hquieta (marca_markWait hs hl 0 deadline) rfl)
  | exitAndPark => exact .inl (hquieta (marca_markExit hs hl) rfl)
  | wakeByKey key => exact .inl (hquieta (marca_despierta hs (avisa_cases key)) rfl)
  | spawnKernel stackBase context priority =>
    cases stackBase with
    | none => exact .inl ⟨s, Marca.nada hs, turna_quieto hs⟩
    | some stackBase => exact .inr ⟨_, rfl, rfl, rfl, rfl, hl.1, hl.2⟩
  | spawnUser pid context stackPhys stackPages stackTop cr3 priority =>
    exact .inr ⟨_, rfl, rfl, rfl, rfl, hl.1, hl.2⟩
  | delante tid => exact .inl (hquieta (marca_delante hs tid) rfl)
  | terminar tid =>
    simp only [opera, terminar, mata]
    cases s.deTid tid with
    | none => exact .inl ⟨s, Marca.nada hs, turna_quieto hs⟩
    | some i =>
      cases h : s.cerrable i with
      | true =>
        have hm := marca_terminar hs h
        simp only [Option.filter_some, h, if_true]
        exact .inl ⟨_, hm, turna_quieto hm.inv⟩
      | false =>
        simp only [Option.filter_some, h]
        exact .inl ⟨s, Marca.nada hs, turna_quieto hs⟩
  | reap m =>
    refine .inl ⟨s, Marca.nada hs, turna_reap hs m (fun i ↦ ⟨Iff.rfl, Iff.rfl, rfl⟩) fun n hn ↦ ?_⟩
    exact absurd hn.symm (Option.some_ne_none n)

end Scheduler

/-! ### The invariant of the census -/

/-- Tasks in the table have numbers of their own, the exited ones are those that were ended, and the
numbers of the tasks that are gone are those recycled. -/
structure Llevado (c : Censo) : Prop where
  inv : c.sched.Inv
  nacidas : ∀ i, c.Vive i → c.cuna i < c.nacidos
  cunas : ∀ i j, c.Vive i → c.Vive j → c.cuna i = c.cuna j → i = j
  exited : ∀ i, c.sched.estado i = .exited ↔ c.Vive i ∧ c.cuna i ∈ c.muertos
  muertos : ∀ b ∈ c.muertos, b < c.nacidos
  sueltos : c.sueltos.Nodup
  soltados : ∀ b ∈ c.sueltos, b < c.nacidos
  presentes : ∀ i, c.Vive i → c.cuna i ∉ c.sueltos
  ausentes : ∀ b < c.nacidos, (∀ i, c.Vive i → c.cuna i ≠ b) → b ∈ c.sueltos

namespace Llevado

variable {c : Censo}

theorem exacto (hc : Llevado c) : c.Exacto where
  corre := hc.inv.corre
  muertos i hv hm := (hc.exited i).mpr ⟨hv, hm⟩
  sueltos := hc.sueltos
  presentes := hc.presentes
  ausentes := hc.ausentes
  tids := hc.inv.tids
  largo := hc.inv.largo

/-- The census after an operation that makes no task. -/
private def sigue (c : Censo) (mata : Option (Fin maxTasks)) (e : Efecto) : Censo where
  sched := e.scheduler
  cuna := c.cuna
  nacidos := c.nacidos
  muertos := (mata.elim [] fun i ↦ [c.cuna i]) ++ c.muertos
  sueltos := c.sueltos ++ e.recogidas.map fun x ↦ c.cuna x.ranura

private theorem mem_muertos {mata : Option (Fin maxTasks)} {e : Efecto} (b : Nat) :
    b ∈ (sigue c mata e).muertos ↔ (∃ i, mata = some i ∧ b = c.cuna i) ∨ b ∈ c.muertos := by
  rw [sigue]
  cases mata <;> simp

private theorem ranuras {mata : Option (Fin maxTasks)} {t : Scheduler} {e : Efecto}
    (hm : c.sched.Marca t mata) (ht : t.Turna e) (i : Fin maxTasks) :
    (i ∈ e.recogidas.map Recogida.ranura ∧ ¬ (sigue c mata e).Vive i ∧ c.Vive i ∧
      (c.sched.estado i = .exited ∨ mata = some i)) ∨
    (i ∉ e.recogidas.map Recogida.ranura ∧ ((sigue c mata e).Vive i ↔ c.Vive i) ∧
      (e.scheduler.estado i = .exited ↔ c.sched.estado i = .exited ∨ mata = some i)) := by
  by_cases hi : i ∈ e.recogidas.map Recogida.ranura
  · obtain ⟨hempty, hex, -⟩ := ht.vacia i hi
    refine .inl ⟨hi, fun hv ↦ hv hempty, fun hv ↦ ?_, (hm.muerta i).mp hex⟩
    rw [(hm.vacia i).mpr hv] at hex
    cases hex
  · obtain ⟨hex, hempty⟩ := ht.queda i hi
    exact .inr ⟨hi, not_congr (hempty.trans (hm.vacia i)), hex.trans (hm.muerta i)⟩

private theorem llevado_sigue (hc : Llevado c) {mata : Option (Fin maxTasks)} {t : Scheduler}
    {e : Efecto} (hm : c.sched.Marca t mata) (ht : t.Turna e) : Llevado (sigue c mata e) := by
  have hvive : ∀ {i}, (sigue c mata e).Vive i →
      i ∉ e.recogidas.map Recogida.ranura ∧ c.Vive i := by
    intro i hi
    rcases ranuras hm ht i with ⟨-, hno, -⟩ | ⟨hi', hv, -⟩
    · exact absurd hi hno
    · exact ⟨hi', hv.mp hi⟩
  have hrec : ∀ {b}, b ∈ e.recogidas.map (fun x ↦ c.cuna x.ranura) →
      ∃ i ∈ e.recogidas.map Recogida.ranura, c.Vive i ∧ c.cuna i = b := by
    intro b hb
    obtain ⟨x, hx, rfl⟩ := List.mem_map.mp hb
    have hi := List.mem_map_of_mem (f := Recogida.ranura) hx
    rcases ranuras hm ht x.ranura with ⟨-, -, hv, -⟩ | ⟨hno, -⟩
    · exact ⟨x.ranura, hi, hv, rfl⟩
    · exact absurd hi hno
  constructor
  · exact ht.inv
  · exact fun i hi ↦ hc.nacidas i (hvive hi).2
  · exact fun i j hi hj ↦ hc.cunas i j (hvive hi).2 (hvive hj).2
  · intro i
    show e.scheduler.estado i = .exited ↔ _ ∧ c.cuna i ∈ _
    rw [mem_muertos]
    rcases ranuras hm ht i with ⟨-, hno, -⟩ | ⟨-, hv, hex⟩
    · refine iff_of_false (fun h ↦ hno fun he ↦ ?_) fun h ↦ hno h.1
      exact absurd (h.symm.trans he) (by decide)
    · rw [hex, hv, hc.exited]
      constructor
      · rintro (⟨hv, hmem⟩ | hmata)
        · exact ⟨hv, .inr hmem⟩
        · exact ⟨hm.viva i hmata, .inl ⟨i, hmata, rfl⟩⟩
      · rintro ⟨hv, ⟨j, hmata, heq⟩ | hmem⟩
        · rw [hc.cunas i j hv (hm.viva j hmata) heq]
          exact .inr hmata
        · exact .inl ⟨hv, hmem⟩
  · intro b hb
    rcases (mem_muertos b).mp hb with ⟨i, hmata, rfl⟩ | hb
    · exact hc.nacidas i (hm.viva i hmata)
    · exact hc.muertos b hb
  · refine List.Nodup.append hc.sueltos ?_ fun b hb hb' ↦ ?_
    · have hmap : e.recogidas.map (fun x ↦ c.cuna x.ranura) =
          (e.recogidas.map Recogida.ranura).map c.cuna := by
        rw [List.map_map]
        rfl
      rw [hmap]
      refine (List.nodup_map_iff_inj_on ht.ranuras).mpr fun i hi j hj heq ↦ ?_
      have hviva : ∀ {i}, i ∈ e.recogidas.map Recogida.ranura → c.Vive i := by
        intro i hi
        rcases ranuras hm ht i with ⟨-, -, hv, -⟩ | ⟨hno, -⟩
        · exact hv
        · exact absurd hi hno
      exact hc.cunas i j (hviva hi) (hviva hj) heq
    · obtain ⟨i, -, hv, rfl⟩ := hrec hb'
      exact hc.presentes i hv hb
  · intro b hb
    rcases List.mem_append.mp hb with hb | hb
    · exact hc.soltados b hb
    · obtain ⟨i, -, hv, rfl⟩ := hrec hb
      exact hc.nacidas i hv
  · intro i hi hmem
    obtain ⟨hno, hv⟩ := hvive hi
    rcases List.mem_append.mp hmem with hmem | hmem
    · exact hc.presentes i hv hmem
    · obtain ⟨j, hj, hvj, heq⟩ := hrec hmem
      exact hno (hc.cunas j i hvj hv heq ▸ hj)
  · intro b hb hno
    by_cases hex : ∃ i, c.Vive i ∧ c.cuna i = b
    · obtain ⟨i, hv, rfl⟩ := hex
      rcases ranuras hm ht i with ⟨hi, -⟩ | ⟨-, hv', -⟩
      · obtain ⟨x, hx, rfl⟩ := List.mem_map.mp hi
        exact List.mem_append_right _ (List.mem_map.mpr ⟨x, hx, rfl⟩)
      · exact absurd rfl (hno i (hv'.mpr hv))
    · exact List.mem_append_left _ (hc.ausentes b hb fun i hv heq ↦ hex ⟨i, hv, heq⟩)

private theorem paso_turna {o : Operacion} {t : Scheduler} (ht : t.Turna (c.sched.opera o)) :
    c.paso o = sigue c (c.sched.mata o) (c.sched.opera o) := by
  rw [Censo.paso, ht.nueva]
  rfl

private theorem cumple_turna (hc : Llevado c) {o : Operacion} {t : Scheduler}
    (hm : c.sched.Marca t (c.sched.mata o)) (ht : t.Turna (c.sched.opera o)) : c.Cumple o where
  idle k hk hidle i hi := by
    refine ((ht.elegida k hk).2 i hi).2 ?_
    rw [hm.idle]
    exact hidle
  elegida n hn := ⟨(ht.elegida n hn).1, fun i hi ↦ ((ht.elegida n hn).2 i hi).1⟩
  recogidas x hx := by
    have hi := List.mem_map_of_mem (f := Recogida.ranura) hx
    obtain ⟨hempty, hex, hne⟩ := ht.vacia x.ranura hi
    refine ⟨hne, hempty, ?_, ?_⟩
    · rw [ht.marcos x hx, hm.pila]
    · rw [paso_turna ht, mem_muertos]
      rcases (hm.muerta x.ranura).mp hex with h | h
      · exact .inr ((hc.exited x.ranura).mp h).2
      · exact .inl ⟨x.ranura, h, rfl⟩

end Llevado

namespace Scheduler

private theorem hueco_vacio {s : Scheduler} {i : Fin maxTasks} (h : s.hueco = some i) :
    s.estado i = .empty := by
  rw [hueco] at h
  have hi := List.find?_some h
  exact of_decide_eq_true hi

private theorem Inv.nace {s : Scheduler} (hs : Inv s) {i : Fin maxTasks}
    (hi : s.estado i = .empty) {t : Task} (hstate : t.state = .ready)
    (hq : t.quantum = defaultQuantumTicks) (hctx : t.contextRsp ≠ 0)
    (htid : ∀ j, s.estado j ≠ .empty → (s.tasks j).tid ≠ t.tid) (next : UInt32) :
    Inv { s.pon i t with nextTid := next } := by
  have htasks : ∀ j, ({ s.pon i t with nextTid := next } : Scheduler).tasks j =
      if j = i then t else s.tasks j := fun j ↦ s.pon_tasks i j t
  have hest : ∀ j, ({ s.pon i t with nextTid := next } : Scheduler).estado j =
      if j = i then .ready else s.estado j := by
    intro j
    rw [← hstate]
    exact s.estado_pon i j t
  constructor
  · intro j hj
    rw [hest] at hj
    split at hj
    · cases hj
    · exact hs.corre j hj
  · intro j k hj hk heq
    rw [hest] at hj hk
    rw [htasks, htasks] at heq
    by_cases hji : j = i
    · by_cases hki : k = i
      · rw [hji, hki]
      · rw [if_pos hji, if_neg hki] at heq
        rw [if_neg hki] at hk
        exact absurd heq.symm (htid k hk)
    · rw [if_neg hji] at hj heq
      by_cases hki : k = i
      · rw [if_pos hki] at heq
        exact absurd heq (htid j hj)
      · rw [if_neg hki] at hk heq
        exact hs.tids j k hj hk heq
  · intro j hj hv
    rw [hest] at hv
    rw [htasks]
    split
    · exact hctx
    · next hji =>
      rw [if_neg hji] at hv
      exact hs.contexto j hj hv
  · obtain ⟨k, hk, huser, hprio, hestk⟩ := hs.idle
    have hki : k ≠ i := by
      rintro rfl
      rw [hi] at hestk
      rcases hestk with h | h <;> cases h
    refine ⟨k, hk, ?_⟩
    rw [htasks, hest, if_neg hki, if_neg hki]
    exact ⟨huser, hprio, hestk⟩
  · rw [hest]
    split
    · decide
    · exact hs.viva
  · intro j k hj hk huj huk hqj hqk
    rw [hest] at hj hk
    rw [htasks] at huj huk hqj hqk
    have hdef : defaultQuantumTicks ≠ quantumDelante := by decide
    split at hqj
    · exact absurd (hq.symm.trans hqj) hdef
    · next hji =>
      split at hqk
      · exact absurd (hq.symm.trans hqk) hdef
      · next hki =>
        rw [if_neg hji] at hj huj
        rw [if_neg hki] at hk huk
        exact hs.largo j k hj hk huj huk hqj hqk

end Scheduler

namespace Llevado

variable {c : Censo}

private theorem nace (hc : Llevado c) {i : Fin maxTasks} (hi : c.sched.estado i = .empty)
    {s : Scheduler} (hs : s.Inv)
    (hest : ∀ j, s.estado j = if j = i then .ready else c.sched.estado j) :
    Llevado ⟨s, Function.update c.cuna i c.nacidos, c.nacidos + 1, c.muertos, c.sueltos⟩ := by
  have hvive : ∀ {j}, s.estado j ≠ .empty → j = i ∨ j ≠ i ∧ c.Vive j := by
    intro j hj
    rw [hest] at hj
    split at hj
    · next h => exact .inl h
    · next h => exact .inr ⟨h, hj⟩
  have hcuna : ∀ {j}, j ≠ i → Function.update c.cuna i c.nacidos j = c.cuna j :=
    fun hj ↦ Function.update_of_ne hj ..
  constructor
  · exact hs
  · intro j hj
    dsimp only
    rcases hvive hj with rfl | ⟨hji, hv⟩
    · rw [Function.update_self]
      omega
    · rw [hcuna hji]
      have := hc.nacidas j hv
      omega
  · intro j k hj hk heq
    dsimp only at heq
    rcases hvive hj with rfl | ⟨hji, hvj⟩
    · rcases hvive hk with rfl | ⟨hki, hvk⟩
      · rfl
      · rw [Function.update_self, hcuna hki] at heq
        have := hc.nacidas k hvk
        omega
    · rcases hvive hk with rfl | ⟨hki, hvk⟩
      · rw [Function.update_self, hcuna hji] at heq
        have := hc.nacidas j hvj
        omega
      · rw [hcuna hji, hcuna hki] at heq
        exact hc.cunas j k hvj hvk heq
  · intro j
    show s.estado j = .exited ↔ s.estado j ≠ .empty ∧
      Function.update c.cuna i c.nacidos j ∈ c.muertos
    rw [hest]
    by_cases hji : j = i
    · rw [if_pos hji, hji, Function.update_self]
      refine iff_of_false (by decide) fun h ↦ ?_
      exact Nat.lt_irrefl _ (hc.muertos _ h.2)
    · rw [if_neg hji, hcuna hji]
      exact hc.exited j
  · exact fun b hb ↦ Nat.lt_succ_of_lt (hc.muertos b hb)
  · exact hc.sueltos
  · exact fun b hb ↦ Nat.lt_succ_of_lt (hc.soltados b hb)
  · intro j hj
    dsimp only
    rcases hvive hj with rfl | ⟨hji, hv⟩
    · rw [Function.update_self]
      exact fun h ↦ Nat.lt_irrefl _ (hc.soltados _ h)
    · rw [hcuna hji]
      exact hc.presentes j hv
  · intro b hb hno
    dsimp only at hb hno ⊢
    have hready : s.estado i ≠ .empty := by
      rw [hest, if_pos rfl]
      decide
    have hne : c.nacidos ≠ b := by
      have h := hno i hready
      rwa [Function.update_self] at h
    refine hc.ausentes b (by omega) fun j hv heq ↦ ?_
    have hji : j ≠ i := by
      rintro rfl
      exact hv hi
    refine hno j ?_ ?_
    · show s.estado j ≠ .empty
      rw [hest, if_neg hji]
      exact hv
    · rw [hcuna hji]
      exact heq

private theorem paso (hc : Llevado c) {o : Operacion} (hl : c.sched.Limpia o) :
    Llevado (c.paso o) ∧ c.Cumple o := by
  rcases Scheduler.opera_cases hc.inv hl with ⟨t, hm, ht⟩ | ⟨t, ho, hmata, hstate, hq, hctx, htid⟩
  · rw [paso_turna ht]
    exact ⟨hc.llevado_sigue hm ht, hc.cumple_turna hm ht⟩
  · cases hh : c.sched.hueco with
    | none =>
      have ho' : c.sched.opera o = c.sched.quieto := by
        rw [ho, Scheduler.spawn, hh]
      have hm := Scheduler.Marca.nada hc.inv
      rw [← hmata] at hm
      have ht := Scheduler.turna_quieto hc.inv
      rw [← ho'] at ht
      rw [paso_turna ht]
      exact ⟨hc.llevado_sigue hm ht, hc.cumple_turna hm ht⟩
    | some i =>
      have hi := Scheduler.hueco_vacio hh
      have ho' : c.sched.opera o = ⟨{ c.sched.pon i { t with tid := c.sched.nextTid } with
          nextTid := Scheduler.siguienteTid c.sched.nextTid }, none, [], some i⟩ := by
        rw [ho, Scheduler.spawn, hh]
      have hinv := hc.inv.nace hi (t := { t with tid := c.sched.nextTid }) hstate hq hctx htid
        (Scheduler.siguienteTid c.sched.nextTid)
      have hpaso : c.paso o = ⟨{ c.sched.pon i { t with tid := c.sched.nextTid } with
          nextTid := Scheduler.siguienteTid c.sched.nextTid },
          Function.update c.cuna i c.nacidos, c.nacidos + 1, c.muertos, c.sueltos⟩ := by
        rw [Censo.paso, ho', hmata]
        simp
      constructor
      · rw [hpaso]
        refine hc.nace hi hinv fun j ↦ ?_
        rw [← hstate]
        exact c.sched.estado_pon i j _
      · constructor
        · intro k hk
          rw [ho'] at hk
          exact absurd hk.symm (Option.some_ne_none k)
        · intro n hn
          rw [ho'] at hn
          exact absurd hn.symm (Option.some_ne_none n)
        · intro x hx
          rw [ho'] at hx
          exact absurd hx List.not_mem_nil

end Llevado

/-! ### The theorem -/

namespace Scheduler

/-- The idle task as `init_idle` makes it. -/
def ociosa (stackBase context : UInt64) : Task :=
  { Task.empty with
    tid := 2
    state := .ready
    remainingTicks := defaultQuantumTicks
    contextRsp := context
    stackPhys := stackBase
    stackPages := taskStackPages
    kernelStackTop := physToVirt stackBase + taskStackPages * page }

private theorem arranque_eq (stackBase context : UInt64) : arranque stackBase context =
    { init.pon 1 (ociosa stackBase context) with nextTid := 3, idle := some 1 } := by
  have hh : init.hueco = some 1 := by decide
  rw [arranque, initIdle, spawnKernel, spawn, hh]
  rfl

end Scheduler

private theorem tasks_arranque (stackBase context : UInt64) (i : Fin maxTasks) :
    (Scheduler.arranque stackBase context).tasks i =
      if i = 1 then Scheduler.ociosa stackBase context
      else if i = 0 then Scheduler.boot else Task.empty := by
  have hinit : Scheduler.init.tasks i = if i = 0 then Scheduler.boot else Task.empty :=
    Function.update_apply (fun _ ↦ Task.empty) 0 Scheduler.boot i
  rw [Scheduler.arranque_eq, ← hinit]
  exact Scheduler.pon_tasks ..

private theorem estado_arranque (stackBase context : UInt64) (i : Fin maxTasks) :
    (Scheduler.arranque stackBase context).estado i =
      if i = 1 then .ready else if i = 0 then .running else .empty := by
  rw [Scheduler.estado, tasks_arranque]
  split
  · rfl
  · split <;> rfl

private theorem inv_arranque (stackBase : UInt64) {context : UInt64} (h : context ≠ 0) :
    (Scheduler.arranque stackBase context).Inv := by
  have hest := estado_arranque stackBase context
  have htasks := tasks_arranque stackBase context
  have hdos : ∀ {i}, (Scheduler.arranque stackBase context).estado i ≠ .empty →
      i = 1 ∨ i = 0 := by
    intro i hi
    rw [hest] at hi
    by_cases h1 : i = 1
    · exact .inl h1
    · by_cases h0 : i = 0
      · exact .inr h0
      · rw [if_neg h1, if_neg h0] at hi
        exact absurd rfl hi
  have hcur : (Scheduler.arranque stackBase context).current = 0 := by
    rw [Scheduler.arranque_eq]
    rfl
  constructor
  · intro i hi
    rw [hest] at hi
    split at hi
    · cases hi
    · split at hi
      · next h0 => rw [h0, hcur]
      · cases hi
  · intro i j hi hj heq
    rw [htasks, htasks] at heq
    rcases hdos hi with rfl | rfl <;> rcases hdos hj with rfl | rfl
    · rfl
    · rw [if_pos rfl, if_neg (by decide), if_pos rfl] at heq
      exact absurd heq (show (2 : UInt32) ≠ 1 by decide)
    · rw [if_neg (by decide), if_pos rfl, if_pos rfl] at heq
      exact absurd heq (show (1 : UInt32) ≠ 2 by decide)
    · rfl
  · intro i hi hv
    rcases hdos hv with rfl | rfl
    · rw [htasks, if_pos rfl]
      exact h
    · exact absurd hcur.symm hi
  · refine ⟨1, by rw [Scheduler.arranque_eq], ?_, ?_, ?_⟩
    · rw [htasks, if_pos rfl]
      rfl
    · rw [htasks, if_pos rfl]
      rfl
    · rw [hest, if_pos rfl]
      exact .inl rfl
  · rw [hcur, hest, if_neg (by decide), if_pos rfl]
    decide
  · intro i j hvi hvj hi
    rw [htasks] at hi
    rcases hdos hvi with rfl | rfl <;> cases hi

private theorem llevado_inicial (stackBase : UInt64) {context : UInt64} (h : context ≠ 0) :
    Llevado (.inicial stackBase context) := by
  have hest := estado_arranque stackBase context
  have hdos : ∀ {i}, (Censo.inicial stackBase context).Vive i → (i : Nat) < 2 := by
    intro i hi
    by_contra hno
    refine hi ?_
    show (Scheduler.arranque stackBase context).estado i = .empty
    rw [hest, if_neg, if_neg]
    · rintro rfl
      exact hno (by decide)
    · rintro rfl
      exact hno (by decide)
  constructor
  · exact inv_arranque stackBase h
  · exact fun i hi ↦ hdos hi
  · exact fun i j _ _ heq ↦ Fin.ext heq
  · intro i
    refine iff_of_false ?_ fun h ↦ List.not_mem_nil h.2
    show (Scheduler.arranque stackBase context).estado i ≠ .exited
    rw [hest]
    split
    · decide
    · split <;> decide
  · exact fun b hb ↦ absurd hb List.not_mem_nil
  · exact List.nodup_nil
  · exact fun b hb ↦ absurd hb List.not_mem_nil
  · exact fun i _ ↦ List.not_mem_nil
  · intro b hb hno
    have hb : b < 2 := hb
    refine absurd rfl (hno ⟨b, show b < 64 by omega⟩ ?_)
    show (Scheduler.arranque stackBase context).estado _ ≠ .empty
    rw [hest]
    by_cases h1 : b = 1
    · rw [if_pos (Fin.ext h1)]
      decide
    · have h0 : b = 0 := by omega
      rw [if_neg fun h ↦ h1 (Fin.val_eq_of_eq h), if_pos (Fin.ext h0)]
      decide

/-- In every run where new tasks get a free tid and a context, who leaves the CPU can come back to
it, and the idle task only idles: at most the current task runs, a task dies once, tids differ, one
user task at most has the long turn, and who is selected is who should. -/
theorem exacto_of_corre (c : Censo) (h : Corre Scheduler.Limpia c) :
    c.Exacto ∧ ∀ o, c.sched.Limpia o → c.Cumple o := by
  have hc : Llevado c := by
    induction h with
    | inicial stackBase context hctx => exact llevado_inicial stackBase hctx
    | paso o _ hl ih => exact (ih.paso hl).1
  exact ⟨hc.exacto, fun o hl ↦ (hc.paso hl).2⟩

/-- A user task is born, gets the CPU and ends there. -/
def muerta : Censo :=
  (((((Censo.inicial 0x800000 0x803000).paso (.trap 0x7000)).paso
    (.spawnUser 7 0x903000 0x900000 4 0x904000 0x6000 0)).paso
    (.yieldCurrent ⟨100, 0, 0x5000⟩)).paso (.trap 0x902000)).paso (.exitCurrent ⟨100, 0, 0x5000⟩)

private theorem corre_muerta : Corre Scheduler.Limpia muerta := by
  refine .paso _ (.paso _ (.paso _ (.paso _ (.paso _ (.inicial _ _ (by decide)) trivial)
    ⟨by decide, ?_⟩) (.inr ⟨rfl, ?_⟩)) trivial) ⟨?_, .inr ⟨rfl, ?_⟩⟩
  · rw [Scheduler.TidLibre]
    decide +kernel
  · decide +kernel
  · decide +kernel
  · decide +kernel

/-- The task that ended is the first user task of the run, and its slot is recycled. -/
theorem exacto_of_corre_muerta :
    muerta.Exacto ∧ muerta.Cumple (.reap ⟨100, 0, 0x5000⟩) ∧
    muerta.muertos = [2] ∧ (muerta.paso (.reap ⟨100, 0, 0x5000⟩)).sueltos = [2] := by
  obtain ⟨hexacto, hcumple⟩ := exacto_of_corre muerta corre_muerta
  exact ⟨hexacto, hcumple _ trivial, by decide +kernel, by decide +kernel⟩

/-! ### Tids come round -/

namespace Scheduler

/-- The machine at each turn of the long run. -/
def maquina0 : Maquina := ⟨0, 0, 0x5000⟩

/-- A user task of that run. -/
def fugaz (n : UInt32) : Task :=
  { Task.empty with
    tid := n
    pid := 7
    state := .ready
    remainingTicks := defaultQuantumTicks
    contextRsp := 0x903000
    stackPhys := 0x900000
    stackPages := 4
    isUser := true
    cr3 := 0x6000
    kernelStackTop := 0x904000 }

/-- The table between two user tasks. -/
def ocioso (n : UInt32) : Scheduler :=
  { arranque 0x800000 0x803000 with nextTid := n, trapRsp := 0x7000 }

private theorem tasks_ocioso (n : UInt32) (i : Fin maxTasks) : (ocioso n).tasks i =
    if i = 1 then ociosa 0x800000 0x803000 else if i = 0 then boot else Task.empty :=
  tasks_arranque ..

/-- The same, with the user task of the tid before. -/
private def conFugaz (n : UInt32) : Scheduler :=
  { (ocioso n).pon 2 (fugaz n) with nextTid := siguienteTid n }

private theorem tasks_conFugaz (n : UInt32) (i : Fin maxTasks) : (conFugaz n).tasks i =
    if i = 2 then fugaz n else (ocioso n).tasks i :=
  (ocioso n).pon_tasks 2 i (fugaz n)

private theorem ocioso_nace (n : UInt32) :
    (ocioso n).opera (.spawnUser 7 0x903000 0x900000 4 0x904000 0x6000 0) =
      ⟨conFugaz n, none, [], some 2⟩ := by
  have hh : (ocioso n).hueco = some 2 := by
    show (ocioso 3).hueco = some 2
    decide
  simp only [opera, spawnUser, spawn, hh]
  rfl

private theorem deTid_eq {s : Scheduler} {tid : UInt32} {i : Fin maxTasks}
    (hi : (s.tasks i).tid = tid) (h0 : i ≠ 0)
    (hno : ∀ j, j ≠ i → j ≠ 0 → (s.tasks j).tid ≠ tid) : s.deTid tid = some i := by
  cases h : s.deTid tid with
  | none =>
    rw [deTid, List.find?_eq_none] at h
    exact absurd (decide_eq_true (And.intro hi h0)) (h i (List.mem_finRange i))
  | some j =>
    rw [deTid] at h
    have hj := List.find?_some h
    have hj := of_decide_eq_true hj
    by_cases hji : j = i
    · rw [hji]
    · exact absurd hj.1 (hno j hji hj.2)

private theorem reap_una {s : Scheduler} {m : Maquina} {k : Fin maxTasks}
    (hk : s.estado k = .exited) (htid : (s.tasks k).tid ≠ (s.tasks s.current).tid)
    (hpisa : (s.tasks k).pisa m.rsp = false) (hno : ∀ i, i ≠ k → s.estado i ≠ .exited) :
    (s.reap m).2 = s.pon k .empty ∧ (s.reap m).1.map Recogida.ranura = [k] := by
  have hl : ∀ (l : List (Fin maxTasks)) (r : List Recogida × Scheduler), k ∉ l →
      (∀ i, i ≠ k → r.2.estado i ≠ .exited) →
      l.foldl (reapUna m (s.tasks s.current).tid) r = r := by
    intro l
    induction l with
    | nil => exact fun _ _ _ ↦ rfl
    | cons i l ih =>
      intro r hkl hr
      rw [List.mem_cons, not_or] at hkl
      have hi : reapUna m (s.tasks s.current).tid r i = r := by
        rw [reapUna]
        exact if_pos (.inl (hr i (Ne.symm hkl.1)))
      rw [List.foldl_cons, hi]
      exact ih r hkl.2 hr
  obtain ⟨l₁, l₂, hsplit⟩ := List.append_of_mem (List.mem_finRange k)
  have hnodup := List.nodup_finRange maxTasks
  rw [hsplit, List.nodup_append] at hnodup
  obtain ⟨-, hnodup2, hdisj⟩ := hnodup
  rw [reap, hsplit, List.foldl_append, List.foldl_cons]
  rw [hl l₁ _ (fun h ↦ hdisj k h k (.head _) rfl) hno]
  have hstep : ∃ e, reapUna m (s.tasks s.current).tid ([], s) k =
      ([⟨k, (s.tasks k).pila, e⟩], s.pon k .empty) := by
    rw [reapUna]
    dsimp only
    rw [if_neg (by rw [not_or, not_not]; exact ⟨hk, htid⟩), if_neg (by rw [hpisa]; decide)]
    exact ⟨_, rfl⟩
  obtain ⟨e, hstep⟩ := hstep
  rw [hstep, hl l₂ _ (List.nodup_cons.mp hnodup2).1 fun i hi ↦ ?_]
  · exact ⟨rfl, rfl⟩
  · rw [estado_pon, if_neg hi]
    exact hno i hi

private theorem conFugaz_termina {n : UInt32} (h0 : n ≠ 0) (h2 : n ≠ 2) :
    ((conFugaz n).opera (.terminar n)).scheduler = (conFugaz n).ponEstado 2 .exited := by
  have hde : (conFugaz n).deTid n = some 2 := by
    apply deTid_eq
    · rw [tasks_conFugaz, if_pos rfl]
      rfl
    · decide
    · intro j hj hj0
      rw [tasks_conFugaz, if_neg hj, tasks_ocioso, if_neg hj0]
      split
      · exact fun h ↦ h2 h.symm
      · exact fun h ↦ h0 h.symm
  have hcierra : (conFugaz n).cerrable 2 = true := by
    rw [cerrable, estado, tasks_conFugaz, if_pos rfl]
    rfl
  show ((conFugaz n).terminar n).2.scheduler = _
  rw [terminar, hde]
  dsimp only
  rw [if_pos hcierra]
  rfl

private theorem conFugaz_reap {n : UInt32} (h1 : n ≠ 1) :
    (((conFugaz n).ponEstado 2 .exited).reap maquina0).2 = ocioso (siguienteTid n) := by
  have hcur : ((conFugaz n).ponEstado 2 .exited).current = 0 := by
    show (arranque 0x800000 0x803000).current = 0
    rw [arranque_eq]
    rfl
  have hest : ∀ i, i ≠ 2 → ((conFugaz n).ponEstado 2 .exited).estado i ≠ .exited := by
    intro i hi
    rw [estado_ponEstado, if_neg hi, estado, tasks_conFugaz, if_neg hi, tasks_ocioso]
    split
    · decide
    · split <;> decide
  have ht2 : ((conFugaz n).ponEstado 2 .exited).tasks 2 = { fugaz n with state := .exited } := by
    rw [ponEstado, pon_tasks, if_pos rfl, tasks_conFugaz, if_pos rfl]
  have ht0 : ((conFugaz n).ponEstado 2 .exited).tasks 0 = boot := by
    rw [ponEstado, pon_tasks, if_neg (by decide), tasks_conFugaz, if_neg (by decide),
      tasks_ocioso, if_neg (by decide), if_pos rfl]
  have hk : ((conFugaz n).ponEstado 2 .exited).estado 2 = .exited := by
    rw [estado, ht2]
  have htid : (((conFugaz n).ponEstado 2 .exited).tasks 2).tid ≠
      (((conFugaz n).ponEstado 2 .exited).tasks
        ((conFugaz n).ponEstado 2 .exited).current).tid := by
    rw [hcur, ht2, ht0]
    exact h1
  have hpisa : (((conFugaz n).ponEstado 2 .exited).tasks 2).pisa maquina0.rsp = false := by
    rw [ht2]
    show (fugaz 3).pisa maquina0.rsp = false
    decide
  rw [(reap_una hk htid hpisa hest).1]
  have hfun : Function.update ((conFugaz n).ponEstado 2 .exited).tasks 2 Task.empty =
      (ocioso n).tasks := by
    funext i
    rw [Function.update_apply]
    split
    · next hi =>
      rw [hi, tasks_ocioso, if_neg (by decide), if_neg (by decide)]
    · next hi => rw [ponEstado, pon_tasks, if_neg hi, tasks_conFugaz, if_neg hi]
  rw [pon, hfun]
  rfl

private theorem opera_reap (s : Scheduler) (m : Maquina) :
    (s.opera (.reap m)).scheduler = (s.reap m).2 := by
  rw [opera]

private theorem vuelta {n : UInt32} (h0 : n ≠ 0) (h1 : n ≠ 1) (h2 : n ≠ 2) :
    (((((ocioso n).opera (.spawnUser 7 0x903000 0x900000 4 0x904000 0x6000 0)).scheduler.opera
      (.terminar n)).scheduler).opera (.reap maquina0)).scheduler = ocioso (siguienteTid n) := by
  rw [ocioso_nace]
  dsimp only
  rw [conFugaz_termina h0 h2, opera_reap]
  exact conFugaz_reap h1

end Scheduler

private theorem sched_paso (c : Censo) (o : Operacion) :
    (c.paso o).sched = (c.sched.opera o).scheduler := rfl

private theorem corre_vuelta {c : Censo} {n : UInt32} (hc : Corre (fun _ _ ↦ True) c)
    (hs : c.sched = .ocioso n) (h0 : n ≠ 0) (h1 : n ≠ 1) (h2 : n ≠ 2) :
    ∃ d, Corre (fun _ _ ↦ True) d ∧ d.sched = .ocioso (Scheduler.siguienteTid n) := by
  refine ⟨((c.paso (.spawnUser 7 0x903000 0x900000 4 0x904000 0x6000 0)).paso
    (.terminar n)).paso (.reap Scheduler.maquina0),
    .paso _ (.paso _ (.paso _ hc trivial) trivial) trivial, ?_⟩
  rw [sched_paso, sched_paso, sched_paso, hs]
  exact Scheduler.vuelta h0 h1 h2

private theorem ocioso_alcanzado (k : Nat) (hk : 3 + k < 2 ^ 32) :
    ∃ c, Corre (fun _ _ ↦ True) c ∧ c.sched = .ocioso (UInt32.ofNat (3 + k)) := by
  induction k with
  | zero =>
    exact ⟨(Censo.inicial 0x800000 0x803000).paso (.trap 0x7000),
      .paso (.trap 0x7000) (.inicial 0x800000 0x803000 (by decide)) trivial, rfl⟩
  | succ k ih =>
    obtain ⟨c, hc, hs⟩ := ih (by omega)
    have hn : ∀ m : Nat, m < 3 → UInt32.ofNat (3 + k) ≠ UInt32.ofNat m := by
      intro m hm he
      have h := congrArg UInt32.toNat he
      rw [UInt32.toNat_ofNat_of_lt' (show 3 + k < 2 ^ 32 by omega),
        UInt32.toNat_ofNat_of_lt' (show m < 2 ^ 32 by omega)] at h
      omega
    have hsig : Scheduler.siguienteTid (UInt32.ofNat (3 + k)) = UInt32.ofNat (3 + (k + 1)) := by
      have hadd : UInt32.ofNat (3 + k) + 1 = UInt32.ofNat (3 + (k + 1)) := by
        rw [← Nat.add_assoc 3 k 1, UInt32.ofNat_add (3 + k) 1]
        rfl
      rw [Scheduler.siguienteTid, hadd, if_neg]
      rw [UInt32.lt_iff_toNat_lt, UInt32.toNat_ofNat_of_lt' (show 3 + (k + 1) < 2 ^ 32 from hk)]
      show ¬ 3 + (k + 1) < 2
      omega
    rw [← hsig]
    exact corre_vuelta hc hs (hn 0 (by omega)) (hn 1 (by omega)) (hn 2 (by omega))

/-- The next tid comes round to that of the idle task, and the next user task gets it. -/
theorem no_siempre_exacto : ¬ ∀ c, Corre (fun _ _ ↦ True) c → c.Exacto ∧ ∀ o, c.Cumple o := by
  intro h
  obtain ⟨c, hc, hs⟩ := ocioso_alcanzado (2 ^ 32 - 4) (by decide)
  rw [show UInt32.ofNat (3 + (2 ^ 32 - 4)) = 0xFFFFFFFF by decide] at hs
  obtain ⟨d, hd, hds⟩ := corre_vuelta hc hs (by decide) (by decide) (by decide)
  rw [show Scheduler.siguienteTid 0xFFFFFFFF = 2 by decide] at hds
  have hfin := (h _ (.paso (.spawnUser 7 0x903000 0x900000 4 0x904000 0x6000 0) hd trivial)).1
  have hsched : (d.paso (.spawnUser 7 0x903000 0x900000 4 0x904000 0x6000 0)).sched =
      .conFugaz 2 := by
    rw [sched_paso, hds, Scheduler.ocioso_nace]
  have ht1 : (Scheduler.conFugaz 2).tasks 1 = Scheduler.ociosa 0x800000 0x803000 := by
    rw [Scheduler.tasks_conFugaz, if_neg (by decide), Scheduler.tasks_ocioso, if_pos rfl]
  have ht2 : (Scheduler.conFugaz 2).tasks 2 = Scheduler.fugaz 2 := by
    rw [Scheduler.tasks_conFugaz, if_pos rfl]
  refine absurd (hfin.tids 1 2 ?_ ?_ ?_) (by decide)
  · rw [Censo.Vive, Scheduler.estado, hsched, ht1]
    decide
  · rw [Censo.Vive, Scheduler.estado, hsched, ht2]
    decide
  · rw [hsched, ht1, ht2]
    rfl

end BmoX.Sched
