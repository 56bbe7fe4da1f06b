import Mathlib.Algebra.Order.Ring.Int
import Mathlib.Data.Nat.Bitwise
import Mathlib.Logic.Function.Basic
import Mathlib.Tactic.Common

/-!
# The scheduler

`kernel/src/ring0/task/scheduler/roja.rs`. A table of tasks, the index of the one that runs, and a
task for when there is nothing to do. A switch happens at a trap boundary: the context that came in
is kept in the task that leaves, and the one of the task that comes in is published for the epilogue
of the trap. Exited tasks are recycled afterwards, from the stack of somebody else.
-/

namespace BmoX.Sched

/-- `MAX_TASKS`; `scheduler/verde.rs:33`. -/
abbrev maxTasks : Nat := 64

instance : NeZero maxTasks := ⟨by decide⟩

/-- `DEFAULT_QUANTUM_TICKS` and `QUANTUM_DELANTE`; `scheduler/verde.rs:35–54`. -/
def defaultQuantumTicks : UInt16 := 4

def quantumDelante : UInt16 := 8

/-- `TASK_STACK_PAGES`; `scheduler/verde.rs:58`. -/
def taskStackPages : UInt64 := 4

/-- `mm::PAGE`. -/
def page : UInt64 := 4096

/-- `mm::phys_to_virt`; `mm/mod.rs`. -/
def physToVirt (phys : UInt64) : UInt64 := phys + 0xFFFF800000000000

/-- `latido::LLAVE`: what those who wait for the tick sleep on; `obj/latido.rs:76`. -/
def latidoLlave : UInt64 := 0x1A71D0

/-- `TaskState`; `scheduler/verde.rs:61–69`. -/
inductive TaskState
  | empty
  | ready
  | running
  | blocked
  | exited
  deriving DecidableEq

/-- `Task`; `scheduler/roja.rs:48–88`. -/
structure Task where
  tid : UInt32
  pid : UInt32
  state : TaskState
  priority : UInt8
  remainingTicks : UInt16
  quantum : UInt16
  contextRsp : UInt64
  stackPhys : UInt64
  stackPages : UInt64
  waitKey : UInt64
  waitDeadline : UInt64
  isUser : Bool
  cr3 : UInt64
  kernelStackTop : UInt64
  cpuCiclos : UInt64
  entroEn : UInt64

namespace Task

/-- `Task::EMPTY`; `scheduler/roja.rs:92–109`. -/
def empty : Task where
  tid := 0
  pid := 0
  state := .empty
  priority := 0
  remainingTicks := 0
  quantum := defaultQuantumTicks
  contextRsp := 0
  stackPhys := 0
  stackPages := 0
  waitKey := 0
  waitDeadline := 0
  isUser := false
  cr3 := 0
  kernelStackTop := 0
  cpuCiclos := 0
  entroEn := 0

/-- The frames of the kernel stack of a task. -/
def pila (t : Task) : List UInt64 :=
  if t.stackPhys = 0 then []
  else (List.range t.stackPages.toNat).map fun p ↦ t.stackPhys + UInt64.ofNat p * page

/-- The stack pointer lies in the kernel stack of the task. -/
def pisa (t : Task) (rsp : UInt64) : Bool :=
  t.stackPhys ≠ 0 ∧ rsp ≥ physToVirt t.stackPhys ∧
    rsp < physToVirt t.stackPhys + t.stackPages * page

end Task

/-- The scheduler: its table with `IDLE`, and what `percpu`, the TSS and the control register
hold. -/
structure Scheduler where
  tasks : Fin maxTasks → Task
  current : Fin maxTasks
  nextTid : UInt32
  idle : Option (Fin maxTasks)
  trapRsp : UInt64
  cr3 : UInt64
  tssRsp0 : UInt64
  syscallStackTop : UInt64

/-- What the scheduler reads of the machine: the clock, the stack pointer, and the page tables of
the kernel. -/
structure Maquina where
  rdtsc : UInt64
  rsp : UInt64
  kernelPml4 : UInt64

/-- A slot that `reap` recycled: the frames it gave back, and the address space it destroyed. -/
structure Recogida where
  ranura : Fin maxTasks
  marcos : List UInt64
  espacio : Option UInt64

/-- Is there an outgoing context to keep? `scheduler/roja.rs:498–504`. -/
inductive Saliente
  | publicado
  | ninguno
  deriving DecidableEq

/-- What an operation leaves: the scheduler, the slot that `schedule_locked` selected, the slots
that `reap` recycled, and the slot of a new task. -/
structure Efecto where
  scheduler : Scheduler
  elegida : Option (Fin maxTasks)
  recogidas : List Recogida
  nueva : Option (Fin maxTasks)

namespace Scheduler

/-- The state of the task in a slot. -/
def estado (s : Scheduler) (i : Fin maxTasks) : TaskState := (s.tasks i).state

/-- Write the task of a slot. -/
def pon (s : Scheduler) (i : Fin maxTasks) (t : Task) : Scheduler :=
  { s with tasks := Function.update s.tasks i t }

/-- Write the state of a slot. -/
def ponEstado (s : Scheduler) (i : Fin maxTasks) (e : TaskState) : Scheduler :=
  s.pon i { s.tasks i with state := e }

/-! ### The choice -/

/-- The body of the loop of `choose_next`; `scheduler/roja.rs:126–134`. -/
def compara (s : Scheduler) (best : Option (Fin maxTasks) × UInt8) (index : Fin maxTasks) :
    Option (Fin maxTasks) × UInt8 :=
  if some index = s.idle then best
  else if s.estado index = .ready ∧ (best.1 = none ∨ (s.tasks index).priority > best.2) then
    (some index, (s.tasks index).priority)
  else best

/-- The slots in the order `choose_next` looks at them: from the one after `current` round to
`current` itself. -/
def rueda (s : Scheduler) : List (Fin maxTasks) :=
  (List.range' 1 maxTasks).map fun offset ↦ Fin.ofNat maxTasks (s.current + offset)

/-- `choose_next`; `scheduler/roja.rs:117–146`. -/
def chooseNext (s : Scheduler) : Fin maxTasks :=
  match (s.rueda.foldl s.compara (none, 0)).1 with
  | some i => i
  | none =>
    match s.idle with
    | some i => if s.estado i = .ready then i else s.current
    | none => s.current

/-! ### Recycling -/

/-- Does another task use the address space? `scheduler/roja.rs:290–292`. -/
def compartido (s : Scheduler) (i : Fin maxTasks) : Bool :=
  (List.finRange maxTasks).any fun j ↦
    j ≠ i ∧ s.estado j ≠ .empty ∧ (s.tasks j).tid ≠ (s.tasks i).tid ∧ (s.tasks j).cr3 = (s.tasks i).cr3

/-- The body of the loop of `reap`; `scheduler/roja.rs:172–305`. -/
def reapUna (m : Maquina) (currentTid : UInt32) (r : List Recogida × Scheduler)
    (i : Fin maxTasks) : List Recogida × Scheduler :=
  let s := r.2
  let t := s.tasks i
  if t.state ≠ .exited ∨ t.tid = currentTid then r
  else if t.pisa m.rsp then r
  else
    let espacio :=
      if t.isUser ∧ t.cr3 ≠ 0 ∧ t.cr3 ≠ m.kernelPml4 ∧ ¬ s.compartido i then some t.cr3 else none
    (r.1 ++ [⟨i, t.pila, espacio⟩], s.pon i .empty)

/-- `reap`; `scheduler/roja.rs:164–307`. -/
def reap (s : Scheduler) (m : Maquina) : List Recogida × Scheduler :=
  (List.finRange maxTasks).foldl (reapUna m (s.tasks s.current).tid) ([], s)

/-! ### The switch -/

/-- The task that leaves the CPU keeps the context it came in with and closes its account;
`scheduler/roja.rs:571–596`. -/
def saleDe (t : Task) (saliente : Saliente) (outgoing ahora : UInt64) : Task :=
  { t with
    contextRsp := if saliente = .publicado ∧ outgoing ≠ 0 then outgoing else t.contextRsp
    cpuCiclos := if t.entroEn ≠ 0 then t.cpuCiclos + (ahora - t.entroEn) else t.cpuCiclos
    entroEn := 0 }

/-- The task that takes the CPU; `scheduler/roja.rs:597–599`. -/
def entraEn (t : Task) (ahora : UInt64) : Task :=
  { t with entroEn := ahora, state := .running, remainingTicks := t.quantum }

/-- The switch itself, once it is going to happen; `scheduler/roja.rs:571–622`. -/
def cambia (s : Scheduler) (m : Maquina) (saliente : Saliente) (next : Fin maxTasks) :
    Scheduler :=
  let s := s.pon s.current (saleDe (s.tasks s.current) saliente s.trapRsp m.rdtsc)
  let s := s.pon next (entraEn (s.tasks next) m.rdtsc)
  let t := s.tasks next
  { s with
    current := next
    trapRsp := t.contextRsp
    cr3 := if t.isUser then t.cr3 else m.kernelPml4
    tssRsp0 := if t.kernelStackTop ≠ 0 then t.kernelStackTop else s.tssRsp0
    syscallStackTop := if t.kernelStackTop ≠ 0 then t.kernelStackTop else s.syscallStackTop }

/-- `schedule_locked`; `scheduler/roja.rs:539–637`. -/
def scheduleLocked (s : Scheduler) (m : Maquina) (saliente : Saliente) : Efecto :=
  let s := if s.estado s.current = .running then s.ponEstado s.current .ready else s
  let next := s.chooseNext
  if next = s.current then
    let s := if s.estado next = .ready then s.ponEstado next .running else s
    let r := s.reap m
    ⟨r.2, some next, r.1, none⟩
  else if (s.tasks next).contextRsp = 0 then
    ⟨if s.estado s.current ≠ .running then s.ponEstado s.current .running else s, none, [], none⟩
  else
    let r := (s.cambia m saliente next).reap m
    ⟨r.2, some next, r.1, none⟩

/-! ### Marks -/

/-- `mark_yield`; `scheduler/roja.rs:868–872`. -/
def markYield (s : Scheduler) : Scheduler :=
  if s.estado s.current = .running then s.ponEstado s.current .ready else s

/-- `mark_exit`; `scheduler/roja.rs:875–880`. -/
def markExit (s : Scheduler) : Scheduler :=
  if s.current ≠ 0 ∧ s.estado s.current = .running then s.ponEstado s.current .exited else s

/-- `mark_wait`; `scheduler/roja.rs:883–889`. -/
def markWait (s : Scheduler) (key deadline : UInt64) : Scheduler :=
  if s.estado s.current = .running then
    s.pon s.current
      { s.tasks s.current with state := .blocked, waitKey := key, waitDeadline := deadline }
  else s

/-- A task that stops waiting. -/
def despierta (t : Task) : Task := { t with waitDeadline := 0, waitKey := 0, state := .ready }

/-- Who wakes at a tick; `scheduler/roja.rs:676–700`. -/
def vence (now : UInt64) (t : Task) : Task :=
  if t.state = .blocked ∧ t.waitDeadline ≠ 0 ∧ now ≥ t.waitDeadline then despierta t
  else if t.state = .blocked ∧ t.waitKey = latidoLlave then despierta t
  else t

/-- The first empty slot. -/
def hueco (s : Scheduler) : Option (Fin maxTasks) :=
  (List.finRange maxTasks).find? fun i ↦ s.estado i = .empty

/-- An operation that selects nobody. -/
def quieto (s : Scheduler) : Efecto := ⟨s, none, [], none⟩

/-! ### Operations -/

/-- `kill_current_and_pick`; `scheduler/roja.rs:651–660`. -/
def killCurrentAndPick (s : Scheduler) (m : Maquina) : Efecto :=
  s.markExit.scheduleLocked m .ninguno

/-- `on_timer`; `scheduler/roja.rs:664–734`. -/
def onTimer (s : Scheduler) (m : Maquina) : Efecto :=
  let s := { s with tasks := fun i ↦ vence m.rdtsc (s.tasks i) }
  let t := s.tasks s.current
  if t.state = .running ∧ t.remainingTicks > 1 then
    (s.pon s.current { t with remainingTicks := t.remainingTicks - 1 }).quieto
  else (s.pon s.current { t with remainingTicks := t.quantum }).scheduleLocked m .publicado

/-- Who wakes at a key; `scheduler/roja.rs:741–747`. -/
def avisa (key : UInt64) (t : Task) : Task :=
  if t.state = .blocked ∧ t.waitKey = key then despierta t else t

/-- `wake_by_key`; `scheduler/roja.rs:738–748`. -/
def wakeByKey (s : Scheduler) (key : UInt64) : Efecto :=
  quieto { s with tasks := fun i ↦ avisa key (s.tasks i) }

/-- `next_tid.wrapping_add(1).max(2)`. -/
def siguienteTid (tid : UInt32) : UInt32 := if tid + 1 < 2 then 2 else tid + 1

/-- The part that `spawn_kernel` and `spawn_user` share: the first empty slot gets the task, under
the next tid; `scheduler/roja.rs:788–791, 828–831`. -/
def spawn (s : Scheduler) (t : Task) : Option UInt32 × Efecto :=
  match s.hueco with
  | none => (none, s.quieto)
  | some i =>
    (some s.nextTid, ⟨{ s.pon i { t with tid := s.nextTid } with
      nextTid := siguienteTid s.nextTid }, none, [], some i⟩)

/-- `spawn_kernel`, with the stack the allocator gave for it and the context fabricated on it;
`scheduler/roja.rs:751–813`. -/
def spawnKernel (s : Scheduler) (stackBase : Option UInt64) (context : UInt64) (priority : UInt8) :
    Option UInt32 × Efecto :=
  match stackBase with
  | none => (none, s.quieto)
  | some stackBase =>
    s.spawn { Task.empty with
      state := .ready
      priority := if priority < 31 then priority else 31
      remainingTicks := defaultQuantumTicks
      contextRsp := context
      stackPhys := stackBase
      stackPages := taskStackPages
      kernelStackTop := physToVirt stackBase + taskStackPages * page }

/-- `spawn_user`; `scheduler/roja.rs:819–857`. -/
def spawnUser (s : Scheduler) (pid : UInt32)
    (contextRsp kernelStackPhys kernelStackPages kernelStackTop cr3 : UInt64) (priority : UInt8) :
    Option UInt32 × Efecto :=
  s.spawn { Task.empty with
    pid := pid
    state := .ready
    priority := if priority < 31 then priority else 31
    remainingTicks := defaultQuantumTicks
    contextRsp := contextRsp
    stackPhys := kernelStackPhys
    stackPages := kernelStackPages
    isUser := true
    cr3 := cr3
    kernelStackTop := kernelStackTop }

/-- `yield_current`; `scheduler/roja.rs:918–923`. -/
def yieldCurrent (s : Scheduler) (m : Maquina) : Efecto := s.markYield.scheduleLocked m .publicado

/-- `exit_current`; `scheduler/roja.rs:926–941`. -/
def exitCurrent (s : Scheduler) (m : Maquina) : Efecto := s.markExit.scheduleLocked m .publicado

/-- The quantum that `delante` leaves to a task; `scheduler/roja.rs:971–989`. -/
def turno (tid : UInt32) (t : Task) : Task :=
  if ¬ t.isUser ∨ t.state = .empty then t
  else { t with quantum := if t.tid = tid then quantumDelante else defaultQuantumTicks }

/-- `delante`; `scheduler/roja.rs:966–992`. -/
def delante (s : Scheduler) (tid : UInt32) : Bool × Efecto :=
  ((List.finRange maxTasks).any fun i ↦
      (s.tasks i).isUser ∧ s.estado i ≠ .empty ∧ (s.tasks i).tid = tid,
    quieto { s with tasks := fun i ↦ turno tid (s.tasks i) })

/-- The slot `terminar` is about: the first one with the tid, slot 0 apart. -/
def deTid (s : Scheduler) (tid : UInt32) : Option (Fin maxTasks) :=
  (List.finRange maxTasks).find? fun i ↦ (s.tasks i).tid = tid ∧ i ≠ 0

/-- Whether `terminar` closes the task of a slot. -/
def cerrable (s : Scheduler) (i : Fin maxTasks) : Bool :=
  (s.tasks i).isUser ∧ s.estado i ≠ .empty ∧ s.estado i ≠ .exited

/-- `terminar`; `scheduler/roja.rs:995–1013`. -/
def terminar (s : Scheduler) (tid : UInt32) : Bool × Efecto :=
  match s.deTid tid with
  | none => (false, s.quieto)
  | some i =>
    if s.cerrable i then (true, (s.ponEstado i .exited).quieto) else (false, s.quieto)

/-- `wait_current`; `scheduler/roja.rs:1114–1119`. -/
def waitCurrent (s : Scheduler) (m : Maquina) (key deadline : UInt64) : Efecto :=
  (s.markWait key deadline).scheduleLocked m .publicado

/-- `wait_current_checked`, where `seq` is what the sequence reads under the lock;
`scheduler/roja.rs:1126–1144`. -/
def waitCurrentChecked (s : Scheduler) (m : Maquina) (key deadline observed seq : UInt64) :
    UInt64 × Efecto :=
  if seq ≠ observed then (seq, s.quieto)
  else (observed, s.waitCurrent m key deadline)

/-- `park_until`, up to the first `hlt`; `scheduler/roja.rs:1178–1188`. -/
def parkUntil (s : Scheduler) (deadline : UInt64) : Efecto := (s.markWait 0 deadline).quieto

/-- `exit_and_park`, up to the first `hlt`; `scheduler/roja.rs:1191–1200`. -/
def exitAndPark (s : Scheduler) : Efecto := s.markExit.quieto

/-! ### Start -/

/-- The task of the boot context; `scheduler/roja.rs:469–477`. -/
def boot : Task :=
  { Task.empty with tid := 1, state := .running, remainingTicks := defaultQuantumTicks }

/-- `init`: the boot context is the task in slot 0; `scheduler/roja.rs:461–479`. -/
def init : Scheduler where
  tasks := Function.update (fun _ ↦ Task.empty) 0 boot
  current := 0
  nextTid := 2
  idle := none
  trapRsp := 0
  cr3 := 0
  tssRsp0 := 0
  syscallStackTop := 0

/-- `init_idle`; `scheduler/roja.rs:1149–1160`. -/
def initIdle (s : Scheduler) (stackBase : Option UInt64) (context : UInt64) :
    Option UInt32 × Scheduler :=
  match s.spawnKernel stackBase context 0 with
  | (none, e) => (none, e.scheduler)
  | (some tid, e) =>
    (some tid, { e.scheduler with
      idle := ((List.finRange maxTasks).find? fun i ↦ (e.scheduler.tasks i).tid = tid).or
        e.scheduler.idle })

end Scheduler

end BmoX.Sched
