import BmoX.Base.Ring
import BmoX.Obj.Cap

/-!
# Endpoint RPC

`kernel/src/ring0/obj/endpoint.rs`. A client calls an endpoint and sleeps; its server takes the
call with `wait_for`, which gives it a reply capability, and answers through that capability. The
completion ring of the server's channel (`bmo-channel/src/lib.rs`) carries the message. Only the
part of the scheduler that these calls look at is kept: who sleeps, and on what.
-/

namespace BmoX.Obj.Rpc

open BmoX.Base Cap

/-- `MAX_ENDPOINTS`; `endpoint.rs:51`. -/
abbrev maxEndpoints : Nat := 8

/-- `QUEUE`; `endpoint.rs:53`. -/
abbrev queue : Nat := 16

/-- `scheduler::MAX_TASKS`: the tasks with a reply slot; `endpoint.rs:123`. -/
abbrev maxTasks : Nat := 64

/-- `MAX_CHANNEL_PAGES`; `boot_context/src/lib.rs:14`. -/
abbrev maxChannelPages : Nat := 16

/-- `RING_SIZE`; `bmo-channel/src/lib.rs:7`. -/
abbrev ringSize : Nat := 62

instance : NeZero maxEndpoints := ⟨by decide⟩

instance : NeZero queue := ⟨by decide⟩

instance : NeZero maxTasks := ⟨by decide⟩

instance : NeZero ringSize := ⟨by decide⟩

/-- `endpoint.rs:68`. -/
def errorEndpointDead : UInt32 := 18

/-- `endpoint.rs:69`. -/
def errorEndpointOcupado : UInt32 := 19

/-- A call in the queue of an endpoint; `endpoint.rs:71–76`. -/
structure Call where
  callerTid : Fin maxTasks
  op : UInt64
  args : UInt64 × UInt64 × UInt64
  deriving DecidableEq

/-- `Call::EMPTY_ONE`; `endpoint.rs:79`. -/
def Call.emptyOne : Call := ⟨0, 0, 0, 0, 0⟩

/-- `endpoint.rs:82–94`. -/
structure Endpoint where
  vivo : Bool
  servidorPid : UInt32
  canal : Nat
  cola : Ring Call queue
  seq : UInt64

/-- `Endpoint::EMPTY`; `endpoint.rs:97–100`. -/
def Endpoint.empty : Endpoint := ⟨false, 0, 0, .empty .emptyOne, 0⟩

/-- What the server left for a caller; `endpoint.rs:106–115`. -/
structure Reply where
  esperando : Bool
  lista : Bool
  gen : UInt32
  code : UInt32
  value : UInt64
  deriving DecidableEq

/-- `Reply::EMPTY_ONE`; `endpoint.rs:118`. -/
def Reply.emptyOne : Reply := ⟨false, false, 0, 0, 0⟩

/-- `bmo-channel/src/lib.rs:13–20`. -/
structure ChannelEntry where
  opcode : UInt64
  args : UInt64 × UInt64 × UInt64
  deriving DecidableEq

/-- The completion side of a channel page; `bmo-channel/src/lib.rs:34–40`. -/
structure Channel where
  completeHead : UInt64
  completeTail : UInt64
  completeRing : Fin ringSize → ChannelEntry

/-- `Channel::init` of a zeroed page; `bmo-channel/src/lib.rs:75–82`. -/
def Channel.init : Channel := ⟨0, 0, fun _ ↦ ⟨0, 0, 0, 0⟩⟩

/-- `ring0_complete`; `bmo-channel/src/lib.rs:91–109`. -/
def Channel.ring0Complete (c : Channel) (opcode : UInt64) (args : UInt64 × UInt64 × UInt64) :
    Bool × Channel :=
  if (c.completeHead - c.completeTail).toNat ≥ ringSize then (false, c)
  else (true, ⟨c.completeHead + 1, c.completeTail,
    Function.update c.completeRing (Fin.ofNat ringSize c.completeHead.toNat) ⟨opcode, args⟩⟩)

/-! ### Reply capabilities -/

/-- The object of a reply capability; `endpoint.rs:283`. -/
def objeto (gen : UInt32) (idx : Fin maxEndpoints) (callerTid : Nat) : UInt64 :=
  gen.toUInt64 <<< 48 ||| UInt64.ofNat idx <<< 32 ||| UInt64.ofNat callerTid

/-- The caller an object names; `endpoint.rs:313`. -/
def tidDe (objeto : UInt64) : Nat := (objeto &&& 0xFFFFFFFF).toNat

/-- The generation an object carries; `endpoint.rs:314`. -/
def genDe (objeto : UInt64) : UInt32 := (objeto >>> 48).toUInt32

/-- An object gives back its caller, and the low sixteen bits of its generation. -/
theorem campos_objeto (gen : UInt32) (idx : Fin maxEndpoints) (tid : Nat) (ht : tid < maxTasks) :
    tidDe (objeto gen idx tid) = tid ∧ (genDe (objeto gen idx tid)).toNat = gen.toNat % 2 ^ 16 := by
  have hidx : (idx : Nat) < 8 := idx.isLt
  have htid' : tid < 64 := ht
  -- the high half of the generation falls off the end of the word
  have hlow : gen.toUInt64 <<< 48 = UInt64.ofNat (gen.toNat % 2 ^ 16) <<< 48 := by
    rw [← UInt64.toNat_inj, UInt64.toNat_shiftLeft, UInt64.toNat_shiftLeft, UInt32.toNat_toUInt64,
      UInt64.toNat_ofNat', Nat.shiftLeft_eq, Nat.shiftLeft_eq]
    have hs : UInt64.toNat 48 % 64 = 48 := rfl
    rw [hs]
    omega
  have htid : (UInt64.ofNat tid).toNat = tid := by
    rw [UInt64.toNat_ofNat', Nat.mod_eq_of_lt (by omega)]
  have hi : (UInt64.ofNat idx).toNat = idx := by
    rw [UInt64.toNat_ofNat', Nat.mod_eq_of_lt (by omega)]
  have hg : (UInt64.ofNat (gen.toNat % 2 ^ 16)).toNat = gen.toNat % 2 ^ 16 := by
    rw [UInt64.toNat_ofNat', Nat.mod_eq_of_lt (by omega)]
  have hrest : (UInt64.ofNat idx <<< 32 ||| UInt64.ofNat tid).toNat = idx * 2 ^ 32 + tid := by
    rw [toNat_shiftLeft_or (by decide) (by rw [hi]; simp; omega) (by rw [htid]; simp; omega), hi,
      htid]
    rfl
  have hobj : (objeto gen idx tid).toNat = gen.toNat % 2 ^ 16 * 2 ^ 48 + (idx * 2 ^ 32 + tid) := by
    rw [objeto, UInt64.or_assoc, hlow, toNat_shiftLeft_or (by decide) (by rw [hg]; simp; omega)
      (by rw [hrest]; simp; omega), hg, hrest]
    rfl
  refine ⟨?_, ?_⟩
  · rw [tidDe, toNat_and_mask (w := 32) _ rfl, hobj]
    omega
  · rw [genDe, UInt64.toNat_toUInt32, toNat_shiftRight _ (by decide), hobj]
    simp only [UInt64.reduceToNat]
    omega

/-! ### The kernel state -/

/-- The addresses that tasks sleep on: `endpoint_key` and `reply_key`; `endpoint.rs:134–141`. -/
inductive Clave
  | endpoint (idx : Fin maxEndpoints)
  | reply (tid : Nat)
  deriving DecidableEq

/-- What the scheduler knows of a task: able to run, blocked on a key with a deadline (zero for
none), or exited. -/
inductive Tarea
  | corre
  | bloqueada (key : Clave) (deadline : UInt64)
  | terminada
  deriving DecidableEq

/-- A result written into the saved frame of a sleeping task. -/
structure Frame where
  tid : Nat
  rax : UInt32
  rdx : UInt64
  deriving DecidableEq

/-- The kernel state the calls of this file share. The frames written are kept, newest first. -/
structure Sistema where
  endpoints : Fin maxEndpoints → Endpoint
  respuestas : Fin maxTasks → Reply
  tablas : Tablas
  canales : Fin maxChannelPages → Channel
  tareas : Nat → Tarea
  frames : List Frame

/-- The state at start, every task able to run. -/
def inicial : Sistema where
  endpoints _ := .empty
  respuestas _ := .emptyOne
  tablas := Cap.inicial
  canales _ := .init
  tareas _ := .corre
  frames := []

namespace Sistema

/-- Write one endpoint. -/
def ponEndpoint (s : Sistema) (idx : Fin maxEndpoints) (e : Endpoint) : Sistema :=
  { s with endpoints := Function.update s.endpoints idx e }

/-- Write one reply slot. -/
def ponRespuesta (s : Sistema) (tid : Fin maxTasks) (r : Reply) : Sistema :=
  { s with respuestas := Function.update s.respuestas tid r }

/-! ### The scheduler -/

/-- `wake_by_key`; `scheduler/roja.rs:738–748`. -/
def wakeByKey (s : Sistema) (key : Clave) : Sistema :=
  { s with
    tareas := fun t ↦ match s.tareas t with
      | .bloqueada k d => if k = key then .corre else .bloqueada k d
      | otra => otra }

/-- `wait_current_checked`: block the current task unless the sequence moved;
`scheduler/roja.rs:1125–1143`. -/
def waitCurrentChecked (s : Sistema) (tid : Nat) (key : Clave)
    (deadline observed seq : UInt64) : Sistema :=
  if seq ≠ observed then s
  else { s with tareas := Function.update s.tareas tid (.bloqueada key deadline) }

/-- `write_into_frame`, for a task that is blocked; `endpoint.rs:368–389`. -/
def writeIntoFrame (s : Sistema) (tid : Nat) (code : UInt32) (value : UInt64) : Sistema :=
  match s.tareas tid with
  | .bloqueada _ _ => { s with frames := ⟨tid, code, value⟩ :: s.frames }
  | _ => s

/-! ### Creating and connecting -/

/-- `create`; `endpoint.rs:140–153`. -/
def create (s : Sistema) (pid : UInt32) (canal : Nat) : Option UInt64 × Sistema :=
  match (List.finRange maxEndpoints).find? fun i ↦ !(s.endpoints i).vivo with
  | none => (none, s)
  | some i =>
    let s := s.ponEndpoint i { Endpoint.empty with vivo := true, servidorPid := pid, canal := canal }
    let (h, t) := grant s.tablas pid kindEndpoint (rightWait ||| rightRead) (UInt64.ofNat i)
    (h, { s with tablas := t })

/-- `grant_client`; `endpoint.rs:160–164`. -/
def grantClient (s : Sistema) (idx : Fin maxEndpoints) (pid : UInt32) : Option UInt64 × Sistema :=
  if (s.endpoints idx).vivo = false then (none, s)
  else
    let (h, t) := grant s.tablas pid kindEndpoint rightWrite (UInt64.ofNat idx)
    (h, { s with tablas := t })

/-! ### Calling -/

/-- `Outcome`; `endpoint.rs:170`. -/
structure Outcome where
  code : UInt32
  value : UInt64
  deriving DecidableEq

/-- `call`, made by the current task `tid`; `endpoint.rs:174–235`. -/
def call (s : Sistema) (tid : Nat) (idx : Fin maxEndpoints) (op : UInt64)
    (args : UInt64 × UInt64 × UInt64) : Outcome × Sistema :=
  if ht : tid < maxTasks then
    let e := s.endpoints idx
    if e.vivo = false then (⟨errorEndpointDead, 0⟩, s)
    else if hn : e.cola.count < queue then
      let t : Fin maxTasks := ⟨tid, ht⟩
      let s := s.ponEndpoint idx
        { e with cola := e.cola.push ⟨t, op, args⟩ hn, seq := e.seq + 1 }
      -- the reply slot is ready before anyone is woken
      let s := s.ponRespuesta t ⟨true, false, (s.respuestas t).gen + 1, 0, 0⟩
      let s := s.wakeByKey (.endpoint idx)
      let s := s.waitCurrentChecked tid (.reply tid) 0 0 (if (s.respuestas t).lista then 1 else 0)
      let r := s.respuestas t
      if r.lista then (⟨r.code, r.value⟩, s.ponRespuesta t { r with esperando := false, lista := false })
      else (⟨0, 0⟩, s)
    else (⟨errorEndpointOcupado, 0⟩, s)
  else (⟨errorEndpointDead, 0⟩, s)

/-! ### Answering -/

/-- `complete`; `endpoint.rs:324–346`. -/
def complete (s : Sistema) (callerTid : Nat) (gen code : UInt32) (value : UInt64) : Sistema :=
  if ht : callerTid < maxTasks then
    let r := s.respuestas ⟨callerTid, ht⟩
    if r.esperando = false ∨ r.gen ≠ gen ∨ r.lista = true then s
    else
      let s := s.ponRespuesta ⟨callerTid, ht⟩ { r with code := code, value := value, lista := true }
      let s := s.writeIntoFrame callerTid code value
      s.wakeByKey (.reply callerTid)
  else s

/-- `reply_to`; `endpoint.rs:312–322`. -/
def replyTo (s : Sistema) (servidorPid : UInt32) (handle objeto : UInt64) (code : UInt32)
    (value : UInt64) : Outcome × Sistema :=
  let s := s.complete (tidDe objeto) (genDe objeto) code value
  (⟨0, 0⟩, { s with tablas := (revoke s.tablas servidorPid handle).2 })

/-- `INVOKE` on a handle that resolves to a reply capability; `syscall/mod.rs:652–674`. -/
def invokeReply (s : Sistema) (pid : UInt32) (handle : UInt64) (code : UInt32) (value : UInt64) :
    Option (Outcome × Sistema) :=
  match resolve s.tablas pid handle rightWrite with
  | .ok r => if r.kind = kindReply then some (s.replyTo pid handle r.object code value) else none
  | .error _ => none

/-! ### Waiting -/

/-- `publish`; `endpoint.rs:301–306`. -/
def publish (s : Sistema) (canal : Nat) (op : UInt64) (args : UInt64 × UInt64 × UInt64) : Sistema :=
  -- `page_phys` asserts the index: past it the source stops, and here nothing is written
  if h : canal < maxChannelPages then
    { s with
      canales := Function.update s.canales ⟨canal, h⟩ ((s.canales ⟨canal, h⟩).ring0Complete op args).2 }
  else s

/-- Take the oldest call off the queue of an endpoint; `endpoint.rs:271–275` and `406–410`. -/
def desencolar (s : Sistema) (idx : Fin maxEndpoints) : Sistema :=
  s.ponEndpoint idx { s.endpoints idx with cola := (s.endpoints idx).cola.pop .emptyOne }

/-- `wait_for`, made by the current task `tid`; `endpoint.rs:253–294`. -/
def waitFor (s : Sistema) (tid : Nat) (idx : Fin maxEndpoints) (servidorPid : UInt32)
    (deadlineTsc : UInt64) : Outcome × Sistema :=
  let e := s.endpoints idx
  if e.vivo = false then (⟨errorEndpointDead, 0⟩, s)
  else if e.cola.count = 0 then
    let observado := e.seq
    (⟨0, 0⟩, s.waitCurrentChecked tid (.endpoint idx) deadlineTsc observado (s.endpoints idx).seq)
  else
    let ll := e.cola.front
    let s := s.desencolar idx
    let gen := (s.respuestas ll.callerTid).gen
    let s := s.publish e.canal ll.op ll.args
    match grant s.tablas servidorPid kindReply rightWrite (objeto gen idx ll.callerTid) with
    | (some h, t) => (⟨0, h⟩, { s with tablas := t })
    | (none, _) => (⟨errorEndpointOcupado, 0⟩, s.complete ll.callerTid gen errorEndpointOcupado 0)

/-! ### Death -/

/-- Take the oldest call of an endpoint and answer that its server died; `endpoint.rs:403–414`. -/
def vaciarUna (s : Sistema) (idx : Fin maxEndpoints) : Sistema :=
  let ll := (s.endpoints idx).cola.front
  let s := s.desencolar idx
  s.complete ll.callerTid (s.respuestas ll.callerTid).gen errorEndpointDead 0

/-- The inner loop of `process_died`, a turn for each queued call; `endpoint.rs:402–415`. -/
def vaciar (idx : Fin maxEndpoints) : Nat → Sistema → Sistema
  | 0, s => s
  | n + 1, s => vaciar idx n (s.vaciarUna idx)

/-- One endpoint of the dead process; `endpoint.rs:400–417`. -/
def cerrar (pid : UInt32) (s : Sistema) (idx : Fin maxEndpoints) : Sistema :=
  if (s.endpoints idx).vivo = false ∨ (s.endpoints idx).servidorPid ≠ pid then s
  else
    let s := vaciar idx (s.endpoints idx).cola.count s
    s.ponEndpoint idx { s.endpoints idx with vivo := false }

/-- `process_died`; `endpoint.rs:398–419`. -/
def processDied (s : Sistema) (pid : UInt32) : Sistema :=
  (List.finRange maxEndpoints).foldl (cerrar pid) s

end Sistema

/-! ### What each operation does -/

/-- A reply slot is left alone, or filled while its caller waits. -/
inductive Deja (r : Reply) : Reply → Prop
  | igual : Deja r r
  | llena (code : UInt32) (value : UInt64) (he : r.esperando = true) (hl : r.lista = false) :
      Deja r { r with code := code, value := value, lista := true }

theorem Deja.lista {r r' : Reply} (h : Deja r r') (hl : r.lista = true) : r'.lista = true := by
  cases h with
  | igual => exact hl
  | llena => rfl

/-- Filling a slot twice is filling it once. -/
theorem Deja.trans {r r' r'' : Reply} (h : Deja r r') (h' : Deja r' r'') : Deja r r'' := by
  cases h with
  | igual => exact h'
  | llena code value he hl =>
    cases h' with
    | igual => exact .llena code value he hl
    | llena _ _ _ hl' => cases hl'

namespace Sistema

/-- What answering does to callers: slots are filled, and a task asleep on a slot that is now full
may run again. -/
structure Avance (s s' : Sistema) : Prop where
  respuestas : ∀ t, Deja (s.respuestas t) (s'.respuestas t)
  tareas : ∀ t, s'.tareas t = s.tareas t ∨ s'.tareas t = .corre ∧
    ∃ (u : Fin maxTasks) (d : UInt64), s.tareas t = .bloqueada (.reply u) d ∧
      (s'.respuestas u).lista = true
  despierta : ∀ (t : Fin maxTasks) d, (s.respuestas t).lista = false →
    (s'.respuestas t).lista = true → s'.tareas t ≠ .bloqueada (.reply t) d

theorem Avance.of_eq {s s' : Sistema} (hr : s'.respuestas = s.respuestas)
    (ht : s'.tareas = s.tareas) : Avance s s' :=
  ⟨fun t ↦ by rw [hr]; exact .igual, fun t ↦ .inl (by rw [ht]), fun t d hl hl' ↦ by
    rw [hr, hl] at hl'
    cases hl'⟩

/-- Advances follow one another. -/
theorem Avance.trans {s s' s'' : Sistema} (h : Avance s s') (h' : Avance s' s'') :
    Avance s s'' := by
  refine ⟨fun t ↦ (h.respuestas t).trans (h'.respuestas t), fun t ↦ ?_, fun t d hl hl' ↦ ?_⟩
  · rcases h'.tareas t with heq' | ⟨hc', u, d, hb', hl'⟩
    · rcases h.tareas t with heq | ⟨hc, u, d, hb, hl⟩
      · exact .inl (heq'.trans heq)
      · exact .inr ⟨heq'.trans hc, u, d, hb, (h'.respuestas u).lista hl⟩
    · rcases h.tareas t with heq | ⟨hc, -⟩
      · exact .inr ⟨hc', u, d, heq ▸ hb', hl'⟩
      · rw [hc] at hb'
        cases hb'
  · by_cases hm : (s'.respuestas t).lista = true
    · rcases h'.tareas t with heq' | ⟨hc', -⟩
      · rw [heq']
        exact h.despierta t d hl hm
      · rw [hc']
        rintro ⟨⟩
    · exact h'.despierta t d (by simpa using hm) hl'

/-- What `complete` does to a slot whose caller waits with that generation. -/
theorem complete_of_pendiente {s : Sistema} {t : Fin maxTasks} (code : UInt32) (value : UInt64)
    (he : (s.respuestas t).esperando = true) (hl : (s.respuestas t).lista = false) :
    s.complete t (s.respuestas t).gen code value =
      ((s.ponRespuesta t { s.respuestas t with code := code, value := value, lista := true }).writeIntoFrame
        t code value).wakeByKey (.reply t) := by
  rw [complete, dif_pos t.isLt]
  exact if_neg (by simp [he, hl])

/-- `complete` does nothing otherwise. -/
theorem complete_of_not {s : Sistema} {tid : Nat} {gen : UInt32} (code : UInt32) (value : UInt64)
    (h : ∀ ht : tid < maxTasks, (s.respuestas ⟨tid, ht⟩).esperando = true →
      (s.respuestas ⟨tid, ht⟩).gen = gen → (s.respuestas ⟨tid, ht⟩).lista = true) :
    s.complete tid gen code value = s := by
  rw [complete]
  split
  · next ht =>
    refine if_pos ?_
    by_contra hno
    simp only [not_or, not_not, Bool.not_eq_false, Bool.not_eq_true] at hno
    rw [h ht hno.1 hno.2.1] at hno
    cases hno.2.2
  · rfl

/-- `complete` fills the slot, or leaves everything as it was. -/
theorem complete_cases (s : Sistema) (tid : Nat) (gen code : UInt32) (value : UInt64) :
    s.complete tid gen code value = s ∨
    ∃ t : Fin maxTasks, tid = t ∧ (s.respuestas t).esperando = true ∧
      (s.respuestas t).lista = false ∧ gen = (s.respuestas t).gen := by
  by_cases h : ∀ ht : tid < maxTasks, (s.respuestas ⟨tid, ht⟩).esperando = true →
      (s.respuestas ⟨tid, ht⟩).gen = gen → (s.respuestas ⟨tid, ht⟩).lista = true
  · exact .inl (complete_of_not code value h)
  · simp only [not_forall, Bool.not_eq_true] at h
    obtain ⟨ht, he, hg, hl⟩ := h
    exact .inr ⟨⟨tid, ht⟩, rfl, he, hl, hg.symm⟩

@[simp] private theorem writeIntoFrame_endpoints (s : Sistema) (tid : Nat) (code : UInt32)
    (value : UInt64) : (s.writeIntoFrame tid code value).endpoints = s.endpoints := by
  rw [writeIntoFrame]
  split <;> rfl

@[simp] private theorem writeIntoFrame_respuestas (s : Sistema) (tid : Nat) (code : UInt32)
    (value : UInt64) : (s.writeIntoFrame tid code value).respuestas = s.respuestas := by
  rw [writeIntoFrame]
  split <;> rfl

@[simp] private theorem writeIntoFrame_tablas (s : Sistema) (tid : Nat) (code : UInt32)
    (value : UInt64) : (s.writeIntoFrame tid code value).tablas = s.tablas := by
  rw [writeIntoFrame]
  split <;> rfl

@[simp] private theorem writeIntoFrame_tareas (s : Sistema) (tid : Nat) (code : UInt32)
    (value : UInt64) : (s.writeIntoFrame tid code value).tareas = s.tareas := by
  rw [writeIntoFrame]
  split <;> rfl

@[simp] theorem complete_endpoints (s : Sistema) (tid : Nat) (gen code : UInt32) (value : UInt64) :
    (s.complete tid gen code value).endpoints = s.endpoints := by
  rcases s.complete_cases tid gen code value with h | ⟨t, rfl, he, hl, rfl⟩
  · rw [h]
  · rw [complete_of_pendiente _ _ he hl]
    simp [wakeByKey, ponRespuesta]

@[simp] theorem complete_tablas (s : Sistema) (tid : Nat) (gen code : UInt32) (value : UInt64) :
    (s.complete tid gen code value).tablas = s.tablas := by
  rcases s.complete_cases tid gen code value with h | ⟨t, rfl, he, hl, rfl⟩
  · rw [h]
  · rw [complete_of_pendiente _ _ he hl]
    simp [wakeByKey, ponRespuesta]

/-- The slots after an answer. -/
theorem complete_respuestas {s : Sistema} {t : Fin maxTasks} (code : UInt32) (value : UInt64)
    (he : (s.respuestas t).esperando = true) (hl : (s.respuestas t).lista = false)
    (u : Fin maxTasks) :
    (s.complete t (s.respuestas t).gen code value).respuestas u =
      if u = t then { s.respuestas t with code := code, value := value, lista := true }
      else s.respuestas u := by
  rw [complete_of_pendiente _ _ he hl]
  simp only [wakeByKey, writeIntoFrame_respuestas, ponRespuesta]
  split
  · next h => rw [h, Function.update_self]
  · next h => rw [Function.update_of_ne h]

/-- The frames and the tasks after an answer to a sleeping caller. -/
theorem complete_dormida {s : Sistema} {t : Fin maxTasks} {d : UInt64} (code : UInt32)
    (value : UInt64) (he : (s.respuestas t).esperando = true) (hl : (s.respuestas t).lista = false)
    (hd : s.tareas t = .bloqueada (.reply t) d) :
    (s.complete t (s.respuestas t).gen code value).frames = ⟨t, code, value⟩ :: s.frames ∧
    (s.complete t (s.respuestas t).gen code value).tareas t = .corre := by
  rw [complete_of_pendiente _ _ he hl]
  simp only [wakeByKey, writeIntoFrame, ponRespuesta, hd, if_true, and_self]

/-- Answering is an advance. -/
theorem complete_avance (s : Sistema) (tid : Nat) (gen code : UInt32) (value : UInt64) :
    Avance s (s.complete tid gen code value) := by
  rcases s.complete_cases tid gen code value with h | ⟨t, rfl, he, hl, rfl⟩
  · rw [h]
    exact .of_eq rfl rfl
  · refine ⟨fun u ↦ ?_, fun u ↦ ?_, fun u d hlu hlu' ↦ ?_⟩
    · rw [complete_respuestas _ _ he hl]
      split
      · next h =>
        rw [h]
        exact .llena code value he hl
      · exact .igual
    · by_cases hu : ∃ d, s.tareas u = .bloqueada (.reply t) d
      · obtain ⟨d, hd⟩ := hu
        refine .inr ⟨?_, t, d, hd, ?_⟩
        · rw [complete_of_pendiente _ _ he hl]
          simp only [wakeByKey, writeIntoFrame_tareas, ponRespuesta, hd, if_true]
        · rw [complete_respuestas _ _ he hl, if_pos rfl]
      · left
        rw [complete_of_pendiente _ _ he hl]
        simp only [wakeByKey, writeIntoFrame_tareas, ponRespuesta]
        split
        · next k d hk =>
          rw [if_neg, hk]
          rintro rfl
          exact hu ⟨d, hk⟩
        · rfl
    · rw [complete_respuestas _ _ he hl] at hlu'
      split at hlu'
      · next hut =>
        subst hut
        rw [complete_of_pendiente _ _ he hl]
        simp only [wakeByKey, writeIntoFrame_tareas, ponRespuesta]
        split
        · split
          · rintro ⟨⟩
          · next hk => exact fun h ↦ hk (Tarea.bloqueada.inj h).1
        · next hno => exact hno _ _
      · rw [hlu] at hlu'
        cases hlu'

/-- The state an accepted call leaves: the call queued, the reply slot of its caller ready, and the
caller asleep on it. -/
def encolada (s : Sistema) (t : Fin maxTasks) (idx : Fin maxEndpoints)
    (hn : (s.endpoints idx).cola.count < queue) (op : UInt64) (args : UInt64 × UInt64 × UInt64) :
    Sistema where
  endpoints := Function.update s.endpoints idx
    { s.endpoints idx with
      cola := (s.endpoints idx).cola.push ⟨t, op, args⟩ hn, seq := (s.endpoints idx).seq + 1 }
  respuestas := Function.update s.respuestas t ⟨true, false, (s.respuestas t).gen + 1, 0, 0⟩
  tablas := s.tablas
  canales := s.canales
  tareas := Function.update (s.wakeByKey (.endpoint idx)).tareas t (.bloqueada (.reply t) 0)
  frames := s.frames

/-- A call is refused and changes nothing, or is queued and puts its caller to sleep. -/
theorem call_cases (s : Sistema) (tid : Nat) (idx : Fin maxEndpoints) (op : UInt64)
    (args : UInt64 × UInt64 × UInt64) :
    (∃ out, s.call tid idx op args = (out, s) ∧
      (out.code = errorEndpointDead ∨ out.code = errorEndpointOcupado) ∧
      (maxTasks ≤ tid ∨ (s.endpoints idx).vivo = false ∨ queue ≤ (s.endpoints idx).cola.count)) ∨
    ∃ (t : Fin maxTasks) (hn : (s.endpoints idx).cola.count < queue), tid = t ∧
      (s.endpoints idx).vivo = true ∧
      s.call tid idx op args = (⟨0, 0⟩, s.encolada t idx hn op args) := by
  rw [call]
  split
  · next ht =>
    simp only
    split
    · next hv => exact .inl ⟨_, rfl, .inl rfl, .inr (.inl hv)⟩
    · next hv =>
      split
      · next hn =>
        refine .inr ⟨⟨tid, ht⟩, hn, rfl, by simpa using hv, ?_⟩
        have hl : (Function.update s.respuestas ⟨tid, ht⟩ ⟨true, false,
            (s.respuestas ⟨tid, ht⟩).gen + 1, 0, 0⟩ ⟨tid, ht⟩).lista = false := by
          rw [Function.update_self]
        simp only [wakeByKey, ponRespuesta, ponEndpoint, hl, waitCurrentChecked]
        simp [encolada, wakeByKey]
      · next hn => exact .inl ⟨_, rfl, .inr rfl, .inr (.inr (by omega))⟩
  · next ht => exact .inl ⟨_, rfl, .inl rfl, .inl (by omega)⟩

@[simp] private theorem publish_endpoints (s : Sistema) (c : Nat) (op : UInt64)
    (args : UInt64 × UInt64 × UInt64) : (s.publish c op args).endpoints = s.endpoints := by
  rw [publish]
  split <;> rfl

@[simp] private theorem publish_respuestas (s : Sistema) (c : Nat) (op : UInt64)
    (args : UInt64 × UInt64 × UInt64) : (s.publish c op args).respuestas = s.respuestas := by
  rw [publish]
  split <;> rfl

@[simp] private theorem publish_tareas (s : Sistema) (c : Nat) (op : UInt64)
    (args : UInt64 × UInt64 × UInt64) : (s.publish c op args).tareas = s.tareas := by
  rw [publish]
  split <;> rfl

@[simp] private theorem publish_tablas (s : Sistema) (c : Nat) (op : UInt64)
    (args : UInt64 × UInt64 × UInt64) : (s.publish c op args).tablas = s.tablas := by
  rw [publish]
  split <;> rfl

/-- A call taken off a queue: the message published and the queue shorter by its head. -/
def tomada (s : Sistema) (idx : Fin maxEndpoints) : Sistema :=
  (s.desencolar idx).publish (s.endpoints idx).canal (s.endpoints idx).cola.front.op
    (s.endpoints idx).cola.front.args

/-- What `wait_for` does: nothing on a dead endpoint, sleep on an idle one, and on a busy one take
the oldest call and answer with a reply capability, or with an error to its caller. -/
theorem waitFor_cases (s : Sistema) (tid : Nat) (idx : Fin maxEndpoints) (pid : UInt32)
    (deadline : UInt64) :
    ((s.endpoints idx).vivo = false ∧
      s.waitFor tid idx pid deadline = (⟨errorEndpointDead, 0⟩, s)) ∨
    ((s.endpoints idx).vivo = true ∧ (s.endpoints idx).cola.count = 0 ∧
      s.waitFor tid idx pid deadline =
        (⟨0, 0⟩, { s with tareas := Function.update s.tareas tid (.bloqueada (.endpoint idx) deadline) })) ∨
    ((s.endpoints idx).vivo = true ∧ 0 < (s.endpoints idx).cola.count ∧
      let t := (s.endpoints idx).cola.front.callerTid
      let gen := (s.respuestas t).gen
      ((∃ h tablas, grant s.tablas pid kindReply rightWrite (objeto gen idx t) = (some h, tablas) ∧
          s.waitFor tid idx pid deadline = (⟨0, h⟩, { s.tomada idx with tablas := tablas })) ∨
        (∃ tablas, grant s.tablas pid kindReply rightWrite (objeto gen idx t) = (none, tablas)) ∧
          s.waitFor tid idx pid deadline =
            (⟨errorEndpointOcupado, 0⟩, (s.tomada idx).complete t gen errorEndpointOcupado 0))) := by
  rw [waitFor]
  simp only
  split
  · next hv => exact .inl ⟨hv, rfl⟩
  · next hv =>
    have hv : (s.endpoints idx).vivo = true := by simpa using hv
    split
    · next hn => exact .inr (.inl ⟨hv, hn, by rw [waitCurrentChecked, if_neg (not_not.mpr rfl)]⟩)
    · next hn =>
      refine .inr (.inr ⟨hv, Nat.pos_of_ne_zero hn, ?_⟩)
      rw [publish_tablas]
      split
      · next h t hg => exact .inl ⟨h, t, hg, rfl⟩
      · next t hg => exact .inr ⟨⟨t, hg⟩, rfl⟩

theorem tomada_eq (s : Sistema) (idx : Fin maxEndpoints) :
    (s.tomada idx).respuestas = s.respuestas ∧ (s.tomada idx).tareas = s.tareas ∧
    (s.tomada idx).tablas = s.tablas ∧ (s.tomada idx).endpoints = Function.update s.endpoints idx
      { s.endpoints idx with cola := (s.endpoints idx).cola.pop .emptyOne } := by
  simp [tomada, desencolar, ponEndpoint]

/-- What closing the endpoints of a process does. -/
structure Cierra (pid : UInt32) (s s' : Sistema) : Prop where
  avance : Avance s s'
  tablas : s'.tablas = s.tablas
  endpoints : ∀ idx, s'.endpoints idx = s.endpoints idx ∨
    (s.endpoints idx).vivo = true ∧ (s.endpoints idx).servidorPid = pid ∧
      (s'.endpoints idx).vivo = false ∧ (s'.endpoints idx).cola.count = 0
  llenas : ∀ t, s'.respuestas t = s.respuestas t ∨
    (s'.respuestas t).code = errorEndpointDead ∧ (s'.respuestas t).value = 0 ∧
      ∃ idx, ∃ ll ∈ (s.endpoints idx).cola.toList, (s.endpoints idx).vivo = true ∧
        (s.endpoints idx).servidorPid = pid ∧ ll.callerTid = t

/-- Emptying `n` calls off an endpoint. -/
theorem vaciar_spec (idx : Fin maxEndpoints) (n : Nat) {s : Sistema}
    (hn : n ≤ (s.endpoints idx).cola.count) :
    Avance s (vaciar idx n s) ∧ (vaciar idx n s).tablas = s.tablas ∧
    (∀ j, j ≠ idx → (vaciar idx n s).endpoints j = s.endpoints j) ∧
    ((vaciar idx n s).endpoints idx).cola.count = (s.endpoints idx).cola.count - n ∧
    ∀ t, (vaciar idx n s).respuestas t = s.respuestas t ∨
      ((vaciar idx n s).respuestas t).code = errorEndpointDead ∧
      ((vaciar idx n s).respuestas t).value = 0 ∧
        ∃ ll ∈ (s.endpoints idx).cola.toList, ll.callerTid = t := by
  induction n generalizing s with
  | zero => exact ⟨.of_eq rfl rfl, rfl, fun _ _ ↦ rfl, rfl, fun _ ↦ .inl rfl⟩
  | succ n ih =>
    have hcola := (s.endpoints idx).cola.toList_pop .emptyOne (by omega)
    have hend : (s.vaciarUna idx).endpoints = Function.update s.endpoints idx
        { s.endpoints idx with cola := (s.endpoints idx).cola.pop .emptyOne } := by
      rw [vaciarUna, complete_endpoints]
      rfl
    have hself : (s.vaciarUna idx).endpoints idx =
        { s.endpoints idx with cola := (s.endpoints idx).cola.pop .emptyOne } := by
      rw [hend, Function.update_self]
    have hcount : ((s.vaciarUna idx).endpoints idx).cola.count =
        (s.endpoints idx).cola.count - 1 := by
      rw [hself]
      rfl
    obtain ⟨hav, htab, hotros, hcnt, hllenas⟩ := ih (s := s.vaciarUna idx) (by omega)
    have hav0 : Avance s (s.desencolar idx) := .of_eq rfl rfl
    have hav1 : Avance s (s.vaciarUna idx) := by
      rw [vaciarUna]
      exact hav0.trans (complete_avance ..)
    refine ⟨hav1.trans hav, htab.trans (by rw [vaciarUna, complete_tablas]; rfl), ?_, ?_, ?_⟩
    · intro j hj
      rw [vaciar, hotros j hj, hend, Function.update_of_ne hj]
    · rw [vaciar, hcnt, hcount]
      omega
    · intro t
      rw [vaciar]
      rcases hllenas t with heq | ⟨hc, hv, ll, hll, ht⟩
      · rw [heq]
        rcases (s.desencolar idx).complete_cases (s.endpoints idx).cola.front.callerTid
          (s.respuestas (s.endpoints idx).cola.front.callerTid).gen errorEndpointDead 0 with h | h
        · left
          exact congrFun (congrArg respuestas h) t
        · obtain ⟨u, hu, he, hl, -⟩ := h
          have hu : (s.endpoints idx).cola.front.callerTid = u := Fin.ext hu
          have hres := complete_respuestas (s := s.desencolar idx) errorEndpointDead 0 he hl t
          have hvac : (s.vaciarUna idx).respuestas t =
              ((s.desencolar idx).complete u ((s.desencolar idx).respuestas u).gen errorEndpointDead
                0).respuestas t := by
            rw [vaciarUna, hu]
          rw [hvac, hres]
          split
          · next h => exact .inr ⟨rfl, rfl, _, by rw [hcola]; exact List.mem_cons_self, by rw [hu, h]⟩
          · exact .inl rfl
      · refine .inr ⟨hc, hv, ll, ?_, ht⟩
        rw [hself] at hll
        rw [hcola]
        exact List.mem_cons_of_mem _ hll

/-- Closing one endpoint. -/
theorem cerrar_spec (pid : UInt32) (s : Sistema) (idx : Fin maxEndpoints) :
    Cierra pid s (cerrar pid s idx) ∧
      (((cerrar pid s idx).endpoints idx).vivo = true →
        ((cerrar pid s idx).endpoints idx).servidorPid ≠ pid) ∧
      ∀ j, j ≠ idx → (cerrar pid s idx).endpoints j = s.endpoints j := by
  rw [cerrar]
  split
  · next h =>
    refine ⟨⟨.of_eq rfl rfl, rfl, fun _ ↦ .inl rfl, fun _ ↦ .inl rfl⟩, fun hv ↦ ?_,
      fun _ _ ↦ rfl⟩
    rcases h with h | h
    · rw [h] at hv
      cases hv
    · exact h
  · next h =>
    simp only [not_or, Bool.not_eq_false, not_not] at h
    obtain ⟨hav, htab, hotros, hcnt, hllenas⟩ := vaciar_spec idx _ (le_refl (s.endpoints idx).cola.count)
    refine ⟨⟨hav.trans (.of_eq rfl rfl), htab, fun j ↦ ?_, fun t ↦ ?_⟩, fun hv ↦ ?_, fun j hj ↦ ?_⟩
    · by_cases hj : j = idx
      · subst hj
        refine .inr ⟨h.1, h.2, ?_, ?_⟩
        · simp [ponEndpoint]
        · simp [ponEndpoint, hcnt]
      · left
        simp only [ponEndpoint]
        rw [Function.update_of_ne hj, hotros j hj]
    · rcases hllenas t with heq | ⟨hc, hv, ll, hll, ht⟩
      · exact .inl heq
      · exact .inr ⟨hc, hv, idx, ll, hll, h.1, h.2, ht⟩
    · simp [ponEndpoint] at hv
    · exact (Function.update_of_ne hj ..).trans (hotros j hj)

/-- Closing some endpoints and then others. -/
theorem Cierra.trans {pid : UInt32} {s s' s'' : Sistema} (h : Cierra pid s s')
    (h' : Cierra pid s' s'') : Cierra pid s s'' := by
  -- an endpoint still open after the first part was not touched by it
  have hsame : ∀ idx, (s'.endpoints idx).vivo = true → s'.endpoints idx = s.endpoints idx := by
    intro idx hv
    rcases h.endpoints idx with heq | ⟨-, -, hno, -⟩
    · exact heq
    · rw [hno] at hv
      cases hv
  refine ⟨h.avance.trans h'.avance, h'.tablas.trans h.tablas, fun idx ↦ ?_, fun t ↦ ?_⟩
  · rcases h'.endpoints idx with heq | ⟨hv, hp, hv', hc⟩
    · rw [heq]
      exact h.endpoints idx
    · have heq := hsame idx hv
      rw [heq] at hv hp
      exact .inr ⟨hv, hp, hv', hc⟩
  · rcases h'.llenas t with heq | ⟨hc, hval, idx, ll, hll, hv, hp, ht⟩
    · rw [heq]
      exact h.llenas t
    · have heq := hsame idx hv
      rw [heq] at hll hv hp
      exact .inr ⟨hc, hval, idx, ll, hll, hv, hp, ht⟩

/-- Closing endpoints one after another. -/
theorem foldl_cerrar (pid : UInt32) (l : List (Fin maxEndpoints)) (s : Sistema) :
    Cierra pid s (l.foldl (cerrar pid) s) ∧
      ∀ idx ∈ l, ((l.foldl (cerrar pid) s).endpoints idx).vivo = true →
        ((l.foldl (cerrar pid) s).endpoints idx).servidorPid ≠ pid := by
  induction l generalizing s with
  | nil => exact ⟨⟨.of_eq rfl rfl, rfl, fun _ ↦ .inl rfl, fun _ ↦ .inl rfl⟩, fun _ h ↦ by cases h⟩
  | cons i l ih =>
    obtain ⟨h, hi, -⟩ := cerrar_spec pid s i
    obtain ⟨h', hl⟩ := ih (cerrar pid s i)
    refine ⟨h.trans h', fun idx hidx hv ↦ ?_⟩
    rcases List.mem_cons.mp hidx with rfl | hidx
    · rw [List.foldl_cons] at hv ⊢
      rcases h'.endpoints idx with heq | ⟨-, -, hno, -⟩
      · rw [heq] at hv ⊢
        exact hi hv
      · rw [hno] at hv
        cases hv
    · exact hl idx hidx hv

/-- What the death of a process does: its endpoints close, empty, and only callers queued in them
are answered, with the error of a dead endpoint. -/
theorem processDied_spec (s : Sistema) (pid : UInt32) :
    Cierra pid s (s.processDied pid) ∧
      ∀ idx, ((s.processDied pid).endpoints idx).vivo = true →
        ((s.processDied pid).endpoints idx).servidorPid ≠ pid :=
  let h := foldl_cerrar pid (List.finRange maxEndpoints) s
  ⟨h.1, fun idx ↦ h.2 idx (List.mem_finRange idx)⟩

end Sistema

end BmoX.Obj.Rpc
