import BmoX.Xhci.Paso

/-!
# The events of the xHCI controller

`platform/drivers/usb/xhci/src/{lib.rs,transferencia.rs}`: one ring of events for the whole
controller, the events parked while somebody waits for another, and those who wait. Every
function is a program of single reads and writes of what it shares with the controller. A letter
(`Carta`) is an event with the place it has among those read, which no function looks at.
-/

namespace BmoX.Xhci

/-! `TRB_TRANSFER`, `TRB_COMPLETION` and `TRB_PORT_STATUS`; `lib.rs:165–167`. -/

abbrev Tipo.transfer : UInt32 := 32
abbrev Tipo.completion : UInt32 := 33
abbrev Tipo.portStatus : UInt32 := 34

namespace Correo

open BmoX.Base

/-! ### Events -/

/-- The slot of a Transfer Event. -/
def slotDe (ev : Trb) : UInt8 := ((ev.dw3 >>> 24) &&& 0xFF).toUInt8

/-- The endpoint of a Transfer Event. -/
def epDe (ev : Trb) : UInt8 := ((ev.dw3 >>> 16) &&& 0x1F).toUInt8

/-- The completion code. -/
def ccDe (ev : Trb) : UInt8 := (ev.dw2 >>> 24).toUInt8

/-- The Port ID of a change of port. -/
def puertoDe (ev : Trb) : UInt8 := ((ev.dw0 >>> 24) &&& 0xFF).toUInt8

/-- `Espera`; `lib.rs:318–337`. -/
inductive Espera
  | comando (trb : UInt64)
  | transferencia (slot ep : UInt8)

/-- `cuadra`; `lib.rs:339–351`. -/
def cuadra (ev : Trb) : Espera → Bool
  | .comando trb => ev.tipo = Tipo.completion && ev.destino = trb &&& ~~~0xF
  | .transferencia slot ep => ev.tipo = Tipo.transfer && slotDe ev = slot && epDe ev = ep

/-- A letter: an event, and the place it has among those read. -/
structure Carta where
  num : Nat
  ev : Trb
  deriving DecidableEq

/-- What an event is the answer to: the `k`-th command or the `k`-th control transfer of the run; or
news of another endpoint, of a port or of anything else. -/
inductive Origen
  | comando (k : Nat)
  | control (k : Nat)
  | extremo
  | puerto
  | otro
  deriving DecidableEq

/-! ### What is shared -/

/-- `APARCADOS_MAX`; `lib.rs:374`. -/
def aparcadosMax : Nat := 64

/-- The event ring with the place of the driver in it, the command ring, the parked events with
their counters, the calls of `PORT_COLA.anotar`, the port registers and what the HAL answers each time
it is asked to sleep. Then what was posted and for whom, how many events were read, which of them
were lost, and the commands and control transfers sent. -/
structure Mundo where
  dw : Nat → UInt32
  evtDequeue : Nat
  evtCycle : UInt32
  cmdRing : TransferRing
  aparcados : List Carta
  aparcadosTotal : UInt32
  aparcadosPerdidos : UInt32
  comandosTardios : UInt32
  anotados : List (Nat × UInt8 × Bool)
  portsc : UInt8 → UInt32
  respira : Nat → Bool
  veces : Nat
  posteados : List (Trb × Origen)
  leidos : Nat
  perdidos : List Nat
  mandados : List UInt64
  controles : List UInt8

namespace Mundo

/-- The event in a slot. -/
def evento (m : Mundo) (i : Nat) : Trb :=
  ⟨m.dw (i * 4), m.dw (i * 4 + 1), m.dw (i * 4 + 2), m.dw (i * 4 + 3)⟩

/-- `aparcar`; `lib.rs:398–407`. -/
def aparcar (m : Mundo) (c : Carta) : Mundo :=
  if m.aparcados.length ≥ aparcadosMax then
    { m with aparcadosPerdidos := m.aparcadosPerdidos + 1, perdidos := m.perdidos ++ [c.num] }
  else { m with aparcados := m.aparcados ++ [c], aparcadosTotal := m.aparcadosTotal + 1 }

/-- `desaparcar_que_cuadre`; `lib.rs:415–431`. -/
def desaparcarQueCuadre (m : Mundo) (esp : Espera) : Option Carta × Mundo :=
  (m.aparcados.find? fun c ↦ cuadra c.ev esp,
    { m with aparcados := m.aparcados.eraseP fun c ↦ cuadra c.ev esp })

/-- `desaparcar_cualquiera`; `lib.rs:434–446`. -/
def desaparcarCualquiera (m : Mundo) : Option Carta × Mundo :=
  (m.aparcados.head?, { m with aparcados := m.aparcados.tail })

/-- `cmd_ring.enqueue` and the doorbell; `lib.rs:240–268` and `566–567`. The dwords that it writes are
the subject of `TransferRing.encola`. -/
def mandar (m : Mundo) : (UInt64 × Nat) × Mundo :=
  let r := m.cmdRing
  let dir := r.phys + UInt64.ofNat r.enqueue * 16
  let r' := if r.enqueue + 1 ≥ lastTrbIdx then { r with enqueue := 0, pcs := !r.pcs }
    else { r with enqueue := r.enqueue + 1 }
  ((dir, m.mandados.length), { m with cmdRing := r', mandados := m.mandados ++ [dir] })

/-- `PORTSC_CSC`; `lib.rs:153`. -/
def portscCsc : UInt32 := bit 17

/-- `PORTSC_CCS`; `lib.rs:151`. -/
def portscCcs : UInt32 := bit 0

/-- What `poll_transfer_event` does with a change of port: the change is cleared in the register, and
the queue gets a notice; `transferencia.rs:881–906`. -/
def atender (m : Mundo) (num : Nat) (puerto : UInt8) : Mundo :=
  let sc := m.portsc (puerto - 1)
  { m with
    portsc := if sc &&& portscCsc ≠ 0 then
      Function.update m.portsc (puerto - 1) (sc &&& ~~~portscCsc) else m.portsc
    anotados := m.anotados ++ [(num, puerto, decide (sc &&& portscCcs ≠ 0))] }

/-- The controller posts an event, with the cycle bit of its lap. -/
def postear (m : Mundo) (ev : Trb) (o : Origen) : Mundo :=
  let i := m.posteados.length % ringSize
  let ev' := ev.puesta (lapBit ringSize m.posteados.length)
  { m with
    dw := Function.update (Function.update (Function.update (Function.update m.dw
      (i * 4) ev'.dw0) (i * 4 + 1) ev'.dw1) (i * 4 + 2) ev'.dw2) (i * 4 + 3) ev'.dw3
    posteados := m.posteados ++ [(ev', o)] }

end Mundo

/-- What is done to it. -/
inductive Op
  | boca
  | leer (i : Nat)
  | erdp (ndq : Nat) (ncy : UInt32)
  | aparcar (c : Carta)
  | desaparcarQueCuadre (esp : Espera)
  | desaparcarCualquiera
  | tardia
  | respirar
  | mandar
  | controlar (slot : UInt8)
  | atender (num : Nat) (puerto : UInt8)
  | postear (ev : Trb) (o : Origen)
  | enchufe (puerto : UInt8) (sc : UInt32)

/-- The driver's side and the controller's. -/
abbrev correo : Interface := ⟨Op, fun
  | .boca => Nat × UInt32
  | .leer _ => UInt32
  | .erdp _ _ => Nat
  | .desaparcarQueCuadre _ | .desaparcarCualquiera => Option Carta
  | .respirar => Bool
  | .mandar => UInt64 × Nat
  | .controlar _ => Nat
  | _ => Unit⟩

/-- One thing done. -/
def maneja : Prog.Handler correo Mundo
  | .boca, m => ((m.evtDequeue, m.evtCycle), m)
  | .leer i, m => (m.dw i, m)
  | .erdp ndq ncy, m =>
    (m.leidos, { m with evtDequeue := ndq, evtCycle := ncy, leidos := m.leidos + 1 })
  | .aparcar c, m => ((), m.aparcar c)
  | .desaparcarQueCuadre esp, m => m.desaparcarQueCuadre esp
  | .desaparcarCualquiera, m => m.desaparcarCualquiera
  | .tardia, m => ((), { m with comandosTardios := m.comandosTardios + 1 })
  | .respirar, m => (m.respira m.veces, { m with veces := m.veces + 1 })
  | .mandar, m => m.mandar
  | .controlar slot, m => (m.controles.length, { m with controles := m.controles ++ [slot] })
  | .atender num puerto, m => ((), m.atender num puerto)
  | .postear ev o, m => ((), m.postear ev o)
  | .enchufe puerto sc, m => ((), { m with portsc := Function.update m.portsc puerto sc })

/-- One call. -/
def pide (o : Op) : Prog correo (correo.Res o) := Prog.op (I := correo) o

/-! ### The driver -/

/-- Where the next event will be, with its cycle bit; `lib.rs:460–465`. -/
def siguienteSitio (dq : Nat) (cy : UInt32) : Nat × UInt32 :=
  if dq + 1 ≥ ringSize then (0, cy ^^^ 1) else (dq + 1, cy)

/-- `evt_ring_pop`; `lib.rs:449–472`. -/
def evtRingPop : Prog correo (Option Carta) := do
  let (dq, cy) ← pide .boca
  let dw3 ← pide (.leer (dq * 4 + 3))
  if dw3 &&& 1 ≠ cy then
    return none
  let dw0 ← pide (.leer (dq * 4))
  let dw1 ← pide (.leer (dq * 4 + 1))
  let dw2 ← pide (.leer (dq * 4 + 2))
  let sitio := siguienteSitio dq cy
  let num ← pide (.erdp sitio.1 sitio.2)
  return some ⟨num, ⟨dw0, dw1, dw2, dw3⟩⟩

/-- `evt_poll_nb`; `lib.rs:527–555`. -/
def evtPollNb : Prog correo (Option Carta) := do
  let (dq, cy) ← pide .boca
  let dw3 ← pide (.leer (dq * 4 + 3))
  if dw3 &&& 1 = cy then
    let dw0 ← pide (.leer (dq * 4))
    let dw1 ← pide (.leer (dq * 4 + 1))
    let dw2 ← pide (.leer (dq * 4 + 2))
    let ndq := if dq + 1 ≥ ringSize then 0 else dq + 1
    let ncy := if ndq = 0 then cy ^^^ 1 else cy
    let num ← pide (.erdp ndq ncy)
    return some ⟨num, ⟨dw0, dw1, dw2, dw3⟩⟩
  else
    return none

/-- `GIRANDO`; `lib.rs:485`. -/
def girando : Nat := 4000

/-- `RESPIROS`; `lib.rs:486`. -/
def respirosMax : Nat := 100

/-- The loop of `evt_poll_block`, with the turns left; `lib.rs:489–523`. -/
def gira (esp : Espera) : Nat → Nat → Nat → Prog correo (Option Carta)
  | 0, _, _ => return none
  | n + 1, vacias, respiros => do
    match ← pide (.desaparcarQueCuadre esp) with
    | some c => return some c
    | none =>
      match ← evtRingPop with
      | some c =>
        if cuadra c.ev esp then
          return some c
        else if c.ev.tipo = Tipo.completion then
          pide .tardia
          gira esp n vacias respiros
        else
          pide (.aparcar c)
          gira esp n vacias respiros
      | none =>
        if vacias + 1 ≥ girando then
          if ← pide .respirar then
            if respiros + 1 ≥ respirosMax then
              return none
            else
              gira esp n (vacias + 1) (respiros + 1)
          else
            gira esp n (vacias + 1) respiros
        else
          gira esp n (vacias + 1) respiros

/-- `evt_poll_block`; `lib.rs:478–525`. -/
def evtPollBlock (esp : Espera) : Prog correo (Option Carta) := gira esp 500000 0 0

/-- A command and its wait, with the number of the command: what `send_cmd`, `cmd_cc`,
`direccionar_en_slot` and `configure_endpoint` have in common; `lib.rs:564–571`,
`enumerar.rs:299–306`, `transferencia.rs:435–440` and `513–517`. -/
def preguntar : Prog correo (Nat × Option Carta) := do
  let (mio, k) ← pide .mandar
  let c ← evtPollBlock (.comando mio)
  return (k, c)

/-- `control_transfer` from its doorbell on, with the number of the transfer;
`transferencia.rs:122–133`. -/
def controlTransfer (slot : UInt8) : Prog correo (Nat × Option Carta) := do
  let k ← pide (.controlar slot)
  let c ← evtPollBlock (.transferencia slot 1)
  return (k, c)

/-- What `poll_transfer_event` takes up next: the oldest of the parked events, or one of the ring;
`transferencia.rs:839–842`. -/
def siguienteCarta : Prog correo (Option Carta) := do
  match ← pide .desaparcarCualquiera with
  | some c => return some c
  | none => evtPollNb

/-- `poll_transfer_event`, for `n` turns of its loop at most; `transferencia.rs:829–908`. -/
def pollTransferEvent : Nat → Prog correo (Option (Nat × UInt8 × UInt8 × UInt8))
  | 0 => return none
  | n + 1 => do
    let c ← siguienteCarta
    match c with
    | none => return none
    | some ⟨num, ev⟩ =>
      if ev.tipo = Tipo.transfer then
        return some (num, slotDe ev, epDe ev, ccDe ev)
      else if ev.tipo = Tipo.portStatus then
        if puertoDe ev ≥ 1 then
          pide (.atender num (puertoDe ev))
          pollTransferEvent n
        else
          pollTransferEvent n
      else
        pollTransferEvent n

/-! ### Driver and controller -/

/-- What the driver has got: for each command and each control transfer that was answered, the number
of the letter it took; and what `poll_transfer_event` returned. -/
structure Conductor where
  respuestas : List (Nat × Nat)
  transferencias : List (Nat × Nat)
  devueltos : List (Nat × UInt8 × UInt8 × UInt8)

/-- What the driver is asked for. -/
inductive DelConductor
  | comando
  | control (slot : UInt8)
  | sondeo (vueltas : Nat)

/-- What the controller does. -/
inductive DelControlador
  | postear (ev : Trb) (o : Origen)
  | enchufe (puerto : UInt8) (sc : UInt32)

/-- What is taken down of an answer. -/
def apunta (l : List (Nat × Nat)) : Nat × Option Carta → List (Nat × Nat)
  | (_, none) => l
  | (k, some c) => l ++ [(k, c.num)]

/-- A call of the driver. -/
def Conductor.hace (d : Conductor) : DelConductor → Prog correo Conductor
  | .comando => do
    let r ← preguntar
    return { d with respuestas := apunta d.respuestas r }
  | .control slot => do
    let r ← controlTransfer slot
    return { d with transferencias := apunta d.transferencias r }
  | .sondeo vueltas => do
    let r ← pollTransferEvent vueltas
    return { d with devueltos := d.devueltos ++ r.toList }

/-- The driver and the controller, with the events between them. -/
def eventos : System Parte correo Mundo where
  Priv | .conductor => Conductor | .controlador => Unit
  Call | .conductor => DelConductor | .controlador => DelControlador
  prog
    | .conductor, c, d => d.hace c
    | .controlador, .postear ev o, _ => Prog.op (I := correo) (.postear ev o)
    | .controlador, .enchufe puerto sc, _ => Prog.op (I := correo) (.enchufe puerto sc)
  handle _ := maneja

/-- The event ring, the counters and the queue as `init` leaves them, with a command ring at `phys`;
`lib.rs:784–796`. -/
def Mundo.inicial (phys : UInt64) (portsc : UInt8 → UInt32) (respira : Nat → Bool) : Mundo :=
  ⟨fun _ ↦ 0, 0, 1, ⟨phys, 0, true⟩, [], 0, 0, 0, [], portsc, respira, 0, [], 0, [], [], []⟩

/-- Driver and controller at the start. -/
def alInicio (phys : UInt64) (portsc : UInt8 → UInt32) (respira : Nat → Bool) : eventos.Config :=
  .start (.inicial phys portsc respira) fun
    | .conductor => ⟨[], [], []⟩
    | .controlador => ()

end Correo

end BmoX.Xhci
