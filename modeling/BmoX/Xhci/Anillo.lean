import BmoX.Base.Interleave

/-!
# The rings of the xHCI controller

`platform/drivers/usb/xhci/src/{lib.rs,enumerar.rs,transferencia.rs}`: the rings on which the driver
leaves work for the controller. A ring is a page of dwords, and every producer is a program of
single reads and writes of them, so that the controller can act between any two.
-/

namespace BmoX.Xhci

open BmoX.Base

/-! ### The shape -/

/-- `1 << k`. -/
def bit (k : UInt32) : UInt32 := 1 <<< k

namespace Tipo

/-! `TRB_*`; `lib.rs:156–171`. -/

abbrev normal : UInt32 := 1
abbrev setup : UInt32 := 2
abbrev data : UInt32 := 3
abbrev status : UInt32 := 4
abbrev isoch : UInt32 := 5
abbrev link : UInt32 := 6
abbrev enable : UInt32 := 9
abbrev disable : UInt32 := 10
abbrev addressDev : UInt32 := 11
abbrev configure : UInt32 := 12
abbrev resetEp : UInt32 := 14
abbrev setTrDeq : UInt32 := 16

end Tipo

/-- `RING_SIZE`; `lib.rs:174`. -/
abbrev ringSize : Nat := 256

/-- `LAST_TRB_IDX`: the Link TRB; `lib.rs:175`. -/
def lastTrbIdx : Nat := ringSize - 1

theorem lastTrbIdx_eq : lastTrbIdx = 255 := rfl

/-- `Trb`; `lib.rs:184–185`. -/
structure Trb where
  dw0 : UInt32
  dw1 : UInt32
  dw2 : UInt32
  dw3 : UInt32
  deriving DecidableEq

namespace Trb

/-- The cycle bit. -/
def ciclo (t : Trb) : Bool := t.dw3 &&& 1 = 1

/-- The type of the TRB. -/
def tipo (t : Trb) : UInt32 := (t.dw3 >>> 10) &&& 0x3F

/-- The Toggle Cycle bit of a Link TRB. -/
def toggle (t : Trb) : Bool := t.dw3 &&& 2 = 2

/-- The address that a Link TRB names. -/
def destino (t : Trb) : UInt64 := (t.dw0.toUInt64 ||| t.dw1.toUInt64 <<< 32) &&& ~~~0xF

/-- What the TRB asks for, whatever its cycle bit. -/
def sinCiclo (t : Trb) : Trb := { t with dw3 := t.dw3 &&& ~~~1 }

end Trb

/-! ### The memory and the controller -/

/-- What is done to a ring: the dwords that the driver reads and writes, a step of the controller,
and a Set TR Dequeue Pointer command that succeeds. -/
inductive Op
  | leer (i : Nat)
  | escribir (i : Nat) (v : UInt32)
  | ejecutar
  | recolocar (dq : UInt64)

/-- A ring. -/
abbrev anillo : Interface := ⟨Op, fun
  | .leer _ => UInt32
  | _ => Unit⟩

/-- `read_volatile` of a dword of the ring. -/
def leer (i : Nat) : Prog anillo UInt32 := Prog.op (I := anillo) (.leer i)

/-- `write_volatile` to a dword of the ring. -/
def escribir (i : Nat) (v : UInt32) : Prog anillo Unit := Prog.op (I := anillo) (.escribir i v)

/-- The dwords of a ring, where the controller is in it, and since the last recovery the TRBs whose
last dword the driver has written and those that the controller has executed. -/
structure Estado where
  dw : Nat → UInt32
  deq : Nat
  ccs : Bool
  encolados : List Trb
  ejecutados : List Trb

namespace Estado

/-- The TRB in a slot. -/
def trb (m : Estado) (i : Nat) : Trb :=
  ⟨m.dw (i * 4), m.dw (i * 4 + 1), m.dw (i * 4 + 2), m.dw (i * 4 + 3)⟩

/-- The slot at an address of a ring that begins at `base`. -/
def casilla (base dir : UInt64) : Nat := (dir - base).toNat / 16

/-- A step of the controller on a ring: nothing while the cycle bit is not its own; a Link TRB
takes it to its target; any other TRB it executes. -/
def paso (base : UInt64) (m : Estado) : Estado :=
  let t := m.trb m.deq
  if t.ciclo ≠ m.ccs then m
  else if t.tipo = Tipo.link then
    { m with deq := casilla base t.destino, ccs := m.ccs ^^ t.toggle }
  else { m with deq := m.deq + 1, ejecutados := m.ejecutados ++ [t.sinCiclo] }

/-- A write of the driver: with its last dword, the TRB of a slot is enqueued. -/
def escrito (m : Estado) (i : Nat) (v : UInt32) : Estado :=
  let m' := { m with dw := Function.update m.dw i v }
  if i % 4 = 3 ∧ i / 4 < lastTrbIdx then
    { m' with encolados := m.encolados ++ [(m'.trb (i / 4)).sinCiclo] }
  else m'

/-- The controller at the place that the command gives it. -/
def recolocado (base dq : UInt64) (m : Estado) : Estado :=
  { m with
    deq := casilla base (dq &&& ~~~0xF)
    ccs := dq &&& 1 = 1
    encolados := []
    ejecutados := [] }

end Estado

/-- One thing done to a ring that begins at `base`. -/
def maneja (base : UInt64) : Prog.Handler anillo Estado
  | .leer i, m => (m.dw i, m)
  | .escribir i v, m => ((), m.escrito i v)
  | .ejecutar, m => ((), m.paso base)
  | .recolocar dq, m => ((), m.recolocado base dq)

/-! ### `TransferRing` -/

/-- The bit that a TRB takes from the producer. -/
def conCiclo (pcs : Bool) : UInt32 := if pcs then 1 else 0

/-- The four writes that leave a TRB in a slot, the one with the cycle bit last. -/
def ponerTrb (idx : Nat) (t : Trb) (pcs : Bool) : Prog anillo Unit := do
  escribir (idx * 4) t.dw0
  escribir (idx * 4 + 1) t.dw1
  escribir (idx * 4 + 2) t.dw2
  escribir (idx * 4 + 3) (t.dw3 ||| conCiclo pcs)

/-- `TransferRing`, and also `Ep0Info` and `EpRing`; `lib.rs:196–201`, `enumerar.rs:190`,
`transferencia.rs:169`. -/
structure TransferRing where
  phys : UInt64
  enqueue : Nat
  pcs : Bool

namespace TransferRing

/-- `new`; `lib.rs:206–215`. -/
def new (dmaPhys : UInt64) : Prog anillo TransferRing := do
  let phys := dmaPhys &&& ~~~0xF
  let base := lastTrbIdx * 4
  escribir base phys.toUInt32
  escribir (base + 1) (phys >>> 32).toUInt32
  escribir (base + 2) 0
  escribir (base + 3) ((Tipo.link <<< 10) ||| 1)
  return ⟨phys, 0, true⟩

/-- `enable_toggle_cycle`; `lib.rs:227–231`. -/
def enableToggleCycle (_r : TransferRing) : Prog anillo Unit := do
  let base := lastTrbIdx * 4
  let dw3 ← leer (base + 3)
  escribir (base + 3) (dw3 ||| bit 1)

/-- `advance`; `lib.rs:255–268`. -/
def advance (r : TransferRing) : Prog anillo TransferRing := do
  if r.enqueue + 1 ≥ lastTrbIdx then
    let lb := lastTrbIdx * 4
    let linkDw3 ← leer (lb + 3)
    if r.pcs then
      escribir (lb + 3) (linkDw3 ||| 1)
    else
      escribir (lb + 3) (linkDw3 &&& ~~~1)
    return { r with enqueue := 0, pcs := !r.pcs }
  else
    return { r with enqueue := r.enqueue + 1 }

/-- `enqueue`, with the address where the TRB is left; `lib.rs:240–252`. -/
def encola (r : TransferRing) (trb : Trb) : Prog anillo (TransferRing × UInt64) := do
  ponerTrb r.enqueue trb r.pcs
  let r' ← r.advance
  return (r', r.phys + UInt64.ofNat r.enqueue * 16)

end TransferRing

/-! ### The producers -/

/-- The commands that the driver sends: `enable_slot`, `disable_slot`, `direccionar_en_slot`,
`configure_endpoint` and `recuperar_endpoint`. -/
inductive Comando
  | enableSlot
  | disableSlot (slot : UInt8)
  | addressDevice (slot : UInt8) (entrada : UInt64)
  | configureEndpoint (slot : UInt8) (entrada : UInt64)
  | resetEndpoint (slot dci : UInt8)
  | setTrDequeue (slot dci : UInt8) (dq : UInt64)

/-- The TRB of a command; `enumerar.rs:125`, `151–154` and `293–298`, `transferencia.rs:429–434`,
`558` and `594–599`. -/
def Comando.trb : Comando → Trb
  | enableSlot => ⟨0, 0, 0, Tipo.enable <<< 10⟩
  | disableSlot slot => ⟨0, 0, 0, slot.toUInt32 <<< 24 ||| Tipo.disable <<< 10⟩
  | addressDevice slot entrada => ⟨entrada.toUInt32, (entrada >>> 32).toUInt32, 0,
      slot.toUInt32 <<< 24 ||| Tipo.addressDev <<< 10⟩
  | configureEndpoint slot entrada => ⟨entrada.toUInt32, (entrada >>> 32).toUInt32, 0,
      slot.toUInt32 <<< 24 ||| Tipo.configure <<< 10⟩
  | resetEndpoint slot dci => ⟨0, 0, 0,
      (slot.toUInt32 <<< 24 ||| dci.toUInt32 <<< 16) ||| Tipo.resetEp <<< 10⟩
  | setTrDequeue slot dci dq => ⟨dq.toUInt32, (dq >>> 32).toUInt32, 0,
      (slot.toUInt32 <<< 24 ||| dci.toUInt32 <<< 16) ||| Tipo.setTrDeq <<< 10⟩

/-- What `control_transfer` is asked for; `pagina` is the page for the data stage, if there is one. -/
structure Control where
  bmReqType : UInt8
  bRequest : UInt8
  wValue : UInt16
  wIndex : UInt16
  largo : Nat
  dataIn : Bool
  pagina : Option UInt64

namespace Control

/-- `has_data`. -/
def hasData (c : Control) : Bool := c.largo ≠ 0

/-- `data_page`, or `none` where `control_transfer` goes back without having enqueued anything;
`transferencia.rs:48–71`. -/
def dataPage (c : Control) : Option UInt64 :=
  if 4096 < c.largo then none
  else if c.hasData then
    let dp := c.pagina.getD 0
    if dp = 0 then none else some dp
  else some 0

/-- The Setup Stage; `transferencia.rs:73–83`. -/
def setup (c : Control) : Trb :=
  let trt : UInt32 := if !c.hasData then 0 else if c.dataIn then 3 else 2
  ⟨c.bmReqType.toUInt32 ||| c.bRequest.toUInt32 <<< 8 ||| c.wValue.toUInt32 <<< 16,
    c.wIndex.toUInt32 ||| UInt32.ofNat c.largo <<< 16, 8,
    Tipo.setup <<< 10 ||| bit 6 ||| trt <<< 16⟩

/-- The Data Stage; `transferencia.rs:93–103`. -/
def data (c : Control) (pagina : UInt64) : Trb :=
  let dir : UInt32 := if c.dataIn then bit 16 else 0
  ⟨pagina.toUInt32, (pagina >>> 32).toUInt32, UInt32.ofNat c.largo &&& 0x1FFFF,
    Tipo.data <<< 10 ||| dir⟩

/-- The Status Stage; `transferencia.rs:108–118`. -/
def status (c : Control) : Trb :=
  let dirIn := if c.hasData then !c.dataIn else true
  ⟨0, 0, 0, Tipo.status <<< 10 ||| (if dirIn then bit 16 else 0) ||| bit 5⟩

end Control

namespace TransferRing

/-- One stage of `control_transfer`: the Link TRB is left alone at the end of the ring;
`transferencia.rs:84–91`, `95–105` and `109–120`. -/
def etapa (r : TransferRing) (t : Trb) : Prog anillo TransferRing := do
  ponerTrb r.enqueue t r.pcs
  if r.enqueue + 1 ≥ lastTrbIdx then
    return { r with enqueue := 0, pcs := !r.pcs }
  else
    return { r with enqueue := r.enqueue + 1 }

/-- The part of `control_transfer` that fills the ring; `transferencia.rs:36–122`. -/
def controlTransfer (r : TransferRing) (c : Control) : Prog anillo TransferRing := do
  match c.dataPage with
  | none => return r
  | some pagina =>
    let r ← r.etapa c.setup
    let r ← if c.hasData then r.etapa (c.data pagina) else pure r
    r.etapa c.status

/-- A TRB in the ring of an endpoint, with the Link TRB brought up to date at the end. -/
def encolaExtremo (r : TransferRing) (t : Trb) : Prog anillo TransferRing := do
  ponerTrb r.enqueue t r.pcs
  if r.enqueue + 1 ≥ lastTrbIdx then
    let lb := lastTrbIdx * 4
    let dw3 ← leer (lb + 3)
    escribir (lb + 3) ((dw3 &&& ~~~1) ||| conCiclo r.pcs)
    return { r with enqueue := 0, pcs := !r.pcs }
  else
    return { r with enqueue := r.enqueue + 1 }

end TransferRing

/-- The TRB of `encolar_normal`; `transferencia.rs:650–654`. -/
def trbNormal (bufPhys : UInt64) (len : UInt32) : Trb :=
  ⟨bufPhys.toUInt32, (bufPhys >>> 32).toUInt32, len &&& 0x1FFFF, Tipo.normal <<< 10 ||| bit 5⟩

/-- The TRB of `queue_isoch_out`; `transferencia.rs:744–755`. -/
def trbIsoch (bufPhys : UInt64) (len : UInt16) (avisar : Bool) : Trb :=
  let ioc : UInt32 := if avisar then bit 5 else 0
  ⟨bufPhys.toUInt32, (bufPhys >>> 32).toUInt32, len.toUInt32, Tipo.isoch <<< 10 ||| ioc ||| bit 31⟩

namespace TransferRing

/-- `encolar_normal`; `transferencia.rs:646–669`. -/
def encolarNormal (r : TransferRing) (bufPhys : UInt64) (len : UInt32) : Prog anillo TransferRing :=
  r.encolaExtremo (trbNormal bufPhys len)

/-- `queue_isoch_out`; `transferencia.rs:740–771`. -/
def queueIsochOut (r : TransferRing) (bufPhys : UInt64) (len : UInt16) (avisar : Bool) :
    Prog anillo TransferRing :=
  r.encolaExtremo (trbIsoch bufPhys len avisar)

/-- Step 2 of `recuperar_endpoint`, when the command succeeds; `transferencia.rs:573–615`. -/
def recuperarEndpoint (r : TransferRing) : Prog anillo TransferRing := do
  let r := { r with enqueue := 0, pcs := true }
  let dq := (r.phys &&& ~~~0xF) ||| 1
  Prog.op (I := anillo) (.recolocar dq)
  return r

end TransferRing

end BmoX.Xhci
