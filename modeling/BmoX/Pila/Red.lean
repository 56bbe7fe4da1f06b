import BmoX.Base.Serial
import BmoX.Pila.Acuse
import BmoX.Pila.Emision

/-!
# Two stacks and a network

Two stacks of `platform/shared/bmo-pila/src/tcp/mod.rs` joined by a network that loses, delays,
repeats and reorders what they emit. The run is of one connection, between two addresses and
ports, which lives in one slot of each stack; whatever else the stacks do goes on beside it.
-/

namespace BmoX.Pila

open BmoX.Base

/-- The two ends of a connection: their addresses, and the slots it lives in. -/
structure Extremos where
  ip : Bool → Ip
  puerto : Bool → UInt16
  ranura : Bool → Fin conexiones

/-- A live connection between the ends, seen from the end `x`. -/
def Extremos.Suya (e : Extremos) (x : Bool) (c : Conexion) : Prop :=
  c.viva = true ∧ c.miIp = e.ip x ∧ c.suIp = e.ip !x ∧ c.miPuerto = e.puerto x ∧
    c.suPuerto = e.puerto !x

instance (e : Extremos) (x : Bool) (c : Conexion) : Decidable (e.Suya x c) :=
  inferInstanceAs (Decidable (_ ∧ _))

/-- A segment of the connection that goes to the end `x`. -/
def Extremos.Para (e : Extremos) (x : Bool) (ipOrigen ipDestino : Ip) (s : Segmento) : Prop :=
  ipOrigen = e.ip !x ∧ ipDestino = e.ip x ∧ s.origen = e.puerto !x ∧ s.destino = e.puerto x

instance (e : Extremos) (x : Bool) (o d : Ip) (s : Segmento) : Decidable (e.Para x o d s) :=
  inferInstanceAs (Decidable (_ ∧ _))

/-- Before the connection is in its slot, while it is, and after. -/
inductive Fase
  | antes | vigente | despues
  deriving DecidableEq

/-- What is remembered of the connection at one end: its first number, the bytes that `enviar`
accepted and those that `recibir` handed out, the stream at the first `cerrar`, and how far the
oldest number without acknowledgement and the next one expected have moved. -/
structure Diario where
  fase : Fase
  isn : UInt32
  aceptado : Bytes
  entregado : Bytes
  cerrado : Option Bytes
  una : Nat
  nxt : Nat

/-- Nothing yet. -/
def Diario.nuevo : Diario := ⟨.antes, 0, [], [], none, 0, 0⟩

namespace Tcp

/-- The bytes that a call puts in the queue of a slot. -/
def aceptados (t : Tcp) (i : Fin conexiones) : Orden → Bytes
  | .enviar asa datos =>
    if asa = i.val then
      match (t.enviar asa datos).2 with
      | .ok n => datos.take n
      | .error _ => []
    else []
  | _ => []

/-- The bytes that a call takes out of a slot. -/
def entregados (t : Tcp) (i : Fin conexiones) : Orden → Bytes
  | .recibir asa cuanto =>
    if asa = i.val then
      match (t.recibir asa cuanto).2 with
      | .ok datos => datos
      | .error _ => []
    else []
  | _ => []

/-- The call closes a slot. -/
def cierra (t : Tcp) (i : Fin conexiones) : Orden → Bool
  | .cerrar asa => asa = i.val && (t.cerrar asa).2.isOk
  | _ => false

/-- What a call emits, between whom. -/
def emitido (t : Tcp) : Orden → Option (Ip × Ip × Bytes)
  | .salida ahora dst => (t.salida ahora dst).2.map fun r ↦ (r.1, r.2.1, r.2.2.2.take r.2.2.1)
  | _ => none

end Tcp

/-- What is remembered of a connection in its slot after a call that accepted `ac`, handed out
`en`, may have closed it and left `c'` where `c` was. -/
def Diario.pasa (d : Diario) (ac en : Bytes) (cierra : Bool) (c c' : Conexion) : Diario :=
  { d with
    fase := if c'.estado = .libre then .despues else .vigente
    aceptado := d.aceptado ++ ac
    entregado := d.entregado ++ en
    cerrado := if cierra ∧ d.cerrado = none then some d.aceptado else d.cerrado
    una := d.una + (c'.sndUna - c.sndUna).toNat
    nxt :=
      if c.estado = .synEnviado then if c'.estado = .establecida then 1 else 0
      else d.nxt + (c'.rcvNxt - c.rcvNxt).toNat }

/-- What is remembered after a call that left `c'` where `c` was. -/
def Diario.sigue (d : Diario) (e : Extremos) (x : Bool) (t : Tcp) (o : Tcp.Orden)
    (c c' : Conexion) : Diario :=
  match d.fase with
  | .antes =>
    if e.Suya x c' then
      { Diario.nuevo with
        fase := .vigente
        isn := c'.isn
        nxt := if c'.estado = .synEnviado then 0 else 1 }
    else d
  | .vigente =>
    d.pasa (t.aceptados (e.ranura x) o) (t.entregados (e.ranura x) o) (t.cierra (e.ranura x) o) c c'
  | .despues => d

/-- Something on its way: which end sent it, between whom, and how far the numbers of the other
end had moved. -/
structure Paquete where
  de : Bool
  ipOrigen : Ip
  ipDestino : Ip
  b : Bytes
  una : Nat
  nxt : Nat

/-- The two stacks, what is remembered of the connection at each end, and all that was sent. -/
structure Red where
  t : Bool → Tcp
  d : Bool → Diario
  red : List Paquete

namespace Red

variable (e : Extremos) (hmac : Bytes → Bytes → Arr 32)

/-- The connection's slot at an end. -/
def c (r : Red) (x : Bool) : Conexion := (r.t x).c (e.ranura x)

/-- The network after a call at the end `x`. -/
def tras (r : Red) (x : Bool) (o : Tcp.Orden) : Red where
  t := Function.update r.t x ((r.t x).hace hmac o)
  d := Function.update r.d x ((r.d x).sigue e x (r.t x) o (r.c e x)
    (((r.t x).hace hmac o).c (e.ranura x)))
  red := r.red ++ ((r.t x).emitido o).toList.map fun p ↦
    ⟨x, p.1, p.2.1, p.2.2, (r.d !x).una, (r.d !x).nxt⟩

/-- A call opens a second connection with the addresses of this one. -/
def Reabre (r : Red) (x : Bool) (o : Tcp.Orden) : Prop :=
  ∃ k, ¬e.Suya x ((r.t x).c k) ∧ e.Suya x (((r.t x).hace hmac o).c k) ∧
    (k ≠ e.ranura x ∨ (r.d x).fase ≠ .antes)

instance (r : Red) (x : Bool) (o : Tcp.Orden) : Decidable (r.Reabre e hmac x o) :=
  inferInstanceAs (Decidable (∃ _, _))

/-- What was sent did not survive half the sequence space: the numbers of the end it goes to
moved less than that since. -/
def Vive (r : Red) (p : Paquete) : Prop :=
  (r.d !p.de).una < p.una + 2147483648 ∧ (r.d !p.de).nxt < p.nxt + 2147483648

instance (r : Red) (p : Paquete) : Decidable (r.Vive p) := inferInstanceAs (Decidable (_ ∧ _))

/-- One step: a call at one end, the arrival of something sent, or the arrival of something that
is not of this connection. None opens a second connection with its addresses. -/
inductive Paso (r : Red) : Red → Prop
  | llama (x : Bool) (o : Tcp.Orden)
      (ho : ∀ ipOrigen ipDestino b ahora, o ≠ .entrada ipOrigen ipDestino b ahora)
      (hr : ¬r.Reabre e hmac x o) : Paso r (r.tras e hmac x o)
  | trae (p : Paquete) (ahora : UInt64) (hp : p ∈ r.red) (hv : r.Vive p)
      (hr : ¬r.Reabre e hmac (!p.de) (.entrada p.ipOrigen p.ipDestino p.b ahora)) :
      Paso r (r.tras e hmac (!p.de) (.entrada p.ipOrigen p.ipDestino p.b ahora))
  | ajeno (x : Bool) (ipOrigen ipDestino : Ip) (b : Bytes) (ahora : UInt64)
      (ha : ∀ s, Segmento.leer b ipOrigen ipDestino = .ok s → ¬e.Para x ipOrigen ipDestino s)
      (hr : ¬r.Reabre e hmac x (.entrada ipOrigen ipDestino b ahora)) :
      Paso r (r.tras e hmac x (.entrada ipOrigen ipDestino b ahora))

/-- The networks that a run reaches, from two stacks without the connection and nothing sent. -/
inductive Corre : Red → Prop
  | inicio (t : Bool → Tcp) (h : ∀ x k, ¬e.Suya x ((t x).c k)) :
      Corre ⟨t, fun _ ↦ .nuevo, []⟩
  | paso {r r' : Red} (h : Corre r) (hp : r.Paso e hmac r') : Corre r'

/-- What an end received: what it handed out, then what waits in its buffer. -/
def recibido (r : Red) (x : Bool) : Bytes :=
  (r.d x).entregado ++ if (r.d x).fase = .vigente then (r.c e x).rx else []

end Red

end BmoX.Pila
