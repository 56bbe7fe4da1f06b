import BmoX.Base.Bits
import BmoX.Pila.Segmento
import Mathlib.Logic.Function.Basic

/-!
# TCP: the state machine

`platform/shared/bmo-pila/src/tcp/mod.rs`. Eight connections of fixed size, the time passed in
by the caller. The keyed hash that gives ports and initial numbers, `hmac_sha256` of
`bmo-cripto`, is the parameter `hmac`. A buffer is the list of its bytes in use.
-/

namespace BmoX.Pila

open BmoX.Base

/-- `CONEXIONES`; `tcp/mod.rs:49`. -/
abbrev conexiones : Nat := 8

instance : NeZero conexiones := ⟨by decide⟩

/-- `BUFER`; `tcp/mod.rs:50`. -/
abbrev bufer : Nat := 8192

/-- `MSS`; `tcp/mod.rs:51`. -/
def mssMax : UInt16 := 1460

/-- `MSS_MIN`; `tcp/mod.rs:52`. -/
def mssMin : UInt16 := 536

/-- `RTO_INICIAL_MS`; `tcp/mod.rs:53`. -/
def rtoInicial : UInt64 := 1000

/-- `RTO_MAX_MS`; `tcp/mod.rs:54`. -/
def rtoMax : UInt64 := 32000

/-- `REINTENTOS`; `tcp/mod.rs:55`. -/
def reintentosMax : UInt8 := 6

/-- `TIEMPO_ESPERA_MS`; `tcp/mod.rs:56`. -/
def tiempoEsperaMs : UInt64 := 60000

/-- `RETOS_POR_SEGUNDO`; `tcp/mod.rs:57`. -/
def retosPorSegundo : UInt32 := 10

/-- `PUERTO_BAJO`; `tcp/mod.rs:58`. -/
def puertoBajo : UInt16 := 49152

/-- `PUERTOS`; `tcp/mod.rs:59`. -/
def puertos : UInt32 := 16384

/-- Why a connection ended; `tcp/mod.rs:78–87`. -/
inductive Cierre
  | normal | reset | agotada | abortada
  deriving DecidableEq, Repr

/-- `tcp/mod.rs:62–76`. -/
inductive Estado
  | libre | escucha | synEnviado | synRecibido | establecida | finEspera1 | finEspera2
  | cierreEspera | cerrando | ultimoAck | tiempoEspera
  | cerrada (c : Cierre)
  deriving DecidableEq, Repr

/-- `u32::saturating_add`. -/
def sumaSat (a b : UInt32) : UInt32 := if a ≤ 0xFFFFFFFF - b then a + b else 0xFFFFFFFF

/-- `a` goes before `b` in half the circle of sequence numbers; `tcp/mod.rs:151–154`. -/
def antes (a b : UInt32) : Bool := b - a ≠ 0 && b - a < 0x80000000

/-- `tcp/mod.rs:156–158`. -/
def dentro (x desde largo : UInt32) : Bool := x - desde < largo

/-- The peer's MSS, within bounds; `tcp/mod.rs:160–162`. -/
def mssDe (s : Segmento) : UInt16 :=
  let m := s.mss.getD mssMin
  if m < mssMin then mssMin else if mssMax < m then mssMax else m

/-- `tcp/mod.rs:90–118`. -/
structure Conexion where
  estado : Estado
  miIp : Ip
  suIp : Ip
  miPuerto : UInt16
  suPuerto : UInt16
  isn : UInt32
  sndUna : UInt32
  sndNxt : UInt32
  sndWnd : UInt32
  suMss : UInt16
  tx : Bytes
  finPedido : Bool
  finConfirmado : Bool
  rcvNxt : UInt32
  rx : Bytes
  rto : UInt64
  reintentos : UInt8
  vence : Option UInt64
  sondear : Bool
  cwnd : UInt32
  ssthresh : UInt32
  ackDebido : Bool
  desde : UInt64
  escucha : Option UInt8
  huerfana : Bool
  deriving DecidableEq

/-- A reset to send; `tcp/mod.rs:194–201`. -/
structure Rst where
  miIp : Ip
  suIp : Ip
  miPuerto : UInt16
  suPuerto : UInt16
  sec : UInt32
  ack : UInt32
  deriving DecidableEq

/-- What a segment does besides changing its connection: nothing, or ask for a challenge ACK. -/
inductive Efecto
  | nada | reto
  deriving DecidableEq

namespace Conexion

/-- `LIBRE`; `tcp/mod.rs:120–148`. -/
def nueva : Conexion where
  estado := .libre
  miIp := Arr.pad 4 []
  suIp := Arr.pad 4 []
  miPuerto := 0
  suPuerto := 0
  isn := 0
  sndUna := 0
  sndNxt := 0
  sndWnd := 0
  suMss := mssMin
  tx := []
  finPedido := false
  finConfirmado := false
  rcvNxt := 0
  rx := []
  rto := rtoInicial
  reintentos := 0
  vence := none
  sondear := false
  cwnd := 2 * mssMax.toUInt32
  ssthresh := 0xFFFFFFFF
  ackDebido := false
  desde := 0
  escucha := none
  huerfana := false

/-- `tcp/mod.rs:165–167`. -/
def viva (c : Conexion) : Bool :=
  match c.estado with
  | .libre | .escucha | .cerrada _ => false
  | _ => true

/-- `tcp/mod.rs:169–171`. -/
def ventanaRx (c : Conexion) : UInt16 := UInt16.ofNat (Nat.min (bufer - c.rx.length) 65535)

/-- `tcp/mod.rs:173–175`. -/
def enVuelo (c : Conexion) : UInt32 := c.sndNxt - c.sndUna

/-- `tcp/mod.rs:177–179`. -/
def mss (c : Conexion) : UInt32 := (if c.suMss ≤ mssMax then c.suMss else mssMax).toUInt32

/-- `tcp/mod.rs:181–185`. -/
def armar (c : Conexion) (ahora : UInt64) : Conexion :=
  if c.vence = none then { c with vence := some (ahora + c.rto) } else c

/-- `tcp/mod.rs:187–190`. -/
def cerrarCon (c : Conexion) (por : Cierre) : Conexion :=
  { c with
    vence := none
    estado := if c.huerfana then .libre else .cerrada por }

/-- The reset of a connection that is cut. -/
def rstDe (c : Conexion) : Rst := ⟨c.miIp, c.suIp, c.miPuerto, c.suPuerto, c.sndNxt, c.rcvNxt⟩

/-! ### A segment arrives -/

/-- The answer to a SYN; `tcp/mod.rs:446–472`. -/
def entraSynEnviado (c : Conexion) (s : Segmento) (ahora : UInt64) :
    Conexion × Except Rechazo Unit :=
  let ackBueno := s.banderas &&& ack ≠ 0 ∧ s.ack = c.isn + 1
  if s.banderas &&& ack ≠ 0 ∧ ¬ackBueno then (c, .error .secuencia)
  else if s.banderas &&& rst ≠ 0 then
    (if ackBueno then c.cerrarCon .reset else c, .ok ())
  else if s.banderas &&& syn = 0 ∨ ¬ackBueno then (c, .error .banderas)
  else
    ({ c with
      rcvNxt := s.sec + 1
      sndUna := s.ack
      sndWnd := s.ventana.toUInt32
      suMss := mssDe s
      estado := .establecida
      vence := none
      reintentos := 0
      rto := rtoInicial
      ackDebido := true
      desde := ahora }, .ok ())

/-- The congestion window after `deDatos` bytes more were acknowledged; `tcp/mod.rs:529–534`. -/
def abreCwnd (c : Conexion) (deDatos : Nat) : UInt32 :=
  if c.cwnd < c.ssthresh then
    let n := UInt32.ofNat deDatos
    sumaSat c.cwnd (if n ≤ c.mss then n else c.mss)
  else
    let n := c.mss * c.mss / c.cwnd
    sumaSat c.cwnd (if 1 ≤ n then n else 1)

/-- The bytes and the FIN that an ACK acknowledges leave; `tcp/mod.rs:516–534`. -/
def avanza (c : Conexion) (s : Segmento) (ahora : UInt64) : Conexion :=
  let confirmados := (s.ack - c.sndUna).toNat
  let deDatos := Nat.min confirmados c.tx.length
  let c := { c with
    finConfirmado := c.finConfirmado || c.tx.length < confirmados
    tx := c.tx.drop deDatos
    sndUna := s.ack
    reintentos := 0
    rto := rtoInicial }
  let c := { c with vence := if 0 < c.enVuelo then some (ahora + c.rto) else none }
  { c with cwnd := c.abreCwnd deDatos }

/-- The state after the FIN was acknowledged; `tcp/mod.rs:535–547`. -/
def trasFin (c : Conexion) (ahora : UInt64) : Conexion :=
  match c.estado with
  | .finEspera1 => { c with estado := .finEspera2 }
  | .cerrando => { c with estado := .tiempoEspera, desde := ahora }
  | .ultimoAck => c.cerrarCon .normal
  | _ => c

/-- The ACK of a segment: refused, or the connection after it and whether it is over;
`tcp/mod.rs:504–551`. -/
def confirma (c : Conexion) (s : Segmento) (ahora : UInt64) : Except Rechazo (Conexion × Bool) :=
  if c.estado = .synRecibido then
    if c.sndNxt = c.isn ∨ s.ack ≠ c.sndNxt then .error .secuencia
    else .ok ({ c with
      sndUna := s.ack
      sndWnd := s.ventana.toUInt32
      estado := .establecida
      vence := none
      reintentos := 0
      rto := rtoInicial
      desde := ahora }, false)
  else if antes s.ack c.sndUna then .ok (c, false)
  else if s.ack = c.sndUna then .ok ({ c with sndWnd := s.ventana.toUInt32 }, false)
  else
    let c := c.avanza s ahora
    let c' := if c.finConfirmado then c.trasFin ahora else c
    if c.finConfirmado ∧ c.estado = .ultimoAck then .ok (c', true)
    else .ok ({ c' with sndWnd := s.ventana.toUInt32 }, false)

/-- The state after the peer's FIN was taken; `tcp/mod.rs:581–597`. -/
def traeFin (c : Conexion) (ahora : UInt64) : Conexion :=
  let c := { c with rcvNxt := c.rcvNxt + 1, ackDebido := true }
  match c.estado with
  | .establecida => { c with estado := .cierreEspera }
  | .finEspera1 =>
    if c.finConfirmado then { c with estado := .tiempoEspera, desde := ahora }
    else { c with estado := .cerrando }
  | .finEspera2 => { c with estado := .tiempoEspera, desde := ahora, vence := none }
  | _ => c

/-- The states that take data; `tcp/mod.rs:569`. -/
def recibe (c : Conexion) : Bool :=
  match c.estado with
  | .establecida | .finEspera1 | .finEspera2 => true
  | _ => false

/-- The data and the FIN of a segment; `tcp/mod.rs:553–599`. -/
def toma (c : Conexion) (s : Segmento) (ahora : UInt64) : Conexion :=
  let esFin := s.banderas &&& fin ≠ 0
  if antes c.rcvNxt s.sec ∨ s.datos.length < (c.rcvNxt - s.sec).toNat then
    if s.datos ≠ [] ∨ esFin then { c with ackDebido := true } else c
  else
    let datos := s.datos.drop (c.rcvNxt - s.sec).toNat
    let tomados := if c.recibe then Nat.min datos.length (bufer - c.rx.length) else 0
    let c' := if datos = [] then c else { c with
      rx := c.rx ++ datos.take tomados
      rcvNxt := c.rcvNxt + UInt32.ofNat tomados
      ackDebido := true }
    if esFin ∧ c.recibe ∧ tomados = datos.length then c'.traeFin ahora else c'

/-- A segment for this connection; `tcp/mod.rs:443–600`. -/
def entra (c : Conexion) (s : Segmento) (ahora : UInt64) :
    Conexion × Efecto × Except Rechazo Unit :=
  if c.estado = .synEnviado then
    let (c, r) := c.entraSynEnviado s ahora
    (c, .nada, r)
  else if s.banderas &&& rst ≠ 0 then
    if c.estado = .tiempoEspera then (c, .nada, .ok ())
    else if s.sec = c.rcvNxt then (c.cerrarCon .reset, .nada, .ok ())
    else
      let v := c.ventanaRx.toUInt32
      if dentro s.sec c.rcvNxt (if 1 ≤ v then v else 1) then (c, .reto, .ok ())
      else (c, .nada, .ok ())
  else if s.banderas &&& syn ≠ 0 then
    if c.estado = .synRecibido ∧ s.sec + 1 = c.rcvNxt then
      ({ c with sndNxt := c.isn }, .nada, .ok ())
    else (c, .reto, .ok ())
  else if s.banderas &&& ack = 0 then (c, .nada, .error .banderas)
  else if antes c.sndNxt s.ack then (c, .reto, .error .secuencia)
  else
    match c.confirma s ahora with
    | .error e => (c, .nada, .error e)
    | .ok (c, true) => (c, .nada, .ok ())
    | .ok (c, false) => (c.toma s ahora, .nada, .ok ())

/-! ### A segment leaves -/

/-- A segment of this connection, written at the front of `dst` if it fits. -/
def escribe (c : Conexion) (dst : Bytes) (sec ack : UInt32) (banderas : UInt8)
    (mss : Option UInt16) (datos : Bytes) : Option (Nat × Bytes) :=
  match Segmento.escribir dst c.miIp c.suIp
    ⟨c.miPuerto, c.suPuerto, sec, ack, banderas, c.ventanaRx, mss, datos⟩ with
  | .ok r => some r
  | .error _ => none

/-- What the clock ends: TIME-WAIT, or a connection nobody took; `tcp/mod.rs:624–636`. -/
def caduca (c : Conexion) (ahora : UInt64) : Option (Conexion × Option Rst) :=
  if c.estado = .tiempoEspera ∧ restaSat ahora c.desde ≥ tiempoEsperaMs then
    some (c.cerrarCon .normal, none)
  else if c.huerfana ∧ c.escucha.isSome ∧ c.estado = .establecida ∧
      restaSat ahora c.desde ≥ tiempoEsperaMs then
    some (c.cerrarCon .abortada, some c.rstDe)
  else none

/-- The retransmission timer; `none` when it was the last one; `tcp/mod.rs:637–653`. -/
def temporiza (c : Conexion) (ahora : UInt64) : Option Conexion :=
  match c.vence with
  | none => some c
  | some v =>
    if ahora < v then some c
    else if c.reintentos ≥ reintentosMax then none
    else
      let rto := if c.rto * 2 ≤ rtoMax then c.rto * 2 else rtoMax
      let vuelo := c.enVuelo
      some { c with
        reintentos := c.reintentos + 1
        rto
        ssthresh := if 2 * c.mss ≤ vuelo / 2 then vuelo / 2 else 2 * c.mss
        cwnd := c.mss
        vence := none
        sondear := vuelo = 0
        sndNxt := c.sndUna }

/-- The SYN, or its answer, that has to leave; `none` when the handshake is over;
`tcp/mod.rs:655–675`. -/
def saluda (c : Conexion) (ahora : UInt64) (dst : Bytes) :
    Option (Conexion × Option (Nat × Bytes)) :=
  if c.estado = .synEnviado then
    if c.sndNxt ≠ c.isn then some (c, none)
    else
      match c.escribe dst c.isn 0 syn (some mssMax) [] with
      | none => some (c, none)
      | some r => some ({ c with sndNxt := c.isn + 1 }.armar ahora, some r)
  else if c.estado = .synRecibido ∧ c.sndNxt = c.isn then
    match c.escribe dst c.isn c.rcvNxt (syn ||| ack) (some mssMax) [] with
    | none => some (c, none)
    | some r => some ({ c with sndNxt := c.isn + 1, ackDebido := false }.armar ahora, some r)
  else none

/-- The states that send; `tcp/mod.rs:677–680`. -/
def manda (c : Conexion) : Bool :=
  match c.estado with
  | .establecida | .cierreEspera | .finEspera1 | .cerrando | .ultimoAck => true
  | _ => false

/-- The bytes already in flight; `tcp/mod.rs:682`. -/
def enviados (c : Conexion) : Nat := Nat.min c.enVuelo.toNat c.tx.length

/-- How many bytes the next segment takes; `tcp/mod.rs:685–694`. -/
def cabe (c : Conexion) (dst : Bytes) : Nat :=
  let ventanaSu := (if c.sndWnd ≤ c.cwnd then c.sndWnd else c.cwnd).toNat
  let cabe := ventanaSu - c.enVuelo.toNat
  let cabe := if c.sondear then Nat.max cabe 1 else cabe
  Nat.min (Nat.min (Nat.min (c.tx.length - c.enviados) cabe) c.mss.toNat)
    (dst.length - Segmento.cabecera)

/-- Data that has to leave: `none` when there is nothing to send or no room for it, with the
timer armed as a probe if the window is closed; `tcp/mod.rs:684–710`. -/
def mandaDatos (c : Conexion) (ahora : UInt64) (dst : Bytes) :
    Conexion × Option (Option (Nat × Bytes)) :=
  if c.manda ∧ 0 < c.tx.length - c.enviados then
    let n := c.cabe dst
    if 0 < n then
      match c.escribe dst c.sndNxt c.rcvNxt (ack ||| psh) none ((c.tx.drop c.enviados).take n) with
      | none => (c, some none)
      | some r => ({ c with
          sndNxt := c.sndNxt + UInt32.ofNat n
          sondear := false
          ackDebido := false }.armar ahora, some (some r))
    else if c.enVuelo = 0 then (c.armar ahora, none)
    else (c, none)
  else (c, none)

/-- The FIN, once all the data has left; `tcp/mod.rs:712`. -/
def finListo (c : Conexion) : Bool :=
  c.finPedido && !c.finConfirmado && c.enVuelo.toNat = c.tx.length

/-- The FIN or the ACK that has to leave; `tcp/mod.rs:713–731`. -/
def mandaControl (c : Conexion) (ahora : UInt64) (dst : Bytes) :
    Conexion × Option (Nat × Bytes) :=
  if c.manda ∧ c.finListo then
    match c.escribe dst c.sndNxt c.rcvNxt (fin ||| ack) none [] with
    | none => (c, none)
    | some r =>
      let c := { c with sndNxt := c.sndNxt + 1, ackDebido := false }.armar ahora
      match c.estado with
      | .establecida => ({ c with estado := .finEspera1 }, some r)
      | .cierreEspera => ({ c with estado := .ultimoAck }, some r)
      | _ => (c, some r)
  else if c.ackDebido then
    match c.escribe dst c.sndNxt c.rcvNxt ack none [] with
    | none => (c, none)
    | some r => ({ c with ackDebido := false }, some r)
  else (c, none)

/-- The next segment of a connection that is alive and did not expire. -/
def habla (c : Conexion) (ahora : UInt64) (dst : Bytes) : Conexion × Option (Nat × Bytes) :=
  match c.saluda ahora dst with
  | some r => r
  | none =>
    match c.mandaDatos ahora dst with
    | (c, some r) => (c, r)
    | (c, none) => c.mandaControl ahora dst

/-- The next segment of a connection, if any, and the reset it may leave behind;
`tcp/mod.rs:619–732`. -/
def emite (c : Conexion) (ahora : UInt64) (dst : Bytes) :
    Conexion × Option Rst × Option (Nat × Bytes) :=
  if !c.viva then (c, none, none)
  else
    match c.caduca ahora with
    | some (c, r) => (c, r, none)
    | none =>
      match c.temporiza ahora with
      | none => (c.cerrarCon .agotada, none, none)
      | some c =>
        let (c, r) := c.habla ahora dst
        (c, none, r)

end Conexion

/-! ### The stack -/

/-- `tcp/mod.rs:203–210`. -/
structure Tcp where
  c : Fin conexiones → Conexion
  secreto : Bytes
  contadorPuertos : UInt32
  retos : UInt64 × UInt32
  rst : Option Rst
  turno : Fin conexiones

namespace Tcp

/-- `Tcp::nueva`; `tcp/mod.rs:215–217`. -/
def nueva (secreto : Bytes) : Tcp where
  c := fun _ ↦ .nueva
  secreto
  contadorPuertos := 0
  retos := (0, 0)
  rst := none
  turno := 0

/-- The first connection with a property. -/
def primera (t : Tcp) (p : Conexion → Bool) : Option (Fin conexiones) :=
  (List.finRange conexiones).find? fun i ↦ p (t.c i)

/-- Put a connection in its slot. -/
def pon (t : Tcp) (i : Fin conexiones) (c : Conexion) : Tcp :=
  { t with c := Function.update t.c i c }

/-- A handle that is of some connection; `tcp/mod.rs:219–224`. -/
def con (t : Tcp) (asa : Nat) : Except Rechazo (Fin conexiones) :=
  if h : asa < conexiones then
    if (t.c ⟨asa, h⟩).estado = .libre then .error .asa else .ok ⟨asa, h⟩
  else .error .asa

/-- `tcp/mod.rs:226–228`. -/
def libre (t : Tcp) : Except Rechazo (Fin conexiones) :=
  match t.primera (·.estado = .libre) with
  | some i => .ok i
  | none => .error .lleno

/-- `u32::from_be_bytes` of the first four bytes of a keyed hash. -/
def deHash (h : Arr 32) : UInt32 := be32 h.1 0

/-- `tcp/mod.rs:230–238`. -/
def isn (hmac : Bytes → Bytes → Arr 32) (t : Tcp) (miIp suIp : Ip) (miPuerto suPuerto : UInt16)
    (ahora : UInt64) : UInt32 :=
  deHash (hmac t.secreto (miIp.1 ++ suIp.1 ++ u16Be miPuerto ++ u16Be suPuerto)) +
    (ahora / 4).toUInt32

/-- The first port after `base` that no connection uses with this peer. -/
def puertoLibre (t : Tcp) (base : UInt32) (miIp suIp : Ip) (suPuerto : UInt16) : Option UInt16 :=
  ((List.range puertos.toNat).map fun k ↦
    puertoBajo + ((base + UInt32.ofNat k) % puertos).toUInt16).find? fun p ↦
      (t.primera fun c ↦ c.estado ≠ .libre && c.miIp = miIp && c.suIp = suIp &&
        c.miPuerto = p && c.suPuerto = suPuerto).isNone

/-- Open a connection; `tcp/mod.rs:260–296`. -/
def conectar (hmac : Bytes → Bytes → Arr 32) (t : Tcp) (miIp suIp : Ip) (suPuerto : UInt16)
    (ahora : UInt64) : Tcp × Except Rechazo Nat :=
  if suPuerto = 0 then (t, .error .puerto)
  else if Ipv4.origenImposible suIp then (t, .error .direccion)
  else
    match t.libre with
    | .error e => (t, .error e)
    | .ok i =>
      let base := deHash (hmac t.secreto (suIp.1 ++ u16Be suPuerto)) + t.contadorPuertos
      let t := { t with contadorPuertos := t.contadorPuertos + 1 }
      match t.puertoLibre base miIp suIp suPuerto with
      | none => (t, .error .lleno)
      | some puerto =>
        let isn := t.isn hmac miIp suIp puerto suPuerto ahora
        (t.pon i { Conexion.nueva with
          estado := .synEnviado
          miIp
          suIp
          miPuerto := puerto
          suPuerto
          isn
          sndUna := isn
          sndNxt := isn
          desde := ahora }, .ok i.val)

/-- `tcp/mod.rs:298–308`. -/
def escuchar (t : Tcp) (miIp : Ip) (puerto : UInt16) : Tcp × Except Rechazo Nat :=
  if puerto = 0 then (t, .error .puerto)
  else if (t.primera fun c ↦ c.estado = .escucha && c.miPuerto = puerto && c.miIp = miIp).isSome
  then (t, .error .estado)
  else
    match t.libre with
    | .error e => (t, .error e)
    | .ok i =>
      (t.pon i { Conexion.nueva with estado := .escucha, miIp, miPuerto := puerto }, .ok i.val)

/-- A connection already established on the listener `asa`; `tcp/mod.rs:311–318`. -/
def aceptar (t : Tcp) (asa : Nat) : Tcp × Option Nat :=
  match t.primera fun c ↦ c.huerfana && c.escucha = some (UInt8.ofNat asa) &&
    (c.estado = .establecida || c.estado = .cierreEspera) with
  | none => (t, none)
  | some i => (t.pon i { t.c i with huerfana := false, escucha := none }, some i.val)

/-- Put data in the queue, and how many bytes fitted; `tcp/mod.rs:321–331`. -/
def enviar (t : Tcp) (asa : Nat) (datos : Bytes) : Tcp × Except Rechazo Nat :=
  match t.con asa with
  | .error e => (t, .error e)
  | .ok i =>
    let c := t.c i
    let admite := c.estado = .synEnviado ∨ c.estado = .establecida ∨ c.estado = .cierreEspera
    if c.finPedido ∨ ¬admite then (t, .error .estado)
    else
      let n := Nat.min datos.length (bufer - c.tx.length)
      (t.pon i { c with tx := c.tx ++ datos.take n }, .ok n)

/-- Take out what was received, at most `cuanto` bytes; `tcp/mod.rs:334–346`. -/
def recibir (t : Tcp) (asa cuanto : Nat) : Tcp × Except Rechazo Bytes :=
  match t.con asa with
  | .error e => (t, .error e)
  | .ok i =>
    let c := t.c i
    let n := Nat.min c.rx.length cuanto
    let estabaLlena := c.ventanaRx = 0
    (t.pon i { c with
      rx := c.rx.drop n
      ackDebido := c.ackDebido || (estabaLlena && 0 < n) }, .ok (c.rx.take n))

/-- An orderly close; `tcp/mod.rs:349–358`. -/
def cerrar (t : Tcp) (asa : Nat) : Tcp × Except Rechazo Unit :=
  match t.con asa with
  | .error e => (t, .error e)
  | .ok i =>
    let c := t.c i
    match c.estado with
    | .escucha => (t.pon i { c with estado := .libre }, .ok ())
    | .synEnviado => (t.pon i (c.cerrarCon .normal), .ok ())
    | .synRecibido | .establecida | .cierreEspera => (t.pon i { c with finPedido := true }, .ok ())
    | _ => (t, .ok ())

/-- Cut now, with a reset; `tcp/mod.rs:361–371`. -/
def abortar (t : Tcp) (asa : Nat) : Tcp × Except Rechazo Unit :=
  match t.con asa with
  | .error e => (t, .error e)
  | .ok i =>
    let c := t.c i
    let t' := t.pon i (c.cerrarCon .abortada)
    if c.viva ∧ c.estado ≠ .synEnviado ∧ c.estado ≠ .tiempoEspera then
      ({ t' with rst := some c.rstDe }, .ok ())
    else (t', .ok ())

/-- The application gives a handle back; `tcp/mod.rs:375–383`. -/
def soltar (t : Tcp) (asa : Nat) : Tcp × Except Rechazo Unit :=
  match t.con asa with
  | .error e => (t, .error e)
  | .ok i =>
    let c := t.c i
    match c.estado with
    | .cerrada _ | .escucha => (t.pon i { c with estado := .libre }, .ok ())
    | .tiempoEspera => (t.pon i { c with huerfana := true }, .ok ())
    | _ => (t, .error .estado)

/-- The second that the challenges are counted in, and how many there were;
`tcp/mod.rs:386–388`. -/
def segundo (t : Tcp) (ahora : UInt64) : UInt64 × UInt32 :=
  if restaSat ahora t.retos.1 ≥ 1000 then (ahora, 0) else t.retos

/-- A challenge ACK, while there are any left this second; `tcp/mod.rs:385–393`. -/
def reto (t : Tcp) (i : Fin conexiones) (ahora : UInt64) : Tcp :=
  let r := t.segundo ahora
  if r.2 < retosPorSegundo then
    { t.pon i { t.c i with ackDebido := true } with retos := (r.1, r.2 + 1) }
  else { t with retos := r }

/-- `tcp/mod.rs:443–600`. -/
def enConexion (t : Tcp) (i : Fin conexiones) (s : Segmento) (ahora : UInt64) :
    Tcp × Except Rechazo Unit :=
  match (t.c i).entra s ahora with
  | (c, .nada, r) => (t.pon i c, r)
  | (c, .reto, r) => ((t.pon i c).reto i ahora, r)

/-- `tcp/mod.rs:414–441`. -/
def enEscucha (hmac : Bytes → Bytes → Arr 32) (t : Tcp) (e : Fin conexiones)
    (ipOrigen ipDestino : Ip) (s : Segmento) (ahora : UInt64) : Tcp × Except Rechazo Unit :=
  if s.banderas &&& Pila.rst ≠ 0 then (t, .ok ())
  else if s.banderas &&& (syn ||| ack) ≠ syn then (t, .error .banderas)
  else
    match t.libre with
    | .error r => (t, .error r)
    | .ok i =>
      let isn := t.isn hmac ipDestino ipOrigen s.destino s.origen ahora
      (t.pon i { Conexion.nueva with
        estado := .synRecibido
        miIp := ipDestino
        suIp := ipOrigen
        miPuerto := s.destino
        suPuerto := s.origen
        isn
        sndUna := isn
        sndNxt := isn
        sndWnd := s.ventana.toUInt32
        suMss := mssDe s
        rcvNxt := s.sec + 1
        escucha := some (UInt8.ofNat e.val)
        huerfana := true
        desde := ahora }, .ok ())

/-- The live connection of a segment. -/
def exacta (t : Tcp) (ipOrigen ipDestino : Ip) (s : Segmento) : Option (Fin conexiones) :=
  t.primera fun c ↦ c.viva && c.miIp = ipDestino && c.suIp = ipOrigen &&
    c.miPuerto = s.destino && c.suPuerto = s.origen

/-- A segment that arrived; `tcp/mod.rs:396–412`. -/
def entrada (hmac : Bytes → Bytes → Arr 32) (t : Tcp) (ipOrigen ipDestino : Ip) (b : Bytes)
    (ahora : UInt64) : Tcp × Except Rechazo Unit :=
  match Segmento.leer b ipOrigen ipDestino with
  | .error e => (t, .error e)
  | .ok s =>
    match t.exacta ipOrigen ipDestino s with
    | some i => t.enConexion i s ahora
    | none =>
      match t.primera fun c ↦ c.estado = .escucha && c.miPuerto = s.destino &&
        c.miIp = ipDestino with
      | some e => t.enEscucha hmac e ipOrigen ipDestino s ahora
      | none => (t, .error .noEsParaMi)

/-- `tcp/mod.rs:619–732`. -/
def emitir (t : Tcp) (i : Fin conexiones) (ahora : UInt64) (dst : Bytes) :
    Tcp × Option (Nat × Bytes) :=
  let (c, rst, r) := (t.c i).emite ahora dst
  let t := t.pon i c
  (if rst.isSome then { t with rst } else t, r)

/-- The connections from the turn on, until one emits. -/
def ronda (t : Tcp) (ahora : UInt64) (dst : Bytes) :
    List (Fin conexiones) → Tcp × Option (Ip × Ip × Nat × Bytes)
  | [] => (t, none)
  | i :: is =>
    match t.emitir i ahora dst with
    | (t, some (n, dst)) =>
      ({ t with turno := i + 1 }, some ((t.c i).miIp, (t.c i).suIp, n, dst))
    | (t, none) => ronda t ahora dst is

/-- The next segment that has to leave, if any: between whom, how long, and `dst` with it in
front; `tcp/mod.rs:604–617`. -/
def salida (t : Tcp) (ahora : UInt64) (dst : Bytes) : Tcp × Option (Ip × Ip × Nat × Bytes) :=
  match t.rst with
  | some r =>
    let t := { t with rst := none }
    match Segmento.escribir dst r.miIp r.suIp
      ⟨r.miPuerto, r.suPuerto, r.sec, r.ack, Pila.rst ||| ack, 0, none, []⟩ with
    | .ok (n, dst) => (t, some (r.miIp, r.suIp, n, dst))
    | .error _ => (t, none)
  | none => t.ronda ahora dst ((List.finRange conexiones).map (t.turno + ·))

/-! ### Runs -/

/-- A call of the interface. -/
inductive Orden
  | conectar (miIp suIp : Ip) (suPuerto : UInt16) (ahora : UInt64)
  | escuchar (miIp : Ip) (puerto : UInt16)
  | aceptar (asa : Nat)
  | enviar (asa : Nat) (datos : Bytes)
  | recibir (asa cuanto : Nat)
  | cerrar (asa : Nat)
  | abortar (asa : Nat)
  | soltar (asa : Nat)
  | entrada (ipOrigen ipDestino : Ip) (b : Bytes) (ahora : UInt64)
  | salida (ahora : UInt64) (dst : Bytes)

/-- The time a call carries. -/
def Orden.hora : Orden → Option UInt64
  | .conectar _ _ _ ahora | .entrada _ _ _ ahora | .salida ahora _ => some ahora
  | _ => none

/-- The stack after a call. -/
def hace (hmac : Bytes → Bytes → Arr 32) (t : Tcp) : Orden → Tcp
  | .conectar miIp suIp suPuerto ahora => (t.conectar hmac miIp suIp suPuerto ahora).1
  | .escuchar miIp puerto => (t.escuchar miIp puerto).1
  | .aceptar asa => (t.aceptar asa).1
  | .enviar asa datos => (t.enviar asa datos).1
  | .recibir asa cuanto => (t.recibir asa cuanto).1
  | .cerrar asa => (t.cerrar asa).1
  | .abortar asa => (t.abortar asa).1
  | .soltar asa => (t.soltar asa).1
  | .entrada ipOrigen ipDestino b ahora => (t.entrada hmac ipOrigen ipDestino b ahora).1
  | .salida ahora dst => (t.salida ahora dst).1

end Tcp

end BmoX.Pila
