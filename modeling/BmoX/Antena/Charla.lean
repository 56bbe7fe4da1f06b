import BmoX.Antena.Linea
import BmoX.Base.Bits

/-!
# The conversation

The line splitter, the reader of a lamina and the conversation, each with its state.
-/

namespace BmoX.Antena

open BmoX.Base

/-! ### Bytes to lines -/

/-- `Lineas`, with the bytes of the buffer that are filled; `lib.rs:293–297`. -/
structure Lineas where
  buf : Bytes
  tirando : Bool
  deriving DecidableEq

namespace Lineas

/-- `nueva`; `lib.rs:306–308`. -/
def nueva : Lineas := ⟨[], false⟩

/-- `empujar`; `lib.rs:312–333`. -/
def empujar (l : Lineas) (b : UInt8) : Option (Except Rechazo Bytes) × Lineas :=
  if b = salto then
    if l.tirando then (none, ⟨[], false⟩) else (some (.ok l.buf), ⟨[], false⟩)
  else if l.tirando then (none, l)
  else if l.buf.length = lineaMax + 2 then (some (.error .largo), ⟨[], true⟩)
  else (none, ⟨l.buf ++ [b], false⟩)

/-- The bytes of one piece, and what was delivered. -/
def trozo (l : Lineas) : Bytes → List (Except Rechazo Bytes) × Lineas
  | [] => ([], l)
  | b :: bs =>
    let (o, l) := l.empujar b
    let (os, l) := l.trozo bs
    (o.toList ++ os, l)

/-- One piece after the other. -/
def trozos (l : Lineas) : List Bytes → List (Except Rechazo Bytes) × Lineas
  | [] => ([], l)
  | t :: ts =>
    let (os, l) := l.trozo t
    let (os', l) := l.trozos ts
    (os ++ os', l)

theorem trozo_cons (l : Lineas) (b : UInt8) (bs : Bytes) : l.trozo (b :: bs) =
    ((l.empujar b).1.toList ++ ((l.empujar b).2.trozo bs).1, ((l.empujar b).2.trozo bs).2) := rfl

theorem trozos_cons (l : Lineas) (t : Bytes) (ts : List Bytes) : l.trozos (t :: ts) =
    ((l.trozo t).1 ++ ((l.trozo t).2.trozos ts).1, ((l.trozo t).2.trozos ts).2) := rfl

end Lineas

/-! ### A lamina, line by line -/

/-- `Lector`; `lamina.rs:318–323`. -/
structure Lector where
  cab : Option Cabecera
  faltan : Nat
  cuenta : Cuenta
  cerrado : Bool
  deriving DecidableEq

/-- `total`; `lamina.rs:297–299`. -/
def Cuenta.total (c : Cuenta) : Nat := c.cajas + c.textos + c.imagenes + c.enlaces + c.campos

/-- One element more. -/
def Cuenta.con (c : Cuenta) : Elemento → Cuenta
  | .caja .. => { c with cajas := c.cajas + 1 }
  | .texto .. => { c with textos := c.textos + 1 }
  | .imagen .. => { c with imagenes := c.imagenes + 1 }
  | .enlace .. => { c with enlaces := c.enlaces + 1 }
  | .campo .. => { c with campos := c.campos + 1 }

namespace Lector

/-- `nuevo`; `lamina.rs:332–334`. -/
def nuevo : Lector := ⟨none, 0, ⟨0, 0, 0, 0, 0, 0⟩, false⟩

/-- `cerrar`; `lamina.rs:344–347`. -/
def cerrar (l : Lector) (r : Rechazo) : Except Rechazo Paso × Lector :=
  (.error r, { l with cerrado := true })

/-- `empujar`; `lamina.rs:349–382`. -/
def empujar (l : Lector) (linea : Bytes) : Except Rechazo Paso × Lector :=
  if l.cerrado then (.error .cerrada, l)
  else
    let l := { l with cuenta := { l.cuenta with bytes := l.cuenta.bytes + linea.length } }
    match l.cab with
    | none =>
      match Lamina.leerCabecera linea with
      | .error e => l.cerrar e
      | .ok cab =>
        let l := { l with cab := some cab, faltan := cab.elementos }
        (.ok (if cab.elementos = 0 then .fin l.cuenta else .cabecera cab), l)
    | some cab =>
      if l.faltan = 0 then l.cerrar .orden
      else
        match Lamina.leerElemento linea cab with
        | .error e => l.cerrar e
        | .ok e => (.ok (.elemento e), { l with cuenta := l.cuenta.con e, faltan := l.faltan - 1 })

/-- `completa`; `lamina.rs:385–387`. -/
def completa (l : Lector) : Bool :=
  match l.cab with
  | some c => l.cuenta.total = c.elementos
  | none => false

end Lector

/-! ### The order of the lines -/

/-- `LINEAS_MAX`; `lib.rs:357`. -/
abbrev lineasMax : Nat := listaMax + 8

/-- `VIDEO_MAX`; `lib.rs:359`. -/
def videoMax : UInt64 := 4294967296

/-- `Fase`; `lib.rs:362–372`. -/
inductive Fase
  | inicio
  | saludo
  | charla
  | lista (faltan : Nat) (anunciada : Bool)
  | pidiendo
  | video (declarados recibidos : UInt64)
  | lamina (lector : Lector)
  | cerrada
  deriving DecidableEq

/-- `Conversacion`; `lib.rs:375–378`. -/
structure Conversacion where
  fase : Fase
  lineas : Nat
  deriving DecidableEq

namespace Conversacion

/-- `nueva`; `lib.rs:387–389`. -/
def nueva : Conversacion := ⟨.inicio, 0⟩

/-- `cerrar`; `lib.rs:395–398`. -/
def cerrar {α : Type} (c : Conversacion) (r : Rechazo) : Except Rechazo α × Conversacion :=
  (.error r, { c with fase := .cerrada })

/-- `pedir`; `lib.rs:401–412`. -/
def pedir (c : Conversacion) (p : Pedido) : Except Rechazo Unit × Conversacion :=
  match c.fase, p with
  | .cerrada, _ => (.error .cerrada, c)
  | .inicio, .hola => (.ok (), { c with fase := .saludo })
  | .charla, .lista => (.ok (), { c with fase := .lista 0 false })
  | .charla, .pide id => if idValido id then (.ok (), { c with fase := .pidiendo }) else (.error .orden, c)
  | .charla, .pagina url =>
    if urlValida url then (.ok (), { c with fase := .pidiendo }) else (.error .orden, c)
  | _, _ => (.error .orden, c)

/-- The phase after a line that was read, where it is its turn; `lib.rs:438–463`. -/
def siguiente (linea : Bytes) : Fase → Respuesta → Option Fase
  | .saludo, .hola _ => some .charla
  | .lista _ false, .lista 0 => some .charla
  | .lista _ false, .lista cuantas => some (.lista cuantas true)
  | .lista _ false, .no _ => some .charla
  | .lista faltan true, .entrada .. => some (if faltan = 1 then .charla else .lista (faltan - 1) true)
  | .pidiendo, .video bytes .. => some (.video bytes 0)
  | .pidiendo, .no _ => some .charla
  | .pidiendo, .lamina _ =>
    match Lector.nuevo.empujar linea with
    | (.error _, _) => none
    | (.ok _, lector) => some (if lector.completa then .charla else .lamina lector)
  | _, _ => none

/-- `oir`; `lib.rs:415–466`. -/
def oir (c : Conversacion) (linea : Bytes) : Except Rechazo Respuesta × Conversacion :=
  match c.fase with
  | .cerrada => (.error .cerrada, c)
  | .lamina lector =>
    match lector.empujar linea with
    | (.error e, _) => c.cerrar e
    | (.ok paso, lector) =>
      (.ok (.elemento paso), { c with fase := if lector.completa then .charla else .lamina lector })
  | fase =>
    let c := { c with lineas := c.lineas + 1 }
    if c.lineas > lineasMax then c.cerrar .charla
    else
      match leer linea with
      | .error e => c.cerrar e
      | .ok r =>
        match siguiente linea fase r with
        | none => c.cerrar .orden
        | some f => (.ok r, { c with fase := f })

/-- `bytes`; `lib.rs:470–481`. -/
def bytes (c : Conversacion) (n : UInt64) : Except Rechazo Unit × Conversacion :=
  match c.fase with
  | .video declarados recibidos =>
    let total := sumaSat recibidos n
    let tope := if declarados = 0 then videoMax else declarados
    if total > tope then c.cerrar .largo
    else (.ok (), { c with fase := .video declarados total })
  | _ => c.cerrar .orden

end Conversacion

end BmoX.Antena
