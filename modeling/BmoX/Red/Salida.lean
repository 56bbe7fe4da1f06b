import BmoX.Red.Corral

/-!
# What leaves by the card

`platform/drivers/net/src/tx.rs` and
`Ultra_kernel_x86-64/kernel/src/ring0/red/salida.rs`: the register of flights, the tap that judges
every frame, and the path from one to the other. The kernel keeps register and tap for itself; the
pen it shares with the card.
-/

namespace BmoX.Red.Salida

open BmoX.Base

/-! ### The flights -/

/-- `Casilla`; `tx.rs:209–212`. -/
inductive Casilla
  | libre
  | enVuelo (desde : UInt64)
  deriving DecidableEq

/-- `NoDespega`; `tx.rs:216–224`. -/
inductive NoDespega
  | anilloLleno | noToca | yaEnVuelo
  deriving DecidableEq

/-- `Recogida`; `tx.rs:228–233`. -/
inductive Recogida
  | nada
  | aterrizo (casilla : Fin anillo) (tardo : UInt64)
  deriving DecidableEq

/-- `Vuelos`; `tx.rs:237–244`. -/
structure Vuelos where
  casillas : Fin anillo → Casilla
  siguiente : Fin anillo
  masVieja : Fin anillo
  enVuelo : Nat
  despegues : UInt64
  aterrizajes : UInt64

namespace Vuelos

/-- `nuevo`; `tx.rs:253–255`. -/
def nuevo : Vuelos := ⟨fun _ ↦ .libre, 0, 0, 0, 0, 0⟩

/-- `proxima`; `tx.rs:266–271`. -/
def proxima (v : Vuelos) : Except NoDespega (Fin anillo) :=
  if v.enVuelo = anillo then .error .anilloLleno else .ok v.siguiente

/-- `despegar`; `tx.rs:275–288`. -/
def despegar (v : Vuelos) (casilla : Fin anillo) (ahora : UInt64) : Except NoDespega Vuelos := do
  let toca ← v.proxima
  if casilla ≠ toca then
    throw .noToca
  if v.casillas casilla ≠ .libre then
    throw .yaEnVuelo
  return { v with
    casillas := Function.update v.casillas casilla (.enVuelo ahora)
    siguiente := v.siguiente + 1
    enVuelo := v.enVuelo + 1
    despegues := v.despegues + 1 }

/-- `mas_vieja`; `tx.rs:292–298`. -/
def masVieja? (v : Vuelos) : Option (Fin anillo) := if v.enVuelo = 0 then none else some v.masVieja

/-- `recoger`; `tx.rs:302–313`. -/
def recoger (v : Vuelos) (loTiene : Bool) (ahora : UInt64) : Recogida × Vuelos :=
  match v.masVieja? with
  | none => (.nada, v)
  | some i =>
    if loTiene then (.nada, v)
    else
      match v.casillas i with
      | .libre => (.nada, v)
      | .enVuelo desde =>
        (.aterrizo i (restaSat ahora desde), { v with
          casillas := Function.update v.casillas i .libre
          masVieja := v.masVieja + 1
          enVuelo := v.enVuelo - 1
          aterrizajes := v.aterrizajes + 1 })

end Vuelos

/-! ### The tap -/

/-- `DURACION_MAX`; `tx.rs:332`. -/
def duracionMax : UInt64 := 600000

/-- `CUPO_MAX`; `tx.rs:334`. -/
def cupoMax : UInt32 := 10000

/-- `RITMO_MAX`; `tx.rs:337`. -/
abbrev ritmoMax : Nat := 50

/-- `SEGUNDO`; `tx.rs:339`. -/
abbrev segundo : Nat := 1000

/-- `NoSale`; `tx.rs:343–364`. -/
inductive NoSale
  | cerrado | caducado | sinCupo | ritmo | corta | larga | origenAjeno | destinoImposible | tipo
  | sinSitio
  deriving DecidableEq

/-- `Grifo`; `tx.rs:429–438`. -/
structure Grifo where
  hasta : UInt64
  abierto : Bool
  cupo : UInt32
  segundo : UInt64
  enEste : UInt32
  salieron : UInt64
  negadas : UInt64
  ultimoNo : Option NoSale
  deriving DecidableEq

namespace Grifo

/-- `cerrado`; `tx.rs:447–449`. -/
def cerrado : Grifo := ⟨0, false, 0, 0, 0, 0, 0, none⟩

/-- `abrir`, with what it granted; `tx.rs:453–460`. -/
def abrir (g : Grifo) (ahora duracion : UInt64) (cupo : UInt32) : (UInt64 × UInt32) × Grifo :=
  let d := min duracion duracionMax
  let c := min cupo cupoMax
  ((d, c), { g with abierto := d > 0 && c > 0, hasta := sumaSat ahora d, cupo := c })

/-- `cerrar`; `tx.rs:462–465`. -/
def cerrar (g : Grifo) : Grifo := { g with abierto := false, cupo := 0 }

/-- `juzgar_sin_contar`, for the `sitio` bytes from `salida` on; `tx.rs:497–541`. -/
def juzgarSinContar (g : Grifo) (trama : Bytes) (miMac : Arr 6) (ahora : UInt64)
    (salida sitio : Nat) : Prog corral (Except NoSale Nat × Grifo) := do
  if !g.abierto then
    return (.error .cerrado, g)
  if ahora ≥ g.hasta then
    return (.error .caducado, g.cerrar)
  if g.cupo = 0 then
    return (.error .sinCupo, g)
  if trama.length < 14 then
    return (.error .corta, g)
  if trama.length > maxima then
    return (.error .larga, g)
  if slice trama 6 6 ≠ miMac.1 then
    return (.error .origenAjeno, g)
  if slice trama 0 6 = zeros 6 then
    return (.error .destinoImposible, g)
  if slice trama 12 2 ≠ [0x08, 0x06] ∧ slice trama 12 2 ≠ [0x08, 0x00] then
    return (.error .tipo, g)
  let largo := max trama.length minima
  if sitio < largo then
    return (.error .sinSitio, g)
  let g := if (restaSat ahora g.segundo).toNat ≥ Salida.segundo then
    { g with segundo := ahora, enEste := 0 } else g
  if g.enEste.toNat ≥ ritmoMax then
    return (.error .ritmo, g)
  pide (.copiar salida trama)
  pide (.copiar (salida + trama.length) (zeros (largo - trama.length)))
  return (.ok largo, { g with enEste := g.enEste + 1, cupo := g.cupo - 1 })

/-- `juzgar`; `tx.rs:482–495`. -/
def juzgar (g : Grifo) (trama : Bytes) (miMac : Arr 6) (ahora : UInt64) (salida sitio : Nat) :
    Prog corral (Except NoSale Nat × Grifo) := do
  let (r, g) ← g.juzgarSinContar trama miMac ahora salida sitio
  match r with
  | .ok largo => return (.ok largo, { g with salieron := g.salieron + 1, ultimoNo := none })
  | .error n => return (.error n, { g with negadas := g.negadas + 1, ultimoNo := some n })

end Grifo

/-! ### The path to the card -/

/-- `Fallo`; `salida.rs:28–34`. -/
inductive Fallo
  | sinArmar
  | grifo (no : NoSale)
  | anillo
  deriving DecidableEq

/-- `enviar`, once the transmitter is armed; `salida.rs:115–140`. -/
def enviar (p : Plan) (trama : Bytes) (miMac : Arr 6) (ahora : UInt64) (v : Vuelos) (g : Grifo) :
    Prog corral (Except Fallo Nat × Vuelos × Grifo) :=
  match v.proxima with
  | .error _ => return (.error .anillo, v, g)
  | .ok i =>
    match p.bufer i with
    | none => return (.error .sinArmar, v, g)
    | some buf => do
      let (r, g) ← g.juzgar trama miMac ahora buf bufer
      match r with
      | .error no => return (.error (.grifo no), v, g)
      | .ok largo =>
        match p.paraEnviar i largo with
        | none => return (.error (.grifo .sinSitio), v, g)
        | some d =>
          match v.despegar i ahora with
          | .error _ => return (.error .anillo, v, g)
          | .ok v => do
            pide (.escribirDesc (p.descriptores + desc * i) d)
            pide .campana
            return (.ok largo, v, g)

/-- The loop of `recoger`, with the turns left and the slots that landed, of which the source counts
only how many; `salida.rs:149–162`. -/
def recogerBucle (p : Plan) (ahora : UInt64) : Nat → Vuelos → Prog corral (List (Fin anillo) × Vuelos)
  | 0, v => return ([], v)
  | n + 1, v =>
    match v.masVieja? with
    | none => return ([], v)
    | some i => do
      let d ← pide (.leerDesc (p.descriptores + desc * i))
      match v.recoger d.loTieneLaTarjeta ahora with
      | (.nada, v) => return ([], v)
      | (.aterrizo casilla _, v) => do
        match p.quieto casilla with
        | some q => pide (.escribirDesc (p.descriptores + desc * casilla) q)
        | none => pure ()
        let (cs, v) ← recogerBucle p ahora n v
        return (casilla :: cs, v)

/-- `recoger`; `salida.rs:143–164`. -/
def recoger (p : Plan) (ahora : UInt64) (v : Vuelos) : Prog corral (List (Fin anillo) × Vuelos) :=
  recogerBucle p ahora anillo v

/-! ### The kernel and the card -/

/-- One of the two sides. -/
inductive Lado
  | nucleo | tarjeta
  deriving DecidableEq

/-- What happened to the tap and to the flights. -/
inductive Suceso
  | abierto (ahora plazo : UInt64) (cupo : UInt32)
  | cerrado
  | salio (casilla : Fin anillo) (trama : Bytes) (ahora : UInt64)
  | negada (no : Fallo) (antes despues : Vuelos × Grifo)
  | aterrizo (casilla : Fin anillo)

/-- Flights and tap, with all that happened to them. -/
structure Nucleo where
  vuelos : Vuelos
  grifo : Grifo
  historia : List Suceso

/-- What the kernel is asked for. -/
inductive DelNucleo
  | abrirGrifo (ms : UInt64) (cupo : UInt32)
  | cerrarGrifo
  | enviar (trama : Bytes)
  | recoger

/-- What the card does, and the clock with it. -/
inductive DeTarjeta
  | devolver (opts1 : UInt32)
  | tic (t : UInt64)

/-- A call of the kernel, at the time the clock has. -/
def Nucleo.hace (p : Plan) (miMac : Arr 6) (k : Nucleo) : DelNucleo → Prog corral Nucleo
  | .abrirGrifo ms cupo => do
    let ahora ← pide .reloj
    let ((d, c), g) := k.grifo.abrir ahora ms cupo
    return { k with grifo := g, historia := k.historia ++ [Suceso.abierto ahora d c] }
  | .cerrarGrifo =>
    return { k with grifo := k.grifo.cerrar, historia := k.historia ++ [Suceso.cerrado] }
  | .enviar trama => do
    let ahora ← pide .reloj
    let (r, v, g) ← Salida.enviar p trama miMac ahora k.vuelos k.grifo
    match r with
    | .ok _ => return ⟨v, g, k.historia ++ [Suceso.salio k.vuelos.siguiente trama ahora]⟩
    | .error no => return ⟨v, g, k.historia ++ [Suceso.negada no (k.vuelos, k.grifo) (v, g)]⟩
  | .recoger => do
    let ahora ← pide .reloj
    let (cs, v) ← Salida.recoger p ahora k.vuelos
    return { k with vuelos := v, historia := k.historia ++ cs.map .aterrizo }

/-- The kernel and the card, with the pen between them. -/
def salida (p : Plan) (miMac : Arr 6) : System Lado corral Mundo where
  Priv | .nucleo => Nucleo | .tarjeta => Unit
  Call | .nucleo => DelNucleo | .tarjeta => DeTarjeta
  prog
    | .nucleo, c, k => k.hace p miMac c
    | .tarjeta, .devolver opts1, _ => Prog.op (I := corral) (.devolver opts1)
    | .tarjeta, .tic t, _ => Prog.op (I := corral) (.tic t)
  handle _ := maneja

/-- The descriptors that `armar` writes, the last `n` of them; `salida.rs:81–90`. -/
def quietos (p : Plan) (mem : Memory) : Nat → Memory
  | 0 => mem
  | n + 1 =>
    match p.quieto n with
    | some d => (quietos p mem n).store (p.descriptores + desc * n) d.aBytes
    | none => quietos p mem n

/-- The transmitter as `armar` leaves it, the tap closed. -/
def armada (p : Plan) (miMac : Arr 6) (mem : Memory) (t : UInt64) : (salida p miMac).Config :=
  .start ⟨quietos p mem anillo, t, p.descriptores, 0, [], [], 0⟩ fun
    | .nucleo => ⟨.nuevo, .cerrado, []⟩
    | .tarjeta => ()

/-- The card gives back only what it has, and time does not go back. -/
def Legal : Op → Mundo → Prop
  | .devolver opts1, m => (m.descEn (m.tnpds + desc * m.pos)).loTieneLaTarjeta = true ∧
    opts1 &&& Bit.own = 0
  | .tic t, m => m.reloj ≤ t
  | _, _ => True

end BmoX.Red.Salida
