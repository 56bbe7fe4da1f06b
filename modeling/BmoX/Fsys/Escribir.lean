import BmoX.Fsys.Andar

/-!
# Writing: gestures, marks, returns and seals

`fsys/estratos/escribir.rs:85–878`, `copiar.rs:66–192` and `mod.rs:214–565`. Every operation
prepares blocks nobody reaches, waits for the disk, writes the other copy of the superblock and
waits again. The log of the kernel and the date of the mounted estrato are left out.
-/

namespace BmoX.Fsys

open BmoX.Base BmoX.Blake3 BmoX.Estratos

/-- Why an operation did not happen; `estratos/mod.rs:216–290`. -/
inductive WriteError
  | sinVolumen
  | rechazada (r : Rechazo)
  | noEscribio
  | sinBarrera
  | noCabe
  | noSeLeeLaRaiz
  | rutaNoEsta
  | carpetaLlena
  | carpetaNoCabeEntera
  | nombreNoVale
  | muyHondo
  deriving DecidableEq, Repr

/-- A piece of kernel code that may stop. -/
abbrev Escritura := ExceptT WriteError (Prog nucleo)

namespace Escritura

variable {α ε : Type}

/-- `ok_or`. -/
def okOr (e : WriteError) : Option α → Escritura α
  | some a => return a
  | none => throw e

/-- `map_err` of a value. -/
def deExcept (f : ε → WriteError) : Except ε α → Escritura α
  | .ok a => return a
  | .error e => throw (f e)

end Escritura

open Escritura

/-! ### Bringing content from outside -/

/-- Where the bytes of a new file come from; `copiar.rs:75–89`. A block of Ring 3 is its bytes. -/
inductive Origen
  | fat32 (ruta : String)
  | ram (datos : Bytes) (size_lt : datos.length < 2 ^ 32)

/-- `poner`: write a piece in its block, zeros behind; `escribir.rs:848–866`. -/
@[irreducible] def poner (bloque : UInt64) (datos : Bytes) : Escritura Unit := do
  if datos.length > Estratos.bloque then throw .noCabe
  else if ← writeBlock bloque (Arr.pad Estratos.bloque datos) then return ()
  else throw .noEscribio

/-- `poner(..).is_ok()`; `copiar.rs:182`. -/
def ponerOk (lba : UInt64) (datos : Bytes) : Prog nucleo Bool := do
  match ← (poner lba datos).run with
  | .ok _ => return true
  | .error _ => return false

/-- `coste`: the plan and the size of the content; `copiar.rs:107–124`. -/
def coste (origen : Origen) : Escritura (Plan × UInt32) := do
  let size ← match origen with
    | .fat32 ruta => okOr .rutaNoEsta (← tamano ruta)
    | .ram datos _ => pure (UInt32.ofNat datos.length)
  if size = 0 then throw .noCabe
  else
    let plan ← okOr .noCabe (planDe size.toUInt64)
    return (plan, size)

/-- The next piece of the origin; `copiar.rs:155–181`. -/
def cacho (origen : Origen) (leidos : Nat) (size : UInt32) : Escritura Bytes := do
  let piden := min (size.toNat - leidos) bloque
  match origen with
  | .fat32 _ =>
    let ⟨b, _⟩ ← leerRango leidos size piden
    if b = [] then throw .noSeLeeLaRaiz else return b
  | .ram datos _ => return slice datos leidos piden

/-- The loop of `traer`, for at most `vueltas` turns: every turn brings some byte, so as many as
bytes are enough; `copiar.rs:151–187`. -/
def traerDesde (origen : Origen) (size : UInt32) : Nat → Nat → Arbol → Escritura Arbol
  | 0, _, arbol => return arbol
  | vueltas + 1, leidos, arbol =>
    if leidos < size.toNat then do
      let trozo ← cacho origen leidos size
      let arbol ← (arbol.empujar ponerOk trozo).adapt fun _ ↦ .noEscribio
      traerDesde origen size vueltas (leidos + trozo.length) arbol
    else return arbol

/-- `traer`: write the content from `base` on and answer the node of the file;
`copiar.rs:136–192`. -/
def traer (origen : Origen) (plan : Plan) (size : UInt32) (base : UInt64) : Escritura Bytes := do
  match origen with
  | .fat32 ruta => if !(← abrirRangos ruta) then throw .rutaNoEsta
  | .ram _ _ => pure ()
  let arbol ← deExcept (fun _ ↦ .noCabe)
    (Arbol.nuevo plan base plan.niveles fun _ ↦ Arr.pad bloque [])
  let arbol ← traerDesde origen size size.toNat 0 arbol
  let raiz ← (arbol.cerrar ponerOk).adapt fun _ ↦ .noEscribio
  deExcept (fun _ ↦ .noCabe)
    (nodoDeFicheroGrande size.toUInt64 (UInt8.ofNat plan.niveles) raiz)

/-! ### Gestures -/

/-- What is done to the entries of a directory; `escribir.rs:92–143`. -/
inductive Gesto
  | fichero (nombre : String) (datos : Bytes)
  | carpeta (nombre : String)
  | quitar (nombre : String)
  | renombrar (viejo nuevo : String)
  | copia (nombre : String) (origen : Origen)
  | guardar (nombre : String) (origen : Origen)

namespace Gesto

/-- `bloques_de_objeto`; `escribir.rs:147–158`. -/
def bloquesDeObjeto : Gesto → UInt64
  | fichero _ _ | carpeta _ | copia _ _ | guardar _ _ => 1
  | quitar _ | renombrar _ _ => 0

/-- The new node, when it can be coded before anything is written; `escribir.rs:279–296`. -/
def objeto : Gesto → Except FormatError (Option Bytes)
  | fichero _ datos => some <$> nodoDeFichero datos
  | carpeta _ => .ok (some nodoDeDirectorioVacio)
  | _ => .ok none

/-- The content a gesture brings; `escribir.rs:302–307`. -/
def origen? : Gesto → Option Origen
  | copia _ origen | guardar _ origen => some origen
  | _ => none

/-- The entries of the last directory once the gesture is done; `escribir.rs:351–388`. A gesture
that names a new node was given one. -/
def lista (g : Gesto) (previas : Bytes) (nodo : Option BlockPtr) : SobreBloque Nat :=
  match g, nodo with
  | fichero nombre _, some nodo => entradasCon previas nombre nodo
  | carpeta nombre, some nodo => entradasCon previas nombre nodo
  | copia nombre _, some nodo => entradasCon previas nombre nodo
  | guardar nombre _, some nodo =>
    tryCatch (entradasRepuntando previas nombre nodo) fun _ ↦ entradasCon previas nombre nodo
  | quitar nombre, _ => entradasSin previas nombre
  | renombrar viejo nuevo, _ => entradasRenombrando previas viejo nuevo
  | _, none => throw .badField

end Gesto

/-- `HONDO_MAX`; `escribir.rs:166`. -/
abbrev hondoMax : Nat := 8

/-- The pieces of a route that name something; `escribir.rs:185–188`. -/
def tramos (ruta : String) : List String :=
  ((ruta.toList.splitOnP fun c ↦ c == '/' || c == '\\').map String.ofList).filter (· ≠ "")

/-- The path, from the last directory up to the root: each node with the name it was entered by,
cut to 64 bytes; `NODOS` and `NOMBRES`, `escribir.rs:174–177`. -/
abbrev Camino := List (Nodo × Bytes)

/-- The loop of `resolver`; `escribir.rs:185–206`. -/
def bajarRuta : List String → Nodo × Bytes → Camino → Escritura Camino
  | [], ultimo, arriba => return ultimo :: arriba
  | tramo :: resto, (padre, nombre), arriba => do
    if arriba.length + 1 > hondoMax then throw .muyHondo
    else
      let ptr ← okOr .rutaNoEsta (← buscarEn padre tramo)
      let n ← okOr .rutaNoEsta (← nodo ptr)
      if n.tipo ≠ .directorio then throw .rutaNoEsta
      else bajarRuta resto (n, (utf8 tramo).take 64) ((padre, nombre) :: arriba)

/-- `resolver`: walk a route from the root; `escribir.rs:178–208`. -/
def resolver (ruta : String) : Escritura Camino := do
  let (_, n) ← okOr .noSeLeeLaRaiz (← raiz)
  bajarRuta (tramos ruta) (n, []) []

/-- `leer_entradas`: all the entries of a level or none; `escribir.rs:826–841`. -/
def leerEntradas (a : Attr) : Escritura Bytes := do
  if a.size.toNat > bloque then throw .carpetaNoCabeEntera
  else okOr .noSeLeeLaRaiz (← flujo a bloque)

/-- What the entries of a level become: the gesture in the last one, the pointer of the child
above; `escribir.rs:351–425`. -/
def entradasNuevas (gesto : Gesto) (pObjeto : Option BlockPtr) (previas : Bytes)
    (hijo : Option (Bytes × BlockPtr)) : Except WriteError Bytes :=
  let escrito (r : Except FormatError Nat × Bloque) (f : FormatError → WriteError) :
      Except WriteError Bytes :=
    match r with
    | (.ok n, b) => .ok (b.1.take n)
    | (.error e, _) => .error (f e)
  match hijo with
  | none => escrito (gesto.lista previas pObjeto (Arr.pad bloque [])) fun _ ↦
      if previas.length / entradaLen ≥ entradasPorBloque then .carpetaLlena else .nombreNoVale
  | some (nombre, p) =>
    match deUtf8? nombre with
    | none => .error .rutaNoEsta
    | some nombre => escrito (entradasRepuntando previas nombre p (Arr.pad bloque [])) fun _ ↦
        .rutaNoEsta

/-- From the last directory up, each level publishes its entries and its node; the loop of
`escribir.rs:336–448`. `hijo` is the name and the new node of the level below. -/
def publicarNiveles (gesto : Gesto) (pObjeto : Option BlockPtr) :
    Camino → Option (Bytes × BlockPtr) → UInt64 → Escritura (BlockPtr × UInt64)
  | [], hijo, cursor => do
    let (_, p) ← okOr .noSeLeeLaRaiz hijo
    return (p, cursor)
  | (este, nombre) :: arriba, hijo, cursor => do
    let previas ← match este.attr attrEntradas with
      | none => pure []
      | some a => leerEntradas a
    let entradas ← deExcept id (entradasNuevas gesto pObjeto previas hijo)
    poner cursor entradas
    let nodoD ← if entradas.length = 0 then pure nodoDeDirectorioVacio
      else
        let pEnt := BlockPtr.nuevo cursor 0 entradas
        deExcept (fun _ ↦ .noCabe) (nodoDeDirectorio pEnt (UInt64.ofNat entradas.length))
    let cursor := cursor + 1
    poner cursor nodoD
    publicarNiveles gesto pObjeto arriba (some (nombre, .nuevo cursor 0 nodoD)) (cursor + 1)

/-! ### The transaction -/

/-- `copia_en_uso`: which copy of the superblock rules; `estratos/mod.rs:475–489`. -/
def copiaEnUso : Prog nucleo UInt64 := do
  match ← readBlock superABlock with
  | none => return superABlock
  | some a =>
    match ← readBlock superBBlock with
    | none => return superABlock
    | some b =>
      match pickSuperblock (a.1.take superLen) (b.1.take superLen) with
      | .ok (_, copia) => return copia
      | .error _ => return superABlock

/-- The sector of a superblock. -/
def sector (sb : Superblock) : Arr superLen := ⟨sb.encode, sb.length_encode⟩

/-- Open a transaction on the mounted volume, as all the operations do; `escribir.rs:312–313`. -/
def abrir (sb : Superblock) : Escritura Transaccion := do
  let copia ← copiaEnUso
  let identidad ← identidadOk
  deExcept .rechazada (Transaccion.open sb copia identidad)

/-- The barrier, the commit and the second flush, which the four operations share;
`escribir.rs:504–532`, `636–654`, `728–746` and `estratos/mod.rs:385–430`. -/
def confirmar (t : Transaccion) (pEstrato : BlockPtr) : Escritura UInt64 := do
  let t ← deExcept .rechazada t.cerrarDatos
  if !(← flush) then throw .sinBarrera
  let t ← deExcept .rechazada t.barreraHecha
  let (destino, nuevo, _) ← deExcept .rechazada (t.commit pEstrato)
  if !(← writeSuperblock destino (sector nuevo)) then throw .noEscribio
  if !(← flush) then throw .sinBarrera
  fijarSuperbloque nuevo
  return nuevo.generation

/-- The new object of a gesture, if it has one, written from `base` on: its pointer and the block
that follows it; `escribir.rs:316–333`. -/
def ponerObjeto (gesto : Gesto) (objeto : Option Bytes) (contenido : Option (Plan × UInt32))
    (base : UInt64) : Escritura (Option BlockPtr × UInt64) := do
  let (objeto, cursor) ← match gesto.origen?, contenido with
    | some origen, some (plan, size) =>
      pure (some (← traer origen plan size base), base + UInt64.ofNat plan.total)
    | _, _ => pure (objeto, base)
  match objeto with
  | none => return (none, cursor)
  | some datos =>
    poner cursor datos
    return (some (.nuevo cursor 0 datos), cursor + 1)

/-- Write an estrato at `cursor` and answer its pointer; `escribir.rs:484–500`. -/
def ponerEstrato (raiz padre : BlockPtr) (motivo : String) (cursor : UInt64) :
    Escritura BlockPtr := do
  let cuando ← ahora
  let pid ← currentPid
  let bytes := (Estrato.new raiz padre cuando (.proceso pid) motivo).encode
  poner cursor bytes
  return .nuevo cursor 0 bytes

/-- The blocks a gesture takes; `escribir.rs:308–311`. -/
def cuesta (gesto : Gesto) (contenido : Option (Plan × UInt32)) (niveles : Nat) : UInt64 :=
  gesto.bloquesDeObjeto + UInt64.ofNat (contenido.elim 0 (·.1.total)) +
    2 * UInt64.ofNat niveles + 1

/-- `publicar`: apply a gesture to the directory at a route; `escribir.rs:268–532`. `aplicar`,
`escribir.rs:240–265`, only adds what it logs. -/
def publicar (ruta : String) (gesto : Gesto) : Escritura UInt64 := do
  let sb ← okOr .sinVolumen (← superbloque)
  let camino ← resolver ruta
  let objeto ← deExcept (fun _ ↦ .noCabe) gesto.objeto
  let contenido ← match gesto.origen? with
    | none => pure none
    | some origen => some <$> coste origen
  let t ← abrir sb
  let (base, t) ← deExcept .rechazada (t.reserve (cuesta gesto contenido camino.length))
  let (pObjeto, cursor) ← ponerObjeto gesto objeto contenido base
  let (pRaiz, cursor) ← publicarNiveles gesto pObjeto camino none cursor
  let pEstrato ← ponerEstrato pRaiz sb.estrato "" cursor
  confirmar t pEstrato

/-- `marcar`: publish the tree of now under a name; `escribir.rs:613–658`. -/
def marcar (nombre : String) : Escritura UInt64 := do
  let sb ← okOr .sinVolumen (← superbloque)
  if nombre = "" then throw .noCabe
  let actual ← okOr .noSeLeeLaRaiz (← estrato)
  let t ← abrir sb
  let (base, t) ← deExcept .rechazada (t.reserve 1)
  let pEstrato ← ponerEstrato actual.raiz sb.estrato nombre base
  confirmar t pEstrato

/-- The root `n` versions back from `donde`; the loop of `escribir.rs:700–713`. -/
def buscarVersion : Nat → BlockPtr → Escritura (Option BlockPtr)
  | n, donde => do
    if donde.esNulo then return none
    else
      let d ← okOr .noSeLeeLaRaiz (← seguir donde)
      let e ← deExcept (fun _ ↦ .noSeLeeLaRaiz) (Estrato.decode d)
      match n with
      | 0 => return some e.raiz
      | n + 1 => buscarVersion n e.padre

/-- `volver`: publish again the tree of `n` versions back; `escribir.rs:691–755`. -/
def volver (n : Nat) : Escritura UInt64 := do
  let sb ← okOr .sinVolumen (← superbloque)
  if n = 0 then throw .noCabe
  let destino ← buscarVersion n sb.estrato
  let raiz ← okOr .rutaNoEsta destino
  let t ← abrir sb
  let (base, t) ← deExcept .rechazada (t.reserve 1)
  let pEstrato ← ponerEstrato raiz sb.estrato "" base
  confirmar t pEstrato

/-- `seal`: a transaction without data; `estratos/mod.rs:377–431`. -/
def «seal» : Escritura UInt64 := do
  let sb ← okOr .sinVolumen (← superbloque)
  let t ← abrir sb
  confirmar t sb.estrato

/-- `mount`, on the partition of the volume; `estratos/mod.rs:492–565`. -/
def mount : Prog nucleo Unit := do
  fijar ⟨none, false⟩
  match ← readBlock superABlock with
  | none => return ()
  | some a =>
    match ← readBlock superBBlock with
    | none => return ()
    | some b =>
      match pickSuperblock (a.1.take superLen) (b.1.take superLen) with
      | .error _ => return ()
      | .ok (sb, _) =>
        fijar ⟨some sb, false⟩
        let id ← idDisco
        fijar ⟨some sb, sb.belongsTo id⟩

end BmoX.Fsys
