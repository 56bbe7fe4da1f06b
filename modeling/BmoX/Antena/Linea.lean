import BmoX.Base.Bytes
import BmoX.Base.Cut

/-!
# The lines of ANTENA/1

`bmo-antena`: what another machine of the house writes, line by line. Numbers are natural numbers:
each is read against a limit that fits its machine type.
-/

namespace BmoX.Antena

open BmoX.Base

/-! ### Limits and verdicts -/

/-- `LINEA_MAX`; `lib.rs:67`. -/
abbrev lineaMax : Nat := 256

/-- `ID_MAX`; `lib.rs:68`. -/
abbrev idMax : Nat := 32

/-- `TEXTO_MAX`; `lib.rs:69`. -/
abbrev textoMax : Nat := 160

/-- `LISTA_MAX`; `lib.rs:70`. -/
abbrev listaMax : Nat := 64

/-- `URL_MAX`; `lib.rs:72`. -/
abbrev urlMax : Nat := 200

/-- `ANCHO_MAX`; `lib.rs:73`. -/
abbrev anchoMax : Nat := 1280

/-- `ALTO_MAX`; `lib.rs:74`. -/
abbrev altoMax : Nat := 720

/-- `LADO_MIN`; `lib.rs:75`. -/
abbrev ladoMin : Nat := 16

/-- `ALTO_LAMINA_MAX`; `lamina.rs:58`. -/
abbrev altoLaminaMax : Nat := 32768

/-- `ELEMENTOS_MAX`; `lamina.rs:60`. -/
abbrev elementosMax : Nat := 4096

/-- `LETRA_ANCHO`; `lamina.rs:62`. -/
abbrev letraAncho : Nat := 8

/-- `LETRA_ALTO`; `lamina.rs:63`. -/
abbrev letraAlto : Nat := 16

/-- `ESCALA_MAX`; `lamina.rs:64`. -/
abbrev escalaMax : Nat := 4

/-- `Rechazo`; `lib.rs:79–102`. -/
inductive Rechazo
  | largo | noAscii | verbo | campos | numero | id | formato | tamano | version | corto | orden
  | charla | cerrada | url | fuera | color
  deriving DecidableEq

/-- `Cabecera`; `lamina.rs:69–73`. -/
structure Cabecera where
  ancho : Nat
  alto : Nat
  elementos : Nat
  deriving DecidableEq

/-- `Zona`; `lamina.rs:78–83`. -/
structure Zona where
  x : Nat
  y : Nat
  ancho : Nat
  alto : Nat
  deriving DecidableEq

/-- `Elemento`; `lamina.rs:86–93`. -/
inductive Elemento
  | caja (zona : Zona) (color : Nat)
  | texto (zona : Zona) (escala color : Nat) (texto : Bytes)
  | imagen (zona : Zona) (id : Bytes)
  | enlace (zona : Zona) (id : Bytes)
  | campo (zona : Zona) (id : Bytes)
  deriving DecidableEq

/-- `zona`; `lamina.rs:96–104`. -/
def Elemento.zona : Elemento → Zona
  | caja z _ | texto z _ _ _ | imagen z _ | enlace z _ | campo z _ => z

/-- `Cuenta`; `lamina.rs:287–294`. -/
structure Cuenta where
  cajas : Nat
  textos : Nat
  imagenes : Nat
  enlaces : Nat
  campos : Nat
  bytes : Nat
  deriving DecidableEq

/-- `Paso`; `lamina.rs:304–309`. -/
inductive Paso
  | cabecera (cab : Cabecera)
  | elemento (e : Elemento)
  | fin (cuenta : Cuenta)
  deriving DecidableEq

/-- `Respuesta`; `lib.rs:129–140`. -/
inductive Respuesta
  | hola (nombre : Bytes)
  | lista (cuantas : Nat)
  | entrada (id titulo : Bytes)
  | video (bytes : UInt64) (ancho alto : Nat)
  | lamina (cab : Cabecera)
  | elemento (paso : Paso)
  | no (motivo : Bytes)
  deriving DecidableEq

/-! ### Words, texts and numbers -/

/-- The bytes of a word. -/
def letras (cs : List Char) : Bytes := cs.map fun c ↦ c.toNat.toUInt8

/-- The blank. -/
abbrev blanco : UInt8 := 0x20

/-- The end of a line. -/
abbrev salto : UInt8 := 0x0A

/-- `VERSION`; `lib.rs:64`. -/
def version : Bytes := letras ['A', 'N', 'T', 'E', 'N', 'A', '/', '1']

/-- ASCII that is seen, or a blank. -/
def imprimible (c : UInt8) : Bool := 0x20 ≤ c && c ≤ 0x7E

/-- A decimal digit. -/
def esDigito (c : UInt8) : Bool := 0x30 ≤ c && c ≤ 0x39

/-- `id_valido`; `lib.rs:142–146`. -/
def idValido (id : Bytes) : Bool :=
  !id.isEmpty && id.length ≤ idMax &&
    id.all fun c ↦ (0x61 ≤ c && c ≤ 0x7A) || esDigito c || c = 0x5F || c = 0x2D

/-- `texto_valido`; `lib.rs:148–150`. -/
def textoValido (t : Bytes) : Bool := !t.isEmpty && t.length ≤ textoMax

/-- The loop of `numero`: the number so far, below `tope`. -/
def numeroBucle (tope : Nat) : Nat → Bytes → Except Rechazo Nat
  | n, [] => .ok n
  | n, c :: b =>
    if n * 10 < tope ∧ n * 10 + (c - 0x30).toNat < tope then
      numeroBucle tope (n * 10 + (c - 0x30).toNat) b
    else .error .numero

/-- Both `numero`, for a type of `tope` numbers and at most `cifras` digits. -/
def numeroDe (cifras tope : Nat) (b : Bytes) (maximo : Nat) : Except Rechazo Nat :=
  if b.isEmpty || b.length > cifras || !b.all esDigito then .error .numero
  else
    match numeroBucle tope 0 b with
    | .error r => .error r
    | .ok n => if n > maximo then .error .numero else .ok n

/-- `numero`; `lib.rs:152–164`. -/
def numero : Bytes → Nat → Except Rechazo Nat := numeroDe 20 (2 ^ 64)

/-- `numero` of a lamina; `lamina.rs:113–125`. -/
def Lamina.numero : Bytes → Nat → Except Rechazo Nat := numeroDe 10 (2 ^ 32)

/-- `partir`; `lib.rs:167–172`, `lamina.rs:145–150`. -/
def partir : Bytes → Bytes × Bytes := cut blanco

/-- `strip_suffix` of one byte, kept where it is not there. -/
def sinSufijo (c : UInt8) (b : Bytes) : Bytes := if b.getLast? = some c then b.dropLast else b

/-- A line without its end, which may be `\r\n`. -/
def sinFin (linea : Bytes) : Bytes := sinSufijo 0x0D (sinSufijo salto linea)

/-! ### A lamina -/

namespace Lamina

/-- `letra_valida`; `lamina.rs:109–111`. -/
def letraValida (c : UInt8) : Bool := imprimible c || 0xA0 ≤ c

/-- A hexadecimal digit. -/
def hex (c : UInt8) : Option Nat :=
  if 0x30 ≤ c && c ≤ 0x39 then some (c - 0x30).toNat
  else if 0x61 ≤ c && c ≤ 0x66 then some ((c - 0x61).toNat + 10)
  else if 0x41 ≤ c && c ≤ 0x46 then some ((c - 0x41).toNat + 10)
  else none

/-- The loop of `color`. -/
def colorBucle : Nat → Bytes → Except Rechazo Nat
  | n, [] => .ok n
  | n, c :: b =>
    match hex c with
    | some d => colorBucle (n <<< 4 ||| d) b
    | none => .error .color

/-- `color`; `lamina.rs:128–143`. -/
def color (b : Bytes) : Except Rechazo Nat :=
  if b.length ≠ 6 then .error .color else colorBucle 0 b

/-- `recortar`; `lamina.rs:152–159`. -/
def recortar (linea : Bytes) : Except Rechazo Bytes :=
  let linea := sinFin linea
  if linea.length > lineaMax then .error .largo else .ok linea

/-- `zona`; `lamina.rs:162–177`. -/
def zona (resto : Bytes) : Except Rechazo (Zona × Bytes) := do
  let (x, resto) := partir resto
  let (y, resto) := partir resto
  let (ancho, resto) := partir resto
  let (alto, resto) := partir resto
  let x ← numero x anchoMax
  let y ← numero y altoLaminaMax
  let ancho ← numero ancho anchoMax
  let alto ← numero alto altoLaminaMax
  if ancho = 0 ∨ alto = 0 then .error .tamano else .ok (⟨x, y, ancho, alto⟩, resto)

/-- `dentro`; `lamina.rs:181–186`. -/
def dentro (z : Zona) (cab : Cabecera) : Except Rechazo Zona :=
  if z.x + z.ancho > cab.ancho ∨ z.y + z.alto > cab.alto then .error .fuera else .ok z

/-- `LAMINA`. -/
def verbo : Bytes := letras ['L', 'A', 'M', 'I', 'N', 'A']

/-- `leer_cabecera`; `lamina.rs:189–213`. -/
def leerCabecera (linea : Bytes) : Except Rechazo Cabecera := do
  let linea ← recortar linea
  if !linea.all imprimible then .error .noAscii
  else
    let (v, resto) := partir linea
    if v ≠ verbo then .error .verbo
    else
      let (ancho, resto) := partir resto
      let (alto, resto) := partir resto
      let (n, sobra) := partir resto
      if n.isEmpty || !sobra.isEmpty then .error .campos
      else
        let ancho ← numero ancho anchoMax
        let alto ← numero alto altoLaminaMax
        let n ← numero n elementosMax
        if ancho = 0 ∨ alto = 0 then .error .tamano else .ok ⟨ancho, alto, n⟩

/-- The line `TEXTO`; `lamina.rs:224–249`. -/
def leerTexto (resto : Bytes) (cab : Cabecera) : Except Rechazo Elemento :=
  let (x, resto) := partir resto
  let (y, resto) := partir resto
  let (escala, resto) := partir resto
  let (rgb, texto) := partir resto
  if !x.all imprimible || !y.all imprimible || !escala.all imprimible || !rgb.all imprimible then
    .error .noAscii
  else if texto.isEmpty then .error .campos
  else if !texto.all letraValida then .error .noAscii
  else do
    let escala ← numero escala escalaMax
    if escala = 0 then .error .tamano
    else
      let x ← numero x anchoMax
      let y ← numero y altoLaminaMax
      let z ← dentro ⟨x, y, texto.length * letraAncho * escala, letraAlto * escala⟩ cab
      let c ← color rgb
      .ok (.texto z escala c texto)

/-- The line `CAJA`; `lamina.rs:255–262`. -/
def leerCaja (resto : Bytes) (cab : Cabecera) : Except Rechazo Elemento := do
  let (z, rgb) ← zona resto
  let (rgb, sobra) := partir rgb
  if !sobra.isEmpty then .error .campos
  else
    let z ← dentro z cab
    let c ← color rgb
    .ok (.caja z c)

/-- The lines `IMAGEN`, `ENLACE` and `CAMPO`; `lamina.rs:263–278`. -/
def leerConId (haz : Zona → Bytes → Elemento) (resto : Bytes) (cab : Cabecera) :
    Except Rechazo Elemento := do
  let (z, id) ← zona resto
  let (id, sobra) := partir id
  if !sobra.isEmpty then .error .campos
  else if !idValido id then .error .id
  else
    let z ← dentro z cab
    .ok (haz z id)

/-- `leer_elemento`; `lamina.rs:217–283`. -/
def leerElemento (linea : Bytes) (cab : Cabecera) : Except Rechazo Elemento := do
  let linea ← recortar linea
  let (v, resto) := partir linea
  if v = letras ['T', 'E', 'X', 'T', 'O'] then leerTexto resto cab
  else if !linea.all imprimible then .error .noAscii
  else if v = letras ['C', 'A', 'J', 'A'] then leerCaja resto cab
  else if v = letras ['I', 'M', 'A', 'G', 'E', 'N'] then leerConId .imagen resto cab
  else if v = letras ['E', 'N', 'L', 'A', 'C', 'E'] then leerConId .enlace resto cab
  else if v = letras ['C', 'A', 'M', 'P', 'O'] then leerConId .campo resto cab
  else .error .verbo

end Lamina

/-! ### The other lines -/

/-- The line `HOLA`; `lib.rs:186–195`. -/
def leerHola (resto : Bytes) : Except Rechazo Respuesta :=
  let (v, nombre) := partir resto
  if v ≠ version then .error .version
  else if !textoValido nombre then .error .campos
  else .ok (.hola nombre)

/-- The line `ENTRADA`; `lib.rs:197–206`. -/
def leerEntrada (resto : Bytes) : Except Rechazo Respuesta :=
  let (id, titulo) := partir resto
  if !idValido id then .error .id
  else if !textoValido titulo then .error .campos
  else .ok (.entrada id titulo)

/-- A side of a video, whose errors all are `Tamano`. -/
def lado (b : Bytes) (maximo : Nat) : Except Rechazo Nat := (numero b maximo).mapError fun _ ↦ .tamano

/-- The line `VIDEO`; `lib.rs:207–225`. -/
def leerVideo (resto : Bytes) : Except Rechazo Respuesta :=
  let (bytes, resto) := partir resto
  let (formato, resto) := partir resto
  let (tamano, sobra) := partir resto
  if tamano.isEmpty || !sobra.isEmpty then .error .campos
  else do
    let bytes ← numero bytes (2 ^ 64 - 1)
    if formato ≠ letras ['m', 'p', 'e', 'g', '1'] then .error .formato
    else
      match cut? 0x78 tamano with
      | none => .error .tamano
      | some (ancho, alto) => do
        let ancho ← lado ancho anchoMax
        let alto ← lado alto altoMax
        if ancho < ladoMin ∨ alto < ladoMin ∨ ancho % 2 ≠ 0 ∨ alto % 2 ≠ 0 then .error .tamano
        else .ok (.video (UInt64.ofNat bytes) ancho alto)

/-- The line `NO`; `lib.rs:226–231`. -/
def leerNo (resto : Bytes) : Except Rechazo Respuesta :=
  if !textoValido resto then .error .campos else .ok (.no resto)

/-- `leer`; `lib.rs:175–235`. -/
def leer (linea : Bytes) : Except Rechazo Respuesta :=
  let linea := sinFin linea
  if linea.length > lineaMax then .error .largo
  else if !linea.all imprimible then .error .noAscii
  else
    let (verbo, resto) := partir linea
    if verbo = letras ['H', 'O', 'L', 'A'] then leerHola resto
    else if verbo = letras ['L', 'I', 'S', 'T', 'A'] then (numero resto listaMax).map .lista
    else if verbo = letras ['E', 'N', 'T', 'R', 'A', 'D', 'A'] then leerEntrada resto
    else if verbo = letras ['V', 'I', 'D', 'E', 'O'] then leerVideo resto
    else if verbo = letras ['N', 'O'] then leerNo resto
    else if verbo = Lamina.verbo then (Lamina.leerCabecera linea).map .lamina
    else .error .verbo

/-! ### What is asked for -/

/-- `Pedido`; `lib.rs:239–245`. -/
inductive Pedido
  | hola
  | lista
  | pide (id : Bytes)
  | pagina (url : Bytes)
  deriving DecidableEq

/-- `url_valida`; `lib.rs:248–253`. -/
def urlValida (url : Bytes) : Bool :=
  !url.isEmpty && url.length ≤ urlMax && (url.all fun c ↦ 0x21 ≤ c && c ≤ 0x7E) &&
    ((letras ['h', 't', 't', 'p', ':', '/', '/']).isPrefixOf url ||
      (letras ['h', 't', 't', 'p', 's', ':', '/', '/']).isPrefixOf url)

end BmoX.Antena
