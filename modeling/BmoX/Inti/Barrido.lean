import BmoX.Inti.Lexico

/-!
# The sweep of a source

`toolchain/lang/inti/src/lexico/mod.rs`. A line is read by the characters that are left of it; what
is read says how many of them it takes.
-/

namespace BmoX.Inti.Lexico

open BmoX.Base

/-! ### Texts and numbers -/

/-- Where a line is, and its text. -/
structure Renglon where
  linea : Nat
  columnaInicial : Nat
  cuerpo : Text

namespace Renglon

variable (g : Renglon)

/-- The place of a character of the line; `lexico/mod.rs:144`. -/
def sitioDe (j : Nat) : Sitio := ⟨g.linea, g.columnaInicial + j + 1⟩

def escapeRaro (otro : Option Char) (i : Nat) : Aviso where
  codigo := .ESCAPE_RARO
  quePaso := "Esa barra invertida no abre ningun escape."
  sitio := g.sitioDe i
  lineaFuente := g.cuerpo
  queHabia := "Detras de la barra hay `" ++ (otro.map Char.toString).getD "el final de la linea" ++
    "`, y los escapes son cinco: \\n \\t \\\" \\\\ \\\x7b"
  queHacer := "si querias una barra de verdad, escribe \\\\"

/-- What an escape stands for. -/
def escape : Char → Option Char
  | 'n' => some '\n'
  | 't' => some '\t'
  | '"' => some '"'
  | '\\' => some '\\'
  | '\x7b' => some '\x7b'
  | _ => none

/-- The characters of a text after its quote, the place of the next and what was read; the answer
says how many characters are taken, and the text if it is closed; `lexico/mod.rs:424–467`. -/
def textoDesde : Text → Nat → Text → List Aviso → Option Text × Nat × List Aviso
  | [], i, _, avisos => (none, i, avisos)
  | '"' :: _, i, salida, avisos => (some salida, i + 1, avisos)
  | ['\\'], i, _, avisos => (none, i + 1, avisos ++ [g.escapeRaro none i])
  | '\\' :: c :: r, i, salida, avisos =>
    match escape c with
    | some e => textoDesde r (i + 2) (salida ++ [e]) avisos
    | none => textoDesde r (i + 2) (salida ++ [c]) (avisos ++ [g.escapeRaro (some c) i])
  | c :: r, i, salida, avisos => textoDesde r (i + 1) (salida ++ [c]) avisos

/-- `lexico/mod.rs:417–478`. -/
def leerTexto (r : Text) (inicio : Nat) : Option Text × Nat × List Aviso :=
  match g.textoDesde r (inicio + 1) [] [] with
  | (some t, i, avisos) => (some t, i, avisos)
  | (none, i, avisos) =>
    (none, i, avisos ++
      [{ codigo := .TEXTO_SIN_CERRAR
         quePaso := "Este texto empieza y no se cierra."
         sitio := g.sitioDe inicio
         lineaFuente := g.cuerpo
         queHabia := "Un texto no puede seguir en la linea de abajo."
         queHacer := "cierra con \" antes de acabar la linea" }])

end Renglon

def esDigito (c : Char) : Bool := '0' ≤ c && c ≤ '9'

def esHex (c : Char) : Bool := esDigito c || ('a' ≤ c && c ≤ 'f') || ('A' ≤ c && c ≤ 'F')

def valorHex (c : Char) : Nat :=
  if esDigito c then c.toNat - 48 else if 'a' ≤ c then c.toNat - 87 else c.toNat - 55

/-- The bits of a literal in base sixteen, if they fit; `lexico/mod.rs:503–511`. -/
def valorEntero (digitos : Text) : Option Nat :=
  let v := digitos.foldl (fun n c ↦ n * 16 + valorHex c) 0
  if v < 2 ^ 64 then some v else none

def cabezaEs (p : Char → Bool) : Text → Bool
  | [] => false
  | c :: _ => p c

/-- A point with a digit behind; `lexico/mod.rs:581, 588`. -/
def puntoDecimal : Text → Bool
  | '.' :: r => cabezaEs esDigito r
  | _ => false

/-- An exponent; `lexico/mod.rs:605–610`. -/
def exponente : Text → Bool
  | c :: r => (c == 'e' || c == 'E') && cabezaEs (fun d ↦ esDigito d || d == '-' || d == '+') r
  | [] => false

namespace Renglon

variable (g : Renglon)

/-- `lexico/mod.rs:525–572`; the characters are those after `0x`. -/
def leerHex (x : Char) (r : Text) (inicio : Nat) : Option Numero × Nat × List Aviso :=
  let digitos := r.takeWhile esHex
  if digitos.isEmpty then
    (none, 2,
      [{ codigo := .NUMERO_RARO
         quePaso := "Este `0x` no lleva ningun digito detras."
         sitio := g.sitioDe inicio
         lineaFuente := g.cuerpo
         queHabia := ""
         queHacer := "escribe los digitos, por ejemplo 0x60" }])
  else
    let texto := '0' :: x :: digitos
    (some ⟨texto, .Dieciseis, false⟩, texto.length,
      if (valorEntero digitos).isNone then
        [{ codigo := .NUMERO_ENORME
           quePaso := "`" ++ String.ofList texto ++ "` no cabe en 64 bits."
           sitio := g.sitioDe inicio
           lineaFuente := g.cuerpo
           queHabia := "El numero mas grande que cabe es 0xFFFFFFFFFFFFFFFF. Se dice en vez de " ++
             "recortarlo: un literal recortado en silencio parece un numero valido y no lo es."
           queHacer := "quita digitos, o parte el valor en dos" }]
      else [])

/-- A point and its digits, and what is left; `lexico/mod.rs:579–602`. -/
def fraccion (r : Text) (i : Nat) : Text × Text × Bool × List Aviso :=
  if puntoDecimal r then
    let ds := (r.drop 1).takeWhile esDigito
    let resto := (r.drop 1).dropWhile esDigito
    if puntoDecimal resto then
      let ds' := (resto.drop 1).takeWhile esDigito
      (r.take 1 ++ ds ++ resto.take 1 ++ ds', (resto.drop 1).dropWhile esDigito, true,
        [{ codigo := .NUMERO_RARO
           quePaso := "Este numero lleva dos puntos decimales."
           sitio := g.sitioDe (i + 1 + ds.length)
           lineaFuente := g.cuerpo
           queHabia := ""
           queHacer := "deja un solo punto" }])
    else (r.take 1 ++ ds, resto, true, [])
  else ([], r, false, [])

/-- `lexico/mod.rs:574–629`. -/
def leerDecimal (cs : Text) (inicio : Nat) : Numero × Nat × List Aviso :=
  let entera := cs.takeWhile esDigito
  let (punto, resto, conPunto, avisos) :=
    g.fraccion (cs.dropWhile esDigito) (inicio + entera.length)
  let exp := if exponente resto then resto.take 2 ++ (resto.drop 2).takeWhile esDigito else []
  let texto := entera ++ punto ++ exp
  (⟨texto, .Diez, conPunto || exponente resto⟩, texto.length, avisos)

/-- `lexico/mod.rs:514–629`. -/
def leerNumero (cs : Text) (inicio : Nat) : Option Numero × Nat × List Aviso :=
  match cs with
  | '0' :: x :: r =>
    if x = 'x' ∨ x = 'X' then g.leerHex x r inicio
    else
      let (n, k, avisos) := g.leerDecimal cs inicio
      (some n, k, avisos)
  | _ =>
    let (n, k, avisos) := g.leerDecimal cs inicio
    (some n, k, avisos)

end Renglon

/-! ### A line -/

/-- `lexico/mod.rs:336–358`. -/
def sugerenciaDeSigno : Char → String
  | ';' => "En INTI una linea acaba donde acaba la linea."
  | '&' | '|' => "Los operadores de logica son palabras: `y`, `o`, `no`."
  | '!' => "La negacion se escribe `no`."
  | '%' => "El resto de una division se escribe `resto`."
  | '?' => "No hay operador ternario: se escribe con `si`."
  | '\\' => "La barra invertida solo vive dentro de un texto."
  | '@' => "No hay decoradores."
  | _ => ""

def sugerenciaDeArreglo : Char → String
  | ';' => "borra el `;`"
  | '&' => "escribe `y`"
  | '|' => "escribe `o`"
  | '!' => "escribe `no`"
  | '%' => "escribe `resto`"
  | _ => "quitalo"

/-- The sign that some characters begin with, and how many it takes; `lexico/mod.rs:236–266`. -/
def signoDe : Text → Option Signo × Nat
  | '(' :: _ => (some .ParenAbre, 1)
  | ')' :: _ => (some .ParenCierra, 1)
  | '[' :: _ => (some .CorcheteAbre, 1)
  | ']' :: _ => (some .CorcheteCierra, 1)
  | '\x7b' :: _ => (some .LlaveAbre, 1)
  | '\x7d' :: _ => (some .LlaveCierra, 1)
  | ',' :: _ => (some .Coma, 1)
  | ':' :: _ => (some .DosPuntos, 1)
  | '.' :: _ => (some .Punto, 1)
  | '=' :: _ => (some .Igual, 1)
  | '+' :: _ => (some .Mas, 1)
  | '-' :: _ => (some .Menos, 1)
  | '*' :: _ => (some .Por, 1)
  | '/' :: _ => (some .Barra, 1)
  | '<' :: '=' :: _ => (some .MenorIgual, 2)
  | '<' :: _ => (some .Menor, 1)
  | '>' :: '=' :: _ => (some .MayorIgual, 2)
  | '>' :: _ => (some .Mayor, 1)
  | _ => (none, 1)

/-- What the sweep has gathered; `lexico/mod.rs:46–52`. -/
structure Barrido where
  piezas : List Pieza
  avisos : List Aviso
  sangrador : Sangrador
  /-- The pairs that are open, the innermost first. -/
  parejas : List (Signo × Sitio)

namespace Barrido

def nuevo : Barrido := ⟨[], [], .nuevo, []⟩

variable (b : Barrido)

def pieza (c : Clase) (s : Sitio) : Barrido := { b with piezas := b.piezas ++ [⟨c, s⟩] }

def avisa (as : List Aviso) : Barrido := { b with avisos := b.avisos ++ as }

end Barrido

namespace Renglon

variable (u : Unicode) (v : Vocabulario) (g : Renglon)

def comillaSimple (i : Nat) : Aviso where
  codigo := .COMILLA_SIMPLE
  quePaso := "En INTI los textos van entre comillas dobles."
  sitio := g.sitioDe i
  lineaFuente := g.cuerpo
  queHabia := "La comilla simple no significa nada aqui: hay una sola forma de escribir un texto."
  queHacer := "usa \" en los dos extremos"

def noAscii (palabra : Text) (i : Nat) : Aviso where
  codigo := .NOMBRE_NO_ASCII
  quePaso := "Ese nombre lleva letras de fuera del ASCII."
  sitio := g.sitioDe i
  lineaFuente := g.cuerpo
  queHabia := "`" ++ String.ofList palabra ++ "` vale, y aun asi conviene saberlo: las " ++
    "herramientas del sistema comprueban que las fuentes sean ASCII."
  queHacer := "si te da igual, escribelo `" ++ String.ofList (sinTildes palabra) ++ "`"

/-- `lexico/mod.rs:401–405`. -/
def esNombreDeTipo (palabra : Text) : Bool :=
  cabezaEs u.mayuscula palabra && palabra.any u.minuscula

def esInicioDeNombre (c : Char) : Bool := u.alfabetico c || c == '_'

def esCuerpoDeNombre (c : Char) : Bool := u.alfanumerico c || c == '_'

/-- A word; `lexico/mod.rs:207–231`. -/
def palabra (palabra : Text) (i : Nat) (b : Barrido) : Barrido :=
  match v.reconocer palabra with
  | some s => b.pieza (.Palabra s) (g.sitioDe i)
  | none =>
    if esNombreDeTipo u palabra then b.pieza (.Tipo palabra) (g.sitioDe i)
    else
      let b := if palabra.all fun c ↦ c.toNat < 128 then b else b.avisa [g.noAscii palabra i]
      b.pieza (.Nombre palabra) (g.sitioDe i)

/-- What a sign does with the open pairs; `lexico/mod.rs:271–310`. -/
def pareja (s : Signo) (sitio : Sitio) (b : Barrido) : Barrido :=
  if s.abre then { b with parejas := (s, sitio) :: b.parejas }
  else
    match cierraA s with
    | none => b
    | some esperada =>
      match b.parejas with
      | (abierta, sitioAbierta) :: parejas =>
        let b := { b with parejas := parejas }
        if abierta = esperada then b
        else
          b.avisa
            [{ codigo := .PAREJA_ROTA
               quePaso := "Aqui va `" ++ abierta.textoPareja ++ "`, no `" ++ s.texto ++ "`."
               sitio := sitio
               lineaFuente := g.cuerpo
               queHabia := "Lo que esta abierto es el `" ++ abierta.texto ++ "` de la linea " ++
                 toString sitioAbierta.linea ++ "."
               queHacer := "cierra con `" ++ abierta.textoPareja ++ "`" }]
      | [] =>
        b.avisa
          [{ codigo := .PAREJA_ROTA
             quePaso := "Este `" ++ s.texto ++ "` cierra algo que no esta abierto."
             sitio := sitio
             lineaFuente := g.cuerpo
             queHabia := ""
             queHacer := "quitalo, o abre la pareja antes" }]

/-- A sign; `lexico/mod.rs:236–327`. -/
def signo (cs : Text) (c : Char) (i : Nat) (b : Barrido) : Barrido × Nat :=
  match signoDe cs with
  | (some s, ancho) => ((g.pareja s (g.sitioDe i) b).pieza (.Signo s) (g.sitioDe i), ancho)
  | (none, _) =>
    (b.avisa
      [{ codigo := .SIGNO_DESCONOCIDO
         quePaso := "El signo `" ++ c.toString ++ "` no es de este lenguaje."
         sitio := g.sitioDe i
         lineaFuente := g.cuerpo
         queHabia := sugerenciaDeSigno c
         queHacer := sugerenciaDeArreglo c }], 1)

/-- A turn of the loop, at a character that is no blank and begins no comment: what is gathered, and
how many characters are taken; `lexico/mod.rs:157–327`. -/
def lee (c : Char) (r : Text) (i : Nat) (b : Barrido) : Barrido × Nat :=
  if c = '"' then
    let (texto, siguiente, avisos) := g.leerTexto r i
    let b := b.avisa avisos
    (match texto with
      | some t => b.pieza (.Texto t) (g.sitioDe i)
      | none => b, siguiente - i)
  else if c = '\'' then
    (b.avisa [g.comillaSimple i], 2 + (r.takeWhile (· ≠ '\'')).length)
  else if esDigito c then
    let (num, k, avisos) := g.leerNumero (c :: r) i
    let b := b.avisa avisos
    (match num with
      | some n => b.pieza (.Numero n) (g.sitioDe i)
      | none => b, k)
  else if esInicioDeNombre u c then
    let palabra := (c :: r).takeWhile (esCuerpoDeNombre u)
    (g.palabra u v palabra i b, palabra.length)
  else g.signo (c :: r) c i b

/-- The loop, of `n` turns at most; `lexico/mod.rs:146–328`. -/
def barrerDesde : Nat → Text → Nat → Barrido → Barrido
  | 0, _, _, b => b
  | _ + 1, [], _, b => b
  | n + 1, c :: r, i, b =>
    if c = ' ' then barrerDesde n r (i + 1) b
    else if c = '#' then b
    else
      let (b, k) := g.lee u v c r i b
      barrerDesde n ((c :: r).drop k) (i + k) b

/-- `lexico/mod.rs:129–329`. -/
def barrerLinea (b : Barrido) : Barrido := g.barrerDesde u v g.cuerpo.length g.cuerpo 0 b

end Renglon

/-! ### A source -/

section

variable (u : Unicode) (v : Vocabulario)

/-- A line that has content, and its end where no pair is open; `lexico/mod.rs:83–97`. -/
def Barrido.cuerpo (b : Barrido) (g : Renglon) : Barrido :=
  let b := g.barrerLinea u v b
  if b.parejas.isEmpty then b.pieza .FinLinea ⟨g.linea, g.columnaInicial + g.cuerpo.length + 1⟩
  else b

/-- A line that is blank, or of a comment only; `lexico/mod.rs:64–67`. -/
def sinContenido (resto : Text) : Bool :=
  let limpio := trimEnd resto
  limpio.isEmpty || cabezaEs (· == '#') limpio

/-- A line; `lexico/mod.rs:57–97`. -/
def Barrido.linea (b : Barrido) (n : Nat) (linea : Text) : Barrido :=
  if b.parejas.isEmpty then
    let (ancho, resto, avisos) := medirMargen linea n
    let b := b.avisa avisos
    if sinContenido resto then b
    else
      let sitio : Sitio := ⟨n, ancho + 1⟩
      let (sangrador, clases, avisos) := b.sangrador.medir ancho sitio linea
      let b := { b.avisa avisos with
        sangrador := sangrador
        piezas := b.piezas ++ clases.map fun c ↦ Pieza.mk c sitio }
      b.cuerpo u v ⟨n, ancho, resto⟩
  else
    let sinMargen := trimStart linea
    b.cuerpo u v ⟨n, linea.length - sinMargen.length, sinMargen⟩

/-- The lines, from the `n`-th. -/
def Barrido.lineas : Nat → List Text → Barrido → Barrido
  | _, [], b => b
  | n, l :: ls, b => lineas (n + 1) ls (b.linea u v n l)

/-- A pair that nothing closes; `lexico/mod.rs:100–117`. -/
def sinCerrar (p : Signo × Sitio) : Aviso where
  codigo := .PAREJA_ROTA
  quePaso := "Este `" ++ p.1.texto ++ "` no se cierra en ningun sitio."
  sitio := p.2
  lineaFuente := []
  queHabia := "Se abrio en la linea " ++ toString p.2.linea ++ " y el fichero se acaba sin el `" ++
    p.1.textoPareja ++ "`."
  queHacer := "anade `" ++ p.1.textoPareja ++ "`"

/-- `lexico/mod.rs:45–126`. -/
def barrer (fuente : Text) : List Pieza × List Aviso :=
  let b := Barrido.nuevo.lineas u v 1 (lines fuente)
  let avisos := b.avisos ++ b.parejas.reverse.map sinCerrar
  let ultima := (b.piezas.getLast?.map Pieza.sitio).getD default
  (b.piezas ++ (b.sangrador.cerrar ++ [Clase.Fin]).map (Pieza.mk · ultima), avisos)

end

end BmoX.Inti.Lexico
