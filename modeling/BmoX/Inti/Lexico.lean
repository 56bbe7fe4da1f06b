import BmoX.Base.Utf8
import Mathlib.Data.List.Nodup
import Mathlib.Logic.Function.Basic

/-!
# From text to pieces

`toolchain/lang/inti/src/lexico` and `palabras/mod.rs`. The properties of a character that Unicode
tells, and the words of a dialect, are parameters.
-/

namespace BmoX.Inti.Lexico

open BmoX.Base

/-! ### Words -/

/-- `palabras/mod.rs:66–125`. -/
inductive Simbolo where
  | Perfil | Llano | Pleno | Usa | Necesita | Funcion | Devuelve | Registro | Operacion | Cambiante
  | Es | Un | De | A | Si | Sino | Para | Cada | En | Hasta | Repite | Veces | Mientras | Corta
  | Continua | Falla | Crudo | Paralelo | Y | O | No | Entre | Resto | Elevado | Desplaza
  | Izquierda | Derecha | BitsY | BitsO | BitsXor | Cierto | Falso | Nada | Quiza | Error | Fallo
  | Valor | Motivo | Lista | Bufer | Tabla
  deriving DecidableEq

def Simbolo.TODOS : List Simbolo :=
  [.Perfil, .Llano, .Pleno, .Usa, .Necesita, .Funcion, .Devuelve, .Registro, .Operacion, .Cambiante,
    .Es, .Un, .De, .A, .Si, .Sino, .Para, .Cada, .En, .Hasta, .Repite, .Veces, .Mientras, .Corta,
    .Continua, .Falla, .Crudo, .Paralelo, .Y, .O, .No, .Entre, .Resto, .Elevado, .Desplaza,
    .Izquierda, .Derecha, .BitsY, .BitsO, .BitsXor, .Cierto, .Falso, .Nada, .Quiza, .Error, .Fallo,
    .Valor, .Motivo, .Lista, .Bufer, .Tabla]

/-- What Unicode says of a character. -/
structure Unicode where
  alfabetico : Char → Bool
  alfanumerico : Char → Bool
  mayuscula : Char → Bool
  minuscula : Char → Bool
  alfanumerico_of : ∀ c, alfabetico c = true → alfanumerico c = true

/-- `palabras/mod.rs:348–366`. -/
def sinTildesCrudo (s : Text) : Text :=
  s.map fun c ↦
    match c with
    | 'á' => 'a'
    | 'é' => 'e'
    | 'í' => 'i'
    | 'ó' => 'o'
    | 'ú' => 'u'
    | 'ü' => 'u'
    | 'ñ' => 'n'
    | 'Á' => 'A'
    | 'É' => 'E'
    | 'Í' => 'I'
    | 'Ó' => 'O'
    | 'Ú' => 'U'
    | 'Ü' => 'U'
    | 'Ñ' => 'N'
    | c => c

/-- The words that say another thing without their tilde. -/
def LA_ENE_QUE_CAMBIA : List (Text × Text) :=
  [(['a', 'n', 'o'], ['a', 'n', 'i', 'o']), (['a', 'n', 'o', 's'], ['a', 'n', 'i', 'o', 's']),
    (['s', 'u', 'e', 'n', 'o'], ['s', 'u', 'e', 'n', 'i', 'o']),
    (['s', 'u', 'e', 'n', 'o', 's'], ['s', 'u', 'e', 'n', 'i', 'o', 's'])]

/-- The first letter of a word is as high as that of another. -/
def comoAlta (llana buena : Text) : Text :=
  match llana, buena with
  | c :: _, b :: r => (if c.isUpper then b.toUpper else b) :: r
  | _, _ => buena

/-- `palabras/mod.rs:325–346`. -/
def sinTildes (s : Text) : Text :=
  let llana := sinTildesCrudo s
  match LA_ENE_QUE_CAMBIA.find? fun p ↦ p.1 == llana.map Char.toLower with
  | some (_, buena) => comoAlta llana buena
  | none => llana

/-- The words of a dialect; no two symbols have one text. -/
structure Vocabulario where
  texto : Simbolo → Text
  aliasPorTilde : Bool
  sinRepetir : Function.Injective texto

namespace Vocabulario

variable (v : Vocabulario)

def porTexto (palabra : Text) : Option Simbolo := Simbolo.TODOS.find? fun s ↦ v.texto s == palabra

/-- `palabras/mod.rs:268–279`. -/
def reconocer (palabra : Text) : Option Simbolo :=
  match v.porTexto palabra with
  | some s => some s
  | none =>
    let plano := sinTildes palabra
    if v.aliasPorTilde ∧ plano ≠ palabra then v.porTexto plano else none

end Vocabulario

/-- The words of the column `es` of `palabras.toml`. -/
def Simbolo.es : Simbolo → Text
  | .Perfil => ['p', 'e', 'r', 'f', 'i', 'l']
  | .Llano => ['l', 'l', 'a', 'n', 'o']
  | .Pleno => ['p', 'l', 'e', 'n', 'o']
  | .Usa => ['u', 's', 'a']
  | .Necesita => ['n', 'e', 'c', 'e', 's', 'i', 't', 'a']
  | .Funcion => ['f', 'u', 'n', 'c', 'i', 'o', 'n']
  | .Devuelve => ['d', 'e', 'v', 'u', 'e', 'l', 'v', 'e']
  | .Registro => ['r', 'e', 'g', 'i', 's', 't', 'r', 'o']
  | .Operacion => ['o', 'p', 'e', 'r', 'a', 'c', 'i', 'o', 'n']
  | .Cambiante => ['c', 'a', 'm', 'b', 'i', 'a', 'n', 't', 'e']
  | .Es => ['e', 's']
  | .Un => ['u', 'n']
  | .De => ['d', 'e']
  | .A => ['a']
  | .Si => ['s', 'i']
  | .Sino => ['s', 'i', 'n', 'o']
  | .Para => ['p', 'a', 'r', 'a']
  | .Cada => ['c', 'a', 'd', 'a']
  | .En => ['e', 'n']
  | .Hasta => ['h', 'a', 's', 't', 'a']
  | .Repite => ['r', 'e', 'p', 'i', 't', 'e']
  | .Veces => ['v', 'e', 'c', 'e', 's']
  | .Mientras => ['m', 'i', 'e', 'n', 't', 'r', 'a', 's']
  | .Corta => ['c', 'o', 'r', 't', 'a']
  | .Continua => ['c', 'o', 'n', 't', 'i', 'n', 'u', 'a']
  | .Falla => ['f', 'a', 'l', 'l', 'a']
  | .Crudo => ['c', 'r', 'u', 'd', 'o']
  | .Paralelo => ['p', 'a', 'r', 'a', 'l', 'e', 'l', 'o']
  | .Y => ['y']
  | .O => ['o']
  | .No => ['n', 'o']
  | .Entre => ['e', 'n', 't', 'r', 'e']
  | .Resto => ['r', 'e', 's', 't', 'o']
  | .Elevado => ['e', 'l', 'e', 'v', 'a', 'd', 'o']
  | .Desplaza => ['d', 'e', 's', 'p', 'l', 'a', 'z', 'a']
  | .Izquierda => ['i', 'z', 'q', 'u', 'i', 'e', 'r', 'd', 'a']
  | .Derecha => ['d', 'e', 'r', 'e', 'c', 'h', 'a']
  | .BitsY => ['b', 'i', 't', 's', '_', 'y']
  | .BitsO => ['b', 'i', 't', 's', '_', 'o']
  | .BitsXor => ['b', 'i', 't', 's', '_', 'x', 'o', 'r']
  | .Cierto => ['c', 'i', 'e', 'r', 't', 'o']
  | .Falso => ['f', 'a', 'l', 's', 'o']
  | .Nada => ['n', 'a', 'd', 'a']
  | .Quiza => ['q', 'u', 'i', 'z', 'a']
  | .Error => ['e', 'r', 'r', 'o', 'r']
  | .Fallo => ['f', 'a', 'l', 'l', 'o']
  | .Valor => ['v', 'a', 'l', 'o', 'r']
  | .Motivo => ['m', 'o', 't', 'i', 'v', 'o']
  | .Lista => ['l', 'i', 's', 't', 'a']
  | .Bufer => ['b', 'u', 'f', 'e', 'r']
  | .Tabla => ['t', 'a', 'b', 'l', 'a']

private theorem Simbolo.mem_TODOS (s : Simbolo) : s ∈ Simbolo.TODOS := by
  cases s <;> decide

private theorem Simbolo.es_injective : Function.Injective Simbolo.es := by
  have h : (Simbolo.TODOS.map Simbolo.es).Nodup := by decide
  exact fun s t hst ↦ List.inj_on_of_nodup_map h s.mem_TODOS t.mem_TODOS hst

def Vocabulario.es : Vocabulario := ⟨Simbolo.es, true, Simbolo.es_injective⟩

/-- The letters of ASCII, for a text that has no others. -/
def Unicode.ascii : Unicode where
  alfabetico := Char.isAlpha
  alfanumerico := Char.isAlphanum
  mayuscula := Char.isUpper
  minuscula := Char.isLower
  alfanumerico_of c h := by rw [Char.isAlphanum, h, Bool.true_or]

/-! ### Pieces and warnings -/

/-- `aviso/mod.rs:41–44`. -/
structure Sitio where
  linea : Nat
  columna : Nat
  deriving DecidableEq

instance : Inhabited Sitio := ⟨⟨1, 1⟩⟩

/-- The codes that the lexer gives; `aviso/codigos.rs`. -/
inductive Codigo where
  | TABULADOR
  | COMILLA_SIMPLE
  | SANGRIA_RARA
  | TEXTO_SIN_CERRAR
  | ESCAPE_RARO
  | SIGNO_DESCONOCIDO
  | NUMERO_RARO
  | PAREJA_ROTA
  | NUMERO_ENORME
  | NOMBRE_NO_ASCII
  deriving DecidableEq

structure Aviso where
  codigo : Codigo
  quePaso : String
  sitio : Sitio
  lineaFuente : Text
  queHabia : String
  queHacer : String

/-- `lexico/pieza.rs:17–20`. -/
inductive Base where
  | Diez
  | Dieciseis
  deriving DecidableEq

structure Numero where
  texto : Text
  base : Base
  conPunto : Bool
  deriving DecidableEq

/-- `lexico/pieza.rs:43–64`. -/
inductive Signo where
  | ParenAbre
  | ParenCierra
  | CorcheteAbre
  | CorcheteCierra
  | LlaveAbre
  | LlaveCierra
  | Coma
  | DosPuntos
  | Punto
  | Igual
  | Menor
  | Mayor
  | MenorIgual
  | MayorIgual
  | Mas
  | Menos
  | Por
  | Barra
  deriving DecidableEq

namespace Signo

def texto : Signo → String
  | ParenAbre => "("
  | ParenCierra => ")"
  | CorcheteAbre => "["
  | CorcheteCierra => "]"
  | LlaveAbre => "\x7b"
  | LlaveCierra => "\x7d"
  | Coma => ","
  | DosPuntos => ":"
  | Punto => "."
  | Igual => "="
  | Menor => "<"
  | Mayor => ">"
  | MenorIgual => "<="
  | MayorIgual => ">="
  | Mas => "+"
  | Menos => "-"
  | Por => "*"
  | Barra => "/"

def abre : Signo → Bool
  | ParenAbre | CorcheteAbre | LlaveAbre => true
  | _ => false

def pareja : Signo → Option Signo
  | ParenAbre => some ParenCierra
  | CorcheteAbre => some CorcheteCierra
  | LlaveAbre => some LlaveCierra
  | _ => none

/-- What closes the sign that a sign opened, as text. -/
def textoPareja (s : Signo) : String := (s.pareja.map texto).getD "?"

end Signo

/-- `lexico/mod.rs:360–367`. -/
def cierraA : Signo → Option Signo
  | .ParenCierra => some .ParenAbre
  | .CorcheteCierra => some .CorcheteAbre
  | .LlaveCierra => some .LlaveAbre
  | _ => none

/-- `lexico/pieza.rs:111–131`. -/
inductive Clase where
  | Palabra (s : Simbolo)
  | Nombre (n : Text)
  | Tipo (t : Text)
  | Numero (n : Numero)
  | Texto (t : Text)
  | Signo (s : Signo)
  | Sangra
  | Desangra
  | FinLinea
  | Fin
  deriving DecidableEq

structure Pieza where
  clase : Clase
  sitio : Sitio
  deriving DecidableEq

/-! ### The margin -/

def ANCHO : Nat := 4

/-- The widths that are open, the innermost first; `lexico/sangria.rs:38–42`. -/
structure Sangrador where
  niveles : List Nat

namespace Sangrador

def nuevo : Sangrador := ⟨[0]⟩

def margen (s : Sangrador) : Nat := s.niveles.headD 0

/-- The loop that closes the blocks of more than a width; `lexico/sangria.rs:112–115`. -/
def salir (ancho : Nat) : List Nat → List Nat × List Clase
  | [] => ([], [])
  | m :: ns =>
    if m > ancho then
      let (ns', piezas) := salir ancho ns
      (ns', .Desangra :: piezas)
    else (m :: ns, [])

/-- `lexico/sangria.rs:70–139`. -/
def medir (s : Sangrador) (ancho : Nat) (sitio : Sitio) (lineaFuente : Text) :
    Sangrador × List Clase × List Aviso :=
  let actual := s.margen
  if ancho = actual then (s, [], [])
  else if ancho > actual then
    let avisos :=
      if ancho ≠ actual + ANCHO then
        [{ codigo := .SANGRIA_RARA
           quePaso := "Esta linea entra mas de un nivel de golpe."
           sitio := sitio
           lineaFuente := lineaFuente
           queHabia := "Tiene " ++ toString ancho ++ " espacios y el bloque de fuera va por " ++
             toString actual ++ ": el siguiente nivel son " ++ toString (actual + ANCHO) ++ "."
           queHacer := "deja " ++ toString (actual + ANCHO) ++
             " espacios al principio de la linea" }]
      else []
    (⟨ancho :: s.niveles⟩, [.Sangra], avisos)
  else
    let (niveles, piezas) := salir ancho s.niveles
    let margen := niveles.headD 0
    if margen ≠ ancho then
      (⟨ancho :: niveles⟩, piezas ++ [.Sangra],
        [{ codigo := .SANGRIA_RARA
           quePaso := "Esta linea no vuelve a ningun bloque abierto."
           sitio := sitio
           lineaFuente := lineaFuente
           queHabia := "Tiene " ++ toString ancho ++ " espacios, y los bloques abiertos van por " ++
             toString margen ++ "."
           queHacer := "deja " ++ toString margen ++ " espacios al principio de la linea" }])
    else (⟨niveles⟩, piezas, [])

/-- `lexico/sangria.rs:142–149`. -/
def cerrar (s : Sangrador) : List Clase := List.replicate (s.niveles.length - 1) .Desangra

end Sangrador

/-- The warning of a tabulator; `lexico/sangria.rs:170–184`. -/
def avisoTabulador (linea : Text) (numeroDeLinea ancho : Nat) : Aviso where
  codigo := .TABULADOR
  quePaso := "Hay un tabulador donde va la sangria."
  sitio := ⟨numeroDeLinea, ancho + 1⟩
  lineaFuente := linea
  queHabia := "La sangria de INTI son cuatro espacios, siempre. Un tabulador se ve igual en tu " ++
    "editor y distinto en el mio."
  queHacer := "cambia el tabulador por cuatro espacios"

/-- The loop of `medir_margen`, from a place of the line. -/
def margenDesde (linea : Text) (numeroDeLinea : Nat) : Text → Nat → List Aviso →
    Nat × Text × List Aviso
  | ' ' :: r, ancho, avisos => margenDesde linea numeroDeLinea r (ancho + 1) avisos
  | '\t' :: r, ancho, avisos =>
    margenDesde linea numeroDeLinea r (ancho + ANCHO)
      (if avisos.isEmpty then [avisoTabulador linea numeroDeLinea ancho] else avisos)
  | r, ancho, avisos => (ancho, r, avisos)

/-- `lexico/sangria.rs:157–195`. -/
def medirMargen (linea : Text) (numeroDeLinea : Nat) : Nat × Text × List Aviso :=
  margenDesde linea numeroDeLinea linea 0 []

end BmoX.Inti.Lexico
