import BmoX.C.Condicion

/-!
# The macros

`toolchain/lang/c/src/parser/preprocessor.rs:23–50, 356–408, 487–888`. The table is a list of its names,
and the order that a hash map goes through them is a parameter.
-/

namespace BmoX.C.Pre

open BmoX.Base

/-- `preprocessor.rs:23–43`. -/
structure MacroDef where
  params : List Text
  funcion : Bool
  variadica : Bool
  body : Text
  deriving DecidableEq

/-- `lib.rs:209–212`. -/
structure CError where
  line : Nat
  message : String
  deriving DecidableEq

/-- Why there is no text: an error, a slice inside of a character or a division that stop the program, or
headers that are too deep. -/
inductive Fallo
  | error (e : CError)
  | panico
  | hondo
  deriving DecidableEq

/-- `preprocessor.rs:50`. -/
def MAX_PASADAS : Nat := 16

abbrev Macros := List (Text × MacroDef)

namespace Macros

variable (m : Macros)

def get (name : Text) : Option MacroDef := m.lookup name

def contains (name : Text) : Bool := (m.get name).isSome

def remove (name : Text) : Macros := m.filter (·.1 ≠ name)

def insert (name : Text) (d : MacroDef) : Macros := (name, d) :: m.remove name

/-- `entry(name).or_insert(cuerpo)`, for each of another table. -/
def orInsert (otras : Macros) : Macros :=
  otras.foldl (fun m p ↦ if m.contains p.1 then m else m.insert p.1 p.2) m

end Macros

/-! ### Expansion -/

/-- The position of a parameter. -/
def MacroDef.posicion (m : MacroDef) (name : Text) : Option Nat := m.params.findIdx? (· == name)

/-- An argument as the inside of a string. -/
def escapa (arg : Text) : Text := arg.flatMap fun c ↦ if c = '"' ∨ c = '\\' then ['\\', c] else [c]

def uneComas : List Text → Text
  | [] => []
  | [a] => a
  | a :: as => a ++ [',', ' '] ++ uneComas as

/-- What a name of a body becomes; `preprocessor.rs:878–885`. -/
def MacroDef.nombre (m : MacroDef) (args : List Text) (name : Text) : Text :=
  if name = "__VA_ARGS__".toList ∧ m.variadica then uneComas (args.drop (min m.params.length args.length))
  else
    match m.posicion name with
    | some k => args.getD k []
    | none => name

/-- `preprocessor.rs:826–888`, of `n` turns at most; `out` is what there is already. -/
def sustituirDesde (m : MacroDef) (args : List Text) : Nat → Text → Text → Text
  | 0, _, out => out
  | _ + 1, [], out => out
  | n + 1, c :: r, out =>
    if isQuote c then
      let (lit, resto) := copiarLiteral c r
      sustituirDesde m args n resto (out ++ c :: lit)
    else if c = '#' then
      match r with
      | '#' :: r' =>
        sustituirDesde m args n (r'.dropWhile isSpaceOrTab) (recortaFin isSpaceOrTab out)
      | _ =>
        let (name, resto) := palabra r
        match (if r.head?.any isIdentStart then m.posicion name else none) with
        | some k =>
          sustituirDesde m args n resto (out ++ ['"'] ++ escapa (args.getD k []) ++ ['"'])
        | none => sustituirDesde m args n r (out ++ [c])
    else if isIdentStart c then
      let (name, resto) := palabra (c :: r)
      sustituirDesde m args n resto (out ++ m.nombre args name)
    else sustituirDesde m args n r (out ++ latin c)

def sustituir (m : MacroDef) (args : List Text) : Text :=
  sustituirDesde m args m.body.length m.body []

/-- A call of a macro that takes that many arguments or not; `preprocessor.rs:706–722`. -/
def MacroDef.cuadra (m : MacroDef) (args : List Text) : Bool :=
  if m.variadica then m.params.length ≤ args.length else args.length = m.params.length

def sinCierre (line : Nat) (name : Text) : CError :=
  ⟨line, "la macro '" ++ String.ofList name ++ "(' no cierra su parentesis en esta linea"⟩

def malInvocada (line : Nat) (name : Text) (m : MacroDef) (args : List Text) : CError :=
  ⟨line, "la macro '" ++ String.ofList name ++ "' espera " ++ toString m.params.length ++
    " argumento(s)" ++ (if m.variadica then " o mas" else "") ++ ", recibio " ++
    toString args.length⟩

/-- What a call is replaced by, and what is left; `preprocessor.rs:690–726`. -/
def llamada (line : Nat) (name : Text) (m : MacroDef) (resto : Text) :
    Text × Text × List CError :=
  let desde := resto.dropWhile isSpaceOrTab
  if desde.head? = some '(' then
    match recogerArgs desde with
    | none => (name, resto, [sinCierre line name])
    | some (args, fin) =>
      if m.cuadra args then (sustituir m args, fin, [])
      else (name, resto, [malInvocada line name m args])
  else (name, resto, [])

section

variable (m : Macros) (line : Nat)

/-- What a name is replaced by, and what is left; `preprocessor.rs:678–726`. -/
def reemplazo (name resto : Text) : Text × Text × List CError :=
  match m.get name with
  | none => (name, resto, [])
  | some d => if d.funcion then llamada line name d resto else (d.body, resto, [])

/-- `preprocessor.rs:639–730`, of `n` turns at most. -/
def pasadaDesde : Nat → Text → Text × List CError
  | 0, _ => ([], [])
  | _ + 1, [] => ([], [])
  | n + 1, c :: r =>
    if isQuote c then
      let (lit, resto) := copiarLiteral c r
      let (out, errores) := pasadaDesde n resto
      (c :: lit ++ out, errores)
    else if isIdentStart c then
      let (name, resto) := palabra (c :: r)
      let (por, resto, es) := reemplazo m line name resto
      let (out, errores) := pasadaDesde n resto
      (por ++ out, es ++ errores)
    else
      let (out, errores) := pasadaDesde n r
      (c :: out, errores)

def expandirUnaPasada (texto : Text) : Text × List CError := pasadaDesde m line texto.length texto

/-- The passes, `n` at most; `preprocessor.rs:613–619`. -/
def pasadas : Nat → Text → List CError → Text × List CError
  | 0, texto, errores => (texto, errores)
  | n + 1, texto, errores =>
    let (next, es) := expandirUnaPasada m line texto
    if next = texto then (texto, errores ++ es) else pasadas n next (errores ++ es)

/-- `preprocessor.rs:607–612, 629–635`. -/
def conLinea (texto : Text) : Text :=
  if contiene "__LINE__".toList texto ∨ contiene "__FILE__".toList texto then
    reemplaza "__FILE__".toList ['"', '"']
      (reemplaza "__LINE__".toList (toString line).toList texto)
  else texto

/-- `preprocessor.rs:592–637`. -/
def expandLine (linea : Text) : Text × List CError :=
  let (texto, errores) := pasadas m line MAX_PASADAS (conLinea line linea) []
  (conLinea line texto, errores)

/-- `preprocessor.rs:566–590`, of `n` turns at most. -/
def hayMacroDesde : Nat → Text → Bool
  | 0, _ => false
  | _ + 1, [] => false
  | n + 1, c :: r =>
    if isIdentChar c then
      let (name, resto) := palabra (c :: r)
      (resto.head? = some '(' && (m.get name).any (·.funcion)) || hayMacroDesde n resto
    else hayMacroDesde n r

def hayMacroFuncion (linea : Text) : Bool := hayMacroDesde m linea.length linea

/-! ### Directives -/

/-- A parameter list; `preprocessor.rs:374–387`. -/
def parametros (dentro : Text) : List Text × Bool :=
  let ps := (parte ',' dentro).map trim
  (ps.filter fun p ↦ p ≠ [] ∧ p ≠ "...".toList, ps.contains "...".toList)

/-- What stops the program has no value. -/
def oPanico {α : Type} : Option α → Except Fallo α
  | some a => .ok a
  | none => .error .panico

def rechaza {α : Type} (message : String) : Except Fallo α := .error (.error ⟨line, message⟩)

/-- A macro that takes arguments, from its parenthesis; `preprocessor.rs:369–395`. -/
def defineFuncion (variadicMacros : Bool) (name resto : Text) : Except Fallo Macros :=
  match busca [')'] (resto.drop 1) with
  | none => rechaza line "#define: falta el ) de la lista de parametros"
  | some (dentro, tras) =>
    let (params, variadica) := parametros dentro
    if variadica ∧ ¬variadicMacros then
      rechaza line
        ("macro variadica '" ++ String.ofList name ++ "(...)': este estandar de C no las tiene")
    else do
      let body ← oPanico (sinComentarios tras)
      .ok (m.insert name ⟨params, true, variadica, body⟩)

/-- `preprocessor.rs:356–408`. -/
def handleDefine (variadicMacros : Bool) (rest : Text) : Except Fallo Macros :=
  let (name, resto) := palabra (trim rest)
  if name = [] then rechaza line "#define: nombre vacio"
  else if resto.head? = some '(' then defineFuncion m line variadicMacros name resto
  else do
    let body ← oPanico (sinComentarios resto)
    .ok (m.insert name ⟨[], false, false, body⟩)

/-- The loop of `defined(…)`, of `n` turns at most; `preprocessor.rs:484–491`. -/
def definidosDesde : Nat → Text → Text
  | 0, t => t
  | n + 1, t =>
    match busca "defined(".toList t with
    | none => t
    | some (antes, despues) =>
      match busca [')'] despues with
      | none => t
      | some (name, tras) =>
        definidosDesde n (antes ++ (if m.contains (trim name) then '1' else '0') :: tras)

/-- `preprocessor.rs:492–495`, for the names in the order of the table. -/
def definidos (nombres : List Text) (t : Text) : Text :=
  nombres.foldl (fun t name ↦ reemplaza ("defined ".toList ++ name) ['1'] t) t

/-- The value, and what the expansion reported; `preprocessor.rs:480–518`. -/
def evalIfExpr (nombres : List Text) (e : Text) : Except Fallo (BitVec 64 × List CError) :=
  let e := trim e
  if e = [] then .ok (0, [])
  else
    let (expanded, errores) :=
      expandLine m line (definidos nombres (definidosDesde m e.length e))
    let expanded := zeroOutIdentifiers expanded
    match evalSimple expanded with
    | some v => .ok (v, errores)
    | none => rechaza line ("#if: cannot evaluate '" ++ String.ofList expanded ++ "'")

end

end BmoX.C.Pre
