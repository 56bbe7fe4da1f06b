import BmoX.C.Macros

/-!
# The preprocessor

`toolchain/lang/c/src/parser/preprocessor.rs:86–478`. The files are a parameter, and so is the order in
which a table of macros is gone through. Beside the text there is what the record of the system headers
is to be compared with: each line, and whether it comes from one.
-/

namespace BmoX.C.Pre

open BmoX.Base

/-- What the files and their paths are. -/
structure Disco (R : Type) where
  parent : R → Option R
  join : R → Text → R
  fileName : Text → Option Text
  exists_ : R → Bool
  read : R → Except String Text
  display : R → String

/-- `preprocessor.rs:81–92`. -/
structure Rama where
  activa : Bool
  yaTomada : Bool
  deriving DecidableEq

def Rama.abierta (activa : Bool) : Rama := ⟨activa, activa⟩

/-- `preprocessor.rs:94–118`. -/
structure Preprocessor (R : Type) where
  defines : Macros
  includePaths : List R
  variadicMacros : Bool
  line : Nat
  errores : List CError
  rangosSistema : List (Nat × Nat)
  deriving DecidableEq

/-- The lines of a text with whether a header of the system is on the way to them; whether there is such
a header, and whether there is one inside of a header of the user. -/
structure Rastro where
  lineas : List (Text × Bool)
  alcanza : Bool
  perdido : Bool
  deriving DecidableEq

/-- What `preprocess` leaves. -/
structure Salida (R : Type) where
  output : Text
  pp : Preprocessor R
  rastro : Rastro
  deriving DecidableEq

/-- `preprocessor.rs:121–133`. -/
def Preprocessor.new {R : Type} (variadicMacros : Bool) (includePaths : List R) :
    Preprocessor R where
  defines := (Macros.insert [] ['_', '_', 'B', 'M', 'O', '_', '_'] ⟨[], false, false, ['1']⟩).insert
    ['_', '_', 'S', 'T', 'D', 'C', '_', '_'] ⟨[], false, false, ['1']⟩
  includePaths := includePaths
  variadicMacros := variadicMacros
  line := 0
  errores := []
  rangosSistema := []

/-- What the loop of `preprocess` goes on with; the innermost branch is the first. -/
structure Estado (R : Type) where
  pp : Preprocessor R
  output : Text
  skipActive : List Rama
  rastro : Rastro

/-- `preprocessor.rs:148–150`. -/
def isActive : List Rama → Bool
  | [] => true
  | r :: _ => r.activa

/-! ### Lines -/

/-- A line and those that its backslashes join to it; `preprocessor.rs:189–193`. -/
def unir (raw : Text) : List Text → Text × List Text
  | [] => (raw, [])
  | l :: ls => if raw.getLast? = some '\\' then unir (raw.dropLast ++ trim l) ls else (raw, l :: ls)

/-- A call and the lines that close its parenthesis, `n` at most; `preprocessor.rs:322–332`. -/
def unirLlamada : Nat → Text → List Text → Text × List Text
  | 0, fuente, ls => (fuente, ls)
  | _ + 1, fuente, [] => (fuente, [])
  | n + 1, fuente, l :: ls =>
    if balanceParentesis fuente > 0 then unirLlamada n (fuente ++ ' ' :: trim l) ls
    else (fuente, l :: ls)

/-! ### Directives -/

/-- `preprocessor.rs:225–300`. -/
inductive Directiva
  | define | undef | include_ | ifdef | ifndef | if_ | else_ | elif | endif | error

def directivaDe : Text → Option Directiva
  | ['d', 'e', 'f', 'i', 'n', 'e'] => some .define
  | ['u', 'n', 'd', 'e', 'f'] => some .undef
  | ['i', 'n', 'c', 'l', 'u', 'd', 'e'] => some .include_
  | ['i', 'f', 'd', 'e', 'f'] => some .ifdef
  | ['i', 'f', 'n', 'd', 'e', 'f'] => some .ifndef
  | ['i', 'f'] => some .if_
  | ['e', 'l', 's', 'e'] => some .else_
  | ['e', 'l', 'i', 'f'] => some .elif
  | ['e', 'n', 'd', 'i', 'f'] => some .endif
  | ['e', 'r', 'r', 'o', 'r'] => some .error
  | _ => none

/-- `preprocessor.rs:411`. -/
def pathStr (rest : Text) : Text :=
  recorta '"' (recorta '>' (recorta '<' (recorta '"' (trim rest))))

section

variable {R : Type} (disco : Disco R) (orden : Macros → List Text)

/-- Where a header is; `preprocessor.rs:414–434`. -/
def Disco.busca (includePaths : List R) (rest : Text) (currentFile : R) : Option R :=
  let path := pathStr rest
  let aqui :=
    if (trim rest).head? = some '"' then
      ((disco.parent currentFile).map (disco.join · path)).filter disco.exists_
    else none
  aqui <|> includePaths.findSome? fun base ↦
    if disco.exists_ (disco.join base path) then some (disco.join base path)
    else ((disco.fileName path).map (disco.join base)).filter disco.exists_

/-- The text of a header, and where it is; `preprocessor.rs:436–441, 474–475`. -/
def Disco.abre (pp : Preprocessor R) (rest : Text) (currentFile : R) : Except Fallo (Text × R) :=
  match disco.busca pp.includePaths rest currentFile with
  | none => rechaza pp.line ("#include: file not found: " ++ String.ofList (pathStr rest))
  | some p =>
    match disco.read p with
    | .ok content => .ok (content, p)
    | .error e => rechaza pp.line ("#include cannot read " ++ disco.display p ++ ": " ++ e)

/-- The preprocessor of a header; `preprocessor.rs:442–451`. -/
def Preprocessor.sub (pp : Preprocessor R) : Preprocessor R where
  defines := pp.defines
  includePaths := pp.includePaths
  variadicMacros := pp.variadicMacros
  line := 0
  errores := []
  rangosSistema := []

def newlines (t : Text) : Nat := t.count '\n'

/-- What an inclusion adds; `preprocessor.rs:227–241, 470–472`. -/
def Estado.incluye (s : Estado R) (delSistema : Bool) (included : Salida R) : Estado R :=
  let antes := newlines s.output
  let output := s.output ++ included.output ++ ['\n']
  { s with
    output := output
    pp := { s.pp with
      defines := s.pp.defines.orInsert included.pp.defines
      rangosSistema :=
        if delSistema then s.pp.rangosSistema ++ [(antes + 1, newlines output)]
        else s.pp.rangosSistema }
    rastro :=
      ⟨s.rastro.lineas ++ included.rastro.lineas.map (fun p ↦ (p.1, p.2 || delSistema)) ++
          [([], delSistema)],
        s.rastro.alcanza || delSistema || included.rastro.alcanza,
        s.rastro.perdido || (!delSistema && included.rastro.alcanza)⟩ }

/-- A line that is emitted; `preprocessor.rs:334–336`. -/
def Estado.emite (s : Estado R) (expanded : Text) (errores : List CError) : Estado R :=
  { s with
    output := s.output ++ expanded ++ ['\n']
    pp := { s.pp with errores := s.pp.errores ++ errores }
    rastro := { s.rastro with lineas := s.rastro.lineas ++ [(expanded, false)] } }

def Estado.conDefines (s : Estado R) (m : Macros) : Estado R :=
  { s with pp := { s.pp with defines := m } }

def Estado.conRamas (s : Estado R) (rs : List Rama) : Estado R := { s with skipActive := rs }

def Estado.conErrores (s : Estado R) (es : List CError) : Estado R :=
  { s with pp := { s.pp with errores := s.pp.errores ++ es } }

/-- The value of a condition. -/
def Estado.evalua (s : Estado R) (rest : Text) : Except Fallo (Bool × List CError) := do
  let (v, es) ← evalIfExpr s.pp.defines s.pp.line (orden s.pp.defines) rest
  .ok (v ≠ 0, es)

variable (preprocess : Preprocessor R → Text → R → Except Fallo (Salida R)) (file : R)

/-- `preprocessor.rs:225–301`. -/
def directiva (s : Estado R) (cmd rest : Text) : Except Fallo (Estado R) :=
  let activa := isActive s.skipActive
  match directivaDe cmd with
  | some .define =>
    if activa then
      (handleDefine s.pp.defines s.pp.line s.pp.variadicMacros rest).map s.conDefines
    else .ok s
  | some .undef => if activa then .ok (s.conDefines (s.pp.defines.remove (trim rest))) else .ok s
  | some .include_ =>
    if activa then do
      let (content, p) ← disco.abre s.pp rest file
      let included ← preprocess s.pp.sub content p
      .ok (s.incluye ((trim rest).head? = some '<') included)
    else .ok s
  | some .ifdef =>
    .ok (s.conRamas (.abierta (activa && s.pp.defines.contains (trim rest)) :: s.skipActive))
  | some .ifndef =>
    .ok (s.conRamas (.abierta (activa && !s.pp.defines.contains (trim rest)) :: s.skipActive))
  | some .if_ =>
    (s.evalua orden rest).map fun (v, es) ↦
      (s.conErrores es).conRamas (.abierta (activa && v) :: s.skipActive)
  | some .else_ =>
    match s.skipActive with
    | [] => .ok s
    | prev :: rs => .ok (s.conRamas (⟨isActive rs && !prev.yaTomada, true⟩ :: rs))
  | some .elif =>
    match s.skipActive with
    | [] => .ok s
    | prev :: rs =>
      (s.evalua orden rest).map fun (v, es) ↦
        let entra := isActive rs && !prev.yaTomada && v
        (s.conErrores es).conRamas (⟨entra, prev.yaTomada || entra⟩ :: rs)
  | some .endif => .ok (s.conRamas s.skipActive.tail)
  | some .error =>
    if activa then rechaza s.pp.line ("#error: " ++ String.ofList rest) else .ok s
  | none => .ok s

/-! ### The loop -/

/-- A directive, without its comments; `preprocessor.rs:219–223`. -/
def conDirectiva (s : Estado R) (raw : Text) : Except Fallo (Estado R) := do
  let raw ← oPanico (sinComentarios raw)
  let (cmd, rest) := splitFirstWord (trimStart ((trim raw).drop 1))
  directiva disco orden preprocess file s cmd rest

/-- A line of code, and the lines that are left; `preprocessor.rs:304–337`. -/
def conCodigo (s : Estado R) (raw : Text) (ls : List Text) : Estado R × List Text :=
  if isActive s.skipActive then
    let (fuente, ls) :=
      if hayMacroFuncion s.pp.defines raw then unirLlamada 32 raw ls else (raw, ls)
    let (expanded, errores) := expandLine s.pp.defines s.pp.line fuente
    (s.emite expanded errores, ls)
  else (s, ls)

/-- A turn, at a line and those that come after it; `preprocessor.rs:165–339`. -/
def turno (s : Estado R) (i : Nat) (l : Text) (ls : List Text) :
    Except Fallo (Estado R × List Text) :=
  let s := { s with pp := { s.pp with line := i + 1 } }
  let (raw, ls) := unir (trim l) ls
  if raw.head? = some '#' then
    (conDirectiva disco orden preprocess file s raw).map fun s ↦ (s, ls)
  else .ok (conCodigo s raw ls)

/-- The loop, of `n` turns at most. -/
def bucle : Nat → Nat → List Text → Estado R → Except Fallo (Estado R)
  | 0, _, _, s => .ok s
  | _ + 1, _, [], s => .ok s
  | n + 1, i, l :: ls, s =>
    (turno disco orden preprocess file s i l ls).bind fun (s, resto) ↦
      bucle n (i + 1 + (ls.length - resto.length)) resto s

/-- `preprocessor.rs:342–353`. -/
def Estado.termina (s : Estado R) : Except Fallo (Salida R) :=
  if s.skipActive.length ≠ 1 then
    rechaza s.pp.line "unterminated #if/#ifdef (missing #endif)"
  else
    match s.pp.errores with
    | e :: _ => .error (.error e)
    | [] => .ok ⟨s.output, s.pp, s.rastro⟩

variable [DecidableEq R]

/-- Its directory goes before those that are searched; `preprocessor.rs:153–157`. -/
def Preprocessor.conDirectorio (pp : Preprocessor R) (parent : Option R) : Preprocessor R :=
  match parent with
  | some d => if d ∈ pp.includePaths then pp else { pp with includePaths := d :: pp.includePaths }
  | none => pp

end

/-- `preprocessor.rs:152–354`, with headers `n` deep at most. -/
def preprocess {R : Type} [DecidableEq R] (disco : Disco R) (orden : Macros → List Text) :
    Nat → Preprocessor R → Text → R → Except Fallo (Salida R)
  | 0, _, _, _ => .error .hondo
  | n + 1, pp, source, file =>
    let ls := lines source
    let s : Estado R :=
      ⟨pp.conDirectorio (disco.parent file), [], [.abierta true], ⟨[], false, false⟩⟩
    (bucle disco orden (preprocess disco orden n) file ls.length 0 ls s).bind Estado.termina

end BmoX.C.Pre
