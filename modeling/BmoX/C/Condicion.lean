import BmoX.Base.Utf8

/-!
# The expressions of `#if`

`toolchain/lang/c/src/parser/preprocessor.rs:991–1180`. What is not understood has no value; neither has
what would stop the program.

`toolchain/lang/c/src/parser/preprocessor.rs:734–1229`. The scanners of the preprocessor go over bytes;
here they go over characters, and those that copy a byte as a character say so.
-/

namespace BmoX.C.Pre

open BmoX.Base

/-! ### The text of a C file -/

def isAlpha (c : Char) : Bool := ('a' ≤ c && c ≤ 'z') || ('A' ≤ c && c ≤ 'Z')

def isDigit (c : Char) : Bool := '0' ≤ c && c ≤ '9'

/-- `preprocessor.rs:890–892`. -/
def isIdentStart (c : Char) : Bool := isAlpha c || c == '_'

/-- `preprocessor.rs:1191–1193`. -/
def isIdentChar (c : Char) : Bool := isAlpha c || isDigit c || c == '_'

def isQuote (c : Char) : Bool := c == '"' || c == '\''

def isSpaceOrTab (c : Char) : Bool := c == ' ' || c == '\t'

/-- A character byte by byte, each as a character: `b[i] as char`. -/
def latin (c : Char) : Text := (String.utf8EncodeChar c).map fun b ↦ Char.ofNat b.toNat

/-- A word at the start of a text, and what comes after it. -/
def palabra (t : Text) : Text × Text := (t.takeWhile isIdentChar, t.dropWhile isIdentChar)

/-! ### Searching -/

/-- A text without a prefix. -/
def quita : Text → Text → Option Text
  | [], t => some t
  | _ :: _, [] => none
  | p :: ps, c :: t => if p = c then quita ps t else none

/-- What is before and after the first place of a text in another. -/
def busca (p : Text) : Text → Option (Text × Text)
  | [] => if p = [] then some ([], []) else none
  | c :: t =>
    match quita p (c :: t) with
    | some resto => some ([], resto)
    | none => (busca p t).map fun (antes, despues) ↦ (c :: antes, despues)

def contiene (p t : Text) : Bool := (busca p t).isSome

/-- `str::replace`, of `n` places at most. -/
def reemplazaDesde (p con : Text) : Nat → Text → Text
  | 0, t => t
  | n + 1, t =>
    match busca p t with
    | some (antes, despues) => antes ++ con ++ reemplazaDesde p con n despues
    | none => t

def reemplaza (p con t : Text) : Text := reemplazaDesde p con t.length t

/-- `str::split`. -/
def parte (sep : Char) : Text → List Text
  | [] => [[]]
  | c :: t =>
    if c = sep then [] :: parte sep t
    else
      match parte sep t with
      | [] => [[c]]
      | p :: ps => (c :: p) :: ps

/-- `str::trim_matches`. -/
def recorta (c : Char) (t : Text) : Text :=
  ((t.dropWhile (· == c)).reverse.dropWhile (· == c)).reverse

/-- `str::trim_end_matches`. -/
def recortaFin (p : Char → Bool) (t : Text) : Text := (t.reverse.dropWhile p).reverse

/-- `preprocessor.rs:1182–1189`. -/
def splitFirstWord (s : Text) : Text × Text :=
  let s := trimStart s
  (s.takeWhile (!isBlank ·), trimStart (s.dropWhile (!isBlank ·)))

/-! ### Literals, comments and arguments -/

/-- What is after the opening quote of a literal, up to the closing one, and what is left;
`preprocessor.rs:734–766`. -/
def copiarLiteral (cierre : Char) : Text → Text × Text
  | [] => ([], [])
  | c :: r =>
    if c = '\\' then
      match r with
      | [] => ([c], [])
      | d :: r' =>
        if d.toNat < 128 then
          let (out, resto) := copiarLiteral cierre r'
          (c :: d :: out, resto)
        else
          let (out, resto) := copiarLiteral cierre (d :: r')
          (c :: out, resto)
    else if c = cierre then ([c], r)
    else
      let (out, resto) := copiarLiteral cierre r
      (c :: out, resto)

/-- `preprocessor.rs:768–819`, of `n` turns at most. -/
def recogerDesde : Nat → Text → Int → List Text → Text → Option (List Text × Text)
  | 0, _, _, _, _ => none
  | _ + 1, [], _, _, _ => none
  | n + 1, c :: r, nivel, args, actual =>
    if isQuote c then
      let (tmp, resto) := copiarLiteral c r
      recogerDesde n resto nivel args (actual ++ c :: tmp)
    else if c = '(' ∨ c = '[' then
      recogerDesde n r (nivel + 1) args (if nivel + 1 > 1 then actual ++ [c] else actual)
    else if c = ')' ∨ c = ']' then
      if nivel - 1 = 0 then
        let a := trim actual
        some (if args.isEmpty && a.isEmpty then args else args ++ [a], r)
      else recogerDesde n r (nivel - 1) args (actual ++ [c])
    else if c = ',' ∧ nivel = 1 then recogerDesde n r nivel (args ++ [trim actual]) []
    else recogerDesde n r nivel args (actual ++ latin c)

/-- The arguments of a call, from its parenthesis, and what is left. -/
def recogerArgs (t : Text) : Option (List Text × Text) := recogerDesde t.length t 0 [] []

/-- What is left after a comment that has been opened. -/
def trasComentario : Text → Text
  | '*' :: '/' :: r => r
  | [] => []
  | [_] => []
  | _ :: r => trasComentario r

/-- `preprocessor.rs:928–989`, of `n` turns at most. An escape of a character that is not of ASCII leaves
the scanner inside of it, and it stops the program. -/
def sinComentariosDesde : Nat → Option Char → Text → Option Text
  | 0, _, _ => some []
  | _ + 1, _, [] => some []
  | n + 1, some q, c :: r =>
    if c = '\\' then
      match r with
      | d :: r' =>
        if d.toNat < 128 then (sinComentariosDesde n (some q) r').map (c :: d :: ·) else none
      | [] => some [c]
    else if c = q then (sinComentariosDesde n none r).map (c :: ·)
    else (sinComentariosDesde n (some q) r).map (c :: ·)
  | n + 1, none, c :: r =>
    if isQuote c then (sinComentariosDesde n (some c) r).map (c :: ·)
    else
      match c, r with
      | '/', '*' :: r' => (sinComentariosDesde n none (trasComentario r')).map (' ' :: ·)
      | '/', '/' :: _ => some []
      | _, _ => (sinComentariosDesde n none r).map (c :: ·)

def sinComentarios (s : Text) : Option Text := (sinComentariosDesde s.length none s).map trim

/-- `preprocessor.rs:1201–1229`. -/
def balanceDesde : Option Char → Int → Text → Int
  | _, n, [] => n
  | some q, n, c :: r =>
    if c = '\\' then
      match r with
      | _ :: r' => balanceDesde (some q) n r'
      | [] => n
    else if c = q then balanceDesde none n r
    else balanceDesde (some q) n r
  | none, n, c :: r =>
    if isQuote c then balanceDesde (some c) n r
    else if c = '(' then balanceDesde none (n + 1) r
    else if c = ')' then balanceDesde none (n - 1) r
    else balanceDesde none n r

def balanceParentesis (linea : Text) : Int := balanceDesde none 0 linea

/-! ### The expressions of `#if` -/

/-- The operators, of `OPS2` and of `OPS1`; `preprocessor.rs:1007–1008`. -/
inductive Op
  | igual | distinto | menorIgual | mayorIgual | y | o | izquierda | derecha
  | no | bitsNo | menor | mayor | mas | menos | por | entre | resto | bitsY | bitsO | bitsXor
  deriving DecidableEq

/-- `preprocessor.rs:993–999`. -/
inductive IfTok
  | num (n : BitVec 64)
  | op (cual : Op)
  | open
  | close
  deriving DecidableEq

def ops2 : Text → Option Op
  | '=' :: '=' :: _ => some .igual
  | '!' :: '=' :: _ => some .distinto
  | '<' :: '=' :: _ => some .menorIgual
  | '>' :: '=' :: _ => some .mayorIgual
  | '&' :: '&' :: _ => some .y
  | '|' :: '|' :: _ => some .o
  | '<' :: '<' :: _ => some .izquierda
  | '>' :: '>' :: _ => some .derecha
  | _ => none

def ops1 : Char → Option Op
  | '!' => some .no
  | '~' => some .bitsNo
  | '<' => some .menor
  | '>' => some .mayor
  | '+' => some .mas
  | '-' => some .menos
  | '*' => some .por
  | '/' => some .entre
  | '%' => some .resto
  | '&' => some .bitsY
  | '|' => some .bitsO
  | '^' => some .bitsXor
  | _ => none

def hexDigit (c : Char) : Option Nat :=
  if isDigit c then some (c.toNat - 48)
  else if 'a' ≤ c ∧ c ≤ 'f' then some (c.toNat - 87)
  else if 'A' ≤ c ∧ c ≤ 'F' then some (c.toNat - 55)
  else none

/-- The number of some digits, if it is one of `i64`. -/
def fromRadix (base : Nat) (digits : Text) : Option (BitVec 64) := do
  let ds ← digits.mapM hexDigit
  let v := ds.foldl (fun v d ↦ v * base + d) 0
  if ds ≠ [] ∧ ds.all (· < base) ∧ v < 2 ^ 63 then some (BitVec.ofNat 64 v) else none

/-- `preprocessor.rs:1137–1147`. -/
def parseIntLiteral (s : Text) : Option (BitVec 64) :=
  let cuerpo := recortaFin (fun c ↦ c == 'u' || c == 'U' || c == 'l' || c == 'L') (trim s)
  match cuerpo with
  | '0' :: 'x' :: hex => fromRadix 16 hex
  | '0' :: 'X' :: hex => fromRadix 16 hex
  | _ => fromRadix 10 cuerpo

/-- `u8::is_ascii_whitespace`. -/
def isAsciiBlank (c : Char) : Bool :=
  c == ' ' || c == '\t' || c == '\n' || c == '\x0c' || c == '\r'

/-- `preprocessor.rs:1004–1048`, of `n` turns at most. -/
def lexDesde : Nat → Text → Option (List IfTok)
  | 0, _ => some []
  | _ + 1, [] => some []
  | n + 1, c :: r =>
    if isAsciiBlank c then lexDesde n r
    else if c = '(' then (lexDesde n r).map (.open :: ·)
    else if c = ')' then (lexDesde n r).map (.close :: ·)
    else if isDigit c then do
      let (p, resto) := palabra (c :: r)
      let v ← parseIntLiteral p
      (lexDesde n resto).map (.num v :: ·)
    else
      match ops2 (c :: r) with
      | some op => (lexDesde n (r.drop 1)).map (.op op :: ·)
      | none => do
        let op ← ops1 c
        (lexDesde n r).map (.op op :: ·)

def lexIfExpr (expr : Text) : Option (List IfTok) := lexDesde expr.length expr

/-- `preprocessor.rs:1057–1072`. -/
def Op.bp : Op → Option Nat
  | o => some 1
  | y => some 2
  | bitsO => some 3
  | bitsXor => some 4
  | bitsY => some 5
  | igual | distinto => some 6
  | menor | mayor | menorIgual | mayorIgual => some 7
  | izquierda | derecha => some 8
  | mas | menos => some 9
  | por | entre | resto => some 10
  | no | bitsNo => none

def deBool (b : Bool) : BitVec 64 := if b then 1 else 0

/-- `preprocessor.rs:1085–1108`; a division that has no value stops the program. -/
def Op.hace (l r : BitVec 64) : Op → Option (BitVec 64)
  | o => some (deBool (l ≠ 0 ∨ r ≠ 0))
  | y => some (deBool (l ≠ 0 ∧ r ≠ 0))
  | bitsO => some (l ||| r)
  | bitsXor => some (l ^^^ r)
  | bitsY => some (l &&& r)
  | igual => some (deBool (l = r))
  | distinto => some (deBool (l ≠ r))
  | menor => some (deBool (l.slt r))
  | mayor => some (deBool (r.slt l))
  | menorIgual => some (deBool (l.sle r))
  | mayorIgual => some (deBool (r.sle l))
  | izquierda => some (l <<< (r.toNat % 64))
  | derecha => some (l.sshiftRight (r.toNat % 64))
  | mas => some (l + r)
  | menos => some (l - r)
  | por => some (l * r)
  | entre => if r = 0 ∨ l = BitVec.intMin 64 ∧ r = -1 then none else some (l.sdiv r)
  | resto => if r = 0 ∨ l = BitVec.intMin 64 ∧ r = -1 then none else some (l.srem r)
  | no | bitsNo => none

mutual

/-- `preprocessor.rs:1074–1111`, `n` calls deep at most. -/
def expr : Nat → Nat → List IfTok → Option (BitVec 64 × List IfTok)
  | 0, _, _ => none
  | n + 1, minBp, t => do
    let (left, t) ← unary n t
    exprDesde n minBp left t

/-- The loop of `expr`. -/
def exprDesde : Nat → Nat → BitVec 64 → List IfTok → Option (BitVec 64 × List IfTok)
  | 0, _, _, _ => none
  | n + 1, minBp, left, t =>
    match t with
    | .op op :: r =>
      match op.bp with
      | some bp =>
        if bp ≥ minBp then do
          let (right, r) ← expr n (bp + 1) r
          let left ← op.hace left right
          exprDesde n minBp left r
        else some (left, t)
      | none => some (left, t)
    | t => some (left, t)

/-- `preprocessor.rs:1113–1134`. -/
def unary : Nat → List IfTok → Option (BitVec 64 × List IfTok)
  | 0, _ => none
  | n + 1, t =>
    match t with
    | .num v :: r => some (v, r)
    | .open :: r =>
      match expr n 0 r with
      | some (v, .close :: r) => some (v, r)
      | _ => none
    | .op .no :: r => (unary n r).map fun (v, r) ↦ (deBool (v = 0), r)
    | .op .bitsNo :: r => (unary n r).map fun (v, r) ↦ (~~~v, r)
    | .op .menos :: r => (unary n r).map fun (v, r) ↦ (-v, r)
    | .op .mas :: r => unary n r
    | _ => none

end

/-- `preprocessor.rs:539–548`; three calls for a token are enough. -/
def evalSimple (e : Text) : Option (BitVec 64) := do
  let tokens ← lexIfExpr e
  match expr (3 * tokens.length + 3) 0 tokens with
  | some (v, []) => some v
  | _ => none

/-- `preprocessor.rs:1156–1180`, of `n` turns at most. -/
def zeroOutDesde : Nat → Text → Text
  | 0, _ => []
  | _ + 1, [] => []
  | n + 1, c :: r =>
    if isIdentChar c then
      let (p, resto) := palabra (c :: r)
      (if isDigit c then p else ['0']) ++ zeroOutDesde n resto
    else latin c ++ zeroOutDesde n r

def zeroOutIdentifiers (e : Text) : Text := zeroOutDesde e.length e

end BmoX.C.Pre
