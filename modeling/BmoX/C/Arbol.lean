import BmoX.Base.Utf8

/-!
# The tree of a C program

`lang/c/src/ast/*.rs`. Expressions, statements and the declarations of a file, as the parser leaves
them and the emitter reads them. The operators that every walk of the tree treats alike are one form
with the operator in it. What a name is, is left open: a text in the tree, an identifier before
that. -/

namespace BmoX.C

open BmoX.Base

/-- `TypeSpec`; `ast/types.rs:12–30`. -/
inductive TypeSpec
  | void | char | short | int | long | longLong
  | unsignedInt | unsignedLong | unsignedChar | unsignedShort | unsignedLongLong
  | float | double
  | ptr (t : TypeSpec)
  | array (t : TypeSpec) (n : Nat)
  | structRef (name : Text)
  | unionRef (name : Text)
  deriving DecidableEq, Repr

/-- `AssignOpKind`; `ast/expr.rs:110–122`. -/
inductive AssignOpKind
  | add | sub | mul | div | mod | shl | shr | bitAnd | bitOr | bitXor
  deriving DecidableEq, Repr

/-- `Neg`, `Not`, `BitNot`. -/
inductive UnOp
  | neg | not | bitNot
  deriving DecidableEq, Repr

/-- `PreInc`, `PreDec`, `PostInc`, `PostDec`. -/
inductive IncOp
  | preInc | preDec | postInc | postDec
  deriving DecidableEq, Repr

/-- `Add` to `Shr`. -/
inductive BinOp
  | add | sub | mul | div | mod
  | eq | neq | lt | gt | le | ge
  | bitAnd | bitXor | bitOr | lAnd | lOr | shl | shr
  deriving DecidableEq, Repr

/-- `Expr`; `ast/expr.rs:14–100`. -/
inductive Expr (ν : Type)
  | int (v : Int)
  | floatLit (bits : UInt64)
  | stringLit (s : Text)
  | charLit (c : UInt8)
  | var (n : ν)
  | call (n : ν) (args : List (Expr ν))
  | assign (n : ν) (v : Expr ν)
  | un (op : UnOp) (a : Expr ν)
  | inc (op : IncOp) (n : ν)
  | bin (op : BinOp) (a b : Expr ν)
  | conditional (c t f : Expr ν)
  | comma (v : List (Expr ν))
  | deref (a : Expr ν)
  | addrOf (a : Expr ν)
  | subscript (n : ν) (i : Expr ν)
  | assignSubscript (n : ν) (i v : Expr ν)
  | indexPtr (b i : Expr ν)
  | assignIndexPtr (b i v : Expr ν)
  | callPtr (f : Expr ν) (args : List (Expr ν))
  | field (b : Expr ν) (c : Text)
  | arrow (b : Expr ν) (c : Text)
  | assignField (b : Expr ν) (c : Text) (v : Expr ν)
  | assignArrow (b : Expr ν) (c : Text) (v : Expr ν)
  | assignDeref (a v : Expr ν)
  | assignOp (a : Expr ν) (op : AssignOpKind) (v : Expr ν)
  | cast (t : TypeSpec) (a : Expr ν)
  | intrinsic (n : Text) (args : List (Expr ν))
  deriving Repr

/-- `Escritura`: at the byte `offset` of the object goes `valor`; `ast/stmt.rs:37–43`. -/
structure Escritura (ν : Type) where
  offset : Nat
  tipo : TypeSpec
  valor : Expr ν
  deriving Repr

mutual

/-- `Stmt`; `ast/stmt.rs:46–70`. -/
inductive Stmt (ν : Type)
  | printf (s : Text)
  | printfLn (s : Text)
  | ifElse (c : Expr ν) (a : Stmt ν) (b : Option (Stmt ν))
  | while (c : Expr ν) (a : Stmt ν)
  | doWhile (a : Stmt ν) (c : Expr ν)
  | for (i c p : Option (Expr ν)) (a : Stmt ν)
  | switch (e : Expr ν) (cases : List (Case ν))
  | break
  | continue
  | return (e : Option (Expr ν))
  | declAssign (t : TypeSpec) (n : ν) (init : Option (Expr ν))
  | declInit (t : TypeSpec) (n : ν) (escrituras : List (Escritura ν))
  | expr (e : Expr ν)
  | block (v : List (Stmt ν))
  | goto (l : Text)
  | label (l : Text)

/-- `Case`; `ast/stmt.rs:15–18`. -/
inductive Case (ν : Type)
  | mk (value : Option Int) (stmts : List (Stmt ν))

end

/-- `Param`; `ast/types.rs:50–54`. -/
structure Param where
  typ : TypeSpec
  name : Text
  deriving DecidableEq, Repr

end BmoX.C
