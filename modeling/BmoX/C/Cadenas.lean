import BmoX.Base.Bytes
import BmoX.C.Arbol

/-!
# The string literals of a C program

`emisor-x86_64/src/codegen/mod.rs:436–616, 823–923`, `codegen/emitir/direccion.rs:39–44`,
`codegen/linking.rs:24–201` and `codegen/decidir/imagen.rs:32–35`. The literals are gathered in a
table before anything is emitted; the code that wants the address of one looks it up in the table,
and the distance to it is written once the code is whole.
-/

namespace BmoX.C

open BmoX.Base

/-! ### The walk -/

/-- What the walk leaves: the table, and the two calls that it looks for. -/
structure Recogida where
  strings : List Text
  quierePantalla : Bool
  sabeComponerse : Bool
  deriving DecidableEq, Repr

/-- A literal goes in the table once; `codegen/mod.rs:878`. -/
def Recogida.interna (r : Recogida) (s : Text) : Recogida :=
  if s ∈ r.strings then r else { r with strings := r.strings ++ [s] }

/-- The first arguments of a call to one of the two gates; `codegen/mod.rs:899–908`. -/
def Recogida.puerta (r : Recogida) (name : Text) (args : List (Expr Text)) : Recogida :=
  if name = "bmo_valor".toList ∨ name = "bmo_codigo".toList then
    match args with
    | _ :: .int 0x09 :: _ => { r with quierePantalla := true }
    | _ :: .int 0x26 :: _ => { r with sabeComponerse := true }
    | _ => r
  else r

mutual

/-- `collect_expr_strings`; `codegen/mod.rs:875–923`. -/
def collectExprStrings (r : Recogida) : Expr Text → Recogida
  | .stringLit s => r.interna s
  | .un _ a => collectExprStrings r a
  | .deref a => collectExprStrings r a
  | .addrOf a => collectExprStrings r a
  | .bin _ a b => collectExprStrings (collectExprStrings r a) b
  | .conditional c t f => collectExprStrings (collectExprStrings (collectExprStrings r c) t) f
  | .call name args => collectListStrings (r.puerta name args) args
  | .arrow p _ => collectExprStrings r p
  | .assignArrow p _ v => collectExprStrings (collectExprStrings r p) v
  | .assign _ v => collectExprStrings r v
  | .assignField _ _ v => collectExprStrings r v
  | .cast _ a => collectExprStrings r a
  | .intrinsic _ args => collectListStrings r args
  | .indexPtr b i => collectExprStrings (collectExprStrings r b) i
  | .assignIndexPtr b i v => collectExprStrings (collectExprStrings (collectExprStrings r b) i) v
  | .callPtr c args => collectListStrings (collectExprStrings r c) args
  | .assignDeref a v => collectExprStrings (collectExprStrings r a) v
  | .field b _ => collectExprStrings r b
  | .comma v => collectListStrings r v
  | _ => r

def collectListStrings (r : Recogida) : List (Expr Text) → Recogida
  | [] => r
  | e :: es => collectListStrings (collectExprStrings r e) es

end

/-- An expression that may be left out. -/
def collectOptStrings (r : Recogida) : Option (Expr Text) → Recogida
  | none => r
  | some e => collectExprStrings r e

mutual

/-- `collect_stmt_strings`; `codegen/mod.rs:829–873`. -/
def collectStmtStrings (r : Recogida) : Stmt Text → Recogida
  | .printf s => r.interna s
  | .printfLn s => r.interna s
  | .ifElse c t e => collectElseStrings (collectStmtStrings (collectExprStrings r c) t) e
  | .while c b => collectStmtStrings (collectExprStrings r c) b
  | .doWhile b c => collectExprStrings (collectStmtStrings r b) c
  | .for i c p b =>
    collectStmtStrings (collectOptStrings (collectOptStrings (collectOptStrings r i) c) p) b
  | .switch c cases => collectCasesStrings (collectExprStrings r c) cases
  | .block v => collectBlockStrings r v
  | .expr e => collectExprStrings r e
  | .return e => collectOptStrings r e
  | .declAssign _ _ e => collectOptStrings r e
  | .declInit _ _ es => collectListStrings r (es.map (·.valor))
  | _ => r

def collectElseStrings (r : Recogida) : Option (Stmt Text) → Recogida
  | none => r
  | some b => collectStmtStrings r b

def collectBlockStrings (r : Recogida) : List (Stmt Text) → Recogida
  | [] => r
  | s :: ss => collectBlockStrings (collectStmtStrings r s) ss

def collectCasesStrings (r : Recogida) : List (Case Text) → Recogida
  | [] => r
  | .mk _ stmts :: cs => collectCasesStrings (collectBlockStrings r stmts) cs

end

/-! ### What the walk enters -/

/-- The expressions that an expression is made of. -/
def Expr.partes {ν : Type} : Expr ν → List (Expr ν)
  | .int _ | .floatLit _ | .stringLit _ | .charLit _ | .var _ | .inc _ _ => []
  | .call _ args | .intrinsic _ args | .comma args => args
  | .assign _ a | .un _ a | .deref a | .addrOf a | .subscript _ a | .field a _ | .arrow a _
  | .cast _ a => [a]
  | .bin _ a b | .assignSubscript _ a b | .indexPtr a b | .assignField a _ b | .assignArrow a _ b
  | .assignDeref a b | .assignOp a _ b => [a, b]
  | .conditional a b c | .assignIndexPtr a b c => [a, b, c]
  | .callPtr f args => f :: args

/-- The parts that the walk leaves out: an index of a name, what is stored at it, the object of a
field that is assigned, and both sides of a compound assignment. -/
def Expr.olvidadas {ν : Type} : Expr ν → List (Expr ν)
  | .subscript _ a => [a]
  | .assignSubscript _ a b | .assignOp a _ b => [a, b]
  | .assignField a _ _ => [a]
  | _ => []

/-- The parts that it enters. -/
def Expr.recorridas {ν : Type} : Expr ν → List (Expr ν)
  | .subscript _ _ | .assignSubscript _ _ _ | .assignOp _ _ _ => []
  | .assignField _ _ b => [b]
  | e => e.partes

/-- A literal in an expression, down to it by the parts that `f` gives. -/
inductive Dentro {ν : Type} (f : Expr ν → List (Expr ν)) (s : Text) : Expr ν → Prop
  | aqui : Dentro f s (.stringLit s)
  | parte {a e : Expr ν} : a ∈ f e → Dentro f s a → Dentro f s e

/-- A literal down a part that the walk leaves out, at any depth. -/
inductive Olvidado {ν : Type} (s : Text) : Expr ν → Prop
  | aqui {a e : Expr ν} : a ∈ e.olvidadas → Dentro Expr.partes s a → Olvidado s e
  | parte {a e : Expr ν} : a ∈ e.partes → Olvidado s a → Olvidado s e

mutual

/-- The expressions of a statement, at any depth. -/
def Stmt.exprs {ν : Type} : Stmt ν → List (Expr ν)
  | .ifElse c a b => c :: (a.exprs ++ Stmt.exprsElse b)
  | .while c a => c :: a.exprs
  | .doWhile a c => a.exprs ++ [c]
  | .for i c p a => i.toList ++ c.toList ++ p.toList ++ a.exprs
  | .switch e cases => e :: Stmt.exprsCases cases
  | .return e => e.toList
  | .declAssign _ _ e => e.toList
  | .declInit _ _ es => es.map (·.valor)
  | .expr e => [e]
  | .block v => Stmt.exprsBlock v
  | _ => []

def Stmt.exprsElse {ν : Type} : Option (Stmt ν) → List (Expr ν)
  | none => []
  | some b => b.exprs

def Stmt.exprsBlock {ν : Type} : List (Stmt ν) → List (Expr ν)
  | [] => []
  | s :: ss => s.exprs ++ Stmt.exprsBlock ss

def Stmt.exprsCases {ν : Type} : List (Case ν) → List (Expr ν)
  | [] => []
  | .mk _ stmts :: cs => Stmt.exprsBlock stmts ++ Stmt.exprsCases cs

end

mutual

/-- The texts that the statements of a statement print as they are. -/
def Stmt.impresas {ν : Type} : Stmt ν → List Text
  | .printf s => [s]
  | .printfLn s => [s]
  | .ifElse _ a b => a.impresas ++ Stmt.impresasElse b
  | .while _ a => a.impresas
  | .doWhile a _ => a.impresas
  | .for _ _ _ a => a.impresas
  | .switch _ cases => Stmt.impresasCases cases
  | .block v => Stmt.impresasBlock v
  | _ => []

def Stmt.impresasElse {ν : Type} : Option (Stmt ν) → List Text
  | none => []
  | some b => b.impresas

def Stmt.impresasBlock {ν : Type} : List (Stmt ν) → List Text
  | [] => []
  | s :: ss => s.impresas ++ Stmt.impresasBlock ss

def Stmt.impresasCases {ν : Type} : List (Case ν) → List Text
  | [] => []
  | .mk _ stmts :: cs => Stmt.impresasBlock stmts ++ Stmt.impresasCases cs

end

section

variable {r r' r'' : Recogida} {P Q : Text → Prop}

/-- From the one to the other, the table got what `P` holds of, at its end, and nothing twice. -/
structure Recoge (r r' : Recogida) (P : Text → Prop) : Prop where
  mem : ∀ s, s ∈ r'.strings ↔ s ∈ r.strings ∨ P s
  nodup : r.strings.Nodup → r'.strings.Nodup
  antes : r.strings <+: r'.strings

theorem Recoge.nada (h : r'.strings = r.strings) : Recoge r r' fun _ ↦ False :=
  ⟨fun s ↦ by rw [h, or_false], fun hr ↦ by rwa [h], h ▸ List.prefix_rfl⟩

theorem Recoge.luego (h : Recoge r r' P) (h' : Recoge r' r'' Q) :
    Recoge r r'' fun s ↦ P s ∨ Q s :=
  ⟨fun s ↦ by rw [h'.mem, h.mem, or_assoc], fun hr ↦ h'.nodup (h.nodup hr), h.antes.trans h'.antes⟩

theorem Recoge.congr (h : Recoge r r' P) (hPQ : ∀ s, P s ↔ Q s) : Recoge r r' Q :=
  ⟨fun s ↦ by rw [h.mem, hPQ], h.nodup, h.antes⟩

theorem Recoge.esta {t : Text} (h : t ∈ r.strings) : Recoge r r (· = t) :=
  ⟨fun _ ↦ ⟨Or.inl, fun hs ↦ hs.elim id fun hst ↦ hst ▸ h⟩, id, List.prefix_rfl⟩

theorem Recoge.nueva {t : Text} (h : t ∉ r.strings) :
    Recoge r { r with strings := r.strings ++ [t] } (· = t) := by
  refine ⟨fun s ↦ List.mem_append.trans (or_congr_right List.mem_singleton), fun hr ↦ ?_,
    List.prefix_append ..⟩
  rw [List.nodup_append]
  exact ⟨hr, by simp, fun a ha b hb hab ↦ h (List.mem_singleton.mp hb ▸ hab ▸ ha)⟩

private theorem recoge_interna (r : Recogida) (t : Text) : Recoge r (r.interna t) (· = t) := by
  unfold Recogida.interna
  split
  · next h => exact .esta h
  · next h => exact .nueva h

private theorem Recogida.puerta_strings (r : Recogida) (name : Text) (args : List (Expr Text)) :
    (r.puerta name args).strings = r.strings := by
  unfold Recogida.puerta
  split
  · split <;> rfl
  · rfl

private theorem dentro_iff {ν : Type} {f : Expr ν → List (Expr ν)} {s : Text} {e : Expr ν} :
    Dentro f s e ↔ e = .stringLit s ∨ ∃ a ∈ f e, Dentro f s a := by
  constructor
  · rintro (_ | ⟨ha, hs⟩)
    · exact .inl rfl
    · exact .inr ⟨_, ha, hs⟩
  · rintro (rfl | ⟨a, ha, hs⟩)
    · exact .aqui
    · exact .parte ha hs

private theorem mem_partes {ν : Type} {a e : Expr ν} (h : a ∈ e.partes) :
    a ∈ e.recorridas ∨ a ∈ e.olvidadas := by
  cases e with
  | subscript | assignSubscript | assignOp => exact .inr h
  | assignField b c v =>
    obtain rfl | hv := List.mem_cons.mp h
    · exact .inr (List.mem_singleton_self _)
    · exact .inl hv
  | _ => exact .inl h

/-- A literal that the walk does not gather stands down a part that it leaves out. -/
theorem Dentro.recorridas_or_olvidado {ν : Type} {s : Text} {e : Expr ν}
    (h : Dentro Expr.partes s e) : Dentro Expr.recorridas s e ∨ Olvidado s e := by
  induction h with
  | aqui => exact .inl .aqui
  | parte ha hs ih =>
    obtain hr | ho := mem_partes ha
    · exact ih.imp (.parte hr) (.parte ha)
    · exact .inr (.aqui ho hs)

mutual

/-- **The walk of an expression** gathers what stands down the parts that it enters. -/
theorem recoge_expr (r : Recogida) (e : Expr Text) :
    Recoge r (collectExprStrings r e) fun s ↦ Dentro Expr.recorridas s e := by
  refine Recoge.congr ?_ fun s ↦ dentro_iff.symm
  cases e with
  | stringLit t =>
    exact (recoge_interna r t).congr fun s ↦ by simp [Expr.recorridas, Expr.partes, eq_comm]
  | int | floatLit | charLit | var | inc | subscript | assignSubscript | assignOp =>
    exact (Recoge.nada rfl).congr fun s ↦ by simp [Expr.recorridas, Expr.partes]
  | un _ a | deref a | addrOf a | arrow a | assign _ a | cast _ a | field a _ | assignField _ _ a =>
    exact (recoge_expr r a).congr fun s ↦ by simp [Expr.recorridas, Expr.partes]
  | bin _ a b | assignArrow a _ b | indexPtr a b | assignDeref a b =>
    exact ((recoge_expr r a).luego (recoge_expr _ b)).congr fun s ↦ by
      simp [Expr.recorridas, Expr.partes]
  | conditional a b c | assignIndexPtr a b c =>
    exact (((recoge_expr r a).luego (recoge_expr _ b)).luego (recoge_expr _ c)).congr fun s ↦ by
      simp [Expr.recorridas, Expr.partes, or_assoc]
  | call name args =>
    exact ((Recoge.nada (r.puerta_strings name args)).luego (recoge_lista _ args)).congr fun s ↦ by
      simp [Expr.recorridas, Expr.partes]
  | callPtr c args =>
    exact ((recoge_expr r c).luego (recoge_lista _ args)).congr fun s ↦ by
      simp [Expr.recorridas, Expr.partes]
  | comma args | intrinsic _ args =>
    exact (recoge_lista r args).congr fun s ↦ by simp [Expr.recorridas, Expr.partes]

private theorem recoge_lista (r : Recogida) (es : List (Expr Text)) :
    Recoge r (collectListStrings r es) fun s ↦ ∃ a ∈ es, Dentro Expr.recorridas s a := by
  cases es with
  | nil => exact (Recoge.nada rfl).congr fun s ↦ by simp
  | cons e es =>
    exact ((recoge_expr r e).luego (recoge_lista _ es)).congr fun s ↦ by simp

end

private theorem recoge_opt (r : Recogida) (e : Option (Expr Text)) :
    Recoge r (collectOptStrings r e) fun s ↦ ∃ a ∈ e.toList, Dentro Expr.recorridas s a := by
  cases e with
  | none => exact (Recoge.nada rfl).congr fun s ↦ by simp
  | some e => exact (recoge_expr r e).congr fun s ↦ by simp

/-- A literal that the walk gathers: of a text that is printed as it is, or down the parts that it
enters of one of the expressions. -/
def Alcanza (impresas : List Text) (exprs : List (Expr Text)) (s : Text) : Prop :=
  s ∈ impresas ∨ ∃ e ∈ exprs, Dentro Expr.recorridas s e

private theorem alcanza_append {is js : List Text} {es fs : List (Expr Text)} {s : Text} :
    Alcanza (is ++ js) (es ++ fs) s ↔ Alcanza is es s ∨ Alcanza js fs s := by
  simp only [Alcanza, List.mem_append, or_and_right, exists_or]
  rw [or_or_or_comm]

private theorem alcanza_cons {is : List Text} {e : Expr Text} {es : List (Expr Text)} {s : Text} :
    Alcanza is (e :: es) s ↔ Dentro Expr.recorridas s e ∨ Alcanza is es s := by
  simp only [Alcanza, List.exists_mem_cons_iff]
  exact or_left_comm

mutual

/-- **The walk of a statement** enters all of its expressions. -/
theorem recoge_stmt (r : Recogida) (st : Stmt Text) :
    Recoge r (collectStmtStrings r st) (Alcanza st.impresas st.exprs) := by
  cases st with
  | printf t | printfLn t =>
    exact (recoge_interna r t).congr fun s ↦ by simp [Alcanza, Stmt.impresas, Stmt.exprs]
  | «break» | «continue» | goto | label =>
    exact (Recoge.nada rfl).congr fun s ↦ by simp [Alcanza, Stmt.impresas, Stmt.exprs]
  | ifElse c a b =>
    exact (((recoge_expr r c).luego (recoge_stmt _ a)).luego (recoge_else _ b)).congr fun s ↦ by
      rw [Stmt.impresas, Stmt.exprs, alcanza_cons, alcanza_append, or_assoc]
  | «while» c a =>
    exact ((recoge_expr r c).luego (recoge_stmt _ a)).congr fun s ↦ by
      rw [Stmt.impresas, Stmt.exprs, alcanza_cons]
  | doWhile a c =>
    exact ((recoge_stmt r a).luego (recoge_expr _ c)).congr fun s ↦ by
      rw [Stmt.impresas, Stmt.exprs, ← List.append_nil a.impresas, alcanza_append, List.append_nil]
      simp [Alcanza]
  | «for» i c p a =>
    refine ((((recoge_opt r i).luego (recoge_opt _ c)).luego (recoge_opt _ p)).luego
      (recoge_stmt _ a)).congr fun s ↦ ?_
    rw [Stmt.impresas, Stmt.exprs, ← List.nil_append a.impresas, alcanza_append, List.nil_append]
    simp only [Alcanza, List.mem_append, or_and_right, exists_or, List.not_mem_nil, false_or]
  | switch e cs =>
    exact ((recoge_expr r e).luego (recoge_cases _ cs)).congr fun s ↦ by
      rw [Stmt.impresas, Stmt.exprs, alcanza_cons]
  | «return» e | declAssign _ _ e =>
    exact (recoge_opt r e).congr fun s ↦ by simp [Alcanza, Stmt.impresas, Stmt.exprs]
  | declInit t n es =>
    exact (recoge_lista r _).congr fun s ↦ by simp [Alcanza, Stmt.impresas, Stmt.exprs]
  | expr e => exact (recoge_expr r e).congr fun s ↦ by simp [Alcanza, Stmt.impresas, Stmt.exprs]
  | block v => exact (recoge_block r v).congr fun s ↦ by rw [Stmt.impresas, Stmt.exprs]

private theorem recoge_else (r : Recogida) (b : Option (Stmt Text)) :
    Recoge r (collectElseStrings r b) (Alcanza (Stmt.impresasElse b) (Stmt.exprsElse b)) := by
  cases b with
  | none => exact (Recoge.nada rfl).congr fun s ↦ by simp [Alcanza, Stmt.impresasElse,
    Stmt.exprsElse]
  | some b => exact recoge_stmt r b

theorem recoge_block (r : Recogida) (v : List (Stmt Text)) :
    Recoge r (collectBlockStrings r v) (Alcanza (Stmt.impresasBlock v) (Stmt.exprsBlock v)) := by
  cases v with
  | nil => exact (Recoge.nada rfl).congr fun s ↦ by simp [Alcanza, Stmt.impresasBlock,
    Stmt.exprsBlock]
  | cons s ss =>
    exact ((recoge_stmt r s).luego (recoge_block _ ss)).congr fun _ ↦ alcanza_append.symm

private theorem recoge_cases (r : Recogida) (cs : List (Case Text)) :
    Recoge r (collectCasesStrings r cs) (Alcanza (Stmt.impresasCases cs) (Stmt.exprsCases cs)) := by
  cases cs with
  | nil => exact (Recoge.nada rfl).congr fun s ↦ by simp [Alcanza, Stmt.impresasCases,
    Stmt.exprsCases]
  | cons c cs =>
    cases c with
    | mk value stmts =>
      exact ((recoge_block r stmts).luego (recoge_cases _ cs)).congr fun _ ↦ alcanza_append.symm

end

end

end BmoX.C
