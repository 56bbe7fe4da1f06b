import BmoX.Cobol.Aritmetica

/-!
# Expressions

`toolchain/lang/cobol/emisor-x86_64/src/codegen.rs:2453–2603`. The text of a `COMPUTE` is cut in
tokens, and a recursive descent emits code as it reads them: the code is that of the tree of the
usual precedence.
-/

namespace BmoX.Cobol

open BmoX.Base BmoX.Base.X86 BmoX.Lower

/-- The characters that are tokens by themselves. -/
def esOperador (c : Char) : Bool :=
  c == '+' || c == '-' || c == '*' || c == '/' || c == '(' || c == ')'

/-- A token that has ended. -/
def vacia (current : Texto) : List Texto := if trim current = [] then [] else [trim current]

/-- The tokens of the rest of a text, after the characters of one that has begun. -/
def tokenizeDesde (current : Texto) : Texto → List Texto
  | [] => vacia current
  | ch :: cs =>
    if esOperador ch then vacia current ++ ([ch] :: tokenizeDesde [] cs)
    else if esBlanco ch then vacia current ++ tokenizeDesde [] cs
    else tokenizeDesde (current ++ [ch]) cs

/-- `codegen.rs:2491–2516`. -/
def tokenizeExpr (expr : Texto) : List Texto := tokenizeDesde [] expr

/-- The exponent of a number, or nothing. -/
def esExponente : Texto → Bool
  | [] => true
  | c :: r =>
    (c == 'e' || c == 'E') &&
      (let d := match r with
        | '+' :: d => d
        | '-' :: d => d
        | _ => r
      !d.isEmpty && d.all Char.isDigit)

/-- Whether `str::parse::<f64>` takes a text. -/
def esF64 (t : Texto) : Bool :=
  let s := match t with
    | '+' :: r => r
    | '-' :: r => r
    | _ => t
  let entera := s.takeWhile Char.isDigit
  let resto := s.dropWhile Char.isDigit
  let palabra := mayusculas s
  palabra == ['I', 'N', 'F'] || palabra == ['N', 'A', 'N'] ||
    palabra == ['I', 'N', 'F', 'I', 'N', 'I', 'T', 'Y'] ||
    match resto with
    | '.' :: r =>
      !(entera.isEmpty && (r.takeWhile Char.isDigit).isEmpty) && esExponente (r.dropWhile Char.isDigit)
    | _ => !entera.isEmpty && esExponente resto

/-- The operators, which have no decimals. -/
def esToken (t : Texto) : Bool :=
  match t with
  | [c] => esOperador c
  | _ => false

/-- An expression of the usual precedence. -/
inductive Expr
  | hoja (t : Texto)
  | menos (e : Expr)
  | mas (a b : Expr)
  | resta (a b : Expr)
  | por (a b : Expr)
  | entre (a b : Expr)
  deriving DecidableEq

namespace Codegen

variable (cg : Codegen)

/-- A product comes back to its scale, rounded; `codegen.rs:2545–2551`. -/
def codigoPor (scale : Nat) (redondeo : Modo) : Codigo :=
  [Instr.imul .rax .rdx] ++
    if scale > 0 then [Instr.movImm .rcx (pow10 scale)] ++ dividir redondeo else []

/-- `codegen.rs:2553–2565`. -/
def codigoEntre (scale : Nat) (redondeo : Modo) : Codigo :=
  [Instr.mov .rcx .rax, .mov .rax .rdx] ++
    (if scale > 0 then [.push .rax, .movImm .rax (pow10 scale), .mov .rdx .rax, .pop .rax,
      .imul .rax .rdx] else []) ++ dividir redondeo

/-- A datum or a literal; `codegen.rs:2595–2602`. -/
def emitOperando (scale : Nat) (token : Texto) : Option Codigo :=
  if !cg.isVariable token && !esF64 token then none else cg.loadOperand token scale

section

variable (scale : Nat) (redondeo : Modo)

/-- What a routine of the descent gives: its code, and the tokens that are left. -/
abbrev Descenso := List Texto → Option (Codigo × List Texto)

/-- `codegen.rs:2570–2603`. -/
def emitExprFactor (suma : Descenso) : Descenso
  | [] => none
  | token :: ts =>
    if token = ['('] then
      match suma ts with
      | some (c, [')'] :: rest) => some (c, rest)
      | _ => none
    else if token = ['-'] then
      (emitExprFactor suma ts).map fun p ↦ (p.1 ++ [Instr.neg .rax], p.2)
    else (cg.emitOperando scale token).map fun c ↦ (c, ts)

/-- The factors after the first one. -/
def masFactores (factor : Descenso) : Nat → Codigo → Descenso
  | 0, _, _ => none
  | _ + 1, c, [] => some (c, [])
  | fuel + 1, c, op :: ts =>
    if op = ['*'] then do
      let (c', rest) ← factor ts
      masFactores factor fuel (c ++ (apartando .rdx c' ++ codigoPor scale redondeo)) rest
    else if op = ['/'] then do
      let (c', rest) ← factor ts
      masFactores factor fuel (c ++ (apartando .rdx c' ++ codigoEntre scale redondeo)) rest
    else some (c, op :: ts)

/-- `codegen.rs:2535–2568`. -/
def emitExprProduct (factor : Descenso) : Descenso := fun ts ↦ do
  let (c, rest) ← factor ts
  masFactores scale redondeo factor (ts.length + 1) c rest

/-- The terms after the first one. -/
def masTerminos (producto : Descenso) : Nat → Codigo → Descenso
  | 0, _, _ => none
  | _ + 1, c, [] => some (c, [])
  | fuel + 1, c, op :: ts =>
    if op = ['+'] then do
      let (c', rest) ← producto ts
      masTerminos producto fuel (c ++ (apartando .rdx c' ++ [Instr.add .rax .rdx])) rest
    else if op = ['-'] then do
      let (c', rest) ← producto ts
      masTerminos producto fuel
        (c ++ (apartando .rdx c' ++ [Instr.sub .rdx .rax, .mov .rax .rdx])) rest
    else some (c, op :: ts)

/-- `codegen.rs:2519–2532`. The fuel is the depth of the parentheses. -/
def emitExprSum : Nat → Descenso
  | 0, _ => none
  | fuel + 1, ts => do
    let producto := emitExprProduct scale redondeo (cg.emitExprFactor scale (emitExprSum fuel))
    let (c, rest) ← producto ts
    masTerminos producto (ts.length + 1) c rest

end

/-- The name of a table with its parenthesis is not for this analyzer; `codegen.rs:2459–2474`. -/
def llevaSubindice (expr : Texto) : Bool :=
  cg.nombresDeTablas.any fun tabla ↦
    decide ((tabla ++ ['(']) <:+: (mayusculas expr).filter (· != ' '))

/-- The scale of the work: that of the destination, or of the longest operand. -/
def escalaDe (scale : Nat) (tokens : List Texto) : Nat :=
  ((tokens.filter fun t ↦ !esToken t).map cg.escalaOperando).foldl max scale

/-- `codegen.rs:2453–2488`. -/
def emitCompute (expr : Texto) (scale : Nat) (redondeo : Modo) : Option Codigo :=
  if cg.llevaSubindice expr then none
  else do
    let tokens := tokenizeExpr expr
    let escala := cg.escalaDe scale tokens
    let (code, rest) ← cg.emitExprSum escala redondeo (tokens.length + 1) tokens
    if rest = [] then some (code ++ rescaleRedondeado escala scale redondeo) else none

/-! ### The trees -/

/-- The code of a tree. -/
def compila (scale : Nat) (redondeo : Modo) : Expr → Option Codigo
  | .hoja t => cg.emitOperando scale t
  | .menos e => do
    let c ← compila scale redondeo e
    some (c ++ [Instr.neg .rax])
  | .mas a b => do
    let c ← compila scale redondeo a
    let c' ← compila scale redondeo b
    some (c ++ (apartando .rdx c' ++ [Instr.add .rax .rdx]))
  | .resta a b => do
    let c ← compila scale redondeo a
    let c' ← compila scale redondeo b
    some (c ++ (apartando .rdx c' ++ [Instr.sub .rdx .rax, .mov .rax .rdx]))
  | .por a b => do
    let c ← compila scale redondeo a
    let c' ← compila scale redondeo b
    some (c ++ (apartando .rdx c' ++ codigoPor scale redondeo))
  | .entre a b => do
    let c ← compila scale redondeo a
    let c' ← compila scale redondeo b
    some (c ++ (apartando .rdx c' ++ codigoEntre scale redondeo))

end Codegen

/-- The levels of the grammar. -/
inductive Nivel
  | factor
  | producto
  | suma
  deriving DecidableEq

/-- The grammar: sums of products of factors, each from left to right. -/
inductive Deriva : Nivel → List Texto → Expr → Prop
  | hoja {t} : t ≠ ['('] → t ≠ ['-'] → Deriva .factor [t] (.hoja t)
  | menos {ts e} : Deriva .factor ts e → Deriva .factor (['-'] :: ts) (.menos e)
  | parentesis {ts e} : Deriva .suma ts e → Deriva .factor (['('] :: (ts ++ [[')']])) e
  | factor {ts e} : Deriva .factor ts e → Deriva .producto ts e
  | por {ts us a b} : Deriva .producto ts a → Deriva .factor us b →
      Deriva .producto (ts ++ ['*'] :: us) (.por a b)
  | entre {ts us a b} : Deriva .producto ts a → Deriva .factor us b →
      Deriva .producto (ts ++ ['/'] :: us) (.entre a b)
  | producto {ts e} : Deriva .producto ts e → Deriva .suma ts e
  | mas {ts us a b} : Deriva .suma ts a → Deriva .producto us b →
      Deriva .suma (ts ++ ['+'] :: us) (.mas a b)
  | resta {ts us a b} : Deriva .suma ts a → Deriva .producto us b →
      Deriva .suma (ts ++ ['-'] :: us) (.resta a b)

namespace Codegen

variable (cg : Codegen) (scale : Nat) (redondeo : Modo)

/-- The routines of the descent, with fuel for the parentheses. -/
def factorDe (fuel : Nat) : Descenso :=
  cg.emitExprFactor scale (cg.emitExprSum scale redondeo fuel)

def productoDe (fuel : Nat) : Descenso :=
  emitExprProduct scale redondeo (cg.factorDe scale redondeo fuel)

/-- No factor comes after. -/
def SinFactor (rest : List Texto) : Prop := ∀ t ∈ rest.head?, t ≠ ['*'] ∧ t ≠ ['/']

def SinTermino (rest : List Texto) : Prop := ∀ t ∈ rest.head?, t ≠ ['+'] ∧ t ≠ ['-']

/-- What a routine does with the tokens of its level: it emits the code of their tree, and goes on
with what is left. The loops have fuel for all of them. -/
def Completa : Nivel → List Texto → Expr → Prop
  | .factor, ts, e => ∀ fuel, ts.length ≤ fuel → ∀ rest, cg.factorDe scale redondeo fuel (ts ++ rest) =
      (cg.compila scale redondeo e).map fun c ↦ (c, rest)
  | .producto, ts, e => ∀ fuel, ts.length ≤ fuel → ∃ j < ts.length, ∀ k rest,
      ((cg.factorDe scale redondeo fuel (ts ++ rest)).bind fun p ↦
        masFactores scale redondeo (cg.factorDe scale redondeo fuel) (k + j) p.1 p.2) =
      (cg.compila scale redondeo e).bind fun c ↦
        masFactores scale redondeo (cg.factorDe scale redondeo fuel) k c rest
  | .suma, ts, e => ∀ fuel, ts.length ≤ fuel → ∃ j < ts.length, ∀ k rest, SinFactor rest →
      ((cg.productoDe scale redondeo fuel (ts ++ rest)).bind fun p ↦
        masTerminos (cg.productoDe scale redondeo fuel) (k + j) p.1 p.2) =
      (cg.compila scale redondeo e).bind fun c ↦
        masTerminos (cg.productoDe scale redondeo fuel) k c rest

variable {cg scale redondeo}

private theorem masFactores_fin {factor : Descenso} {k : Nat} {c : Codigo} {rest : List Texto}
    (h : SinFactor rest) : masFactores scale redondeo factor (k + 1) c rest = some (c, rest) := by
  cases rest with
  | nil => rfl
  | cons t ts =>
    obtain ⟨h1, h2⟩ := h t rfl
    rw [masFactores, if_neg h1, if_neg h2]

private theorem masTerminos_fin {producto : Descenso} {k : Nat} {c : Codigo} {rest : List Texto}
    (h : SinTermino rest) : masTerminos producto (k + 1) c rest = some (c, rest) := by
  cases rest with
  | nil => rfl
  | cons t ts =>
    obtain ⟨h1, h2⟩ := h t rfl
    rw [masTerminos, if_neg h1, if_neg h2]

private theorem Deriva.length_pos {n : Nivel} {ts : List Texto} {e : Expr} (h : Deriva n ts e) :
    0 < ts.length := by
  induction h <;> simp_all

/-- Where no factor comes after, a product is complete. -/
theorem producto_eq {ts : List Texto} {e : Expr} (h : cg.Completa scale redondeo .producto ts e)
    {fuel : Nat} (hfuel : ts.length ≤ fuel) {rest : List Texto} (hrest : SinFactor rest) :
    cg.productoDe scale redondeo fuel (ts ++ rest) =
      (cg.compila scale redondeo e).map fun c ↦ (c, rest) := by
  obtain ⟨j, hj, hk⟩ := h fuel hfuel
  have hlen : (ts ++ rest).length + 1 = ((ts ++ rest).length - j) + 1 + j := by
    rw [List.length_append]
    omega
  unfold productoDe emitExprProduct
  rw [hlen]
  exact (hk _ rest).trans (by simp only [masFactores_fin hrest]; cases cg.compila scale redondeo e <;> rfl)

/-- Where no term comes after either, a sum is. -/
theorem suma_eq {ts : List Texto} {e : Expr} (h : cg.Completa scale redondeo .suma ts e)
    {fuel : Nat} (hfuel : ts.length ≤ fuel) {rest : List Texto} (hrest : SinFactor rest)
    (hrest' : SinTermino rest) :
    cg.emitExprSum scale redondeo (fuel + 1) (ts ++ rest) =
      (cg.compila scale redondeo e).map fun c ↦ (c, rest) := by
  obtain ⟨j, hj, hk⟩ := h fuel hfuel
  have hlen : (ts ++ rest).length + 1 = ((ts ++ rest).length - j) + 1 + j := by
    rw [List.length_append]
    omega
  unfold emitExprSum
  rw [hlen]
  exact (hk _ rest hrest).trans
    (by simp only [masTerminos_fin hrest']; cases cg.compila scale redondeo e <;> rfl)

/-- The descent emits the code of the tree. -/
theorem completa {n : Nivel} {ts : List Texto} {e : Expr} (h : Deriva n ts e) :
    cg.Completa scale redondeo n ts e := by
  induction h with
  | @hoja t h1 h2 =>
    intro fuel hfuel rest
    change (if t = ['('] then _ else if t = ['-'] then _ else _) = _
    rw [if_neg h1, if_neg h2]
    rfl
  | @menos ts e h ih =>
    intro fuel hfuel rest
    rw [List.length_cons] at hfuel
    have hsub := ih fuel (by omega) rest
    unfold factorDe at *
    rw [List.cons_append, emitExprFactor, if_neg (by decide), if_pos rfl, hsub, compila]
    cases cg.compila scale redondeo e <;> rfl
  | @parentesis ts e h ih =>
    intro fuel hfuel rest
    rw [List.length_cons, List.length_append, List.length_singleton] at hfuel
    obtain ⟨fuel', rfl⟩ : ∃ fuel', fuel = fuel' + 1 := ⟨fuel - 1, by omega⟩
    have hrest : SinFactor ([')'] :: rest) := by
      intro t ht
      cases ht
      decide
    have hrest' : SinTermino ([')'] :: rest) := by
      intro t ht
      cases ht
      decide
    have hsub := suma_eq ih (show ts.length ≤ fuel' by omega) hrest hrest'
    unfold factorDe
    rw [List.cons_append, List.append_assoc, List.singleton_append, emitExprFactor, if_pos rfl,
      hsub]
    cases cg.compila scale redondeo e <;> rfl
  | @factor ts e h ih =>
    intro fuel hfuel
    refine ⟨0, Deriva.length_pos h, fun k rest ↦ ?_⟩
    rw [ih fuel hfuel rest, Option.bind_map]
    rfl
  | @por ts us a b ha hb iha ihb =>
    intro fuel hfuel
    rw [List.length_append, List.length_cons] at hfuel
    obtain ⟨j, hj, hk⟩ := iha fuel (by omega)
    refine ⟨j + 1, by rw [List.length_append, List.length_cons]; omega, fun k rest ↦ ?_⟩
    have hsub := ihb fuel (by omega) rest
    have hfuel' : k + (j + 1) = k + 1 + j := by omega
    rw [List.append_assoc, hfuel', hk (k + 1), List.cons_append]
    simp only [masFactores, if_pos, hsub, compila, Option.bind_eq_bind]
    cases cg.compila scale redondeo a <;> cases cg.compila scale redondeo b <;> rfl
  | @entre ts us a b ha hb iha ihb =>
    intro fuel hfuel
    rw [List.length_append, List.length_cons] at hfuel
    obtain ⟨j, hj, hk⟩ := iha fuel (by omega)
    refine ⟨j + 1, by rw [List.length_append, List.length_cons]; omega, fun k rest ↦ ?_⟩
    have hsub := ihb fuel (by omega) rest
    have hfuel' : k + (j + 1) = k + 1 + j := by omega
    have hno : ¬(['/'] : Texto) = ['*'] := by decide
    rw [List.append_assoc, hfuel', hk (k + 1), List.cons_append]
    simp only [masFactores, if_neg hno, if_pos, hsub, compila, Option.bind_eq_bind]
    cases cg.compila scale redondeo a <;> cases cg.compila scale redondeo b <;> rfl
  | @producto ts e h ih =>
    intro fuel hfuel
    refine ⟨0, Deriva.length_pos h, fun k rest hrest ↦ ?_⟩
    rw [producto_eq ih hfuel hrest, Option.bind_map]
    rfl
  | @mas ts us a b ha hb iha ihb =>
    intro fuel hfuel
    rw [List.length_append, List.length_cons] at hfuel
    obtain ⟨j, hj, hk⟩ := iha fuel (by omega)
    refine ⟨j + 1, by rw [List.length_append, List.length_cons]; omega, fun k rest hrest ↦ ?_⟩
    have hsub := producto_eq ihb (show us.length ≤ fuel by omega) hrest
    have hfuel' : k + (j + 1) = k + 1 + j := by omega
    have hmas : SinFactor (['+'] :: us ++ rest) := by
      intro t ht
      cases ht
      decide
    rw [List.append_assoc, hfuel', hk (k + 1) _ hmas, List.cons_append]
    simp only [masTerminos, if_pos, hsub, compila, Option.bind_eq_bind]
    cases cg.compila scale redondeo a <;> cases cg.compila scale redondeo b <;> rfl
  | @resta ts us a b ha hb iha ihb =>
    intro fuel hfuel
    rw [List.length_append, List.length_cons] at hfuel
    obtain ⟨j, hj, hk⟩ := iha fuel (by omega)
    refine ⟨j + 1, by rw [List.length_append, List.length_cons]; omega, fun k rest hrest ↦ ?_⟩
    have hsub := producto_eq ihb (show us.length ≤ fuel by omega) hrest
    have hfuel' : k + (j + 1) = k + 1 + j := by omega
    have hno : ¬(['-'] : Texto) = ['+'] := by decide
    have hmas : SinFactor (['-'] :: us ++ rest) := by
      intro t ht
      cases ht
      decide
    rw [List.append_assoc, hfuel', hk (k + 1) _ hmas, List.cons_append]
    simp only [masTerminos, if_neg hno, if_pos, hsub, compila, Option.bind_eq_bind]
    cases cg.compila scale redondeo a <;> cases cg.compila scale redondeo b <;> rfl

/-! ### What is accepted is in the grammar -/

variable (cg scale redondeo) in
/-- A routine takes a tree of its level from the tokens, and emits its code. -/
def Sensata (n : Nivel) (r : Descenso) : Prop :=
  ∀ {ts : List Texto} {c : Codigo} {rest : List Texto}, r ts = some (c, rest) →
    ∃ us e, ts = us ++ rest ∧ Deriva n us e ∧ cg.compila scale redondeo e = some c

private theorem sensata_factor {suma : Descenso} (h : cg.Sensata scale redondeo .suma suma) :
    cg.Sensata scale redondeo .factor (cg.emitExprFactor scale suma) := by
  intro ts
  induction ts with
  | nil => exact fun hc ↦ absurd hc (by simp [emitExprFactor])
  | cons token ts ih =>
    intro c rest hc
    rw [emitExprFactor] at hc
    split at hc
    · next htoken =>
      split at hc
      · next c' rest' hsuma =>
        cases hc
        obtain ⟨us, e, hts, hderiva, hcompila⟩ := h hsuma
        refine ⟨['('] :: (us ++ [[')']]), e, ?_, .parentesis hderiva, hcompila⟩
        rw [htoken, hts, List.cons_append, List.append_assoc, List.singleton_append]
      · exact absurd hc (by simp)
    · next hno =>
      split at hc
      · next htoken =>
        obtain ⟨⟨c', rest'⟩, hfactor, heq⟩ := Option.map_eq_some_iff.mp hc
        cases heq
        obtain ⟨us, e, hts, hderiva, hcompila⟩ := ih hfactor
        refine ⟨['-'] :: us, .menos e, ?_, .menos hderiva, ?_⟩
        · rw [htoken, hts, List.cons_append]
        · rw [compila, hcompila]
          rfl
      · next hno' =>
        obtain ⟨c', hop, heq⟩ := Option.map_eq_some_iff.mp hc
        cases heq
        exact ⟨[token], .hoja token, rfl, .hoja hno hno', hop⟩

theorem sensata_masFactores {factor : Descenso} (h : cg.Sensata scale redondeo .factor factor)
    {fuel : Nat} {c c' : Codigo} {ts rest us : List Texto} {e : Expr}
    (hc : masFactores scale redondeo factor fuel c ts = some (c', rest))
    (hderiva : Deriva .producto us e) (hcompila : cg.compila scale redondeo e = some c) :
    ∃ vs e', ts = vs ++ rest ∧ Deriva .producto (us ++ vs) e' ∧
      cg.compila scale redondeo e' = some c' := by
  induction fuel generalizing c ts us e with
  | zero => exact absurd hc (by simp [masFactores])
  | succ fuel ih =>
    cases ts with
    | nil =>
      cases hc
      exact ⟨[], e, rfl, by rwa [List.append_nil], hcompila⟩
    | cons op ts =>
      rw [masFactores] at hc
      split at hc
      · next hop =>
        obtain ⟨⟨c1, rest1⟩, hfactor, hmas⟩ := Option.bind_eq_some_iff.mp hc
        obtain ⟨vs, b, hts, hb, hcb⟩ := h hfactor
        obtain ⟨ws, e', hrest, he', hce'⟩ := ih hmas (.por hderiva hb)
          (by rw [compila, hcompila, hcb]; rfl)
        refine ⟨['*'] :: (vs ++ ws), e', ?_, by simpa using he', hce'⟩
        rw [hop, hts, hrest, List.cons_append, List.append_assoc]
      · split at hc
        · next hop =>
          obtain ⟨⟨c1, rest1⟩, hfactor, hmas⟩ := Option.bind_eq_some_iff.mp hc
          obtain ⟨vs, b, hts, hb, hcb⟩ := h hfactor
          obtain ⟨ws, e', hrest, he', hce'⟩ := ih hmas (.entre hderiva hb)
            (by rw [compila, hcompila, hcb]; rfl)
          refine ⟨['/'] :: (vs ++ ws), e', ?_, by simpa using he', hce'⟩
          rw [hop, hts, hrest, List.cons_append, List.append_assoc]
        · cases hc
          exact ⟨[], e, rfl, by rwa [List.append_nil], hcompila⟩

theorem sensata_producto {factor : Descenso} (h : cg.Sensata scale redondeo .factor factor) :
    cg.Sensata scale redondeo .producto (emitExprProduct scale redondeo factor) := by
  intro ts c rest hc
  obtain ⟨⟨c1, rest1⟩, hfactor, hmas⟩ := Option.bind_eq_some_iff.mp hc
  obtain ⟨us, e, hts, hderiva, hcompila⟩ := h hfactor
  obtain ⟨vs, e', hrest, he', hce'⟩ := sensata_masFactores h hmas (.factor hderiva) hcompila
  exact ⟨us ++ vs, e', by rw [hts, hrest, List.append_assoc], he', hce'⟩

private theorem sensata_masTerminos {producto : Descenso}
    (h : cg.Sensata scale redondeo .producto producto) {fuel : Nat} {c c' : Codigo}
    {ts rest us : List Texto} {e : Expr} (hc : masTerminos producto fuel c ts = some (c', rest))
    (hderiva : Deriva .suma us e) (hcompila : cg.compila scale redondeo e = some c) :
    ∃ vs e', ts = vs ++ rest ∧ Deriva .suma (us ++ vs) e' ∧
      cg.compila scale redondeo e' = some c' := by
  induction fuel generalizing c ts us e with
  | zero => exact absurd hc (by simp [masTerminos])
  | succ fuel ih =>
    cases ts with
    | nil =>
      cases hc
      exact ⟨[], e, rfl, by rwa [List.append_nil], hcompila⟩
    | cons op ts =>
      rw [masTerminos] at hc
      split at hc
      · next hop =>
        obtain ⟨⟨c1, rest1⟩, hproducto, hmas⟩ := Option.bind_eq_some_iff.mp hc
        obtain ⟨vs, b, hts, hb, hcb⟩ := h hproducto
        obtain ⟨ws, e', hrest, he', hce'⟩ := ih hmas (.mas hderiva hb)
          (by rw [compila, hcompila, hcb]; rfl)
        refine ⟨['+'] :: (vs ++ ws), e', ?_, by simpa using he', hce'⟩
        rw [hop, hts, hrest, List.cons_append, List.append_assoc]
      · split at hc
        · next hop =>
          obtain ⟨⟨c1, rest1⟩, hproducto, hmas⟩ := Option.bind_eq_some_iff.mp hc
          obtain ⟨vs, b, hts, hb, hcb⟩ := h hproducto
          obtain ⟨ws, e', hrest, he', hce'⟩ := ih hmas (.resta hderiva hb)
            (by rw [compila, hcompila, hcb]; rfl)
          refine ⟨['-'] :: (vs ++ ws), e', ?_, by simpa using he', hce'⟩
          rw [hop, hts, hrest, List.cons_append, List.append_assoc]
        · cases hc
          exact ⟨[], e, rfl, by rwa [List.append_nil], hcompila⟩

private theorem sensata_suma (fuel : Nat) :
    cg.Sensata scale redondeo .suma (cg.emitExprSum scale redondeo fuel) := by
  induction fuel with
  | zero => exact fun hc ↦ absurd hc (by simp [emitExprSum])
  | succ fuel ih =>
    intro ts c rest hc
    have hproducto : cg.Sensata scale redondeo .producto (emitExprProduct scale redondeo
        (cg.emitExprFactor scale (cg.emitExprSum scale redondeo fuel))) :=
      sensata_producto (sensata_factor ih)
    obtain ⟨⟨c1, rest1⟩, hprod, hmas⟩ := Option.bind_eq_some_iff.mp hc
    obtain ⟨us, e, hts, hderiva, hcompila⟩ := hproducto hprod
    obtain ⟨vs, e', hrest, he', hce'⟩ :=
      sensata_masTerminos hproducto hmas (.producto hderiva) hcompila
    exact ⟨us ++ vs, e', by rw [hts, hrest, List.append_assoc], he', hce'⟩

/-- An accepted `COMPUTE` is a tree of the grammar, and its code is that of the tree. -/
theorem emitCompute_eq_some {expr : Texto} {sc : Nat} {code : Codigo}
    (h : cg.emitCompute expr sc redondeo = some code) :
    ∃ e c, Deriva .suma (tokenizeExpr expr) e ∧
      cg.compila (cg.escalaDe sc (tokenizeExpr expr)) redondeo e = some c ∧
      code = c ++ rescaleRedondeado (cg.escalaDe sc (tokenizeExpr expr)) sc redondeo := by
  unfold emitCompute at h
  split at h
  · exact absurd h (by simp)
  · obtain ⟨⟨c, rest⟩, hsum, hrest⟩ := Option.bind_eq_some_iff.mp h
    simp only at hrest
    split at hrest
    · next hnil =>
      cases hrest
      obtain ⟨us, e, hts, hderiva, hcompila⟩ := sensata_suma _ hsum
      rw [hnil, List.append_nil] at hts
      exact ⟨e, c, hts ▸ hderiva, hcompila, rfl⟩
    · exact absurd hrest (by simp)

/-- A tree of the grammar is what the code is of. -/
theorem compila_of_deriva {expr : Texto} {sc : Nat} {code : Codigo} {e : Expr}
    (h : cg.emitCompute expr sc redondeo = some code) (he : Deriva .suma (tokenizeExpr expr) e) :
    ∃ c, cg.compila (cg.escalaDe sc (tokenizeExpr expr)) redondeo e = some c ∧
      code = c ++ rescaleRedondeado (cg.escalaDe sc (tokenizeExpr expr)) sc redondeo := by
  have hnil : SinFactor [] ∧ SinTermino [] := ⟨fun t ht ↦ by simp at ht, fun t ht ↦ by simp at ht⟩
  have hsum := @suma_eq cg (cg.escalaDe sc (tokenizeExpr expr)) redondeo _ e (completa he) _ le_rfl
    [] hnil.1 hnil.2
  rw [List.append_nil] at hsum
  unfold emitCompute at h
  split at h
  · exact absurd h (by simp)
  · simp only [hsum, Option.bind_eq_bind] at h
    obtain ⟨⟨c, rest⟩, hc, hrest⟩ := Option.bind_eq_some_iff.mp h
    obtain ⟨c', hcompila, heq⟩ := Option.map_eq_some_iff.mp hc
    cases heq
    cases hrest
    exact ⟨_, hcompila, rfl⟩

end Codegen

end BmoX.Cobol
