import BmoX.Cobol.Formula

/-!
# `COMPUTE`

`toolchain/lang/cobol/emisor-x86_64/src/codegen.rs:2106–2112, 2453–2603`. The code of an expression
evaluates its tree at one scale, and rounds every product and every quotient to it. Where no product
loses a digit, or only the last operation does, that is the exact value, rounded once.
-/

namespace BmoX.Cobol

open BmoX.Base BmoX.Base.X86 BmoX.Lower

/-! ### Words -/

/-- A word that has ended. -/
def palabra (current : Texto) : List Texto := if current = [] then [] else [current]

/-- The words of the rest of a text: a hyphen in one that begins with a letter is of its name. -/
def palabrasDesde (current : Texto) : Texto → List Texto
  | [] => palabra current
  | ch :: cs =>
    if ch = '-' ∧ (current.head?.any Char.isAlpha) then palabrasDesde (current ++ [ch]) cs
    else if esOperador ch then palabra current ++ ([ch] :: palabrasDesde [] cs)
    else if esBlanco ch then palabra current ++ palabrasDesde [] cs
    else palabrasDesde (current ++ [ch]) cs

/-- The words of an expression as the lexer takes them, with the hyphens of the names;
`toolchain/lang/cobol/src/lexer.rs:51–90`. -/
def palabras (expr : Texto) : List Texto := palabrasDesde [] expr

/-- No name has a hyphen. -/
def SinGuion (ts : List Texto) : Prop := ∀ t ∈ ts, '-' ∈ t → t = ['-']

private theorem trim_of_noBlanco {t : Texto} (h : ∀ c ∈ t, esBlanco c = false) : trim t = t := by
  have hdrop {u : Texto} (hu : ∀ c ∈ u, esBlanco c = false) : u.dropWhile esBlanco = u := by
    cases u with
    | nil => rfl
    | cons c u => exact List.dropWhile_cons_of_neg (by simp [hu c (List.mem_cons_self ..)])
  unfold trim
  rw [hdrop h, hdrop (by simpa using h), List.reverse_reverse]

private theorem palabrasDesde_begun {current cs : Texto} (hne : current ≠ []) :
    ∃ t ∈ palabrasDesde current cs, current <+: t := by
  induction cs generalizing current with
  | nil =>
    refine ⟨current, ?_, List.prefix_rfl⟩
    simp [palabrasDesde, palabra, hne]
  | cons ch cs ih =>
    have hsigue : ∃ t ∈ palabrasDesde (current ++ [ch]) cs, current <+: t := by
      obtain ⟨t, ht, hpre⟩ := ih (show current ++ [ch] ≠ [] by simp)
      exact ⟨t, ht, (List.prefix_append ..).trans hpre⟩
    have hacaba (rest : List Texto) : ∃ t ∈ palabra current ++ rest, current <+: t := by
      refine ⟨current, ?_, List.prefix_rfl⟩
      simp [palabra, hne]
    rw [palabrasDesde]
    split_ifs
    · exact hsigue
    · exact hacaba _
    · exact hacaba _
    · exact hsigue

/-- Where no name has a hyphen, the tokens are the words. -/
theorem tokenizeDesde_eq {current expr : Texto} (h : SinGuion (palabrasDesde current expr))
    (hblanco : ∀ c ∈ current, esBlanco c = false) :
    tokenizeDesde current expr = palabrasDesde current expr := by
  have hvacia {current : Texto} (h : ∀ c ∈ current, esBlanco c = false) :
      vacia current = palabra current := by
    unfold vacia palabra
    rw [trim_of_noBlanco h]
  induction expr generalizing current with
  | nil => exact hvacia hblanco
  | cons ch cs ih =>
    have hnil : ∀ c ∈ ([] : Texto), esBlanco c = false := by simp
    rw [palabrasDesde] at h ⊢
    rw [tokenizeDesde]
    by_cases hguion : ch = '-' ∧ current.head?.any Char.isAlpha
    · -- the word would have a hyphen
      exfalso
      rw [if_pos hguion] at h
      obtain ⟨t, ht, hpre⟩ := @palabrasDesde_begun (current ++ [ch]) cs (by simp)
      have heq := h t ht (hpre.subset (by simp [hguion.1]))
      have hpos : 0 < current.length := by
        rw [List.length_pos_iff]
        rintro rfl
        exact absurd hguion.2 (by decide)
      have hlen := hpre.length_le
      rw [heq, List.length_append] at hlen
      simp only [List.length_singleton] at hlen
      omega
    · rw [if_neg hguion] at h ⊢
      by_cases hop : esOperador ch
      · rw [if_pos hop] at h ⊢
        rw [if_pos hop, hvacia hblanco, ih (fun t ht ↦ h t (by simp [ht])) hnil]
      · rw [if_neg hop] at h ⊢
        rw [if_neg hop]
        by_cases hb : esBlanco ch
        · rw [if_pos hb] at h ⊢
          rw [if_pos hb, hvacia hblanco, ih (fun t ht ↦ h t (by simp [ht])) hnil]
        · rw [if_neg hb] at h ⊢
          rw [if_neg hb]
          apply ih h
          intro c hc
          rcases List.mem_append.mp hc with hc | hc
          · exact hblanco c hc
          · rw [List.mem_singleton.mp hc]
            simpa using hb

/-! ### Values of trees -/

/-- The whole number and the decimals that a leaf stands for. -/
abbrev Entorno := Texto → Int × Nat

namespace Expr

/-- The leaves of a tree. -/
def hojas : Expr → List Texto
  | hoja t => [t]
  | menos e => e.hojas
  | mas a b | resta a b | por a b | entre a b => a.hojas ++ b.hojas

variable (env : Entorno)

/-- The exact value. -/
def exacto : Expr → Rat
  | hoja t => (env t).1 / 10 ^ (env t).2
  | menos e => -e.exacto
  | mas a b => a.exacto + b.exacto
  | resta a b => a.exacto - b.exacto
  | por a b => a.exacto * b.exacto
  | entre a b => a.exacto / b.exacto

/-- The decimals that a value without quotients has. -/
def escalaNatural : Expr → Nat
  | hoja t => (env t).2
  | menos e => e.escalaNatural
  | mas a b | resta a b => max a.escalaNatural b.escalaNatural
  | por a b | entre a b => a.escalaNatural + b.escalaNatural

/-- Every value of a tree without quotients fits a word, with all its decimals. -/
def Natural : Expr → Prop
  | hoja t => Fits (env t).1
  | menos e => e.Natural ∧ ∃ n : Int, Fits n ∧ -e.exacto env * 10 ^ e.escalaNatural env = n
  | mas a b => a.Natural ∧ b.Natural ∧ ∃ n : Int, Fits n ∧
      (a.exacto env + b.exacto env) * 10 ^ max (a.escalaNatural env) (b.escalaNatural env) = n
  | resta a b => a.Natural ∧ b.Natural ∧ ∃ n : Int, Fits n ∧
      (a.exacto env - b.exacto env) * 10 ^ max (a.escalaNatural env) (b.escalaNatural env) = n
  | por a b => a.Natural ∧ b.Natural ∧ ∃ n : Int, Fits n ∧
      a.exacto env * b.exacto env * 10 ^ (a.escalaNatural env + b.escalaNatural env) = n
  | entre _ _ => False

variable (c : Nat) (modo : Modo)

/-- The value that the code computes, at the scale of the work. -/
def evalua : Expr → Int
  | hoja t => (env t).1 * 10 ^ (c - (env t).2)
  | menos e => -e.evalua
  | mas a b => a.evalua + b.evalua
  | resta a b => a.evalua - b.evalua
  | por a b => modo.redondea (((a.evalua * b.evalua : Int) : Rat) / 10 ^ c)
  | entre a b => modo.redondea (((a.evalua * 10 ^ c : Int) : Rat) / b.evalua)

/-- What has to fit a word for that: the leaves at the scale of the work, the sums, and the products
and the dividends at twice that scale. -/
def Cabe : Expr → Prop
  | hoja t => (env t).2 ≤ c ∧ Fits ((env t).1 * 10 ^ (c - (env t).2))
  | menos e => e.Cabe ∧ Fits (-e.evalua env c modo)
  | mas a b => a.Cabe ∧ b.Cabe ∧ Fits (a.evalua env c modo + b.evalua env c modo)
  | resta a b => a.Cabe ∧ b.Cabe ∧ Fits (a.evalua env c modo - b.evalua env c modo)
  | por a b => a.Cabe ∧ b.Cabe ∧ Fits (a.evalua env c modo * b.evalua env c modo) ∧ c ≤ 18
  | entre a b => a.Cabe ∧ b.Cabe ∧ Fits (a.evalua env c modo * 10 ^ c) ∧
      Fits ((a.evalua env c modo * 10 ^ c).tdiv (b.evalua env c modo)) ∧
      Divisible modo (a.evalua env c modo * 10 ^ c) (b.evalua env c modo)

/-- No product loses a digit, and nothing is divided. -/
def Justa : Expr → Prop
  | hoja _ => True
  | menos e => e.Justa
  | mas a b | resta a b => a.Justa ∧ b.Justa
  | por a b => a.Justa ∧ b.Justa ∧ (10 ^ c : Int) ∣ a.evalua env c modo * b.evalua env c modo
  | entre _ _ => False

/-- A tree is rounded once: no product loses a digit, or only the one that ends the expression does,
at the scale of the destination or in one direction. -/
def UnaVez (sc : Nat) (e : Expr) : Prop :=
  e.Justa env c modo ∨
    (c = sc ∨ modo.Dirigido) ∧ ∃ a b, e = .por a b ∧ a.Justa env c modo ∧ b.Justa env c modo

variable {env c modo}

/-- What no product loses is exact. -/
theorem evalua_of_justa {e : Expr} (h : e.Justa env c modo) (hcabe : e.Cabe env c modo) :
    (e.evalua env c modo : Rat) = e.exacto env * 10 ^ c := by
  induction e with
  | hoja t =>
    have hpow : (10 : Rat) ^ c = 10 ^ (env t).2 * 10 ^ (c - (env t).2) := by
      rw [← pow_add, Nat.add_sub_cancel' hcabe.1]
    simp only [evalua, exacto]
    push_cast
    rw [hpow]
    field_simp
  | menos e ih =>
    simp only [evalua, exacto]
    push_cast
    rw [ih h hcabe.1]
    ring
  | mas a b iha ihb =>
    simp only [evalua, exacto]
    push_cast
    rw [iha h.1 hcabe.1, ihb h.2 hcabe.2.1]
    ring
  | resta a b iha ihb =>
    simp only [evalua, exacto]
    push_cast
    rw [iha h.1 hcabe.1, ihb h.2 hcabe.2.1]
    ring
  | por a b iha ihb =>
    obtain ⟨ha, hb, k, hk⟩ := h
    have hprod := congrArg (Int.cast : Int → Rat) hk
    push_cast at hprod
    have hquot : ((a.evalua env c modo * b.evalua env c modo : Int) : Rat) / 10 ^ c = (k : Int) := by
      push_cast
      rw [hprod]
      field_simp
    simp only [evalua, exacto]
    rw [hquot, modo.redondea_intCast]
    rw [iha ha hcabe.1, ihb hb hcabe.2.1] at hprod
    have hpos : (10 : Rat) ^ c ≠ 0 := by positivity
    apply mul_left_cancel₀ hpos
    rw [← hprod]
    ring
  | entre a b => exact absurd h id

/-- An expression that is rounded once, at the end. -/
theorem redondea_of_unaVez {sc : Nat} {e : Expr} (h : e.UnaVez env c modo sc)
    (hcabe : e.Cabe env c modo) (hle : sc ≤ c) :
    modo.redondea ((e.evalua env c modo : Rat) / 10 ^ (c - sc)) =
      modo.redondea (e.exacto env * 10 ^ sc) := by
  have hpow : (10 : Rat) ^ c = 10 ^ sc * 10 ^ (c - sc) := by
    rw [← pow_add, Nat.add_sub_cancel' hle]
  rcases h with h | ⟨hmodo, a, b, rfl, ha, hb⟩
  · rw [evalua_of_justa h hcabe, hpow]
    congr 1
    field_simp
  · have hprod : ((a.evalua env c modo * b.evalua env c modo : Int) : Rat) / 10 ^ c =
        (a.exacto env * b.exacto env) * 10 ^ c := by
      push_cast
      rw [evalua_of_justa ha hcabe.1, evalua_of_justa hb hcabe.2.1]
      field_simp
    simp only [evalua, exacto]
    rw [hprod]
    rcases hmodo with rfl | hmodo
    · rw [Nat.sub_self, pow_zero, div_one, modo.redondea_intCast]
    · have hdos := hmodo.redondea_redondea (a.exacto env * b.exacto env * 10 ^ c)
        (show (0 : Int) < 10 ^ (c - sc) by positivity)
      push_cast at hdos
      rw [hdos, hpow]
      congr 1
      field_simp

end Expr

namespace Codegen

variable {cg : Codegen}

/-! ### What the code does -/

/-- The operands of an expression, in a machine. -/
def Hojas (cg : Codegen) (env : Entorno) (e : Expr) (m : Machine) : Prop :=
  cg.Cabe m ∧ ∀ t ∈ e.hojas, cg.Vale m t (env t).1 (env t).2

/-- The same place, whatever has been computed there meanwhile. -/
theorem Hojas.congr {env : Entorno} {e : Expr} {m m' : Machine} (h : cg.Hojas env e m)
    (hrbp : m'.reg .rbp = m.reg .rbp) (hmem : m'.mem = m.mem) : cg.Hojas env e m' := by
  refine ⟨?_, fun t ht ↦ (h.2 t ht).congr hrbp hmem⟩
  have hcabe := h.1
  unfold Cabe at *
  rwa [hrbp]

/-- Two expressions and what is done with their values. -/
theorem da_binaria {env : Entorno} {scale : Nat} {modo : Modo} {a b : Expr} {op code : Codigo}
    {m : Machine} {v : Int}
    (hcode : (do
      let c ← cg.compila scale modo a
      let c' ← cg.compila scale modo b
      some (c ++ (apartando .rdx c' ++ op))) = some code)
    (hm : cg.Cabe m ∧ ∀ t ∈ a.hojas ++ b.hojas, cg.Vale m t (env t).1 (env t).2)
    (ha : ∀ {code m}, cg.compila scale modo a = some code → cg.Hojas env a m →
      Da code m (a.evalua env scale modo))
    (hb : ∀ {code m}, cg.compila scale modo b = some code → cg.Hojas env b m →
      Da code m (b.evalua env scale modo))
    (hop : ∀ m', signed (m'.reg .rdx) = a.evalua env scale modo →
      signed (m'.reg .rax) = b.evalua env scale modo → Da op m' v) : Da code m v := by
  obtain ⟨c, hc, hcode⟩ := Option.bind_eq_some_iff.mp hcode
  obtain ⟨c', hc', hcode⟩ := Option.bind_eq_some_iff.mp hcode
  cases hcode
  have hma : cg.Hojas env a m := ⟨hm.1, fun t ht ↦ hm.2 t (List.mem_append_left _ ht)⟩
  have hmb : cg.Hojas env b m := ⟨hm.1, fun t ht ↦ hm.2 t (List.mem_append_right _ ht)⟩
  obtain ⟨m1, hrun1, hkeep1, hv1⟩ := ha hc hma
  obtain ⟨m2, hrun2, hkeep2, hv2⟩ := @hb _ { m1 with stack := m1.reg .rax :: m1.stack } hc'
    (hmb.congr (hkeep1.reg _ (by decide)) hkeep1.mem)
  obtain ⟨m3, hrun3, hkeep3, hrax3, hrdx3⟩ := @run_apartando m1 .rdx c' (m2.reg .rax)
    (by decide) (by decide) ⟨m2, hrun2, hkeep2, rfl⟩
  obtain ⟨m4, hrun4, hkeep4, hv4⟩ := hop m3 (by rw [hrdx3, hv1]) (by rw [hrax3, hv2])
  refine ⟨m4, ?_, hkeep1.trans (hkeep3.trans hkeep4), hv4⟩
  rw [run_append_of_next hrun1, run_append_of_next hrun3, hrun4]

private theorem da_codigoPor {m : Machine} {va vb : Int} {scale : Nat} {modo : Modo}
    (ha : signed (m.reg .rdx) = va) (hb : signed (m.reg .rax) = vb) (hfits : Fits (va * vb))
    (hscale : scale ≤ 18) :
    Da (codigoPor scale modo) m (modo.redondea (((va * vb : Int) : Rat) / 10 ^ scale)) := by
  let m1 := m.setF .rax (m.reg .rax * m.reg .rdx)
  have hkeep1 : Keeps libres m m1 := Keeps.refl.setF (by decide)
  have hv1 : signed (m1.reg .rax) = va * vb := by
    simp only [m1, Machine.setF_reg, if_true]
    rw [signed_mul (by rwa [ha, hb, mul_comm]), ha, hb, mul_comm]
  have hbaja : (if scale > 0 then ([Instr.movImm .rcx (pow10 scale)] ++ dividir modo : Codigo)
      else []) = rescaleRedondeado scale 0 modo := by
    unfold rescaleRedondeado
    rcases Nat.eq_zero_or_pos scale with rfl | hpos
    · rfl
    · rw [if_pos hpos, if_neg hpos.ne', if_neg (by omega), Nat.sub_zero]
  unfold codigoPor
  rw [hbaja]
  exact Da.tras (show run ([.imul .rax .rdx] : Codigo) none m = .next m1 from rfl) hkeep1
    (da_rescale hv1 (Nat.zero_le scale) hscale modo)

private theorem da_codigoEntre {m : Machine} {va vb : Int} {scale : Nat} {modo : Modo}
    (ha : signed (m.reg .rdx) = va) (hb : signed (m.reg .rax) = vb)
    (hfits : Fits (va * 10 ^ scale)) (hq : Fits ((va * 10 ^ scale).tdiv vb))
    (hdiv : Divisible modo (va * 10 ^ scale) vb) :
    Da (codigoEntre scale modo) m
      (modo.redondea (((va * 10 ^ scale : Int) : Rat) / vb)) := by
  have hrax : m.reg .rdx = ofSigned va := by rw [← ha, ofSigned_signed]
  have hmed : ∃ m1, run ([Instr.mov .rcx .rax, .mov .rax .rdx] ++ (if scale > 0 then
      [.push .rax, .movImm .rax (pow10 scale), .mov .rdx .rax, .pop .rax, .imul .rax .rdx]
      else []) : Codigo) none m = .next m1 ∧ Keeps libres m m1 ∧
      m1.reg .rax = ofSigned (va * 10 ^ scale) ∧ m1.reg .rcx = m.reg .rax := by
    rcases Nat.eq_zero_or_pos scale with rfl | hpos
    · refine ⟨_, rfl, ⟨fun r hr ↦ ?_, rfl, rfl⟩, ?_, ?_⟩
      · simp [libres] at hr
        simp [hr]
      · simp [hrax]
      · simp
    · rw [if_pos hpos]
      refine ⟨_, rfl, ⟨fun r hr ↦ ?_, rfl, rfl⟩, ?_, ?_⟩
      · simp [libres] at hr
        simp [hr]
      · unfold pow10
        rw [ofSigned_mul, ← hrax, show (10 ^ scale : Int) = ((10 ^ scale : Nat) : Int) by
          push_cast; rfl, ofSigned_natCast]
        simp
      · simp
  obtain ⟨m1, hrun1, hkeep1, hrax1, hrcx1⟩ := hmed
  have hv1 : signed (m1.reg .rax) = va * 10 ^ scale := by rw [hrax1, signed_ofSigned hfits]
  have hd1 : signed (m1.reg .rcx) = vb := by rw [hrcx1, hb]
  obtain ⟨m2, hrun2, hkeep2, hv2⟩ := @run_dividir_de m1 modo (by rwa [hv1, hd1])
    (by rwa [hv1, hd1])
  rw [hv1, hd1] at hv2
  exact ⟨m2, (run_append_of_next hrun1).trans hrun2, hkeep1.trans (hkeep2.mono (by decide)), hv2⟩

/-- The code of a tree computes its value, where all fits. -/
theorem da_compila (h : cg.Bien) {env : Entorno} {scale : Nat} {modo : Modo} {e : Expr}
    {code : Codigo} (hcode : cg.compila scale modo e = some code)
    (hcabe : e.Cabe env scale modo) {m : Machine} (hm : cg.Hojas env e m) :
    Da code m (e.evalua env scale modo) := by
  induction e generalizing code m with
  | hoja t =>
    rw [compila] at hcode
    unfold emitOperando at hcode
    split at hcode
    · exact absurd hcode (by simp)
    · obtain ⟨m1, hrun1, hkeep1, hrax1⟩ := run_loadOperand h hm.1 hcode
        (hm.2 t (List.mem_singleton_self t)) hcabe.1 hcabe.2
      exact ⟨m1, hrun1, hkeep1, by rw [hrax1, signed_ofSigned hcabe.2]; rfl⟩
  | menos e ih =>
    obtain ⟨c, hc, heq⟩ := Option.bind_eq_some_iff.mp hcode
    cases heq
    obtain ⟨m1, hrun1, hkeep1, hv1⟩ := ih hc hcabe.1 hm
    refine ⟨m1.setF .rax (-m1.reg .rax), run_append_of_next hrun1, hkeep1.trans
      ⟨fun r hr ↦ ?_, rfl, rfl⟩, ?_⟩
    · simp [libres] at hr
      simp [hr]
    · rw [Machine.setF_reg, if_pos rfl, signed_neg (by rw [hv1]; exact hcabe.2), hv1]
      rfl
  | mas a b iha ihb =>
    refine da_binaria hcode hm (fun hc ↦ iha hc hcabe.1) (fun hc ↦ ihb hc hcabe.2.1)
      fun m' ha hb ↦ ?_
    refine ⟨_, rfl, ⟨fun r hr ↦ ?_, rfl, rfl⟩, ?_⟩
    · simp [libres] at hr
      simp [hr]
    · rw [Machine.setF_reg, if_pos rfl, signed_add (by rw [ha, hb, add_comm]; exact hcabe.2.2),
        ha, hb, add_comm]
      rfl
  | resta a b iha ihb =>
    refine da_binaria hcode hm (fun hc ↦ iha hc hcabe.1) (fun hc ↦ ihb hc hcabe.2.1)
      fun m' ha hb ↦ ?_
    refine ⟨_, rfl, ⟨fun r hr ↦ ?_, rfl, rfl⟩, ?_⟩
    · simp [libres] at hr
      simp [hr]
    · rw [Machine.set_reg, if_pos rfl, Machine.setF_reg, if_pos rfl,
        signed_sub (by rw [ha, hb]; exact hcabe.2.2), ha, hb]
      rfl
  | por a b iha ihb =>
    refine da_binaria hcode hm (fun hc ↦ iha hc hcabe.1) (fun hc ↦ ihb hc hcabe.2.1)
      fun m' ha hb ↦ ?_
    exact da_codigoPor ha hb hcabe.2.2.1 hcabe.2.2.2
  | entre a b iha ihb =>
    refine da_binaria hcode hm (fun hc ↦ iha hc hcabe.1) (fun hc ↦ ihb hc hcabe.2.1)
      fun m' ha hb ↦ ?_
    exact da_codigoEntre ha hb hcabe.2.2.1 hcabe.2.2.2.1 hcabe.2.2.2.2

/-! ### The statement -/

theorem le_escalaDe (sc : Nat) (tokens : List Texto) : sc ≤ cg.escalaDe sc tokens := by
  unfold escalaDe
  generalize (tokens.filter fun t ↦ !esToken t).map cg.escalaOperando = escalas
  induction escalas generalizing sc with
  | nil => exact le_rfl
  | cons e escalas ih => exact (le_max_left sc e).trans (ih _)

variable (cg) in
/-- `codegen.rs:2106–2112`. -/
def emitStatementCompute (dst expr : Texto) (arit : Aritmetica) : Option Codigo := do
  let cuenta ← cg.emitCompute expr (cg.varScale dst) arit.redondeo
  let guardar ← cg.emitGuardarConDesborde dst arit
  some (cuenta ++ guardar)

/-- The value of an expression, as the code rounds it. -/
theorem da_emitCompute (h : cg.Bien) {expr : Texto} {sc : Nat} {modo : Modo} {code : Codigo}
    (hcode : cg.emitCompute expr sc modo = some code) {e : Expr}
    (he : Deriva .suma (tokenizeExpr expr) e) {env : Entorno} {m : Machine}
    (hm : cg.Hojas env e m) {c : Nat} (hc : cg.escalaDe sc (tokenizeExpr expr) = c)
    (hfit : e.Cabe env c modo) (hmax : c - sc ≤ 18) :
    Da code m (modo.redondea ((e.evalua env c modo : Rat) / 10 ^ (c - sc))) := by
  obtain ⟨c', hcompila, rfl⟩ := compila_of_deriva hcode he
  have hle := cg.le_escalaDe sc (tokenizeExpr expr)
  rw [hc] at hcompila hle ⊢
  obtain ⟨m1, hrun1, hkeep1, hv1⟩ := da_compila h hcompila hfit hm
  exact Da.tras hrun1 hkeep1 (da_rescale hv1 hle hmax modo)

/-- What a machine does that takes a number to a datum: the datum has what it keeps of it, and no
other one changes. -/
def Recibe (cg : Codegen) (code : Codigo) (m : Machine) (s : Sitio) (v : Int) : Prop :=
  ∃ m', run code none m = .next m' ∧ s.valor m'.mem = s.recibe v ∧
    (∀ t, cg.Dato m t → t ≠ s → t.valor m'.mem = t.valor m.mem) ∧
    ∀ a, ¬s.Ocupa a → m'.mem a = m.mem a

/-- A value and its store. -/
theorem recibe_of_da (h : cg.Bien) {dst : Texto} {m : Machine} {s : Sitio} (hcabe : cg.Cabe m)
    (hs : cg.Designa m dst s) {cuenta guardar : Codigo} {v : Int} (hda : Da cuenta m v)
    (hguardar : cg.storeVar dst = some guardar) : cg.Recibe (cuenta ++ guardar) m s v := by
  obtain ⟨m1, hrun1, hkeep1, hv⟩ := hda
  have hcabe1 : cg.Cabe m1 := cabe_of_keeps hkeep1 (by decide) hcabe
  have hs1 : cg.Designa m1 dst s :=
    @Designa.congr cg m m1 dst s (hkeep1.reg _ (by decide)) hkeep1.mem hs
  obtain ⟨m2, hrun2, honly2, hval⟩ := run_storeVar h hcabe1 hguardar hs1
  have honly := hkeep1.only.trans honly2
  refine ⟨m2, (run_append_of_next hrun1).trans hrun2, by rw [hval, hv], ?_, honly.mem⟩
  intro t ht hne
  exact hs.esDato.valor_de_otro h hcabe ht hne honly.mem

private theorem recibe_compute (h : cg.Bien) {dst expr : Texto} {modo : Modo} {code : Codigo}
    (hcode : cg.emitStatementCompute dst expr ⟨modo, none⟩ = some code) {e : Expr}
    (he : Deriva .suma (tokenizeExpr expr) e) {env : Entorno} {m : Machine}
    (hm : cg.Hojas env e m) {s : Sitio} (hs : cg.Designa m dst s) {c : Nat}
    (hc : cg.escalaDe (cg.varScale dst) (tokenizeExpr expr) = c)
    (hfit : e.Cabe env c modo) (hmax : c - cg.varScale dst ≤ 18) :
    cg.Recibe code m s
      (modo.redondea ((e.evalua env c modo : Rat) / 10 ^ (c - cg.varScale dst))) := by
  unfold emitStatementCompute at hcode
  simp only [Option.bind_eq_bind, Option.bind_eq_some_iff] at hcode
  obtain ⟨cuenta, hcuenta, guardar, hguardar, hcode⟩ := hcode
  cases hcode
  exact recibe_of_da h hm.1 hs (da_emitCompute h hcuenta he hm hc hfit hmax) hguardar

/-- A `COMPUTE` that is accepted is of the grammar, and is evaluated with its precedence. Where it is
rounded once, and no name has a hyphen, its destination receives the exact value of what is written,
rounded to its scale. -/
theorem compute_exact {items : List DataItem} (hpos : ∀ item ∈ items, 0 < item.elementos)
    (hmarco : marco items < 2 ^ 31) (hcg : reparte items = some cg) {dst expr : Texto}
    {modo : Modo} {code : Codigo}
    (hcode : cg.emitStatementCompute dst expr ⟨modo, none⟩ = some code) {c : Nat}
    (hc : cg.escalaDe (cg.varScale dst) (tokenizeExpr expr) = c)
    (hmax : c - cg.varScale dst ≤ 18) :
    (∃ e, Deriva .suma (tokenizeExpr expr) e ∧ ∀ {env : Entorno} {m : Machine} {s : Sitio},
      cg.Hojas env e m → cg.Designa m dst s → e.Cabe env c modo → cg.Recibe code m s
        (modo.redondea ((e.evalua env c modo : Rat) / 10 ^ (c - cg.varScale dst)))) ∧
    ∀ {e : Expr} {env : Entorno} {m : Machine} {s : Sitio}, SinGuion (palabras expr) →
      Deriva .suma (palabras expr) e → cg.Hojas env e m → cg.Designa m dst s →
      e.Cabe env c modo → e.UnaVez env c modo (cg.varScale dst) → cg.Recibe code m s
        (modo.redondea (e.exacto env * 10 ^ cg.varScale dst)) := by
  have h := bien_of_reparte hpos hmarco hcg
  constructor
  · have hcuenta := hcode
    unfold emitStatementCompute at hcuenta
    simp only [Option.bind_eq_bind, Option.bind_eq_some_iff] at hcuenta
    obtain ⟨cuenta, hcuenta, -⟩ := hcuenta
    obtain ⟨e, -, he, -⟩ := emitCompute_eq_some hcuenta
    exact ⟨e, he, fun hm hs hfit ↦ recibe_compute h hcode he hm hs hc hfit hmax⟩
  · intro e env m s hguion he hm hs hfit hvez
    have hle := cg.le_escalaDe (cg.varScale dst) (tokenizeExpr expr)
    rw [hc] at hle
    have htokens : tokenizeExpr expr = palabras expr := tokenizeDesde_eq hguion (by simp)
    rw [← Expr.redondea_of_unaVez hvez hfit hle]
    exact recibe_compute h hcode (htokens ▸ he) hm hs hc hfit hmax

/-! ### Examples -/

/-- The literals and the datum of the examples. -/
def entornoChico : Entorno := fun t ↦
  if t = ['A'] then (100, 2) else if t = ['2'] then (2, 0) else
    if t = ['0', '.', '9'] then (9, 1) else (5, 1)

private theorem entorno_A : entornoChico ['A'] = (100, 2) := by decide

private theorem entorno_2 : entornoChico ['2'] = (2, 0) := by decide

private theorem entorno_9 : entornoChico ['0', '.', '9'] = (9, 1) := by decide

private theorem entorno_5 : entornoChico ['0', '.', '5'] = (5, 1) := by decide

private theorem vale_A : cgChico.Vale maquinaChica ['A'] 100 2 := by
  have h := @Vale.dato cgChico maquinaChica ['A'] _ (by decide) designa_A
  rwa [valor_A, show cgChico.varScale ['A'] = 2 by decide] at h

/-- `COMPUTE B ROUNDED = (A + 2) * 0.5`: one and a half is two. -/
theorem compute_exact_chica : ∃ code,
    cgChico.emitStatementCompute ['B'] "(A + 2) * 0.5".toList ⟨.masCercanoLejosDeCero, none⟩ =
      some code ∧
    ∃ m', run code none maquinaChica = .next m' ∧
      Sitio.valor ⟨1008, some (2, false)⟩ m'.mem = 2 := by
  have hcode : (cgChico.emitStatementCompute ['B'] "(A + 2) * 0.5".toList
      ⟨.masCercanoLejosDeCero, none⟩).isSome := by decide
  obtain ⟨code, hcode⟩ := Option.isSome_iff_exists.mp hcode
  have hscale : cgChico.varScale ['B'] = 0 := by decide
  have hpalabras : palabras "(A + 2) * 0.5".toList =
      [['('], ['A'], ['+'], ['2'], [')'], ['*'], ['0', '.', '5']] := by decide
  have htokens : tokenizeExpr "(A + 2) * 0.5".toList = palabras "(A + 2) * 0.5".toList := by
    decide
  have hderiva : Deriva .suma (palabras "(A + 2) * 0.5".toList)
      (.por (.mas (.hoja ['A']) (.hoja ['2'])) (.hoja ['0', '.', '5'])) := by
    rw [hpalabras]
    have hoja {t : Texto} (h1 : t ≠ ['(']) (h2 : t ≠ ['-']) : Deriva .producto [t] (.hoja t) :=
      .factor (.hoja h1 h2)
    exact .producto (.por (.factor (.parentesis
      (.mas (.producto (hoja (by decide) (by decide))) (hoja (by decide) (by decide)))))
      (.hoja (by decide) (by decide)))
  have hhojas : cgChico.Hojas entornoChico
      (.por (.mas (.hoja ['A']) (.hoja ['2'])) (.hoja ['0', '.', '5'])) maquinaChica := by
    refine ⟨cabe_chica, fun t ht ↦ ?_⟩
    simp only [Expr.hojas, List.mem_append, List.mem_singleton] at ht
    rcases ht with (rfl | rfl) | rfl
    · exact vale_A
    · exact .literal (by decide) (by decide)
    · exact .literal (by decide) (by decide)
  have hfit : Expr.Cabe entornoChico 2 .masCercanoLejosDeCero
      (.por (.mas (.hoja ['A']) (.hoja ['2'])) (.hoja ['0', '.', '5'])) := by
    refine ⟨⟨⟨?_, ?_⟩, ⟨?_, ?_⟩, ?_⟩, ⟨?_, ?_⟩, ?_, ?_⟩ <;> decide
  have hjusta : Expr.Justa entornoChico 2 .masCercanoLejosDeCero
      (.por (.mas (.hoja ['A']) (.hoja ['2'])) (.hoja ['0', '.', '5'])) := by
    refine ⟨⟨trivial, trivial⟩, trivial, ?_⟩
    decide
  obtain ⟨m', hrun, hval, -⟩ := (compute_exact elementos_chicos marco_chico reparte_chico hcode
    (c := 2) (by decide) (by decide)).2 (by rw [hpalabras]; unfold SinGuion; decide) hderiva hhojas designa_B hfit
    (.inl hjusta)
  refine ⟨code, hcode, m', hrun, hval.trans ?_⟩
  have hexacto : (Expr.por (.mas (.hoja ['A']) (.hoja ['2'])) (.hoja ['0', '.', '5'])).exacto
      entornoChico * 10 ^ cgChico.varScale ['B'] = ((3 : Int) : Rat) / (2 : Int) := by
    simp only [hscale, Expr.exacto, entorno_A, entorno_2, entorno_5]
    norm_num
  rw [hexacto, ← dividirEnRust_eq (by decide)]
  decide

/-- `COMPUTE B ROUNDED = 0.5 * 0.9`: forty-five hundredths are a half with one decimal, and one with
none. -/
theorem compute_not_exact : ¬∀ {items : List DataItem} {cg : Codegen} {dst expr : Texto}
    {modo : Modo} {code : Codigo} {e : Expr} {env : Entorno} {m : Machine} {s : Sitio},
    (∀ item ∈ items, 0 < item.elementos) → marco items < 2 ^ 31 → reparte items = some cg →
    cg.emitStatementCompute dst expr ⟨modo, none⟩ = some code →
    Deriva .suma (palabras expr) e → cg.Hojas env e m → cg.Designa m dst s → e.Natural env →
    cg.Recibe code m s (modo.redondea (e.exacto env * 10 ^ cg.varScale dst)) := by
  intro hall
  have hcode : (cgChico.emitStatementCompute ['B'] "0.5 * 0.9".toList
      ⟨.masCercanoLejosDeCero, none⟩).isSome := by decide
  obtain ⟨code, hcode⟩ := Option.isSome_iff_exists.mp hcode
  have hscale : cgChico.varScale ['B'] = 0 := by decide
  have hpalabras : palabras "0.5 * 0.9".toList = [['0', '.', '5'], ['*'], ['0', '.', '9']] := by
    decide
  have htokens : tokenizeExpr "0.5 * 0.9".toList = palabras "0.5 * 0.9".toList := by
    decide
  have hderiva : Deriva .suma (palabras "0.5 * 0.9".toList)
      (.por (.hoja ['0', '.', '5']) (.hoja ['0', '.', '9'])) := by
    rw [hpalabras]
    exact .producto (.por (.factor (.hoja (by decide) (by decide))) (.hoja (by decide) (by decide)))
  have hhojas : cgChico.Hojas entornoChico (.por (.hoja ['0', '.', '5']) (.hoja ['0', '.', '9']))
      maquinaChica := by
    refine ⟨cabe_chica, fun t ht ↦ ?_⟩
    simp only [Expr.hojas, List.mem_append, List.mem_singleton] at ht
    rcases ht with rfl | rfl
    · exact .literal (by decide) (by decide)
    · exact .literal (by decide) (by decide)
  have hnatural : (Expr.por (.hoja ['0', '.', '5']) (.hoja ['0', '.', '9'])).Natural
      entornoChico := by
    refine ⟨?_, ?_, 45, by decide, ?_⟩
    · unfold Expr.Natural
      decide
    · unfold Expr.Natural
      decide
    · simp only [Expr.exacto, Expr.escalaNatural, entorno_9, entorno_5]
      norm_num
  have hfit : Expr.Cabe entornoChico 1 .masCercanoLejosDeCero
      (.por (.hoja ['0', '.', '5']) (.hoja ['0', '.', '9'])) := by
    refine ⟨⟨?_, ?_⟩, ⟨?_, ?_⟩, ?_, ?_⟩ <;> decide
  obtain ⟨m', hrun, hval, -⟩ := hall elementos_chicos marco_chico reparte_chico hcode hderiva
    hhojas designa_B hnatural
  obtain ⟨m'', hrun', hval', -⟩ := recibe_compute bien_chico hcode
    (htokens ▸ hderiva) hhojas designa_B (c := 1) (by decide) hfit (by decide)
  obtain rfl : m' = m'' := by simpa using hrun.symm.trans hrun'
  have hexacto : (Expr.por (.hoja ['0', '.', '5']) (.hoja ['0', '.', '9'])).exacto entornoChico *
      10 ^ cgChico.varScale ['B'] = ((45 : Int) : Rat) / (100 : Int) := by
    simp only [hscale, Expr.exacto, entorno_9, entorno_5]
    norm_num
  have hevalua : ((Expr.por (.hoja ['0', '.', '5']) (.hoja ['0', '.', '9'])).evalua entornoChico 1
      .masCercanoLejosDeCero : Rat) / 10 ^ (1 - cgChico.varScale ['B']) =
      ((5 : Int) : Rat) / (10 : Int) := by
    have hprod : ((5 * 9 : Int) : Rat) / 10 ^ 1 = ((45 : Int) : Rat) / (10 : Int) := by norm_num
    have hcinco : (Expr.por (.hoja ['0', '.', '5']) (.hoja ['0', '.', '9'])).evalua entornoChico 1
        .masCercanoLejosDeCero = 5 := by
      change Modo.redondea _ (((5 * 9 : Int) : Rat) / 10 ^ 1) = 5
      rw [hprod, ← dividirEnRust_eq (by decide)]
      decide
    rw [hcinco, hscale]
    norm_num
  rw [hexacto, ← dividirEnRust_eq (by decide)] at hval
  rw [hevalua, ← dividirEnRust_eq (by decide), hval] at hval'
  exact absurd hval' (by decide)

end Codegen

end BmoX.Cobol
