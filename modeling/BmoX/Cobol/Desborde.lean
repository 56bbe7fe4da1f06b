import BmoX.Cobol.Compute
import BmoX.Cobol.Etiquetas

/-!
# `ON SIZE ERROR`

`toolchain/lang/cobol/emisor-x86_64/src/codegen.rs:1054–1134`. The result waits in `rax` until it is
known to fit: then the destination takes it and the statements of `NOT ON SIZE ERROR` run. Otherwise
the destination stays as it was, and those of the clause run.
-/

namespace BmoX.Cobol

open BmoX.Base BmoX.Base.X86 BmoX.Lower

/-! ### Labels -/

/-- A label of `fresh_label`. -/
def esFresca : Instr Etiqueta → Bool
  | .label (.fresca _) => true
  | _ => false

/-- Code that binds no label of `fresh_label`. -/
def SinFresca (code : Codigo) : Prop := code.all (fun i ↦ !esFresca i) = true

/-- Code that does not bind a label. -/
def NoLiga (code : Codigo) (l : Etiqueta) : Prop := ∀ i ∈ code, i.is l = false

/-- The labels of a clause are its own; `codegen.rs:262, 1092, 1124`. -/
structure Clausula.Frescas (c : Clausula) : Prop where
  distintas : c.desborda ≠ c.fin
  guarda : c.noNegativo ≠ c.desborda
  cabe : NoLiga c.siCabe (.fresca c.desborda)
  fin : NoLiga c.siDesborda (.fresca c.fin)

/-- Where the statements of a clause leave it: after them, or at a label that is not of the
statement. -/
def Clausula.Ajena (c : Clausula) (o : Outcome Etiqueta) : Prop :=
  ∀ l m, o = .jump l m → l ≠ .fresca c.desborda ∧ l ≠ .fresca c.fin ∧ NoLiga c.siDesborda l

private theorem SinFresca.noLiga {code : Codigo} (h : SinFresca code) (n : Nat) :
    NoLiga code (.fresca n) := by
  intro i hi
  have hno := List.all_eq_true.mp h i hi
  cases i with
  | label l =>
    cases l with
    | fresca k => exact absurd hno (by simp [esFresca])
    | salto k => rfl
    | fuera t => rfl
  | _ => rfl

private theorem SoloSaltos.sinFresca {code : Codigo} (h : SoloSaltos code) : SinFresca code := by
  apply List.all_eq_true.mpr
  intro i hi
  have hno := List.all_eq_true.mp h i hi
  cases i with
  | label l =>
    cases l with
    | fresca k => exact absurd hno (by simp [esAjena])
    | salto k => rfl
    | fuera t => rfl
  | _ => rfl

namespace Codegen

variable {cg : Codegen}

/-! ### The guard -/

private theorem limite_le_iff {v : Int} (hv : Fits v) (digitos : Nat) :
    (limite digitos).toNat ≤ v.natAbs ↔ 10 ^ digitos ≤ v.natAbs := by
  unfold Fits at hv
  unfold limite
  split
  · next hlt =>
    rw [UInt64.toNat_ofNat', Nat.mod_eq_of_lt hlt]
  · next hge =>
    have hmax : (0xFFFFFFFFFFFFFFFF : UInt64).toNat = 2 ^ 64 - 1 := rfl
    rw [hmax]
    omega

/-- A number that has as many digits as the limit goes to the label of the clause. -/
theorem run_guarda (m : Machine) (c : Clausula) (w : UInt64) :
    ∃ m', Keeps [.rdx, .rcx] m m' ∧ run (guarda c w) none m =
      if w.toNat ≤ (signed (m.reg .rax)).natAbs then .jump (.fresca c.desborda) m'
      else .next m' := by
  have hns (w : UInt64) : Cond.holds (testFlags w) .ns = !decide (signed w < 0) := rfl
  have hae (a b : UInt64) : Cond.holds (cmpFlags a b) .ae = !decide (a.toNat < b.toNat) := rfl
  let absoluto : UInt64 := if signed (m.reg .rax) < 0 then -m.reg .rax else m.reg .rax
  have habs : absoluto.toNat = (signed (m.reg .rax)).natAbs := by
    unfold absoluto
    split
    · next hneg =>
      have := toNat_neg_of_neg hneg
      omega
    · next hpos =>
      have := toNat_of_nonneg (Int.not_lt.mp hpos)
      omega
  have hrun : ∃ m1, run ([.mov .rdx .rax, .test .rdx .rdx, .jcc .ns (.fresca c.noNegativo),
      .neg .rdx, .label (.fresca c.noNegativo), .movImm .rcx w] : Codigo) none m = .next m1 ∧
      Keeps [.rdx, .rcx] m m1 ∧ m1.reg .rdx = absoluto ∧ m1.reg .rcx = w := by
    by_cases hneg : signed (m.reg .rax) < 0
    · simp only [run, step, Machine.set_reg, if_true, UInt64.and_self, hns, hneg, decide_true,
        Bool.not_true, Bool.false_eq_true, if_false, absoluto, Outcome.next.injEq,
        exists_eq_left']
      refine ⟨⟨fun r hr ↦ ?_, rfl, rfl⟩, ?_⟩
      · simp at hr
        simp [Machine.set, Machine.setF, hr]
      · simp
    · simp only [run, step, Machine.set_reg, if_true, UInt64.and_self, hns, hneg, decide_false,
        Bool.not_false, if_false, absoluto, Instr.is, decide_true, Bool.false_eq_true,
        Outcome.next.injEq, exists_eq_left']
      refine ⟨⟨fun r hr ↦ ?_, rfl, rfl⟩, ?_⟩
      · simp at hr
        simp [Machine.set, hr]
      · simp
  obtain ⟨m1, hrun1, hkeep1, hrdx1, hrcx1⟩ := hrun
  refine ⟨{ m1 with flags := some (cmpFlags absoluto w) },
    ⟨hkeep1.reg, hkeep1.mem, hkeep1.stack⟩, ?_⟩
  have hpartes : guarda c w = ([.mov .rdx .rax, .test .rdx .rdx, .jcc .ns (.fresca c.noNegativo),
      .neg .rdx, .label (.fresca c.noNegativo), .movImm .rcx w] : Codigo) ++
      [.cmp .rdx .rcx, .jcc .ae (.fresca c.desborda)] := rfl
  rw [hpartes, run_append_of_next hrun1]
  simp only [run, step, hrdx1, hrcx1, hae, habs]
  by_cases hle : w.toNat ≤ (signed (m.reg .rax)).natAbs
  · simp [hle]
  · simp [hle, Nat.lt_of_not_le hle]

section

variable {c : Clausula} (hf : c.Frescas)
include hf

/-- What comes after the destination: the statements for a number that fits, and past those for one
that does not. -/
theorem run_siCabe {m : Machine} {o : Outcome Etiqueta} (hrun : run c.siCabe none m = o)
    (ho : c.Ajena o) :
    run (c.siCabe ++ (([.jmp (.fresca c.fin), .label (.fresca c.desborda)] : Codigo) ++
      (c.siDesborda ++ ([.label (.fresca c.fin)] : Codigo)))) none m = o := by
  rw [run_append, hrun]
  cases o with
  | next m1 =>
    have hne : ¬Etiqueta.fresca c.desborda = .fresca c.fin := by simpa using hf.distintas
    simp only [Outcome.andThen, List.cons_append, List.nil_append, run, step, Instr.is, hne,
      decide_false, Bool.false_eq_true, if_false]
    rw [run_append, run_skip hf.fin]
    simp [Outcome.andThen, run, Instr.is]
  | jump l m1 =>
    obtain ⟨h1, h2, h3⟩ := ho l m1 rfl
    have h1' : ¬Etiqueta.fresca c.desborda = l := Ne.symm h1
    have h2' : ¬Etiqueta.fresca c.fin = l := Ne.symm h2
    simp only [Outcome.andThen, List.cons_append, List.nil_append, run, Instr.is, h1',
      decide_false, Bool.false_eq_true, if_false]
    rw [run_append, run_skip h3]
    simp [Outcome.andThen, run, Instr.is, h2']
  | fault => rfl

private theorem run_siDesborda {m : Machine} {guardado : Codigo} (hguardado : SinFresca guardado)
    {o : Outcome Etiqueta} (hrun : run c.siDesborda none m = o) (ho : c.Ajena o) :
    run (guardado ++ (c.siCabe ++ (([.jmp (.fresca c.fin), .label (.fresca c.desborda)] : Codigo) ++
      (c.siDesborda ++ ([.label (.fresca c.fin)] : Codigo))))) (some (.fresca c.desborda)) m = o := by
  rw [run_append, run_skip (hguardado.noLiga c.desborda)]
  simp only [Outcome.andThen]
  rw [run_append, run_skip hf.cabe]
  simp only [Outcome.andThen, List.cons_append, List.nil_append, run, Instr.is, decide_true,
    if_true, Bool.false_eq_true, if_false]
  rw [run_append, hrun]
  cases o with
  | next m1 => rfl
  | jump l m1 =>
    have h2' : ¬Etiqueta.fresca c.fin = l := Ne.symm (ho l m1 rfl).2.1
    simp [Outcome.andThen, run, Instr.is, h2']
  | fault => rfl

end

/-! ### What a destination holds -/

/-- A numeric datum with its picture, as the parser leaves it. -/
def Numerico (item : DataItem) (f : PicField) : Prop :=
  item.level ≠ 88 ∧ item.picField = some f ∧ f.numeric = true ∧ f.usage = item.usage

/-- A number with no more digits than the picture has is kept whole, without its sign where packed
digits have none. -/
theorem recibe_of_lt {item : DataItem} {f : PicField} (hf : Numerico item f) {s : Sitio}
    (hs : s.packed = empaque item) {v : Int} (hv : v.natAbs < 10 ^ f.totalDigits) :
    s.recibe v = if item.usage = .comp3 ∧ f.signed = false then (v.natAbs : Int) else v := by
  obtain ⟨-, hpic, hnumeric, husage⟩ := hf
  unfold Sitio.recibe
  rw [hs]
  unfold empaque
  by_cases hcomp : item.usage = .comp3
  · have hsize : f.size = f.totalDigits / 2 + 1 := by
      unfold PicField.size
      rw [hnumeric, husage, hcomp]
      rfl
    have hpow : v.natAbs < 10 ^ (2 * f.size - 1) := by
      apply hv.trans_le
      apply Nat.pow_le_pow_right (by decide)
      omega
    simp only [hcomp, if_true, hpic, Option.map_some, true_and]
    unfold recorta
    cases f.signed with
    | true =>
      have hcast : ((10 ^ (2 * f.size - 1) : Nat) : Int) = 10 ^ (2 * f.size - 1) := by
        push_cast
        rfl
      simp only [if_true, Bool.true_eq_false, if_false]
      rw [← hcast]
      rcases Int.natAbs_eq v with heq | heq <;> rw [heq]
      · exact Int.tmod_eq_of_lt (by omega) (by omega)
      · rw [Int.neg_tmod, Int.tmod_eq_of_lt (by omega) (by omega)]
    | false =>
      simp only [Bool.false_eq_true, if_false, if_true]
      rw [Nat.mod_eq_of_lt hpow]
  · simp [hcomp]

end Codegen

/-! ### Statements -/

/-- The statements with an arithmetic verb: four of them take an operand, and `COMPUTE` an
expression. -/
inductive Sentencia
  | verbo (v : Verbo) (src : Texto)
  | compute (expr : Texto)

namespace Codegen

variable {cg : Codegen}

variable (cg) in
def emitSentencia (st : Sentencia) (dst : Texto) (arit : Aritmetica) : Option Codigo :=
  match st with
  | .verbo v src => cg.emitStatement v src dst arit
  | .compute expr => cg.emitStatementCompute dst expr arit

/-- The mathematical result of a statement, at the scale of its destination, or none for a division
by zero. What the code computes on its way fits a word, and an expression is one that it rounds
once. -/
inductive Resulta (cg : Codegen) (m : Machine) (dst : Texto) (s : Sitio) (modo : Modo) :
    Sentencia → Option Int → Prop
  | verbo {v src x so} : cg.Vale m src x so →
      v.Cabe modo (cg.varScale dst) (s.valor m.mem) so x →
      Resulta cg m dst s modo (.verbo v src) (some (modo.redondea
        (v.exacto (s.valor m.mem / 10 ^ cg.varScale dst) (x / 10 ^ so) * 10 ^ cg.varScale dst)))
  | cero {src so} : cg.Vale m src 0 so → Resulta cg m dst s modo (.verbo .divide src) none
  | compute {expr e env c} : cg.escalaDe (cg.varScale dst) (tokenizeExpr expr) = c →
      c - cg.varScale dst ≤ 18 → SinGuion (palabras expr) → Deriva .suma (palabras expr) e →
      cg.Hojas env e m → e.Cabe env c modo → e.UnaVez env c modo (cg.varScale dst) →
      Resulta cg m dst s modo (.compute expr)
        (some (modo.redondea (e.exacto env * 10 ^ cg.varScale dst)))

/-- What the code of a statement does before the store: it has the result in `rax`, or it has gone to
the label of the clause. -/
def Calcula (code : Codigo) (m : Machine) (c : Clausula) : Option Int → Prop
  | some v => Da code m v
  | none => ∃ m', Keeps libres m m' ∧ run code none m = .jump (.fresca c.desborda) m'

/-- A division by zero. -/
theorem run_cuentaDivide_cero (h : cg.Bien) {src dst : Texto} {m : Machine} {s : Sitio} {so : Nat}
    {code : Codigo} {modo : Modo} {c : Clausula} (hcabe : cg.Cabe m) (hs : cg.Designa m dst s)
    (hx : cg.Vale m src 0 so) (hcode : cg.cuentaDivide src dst ⟨modo, some c⟩ = some code) :
    ∃ m', Keeps libres m m' ∧ run code none m = .jump (.fresca c.desborda) m' := by
  unfold cuentaDivide at hcode
  rw [hx.escala] at hcode
  simp only [Option.bind_eq_bind, Option.bind_eq_some_iff] at hcode
  obtain ⟨operando, hop, carga, hcarga, hcode⟩ := hcode
  cases hcode
  have hnada : (0 : Int) * 10 ^ (so - so) = 0 := zero_mul _
  obtain ⟨m1, hrun1, hkeep1, hrax1⟩ := run_loadOperand h hcabe hop hx le_rfl
    (by rw [hnada]; decide)
  rw [hnada] at hrax1
  let m1' : Machine := { m1 with stack := m1.reg .rax :: m1.stack }
  have hcabe1 : cg.Cabe m1 := cabe_of_keeps hkeep1 (by decide) hcabe
  have hs1 : cg.Designa m1' dst s :=
    @Designa.congr cg m m1' dst s (hkeep1.reg _ (by decide)) hkeep1.mem hs
  obtain ⟨m2, hrun2, hkeep2, hrax2⟩ := @run_loadVar cg h dst carga m1' s hcabe1 hcarga hs1
  have hsube : (if so > 0 then ([.movImm .rcx (pow10 so), .imul .rax .rcx] : Codigo) else []) =
      rescaleRedondeado 0 so .truncar := by
    unfold rescaleRedondeado
    rcases Nat.eq_zero_or_pos so with rfl | hpos
    · rfl
    · rw [if_pos hpos, if_neg hpos.ne, if_pos hpos, Nat.sub_zero]
  obtain ⟨m3, hrun3, hkeep3, hrax3⟩ := run_rescale_up (Nat.zero_le so) hrax2 .truncar
  obtain ⟨m4, hrun4, hkeep4, hrax4, hrcx4⟩ := @run_apartando m1 .rcx _ _ (by decide) (by decide)
    ⟨m3, (run_append_of_next hrun2).trans hrun3, hkeep2.trans hkeep3, hrax3⟩
  have hrcx : m4.reg .rcx = 0 := by
    rw [hrcx4, hrax1]
    rfl
  have he (w : UInt64) : Cond.holds (testFlags w) .e = decide (w = 0) := rfl
  refine ⟨{ m4 with flags := some (testFlags 0) }, ?_, ?_⟩
  · have hkeep := hkeep1.trans hkeep4
    exact ⟨hkeep.reg, hkeep.mem, hkeep.stack⟩
  · rw [hsube, run_append_of_next hrun1, run_append_of_next hrun4]
    simp only [saltoDeCero, List.cons_append, List.nil_append, run, step, hrcx, UInt64.and_self,
      he, decide_true, if_true]
    exact run_skip ((soloSaltos_dividir modo).sinFresca.noLiga c.desborda)

/-- The code of a statement is that of its result and that of the store. -/
theorem calcula_of_resulta (h : cg.Bien) {st : Sentencia} {dst : Texto} {modo : Modo}
    {c : Clausula} {code : Codigo} (hcode : cg.emitSentencia st dst ⟨modo, some c⟩ = some code)
    {m : Machine} (hcabe : cg.Cabe m) {s : Sitio} (hs : cg.Designa m dst s) {r : Option Int}
    (hr : cg.Resulta m dst s modo st r) :
    ∃ cuenta guardar, code = cuenta ++ guardar ∧ Calcula cuenta m c r ∧
      cg.emitGuardarConDesborde dst ⟨modo, some c⟩ = some guardar := by
  cases hr with
  | @verbo v src x so hx hfit =>
    unfold emitSentencia emitStatement at hcode
    simp only [Option.bind_eq_bind, Option.bind_eq_some_iff] at hcode
    obtain ⟨cuenta, hcuenta, guardar, hguardar, hcode⟩ := hcode
    cases hcode
    exact ⟨cuenta, guardar, rfl, da_cuenta h hcabe hs hx hcuenta hfit, hguardar⟩
  | cero hx =>
    unfold emitSentencia emitStatement at hcode
    simp only [Option.bind_eq_bind, Option.bind_eq_some_iff] at hcode
    obtain ⟨cuenta, hcuenta, guardar, hguardar, hcode⟩ := hcode
    cases hcode
    exact ⟨cuenta, guardar, rfl, run_cuentaDivide_cero h hcabe hs hx hcuenta, hguardar⟩
  | @compute expr e env k hk hmax hguion he hm hfit hvez =>
    unfold emitSentencia emitStatementCompute at hcode
    simp only [Option.bind_eq_bind, Option.bind_eq_some_iff] at hcode
    obtain ⟨cuenta, hcuenta, guardar, hguardar, hcode⟩ := hcode
    cases hcode
    have hle := cg.le_escalaDe (cg.varScale dst) (tokenizeExpr expr)
    rw [hk] at hle
    have htokens : tokenizeExpr expr = palabras expr := tokenizeDesde_eq hguion (by simp)
    refine ⟨cuenta, guardar, rfl, ?_, hguardar⟩
    unfold Calcula
    dsimp only
    rw [← Expr.redondea_of_unaVez hvez hfit hle]
    exact da_emitCompute h hcuenta (htokens ▸ he) hm hk hfit hmax

/-! ### The clause -/

/-- The statements of `ON SIZE ERROR` run, and no others, with the memory as it was. -/
def Rechaza (c : Clausula) (code : Codigo) (m : Machine) : Prop :=
  ∃ m', Keeps libres m m' ∧ ∀ o, run c.siDesborda none m' = o → c.Ajena o → run code none m = o

/-- A datum has a number, the others are as they were, and the statements of `NOT ON SIZE ERROR` run,
and no others. -/
def Acepta (cg : Codegen) (c : Clausula) (code : Codigo) (m : Machine) (s : Sitio) (v : Int) :
    Prop :=
  ∃ m', Only libres s.Ocupa m m' ∧ s.valor m'.mem = v ∧
    (∀ t, cg.Dato m t → t ≠ s → t.valor m'.mem = t.valor m.mem) ∧
    ∀ o, run c.siCabe none m' = o → c.Ajena o → run code none m = o

section

variable {c : Clausula} (hf : c.Frescas) {dst : Texto} {modo : Modo} {guardar cuenta : Codigo}
  (hcode : cg.emitGuardarConDesborde dst ⟨modo, some c⟩ = some guardar)
include hf hcode

private theorem rechaza_of_da {m : Machine} {v : Int} (hda : Da cuenta m v)
    (hge : 10 ^ cg.digitosDe dst ≤ v.natAbs) : Rechaza c (cuenta ++ guardar) m := by
  obtain ⟨guardado, hguardado, heq⟩ := Option.bind_eq_some_iff.mp hcode
  cases heq
  obtain ⟨m1, hrun1, hkeep1, hv⟩ := hda
  obtain ⟨m2, hkeep2, hrun2⟩ := run_guarda m1 c (limite (cg.digitosDe dst))
  rw [if_pos (by rw [limite_le_iff (fits_signed _), hv]; exact hge)] at hrun2
  refine ⟨m2, hkeep1.trans (hkeep2.mono (by decide)), fun o ho hajena ↦ ?_⟩
  rw [run_append_of_next hrun1, run_append, hrun2]
  exact run_siDesborda hf (soloSaltos_storeVar hguardado).sinFresca ho hajena

private theorem rechaza_of_jump {m m' : Machine} (hkeep : Keeps libres m m')
    (hrun : run cuenta none m = .jump (.fresca c.desborda) m') :
    Rechaza c (cuenta ++ guardar) m := by
  obtain ⟨guardado, hguardado, heq⟩ := Option.bind_eq_some_iff.mp hcode
  cases heq
  have hguarda : NoLiga (guarda c (limite (cg.digitosDe dst))) (.fresca c.desborda) := by
    intro i hi
    have hne := hf.guarda
    simp only [guarda, List.mem_cons, List.not_mem_nil, or_false] at hi
    rcases hi with rfl | rfl | rfl | rfl | rfl | rfl | rfl | rfl <;> simp [Instr.is, hne]
  refine ⟨m', hkeep, fun o ho hajena ↦ ?_⟩
  rw [run_append, hrun]
  simp only [Outcome.andThen]
  rw [run_append, run_skip hguarda]
  exact run_siDesborda hf (soloSaltos_storeVar hguardado).sinFresca ho hajena

private theorem acepta_of_da (h : cg.Bien) {m : Machine} (hcabe : cg.Cabe m) {s : Sitio}
    (hs : cg.Designa m dst s) {v : Int} (hda : Da cuenta m v)
    (hlt : v.natAbs < 10 ^ cg.digitosDe dst) :
    cg.Acepta c (cuenta ++ guardar) m s (s.recibe v) := by
  obtain ⟨guardado, hguardado, heq⟩ := Option.bind_eq_some_iff.mp hcode
  cases heq
  obtain ⟨m1, hrun1, hkeep1, hv⟩ := hda
  obtain ⟨m2, hkeep2, hrun2⟩ := run_guarda m1 c (limite (cg.digitosDe dst))
  rw [if_neg (by rw [limite_le_iff (fits_signed _), hv]; exact hlt.not_ge)] at hrun2
  have hkeep : Keeps libres m m2 := hkeep1.trans (hkeep2.mono (by decide))
  have hcabe2 : cg.Cabe m2 := cabe_of_keeps hkeep (by decide) hcabe
  have hs2 : cg.Designa m2 dst s :=
    @Designa.congr cg m m2 dst s (hkeep.reg _ (by decide)) hkeep.mem hs
  obtain ⟨m3, hrun3, honly3, hval⟩ := run_storeVar h hcabe2 hguardado hs2
  have honly := hkeep.only.trans honly3
  refine ⟨m3, honly, ?_, ?_, fun o ho hajena ↦ ?_⟩
  · rw [hval, hkeep2.reg _ (by decide), hv]
  · intro t ht hne
    exact hs.esDato.valor_de_otro h hcabe ht hne honly.mem
  · rw [run_append_of_next hrun1, run_append_of_next hrun2, run_append_of_next hrun3]
    exact run_siCabe hf ho hajena

end

private theorem run_append_of_fault {is js : Codigo} {m : Machine} (h : run is none m = .fault) :
    run (is ++ js) none m = .fault := by
  rw [run_append, h]
  rfl

theorem run_codigoEntre_cero {m : Machine} (h0 : m.reg .rax = 0) (scale : Nat) (modo : Modo) :
    run (codigoEntre scale modo) none m = .fault := by
  have hmed : ∃ m1, run ([Instr.mov .rcx .rax, .mov .rax .rdx] ++ (if scale > 0 then
      [.push .rax, .movImm .rax (pow10 scale), .mov .rdx .rax, .pop .rax, .imul .rax .rdx]
      else []) : Codigo) none m = .next m1 ∧ m1.reg .rcx = 0 := by
    split
    · exact ⟨_, rfl, h0⟩
    · exact ⟨_, rfl, h0⟩
  obtain ⟨m1, hrun1, hrcx1⟩ := hmed
  unfold codigoEntre
  rw [run_append_of_next hrun1]
  simp [dividir, run, step, hrcx1]

/-- A division by zero in an expression stops the program, with the clause or without it. -/
theorem run_compute_cero (h : cg.Bien) {dst expr : Texto} {arit : Aritmetica} {code : Codigo}
    (hcode : cg.emitStatementCompute dst expr arit = some code) {a b : Expr}
    (he : Deriva .suma (tokenizeExpr expr) (.entre a b)) {env : Entorno} {m : Machine}
    (hm : cg.Hojas env (.entre a b) m) {k : Nat}
    (hk : cg.escalaDe (cg.varScale dst) (tokenizeExpr expr) = k)
    (ha : a.Cabe env k arit.redondeo) (hb : b.Cabe env k arit.redondeo)
    (h0 : b.evalua env k arit.redondeo = 0) : run code none m = .fault := by
  unfold emitStatementCompute at hcode
  simp only [Option.bind_eq_bind, Option.bind_eq_some_iff] at hcode
  obtain ⟨cuenta, hcuenta, guardar, -, hcode⟩ := hcode
  cases hcode
  obtain ⟨c, hcompila, rfl⟩ := compila_of_deriva hcuenta he
  rw [hk] at hcompila ⊢
  obtain ⟨ca, hca, hcompila⟩ := Option.bind_eq_some_iff.mp hcompila
  obtain ⟨cb, hcb, hcompila⟩ := Option.bind_eq_some_iff.mp hcompila
  cases hcompila
  have hma : cg.Hojas env a m := ⟨hm.1, fun t ht ↦ hm.2 t (List.mem_append_left _ ht)⟩
  have hmb : cg.Hojas env b m := ⟨hm.1, fun t ht ↦ hm.2 t (List.mem_append_right _ ht)⟩
  obtain ⟨m1, hrun1, hkeep1, -⟩ := da_compila h hca ha hma
  let m1' : Machine := { m1 with stack := m1.reg .rax :: m1.stack }
  have hmb' : cg.Hojas env b m1' :=
    @Hojas.congr cg env b m m1' hmb (hkeep1.reg _ (by decide)) hkeep1.mem
  obtain ⟨m2, hrun2, hkeep2, hv2⟩ := da_compila h hcb hb hmb'
  obtain ⟨m3, hrun3, -, hrax3, -⟩ := @run_apartando m1 .rdx cb (m2.reg .rax) (by decide)
    (by decide) ⟨m2, hrun2, hkeep2, rfl⟩
  have hcero : m3.reg .rax = 0 := by
    rw [hrax3, ← signed_eq_zero, hv2, h0]
  apply run_append_of_fault
  apply run_append_of_fault
  rw [run_append_of_next hrun1, run_append_of_next hrun3]
  exact run_codigoEntre_cero hcero k arit.redondeo

/-! ### Examples -/

/-- A clause without statements. -/
def clausulaChica : Clausula := ⟨0, 1, 2, [], []⟩

private theorem frescas_chica : clausulaChica.Frescas where
  distintas := by decide
  guarda := by decide
  cabe i hi := absurd hi (List.not_mem_nil)
  fin i hi := absurd hi (List.not_mem_nil)

end Codegen

end BmoX.Cobol
