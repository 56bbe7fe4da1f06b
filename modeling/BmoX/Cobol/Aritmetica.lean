import BmoX.Cobol.Acceso
import Mathlib.Tactic.Positivity

/-!
# Arithmetic statements

`toolchain/lang/cobol/emisor-x86_64/src/codegen.rs:1074–1134, 2012–2105`. The code of `ADD`,
`SUBTRACT`, `MULTIPLY` and `DIVIDE`: each one works at a scale that has all the decimals of its
operands, and is rounded when it goes back to the scale of its destination.
-/

namespace BmoX.Cobol

open BmoX.Base BmoX.Base.X86 BmoX.Lower

/-- The clause `ON SIZE ERROR`: its labels, and the code of its statements and of those of `NOT ON
SIZE ERROR`. -/
structure Clausula where
  desborda : Nat
  fin : Nat
  noNegativo : Nat
  siDesborda : Codigo
  siCabe : Codigo

/-- `ROUNDED` and the clause. -/
structure Aritmetica where
  redondeo : Modo
  clausula : Option Clausula

/-- The verbs that take an operand and a destination. -/
inductive Verbo
  | add
  | subtract
  | multiply
  | divide
  deriving DecidableEq

namespace Codegen

variable (cg : Codegen)

/-- `codegen.rs:1129–1134`. -/
def digitosDe (name : Texto) : Nat :=
  ((cg.picFields (nombreBase name)).map PicField.totalDigits).getD 1

/-- The number that has one digit more than a picture, or the last word. -/
def limite (digitos : Nat) : UInt64 :=
  if 10 ^ digitos < 2 ^ 64 then UInt64.ofNat (10 ^ digitos) else 0xFFFFFFFFFFFFFFFF

/-- `rax` is compared with the limit, without its sign. -/
def guarda (c : Clausula) (limite : UInt64) : Codigo :=
  [.mov .rdx .rax, .test .rdx .rdx, .jcc .ns (.fresca c.noNegativo), .neg .rdx,
    .label (.fresca c.noNegativo), .movImm .rcx limite, .cmp .rdx .rcx,
    .jcc .ae (.fresca c.desborda)]

/-- `codegen.rs:1074–1119`. -/
def emitGuardarConDesborde (destino : Texto) (arit : Aritmetica) : Option Codigo :=
  match arit.clausula with
  | none => cg.storeVar destino
  | some c => do
    let guardado ← cg.storeVar destino
    some (guarda c (limite (cg.digitosDe destino)) ++ (guardado ++ (c.siCabe ++
      (([.jmp (.fresca c.fin), .label (.fresca c.desborda)] : Codigo) ++
        (c.siDesborda ++ ([.label (.fresca c.fin)] : Codigo))))))

/-- `rax` waits in the stack while another value is computed. -/
def apartando (d : Reg) (code : Codigo) : Codigo := [Instr.push .rax] ++ (code ++ [Instr.pop d])

/-- `codegen.rs:2022–2034`, without the destination. -/
def cuentaAdd (src dst : Texto) (redondeo : Modo) : Option Codigo := do
  let sc := cg.varScale dst
  let escala := max sc (cg.escalaOperando src)
  let carga ← cg.loadVar dst
  let operando ← cg.loadOperand src escala
  some (carga ++ (rescale sc escala ++ (apartando .rdx operando ++
    ([Instr.add .rax .rdx] ++ rescaleRedondeado escala sc redondeo))))

/-- `codegen.rs:2038–2051`. -/
def cuentaSubtract (src dst : Texto) (redondeo : Modo) : Option Codigo := do
  let sc := cg.varScale dst
  let escala := max sc (cg.escalaOperando src)
  let carga ← cg.loadVar dst
  let operando ← cg.loadOperand src escala
  some (carga ++ (rescale sc escala ++ (apartando .rdx operando ++
    ([Instr.sub .rdx .rax, .mov .rax .rdx] ++ rescaleRedondeado escala sc redondeo))))

/-- `codegen.rs:2057–2074`. -/
def cuentaMultiply (src dst : Texto) (redondeo : Modo) : Option Codigo := do
  let so := cg.escalaOperando src
  let carga ← cg.loadVar dst
  let operando ← cg.loadOperand src so
  some (carga ++ (apartando .rdx operando ++ ([Instr.imul .rax .rdx] ++
    if so > 0 then [Instr.movImm .rcx (pow10 so)] ++ dividir redondeo else [])))

/-- A division by zero goes to the statements of the clause; `codegen.rs:2091–2099`. -/
def saltoDeCero (clausula : Option Clausula) : Codigo :=
  match clausula with
  | some c => [.test .rcx .rcx, .jcc .e (.fresca c.desborda)]
  | none => []

/-- `codegen.rs:2078–2103`. The divisor is the operand. -/
def cuentaDivide (src dst : Texto) (arit : Aritmetica) : Option Codigo := do
  let so := cg.escalaOperando src
  let operando ← cg.loadOperand src so
  let carga ← cg.loadVar dst
  some (operando ++ (apartando .rcx (carga ++
    if so > 0 then [.movImm .rcx (pow10 so), .imul .rax .rcx] else []) ++
    (saltoDeCero arit.clausula ++ dividir arit.redondeo)))

/-- The value of a statement, in `rax`. -/
def cuenta (v : Verbo) (src dst : Texto) (arit : Aritmetica) : Option Codigo :=
  match v with
  | .add => cg.cuentaAdd src dst arit.redondeo
  | .subtract => cg.cuentaSubtract src dst arit.redondeo
  | .multiply => cg.cuentaMultiply src dst arit.redondeo
  | .divide => cg.cuentaDivide src dst arit

/-- The code of a statement. -/
def emitStatement (v : Verbo) (src dst : Texto) (arit : Aritmetica) : Option Codigo := do
  let cuenta ← cg.cuenta v src dst arit
  let guardar ← cg.emitGuardarConDesborde dst arit
  some (cuenta ++ guardar)

end Codegen

/-! ### What a statement says -/

/-- The exact result of a verb on its destination and its operand. -/
def Verbo.exacto : Verbo → Rat → Rat → Rat
  | add, a, b => a + b
  | subtract, a, b => a - b
  | multiply, a, b => a * b
  | divide, a, b => a / b

/-- What has to fit a word: the operand at the scale of the work, and the result there. No more than
eighteen decimals go away, and a divisor is one that the rounding is made for. -/
def Verbo.Cabe (v : Verbo) (modo : Modo) (sc : Nat) (a : Int) (so : Nat) (x : Int) : Prop :=
  match v with
  | add => Fits (x * 10 ^ (max sc so - so)) ∧
      Fits (a * 10 ^ (max sc so - sc) + x * 10 ^ (max sc so - so)) ∧ so - sc ≤ 18
  | subtract => Fits (x * 10 ^ (max sc so - so)) ∧
      Fits (a * 10 ^ (max sc so - sc) - x * 10 ^ (max sc so - so)) ∧ so - sc ≤ 18
  | multiply => Fits x ∧ Fits (a * x) ∧ so ≤ 18
  | divide => Fits x ∧ Fits (a * 10 ^ so) ∧ Fits ((a * 10 ^ so).tdiv x) ∧
      Divisible modo (a * 10 ^ so) x

namespace Codegen

variable {cg : Codegen}

/-! ### What the code does -/

/-- What is apart comes back, with what has been computed meanwhile. -/
theorem run_apartando {m : Machine} {d : Reg} {code : Codigo} {w : UInt64} (hd : d ∈ libres)
    (hrax : d ≠ .rax)
    (h : ∃ m', run code none { m with stack := m.reg .rax :: m.stack } = .next m' ∧
      Keeps libres { m with stack := m.reg .rax :: m.stack } m' ∧ m'.reg .rax = w) :
    ∃ m', run (apartando d code) none m = .next m' ∧ Keeps libres m m' ∧ m'.reg .rax = w ∧
      m'.reg d = m.reg .rax := by
  obtain ⟨m1, hrun1, hkeep1, hrax1⟩ := h
  let m2 : Machine := { m1.set d (m.reg .rax) with stack := m.stack }
  have hrun2 : run ([.pop d] : Codigo) none m1 = .next m2 := by
    simp only [run, step, hkeep1.stack]
    rfl
  refine ⟨m2, ?_, ⟨fun r hr ↦ ?_, hkeep1.mem, rfl⟩, ?_, ?_⟩
  · unfold apartando
    rw [run_append_of_next (show run ([.push .rax] : Codigo) none m = .next _ from rfl),
      run_append_of_next hrun1, hrun2]
  · have hne : r ≠ d := by
      rintro rfl
      exact hr hd
    exact (Function.update_of_ne hne ..).trans (hkeep1.reg r hr)
  · exact (Function.update_of_ne hrax.symm ..).trans hrax1
  · exact Function.update_self ..

/-- The decimals of an operand are those of its value. -/
theorem Vale.escala {m : Machine} {name : Texto} {x : Int} {e : Nat} (h : cg.Vale m name x e) :
    cg.escalaOperando name = e := by
  unfold escalaOperando
  cases h with
  | dato hvar hs => rw [if_pos hvar]
  | literal hvar hlit =>
    rw [if_neg (by simp [hvar])]
    exact decimales_literal hlit

/-- What an operand is does not depend on the stack. -/
theorem Vale.congr {m m' : Machine} {name : Texto} {x : Int} {e : Nat}
    (hrbp : m'.reg .rbp = m.reg .rbp) (hmem : m'.mem = m.mem) (h : cg.Vale m name x e) :
    cg.Vale m' name x e := by
  cases h with
  | dato hvar hs =>
    rw [← hmem]
    exact .dato hvar (hs.congr hrbp hmem)
  | literal hvar hlit => exact .literal hvar hlit

private theorem signed_pow10 {k : Nat} (h : k ≤ 18) : signed (pow10 k) = 10 ^ k := by
  have hle : 10 ^ k ≤ 10 ^ 18 := Nat.pow_le_pow_right (by decide) h
  unfold pow10
  rw [signed_ofNat (hle.trans_lt (by norm_num))]
  push_cast
  rfl

private theorem run_rescale_down {m : Machine} {desde hasta : Nat} (hle : hasta ≤ desde)
    (hmax : desde - hasta ≤ 18) (modo : Modo) :
    ∃ m', run (rescaleRedondeado desde hasta modo) none m = .next m' ∧ Keeps libres m m' ∧
      signed (m'.reg .rax) =
        modo.redondea ((signed (m.reg .rax) : Rat) / 10 ^ (desde - hasta)) := by
  unfold rescaleRedondeado
  by_cases heq : desde = hasta
  · refine ⟨m, by rw [if_pos heq]; rfl, .refl, ?_⟩
    rw [heq, Nat.sub_self, pow_zero, div_one, modo.redondea_intCast]
  · let m1 := m.set .rcx (pow10 (desde - hasta))
    have hkeep1 : Keeps libres m m1 := Keeps.refl.set (by decide)
    have hrcx : signed (m1.reg .rcx) = 10 ^ (desde - hasta) := signed_pow10 hmax
    obtain ⟨m2, hrun2, hkeep2, hrax2⟩ := @run_dividir m1 (by rw [hrcx]; positivity) modo
    refine ⟨m2, ?_, hkeep1.trans (hkeep2.mono (by decide)), ?_⟩
    · rw [if_neg heq, if_neg (by omega),
        run_append_of_next (show run ([.movImm .rcx _] : Codigo) none m = .next m1 from rfl), hrun2]
    · rw [hrax2, hrcx]
      push_cast
      rfl

section

variable (h : cg.Bien) {src dst : Texto} {m : Machine} {s : Sitio} {so : Nat} {x : Int}
  {carga operando : Codigo} (hcabe : cg.Cabe m) (hs : cg.Designa m dst s)
  (hx : cg.Vale m src x so) (hcarga : cg.loadVar dst = some carga)
include h hcabe hs hx hcarga

private theorem run_operandos {sc escala : Nat} (hop : cg.loadOperand src escala = some operando)
    (hle : so ≤ escala) (hfits : Fits (x * 10 ^ (escala - so))) (hsc : sc ≤ escala) :
    ∃ m', (∀ rest, run (carga ++ (rescale sc escala ++ (apartando .rdx operando ++ rest))) none m =
        run rest none m') ∧ Keeps libres m m' ∧
      m'.reg .rax = ofSigned (x * 10 ^ (escala - so)) ∧
      m'.reg .rdx = ofSigned (s.valor m.mem * 10 ^ (escala - sc)) := by
  obtain ⟨m1, hrun1, hkeep1, hrax1⟩ := run_loadVar h hcabe hcarga hs
  obtain ⟨m2, hrun2, hkeep2, hrax2⟩ := run_rescale_up hsc hrax1 .truncar
  have hkeep := hkeep1.trans hkeep2
  let m2' : Machine := { m2 with stack := m2.reg .rax :: m2.stack }
  have hcabe2 : cg.Cabe m2 := cabe_of_keeps hkeep (by decide) hcabe
  have hx2 : cg.Vale m2' src x so :=
    @Vale.congr cg m m2' src x so (hkeep.reg _ (by decide)) hkeep.mem hx
  obtain ⟨m3, hrun3, hkeep3, hrax3, hrdx3⟩ := @run_apartando m2 .rdx operando _ (by decide)
    (by decide) (@run_loadOperand cg h _ _ m2' hcabe2 _ _ _ hop hx2 hle hfits)
  refine ⟨m3, fun rest ↦ ?_, hkeep.trans hkeep3, hrax3, hrdx3.trans hrax2⟩
  unfold rescale
  rw [run_append_of_next hrun1, run_append_of_next hrun2, run_append_of_next hrun3]

end

private theorem a_escala {x : Rat} {so sc escala : Nat} (hso : so ≤ escala) (hsc : sc ≤ escala) :
    x / 10 ^ so * 10 ^ sc = x * 10 ^ (escala - so) / 10 ^ (escala - sc) := by
  have h1 : (10 : Rat) ^ sc * 10 ^ (escala - sc) = 10 ^ (escala - so) * 10 ^ so := by
    rw [← pow_add, ← pow_add]
    congr 1
    omega
  rw [div_mul_eq_mul_div, div_eq_div_iff (by positivity) (by positivity), mul_assoc, mul_assoc, h1]

/-- What an emission does with the value of a statement: it is in `rax`, and nothing else but the
registers has changed. -/
def Da (code : Codigo) (m : Machine) (v : Int) : Prop :=
  ∃ m', run code none m = .next m' ∧ Keeps libres m m' ∧ signed (m'.reg .rax) = v

theorem Da.tras {code rest : Codigo} {m m' : Machine} {v : Int} (hrun : run code none m = .next m')
    (hkeep : Keeps libres m m') (h : Da rest m' v) : Da (code ++ rest) m v := by
  obtain ⟨m'', hrun', hkeep', hv⟩ := h
  exact ⟨m'', (run_append_of_next hrun).trans hrun', hkeep.trans hkeep', hv⟩

theorem da_rescale {m : Machine} {desde hasta : Nat} {n : Int} (hn : signed (m.reg .rax) = n)
    (hle : hasta ≤ desde) (hmax : desde - hasta ≤ 18) (modo : Modo) :
    Da (rescaleRedondeado desde hasta modo) m
      (modo.redondea ((n : Rat) / 10 ^ (desde - hasta))) := by
  rw [← hn]
  exact run_rescale_down hle hmax modo

private theorem run_saltoDeCero {m : Machine} (clausula : Option Clausula)
    (hrcx : signed (m.reg .rcx) ≠ 0) :
    ∃ m', run (saltoDeCero clausula) none m = .next m' ∧ Keeps [] m m' := by
  cases clausula with
  | none => exact ⟨m, rfl, .refl⟩
  | some c =>
    have hne : m.reg .rcx ≠ 0 := mt signed_eq_zero.mpr hrcx
    have he (w : UInt64) : Cond.holds (testFlags w) .e = decide (w = 0) := rfl
    simp only [saltoDeCero, run, step, UInt64.and_self, he, hne, decide_false, Bool.false_eq_true,
      if_false, Outcome.next.injEq, exists_eq_left']
    exact ⟨fun r hr ↦ rfl, rfl, rfl⟩

section

variable (h : cg.Bien) {src dst : Texto} {m : Machine} {s : Sitio} {so : Nat} {x : Int}
  {code : Codigo} {modo : Modo} (hcabe : cg.Cabe m) (hs : cg.Designa m dst s)
  (hx : cg.Vale m src x so)
include h hcabe hs hx

/-- The operands come to one scale, `opera` makes of them the number `r`, and this goes to the scale
of the destination. -/
private theorem da_opera {sc escala : Nat} {carga operando opera : Codigo} {r : Int} {q : Rat}
    (hcarga : cg.loadVar dst = some carga) (hop : cg.loadOperand src escala = some operando)
    (hso : so ≤ escala) (hsc : sc ≤ escala) (hfx : Fits (x * 10 ^ (escala - so)))
    (hdown : escala - sc ≤ 18)
    (hopera : ∀ m1 : Machine, m1.reg .rax = ofSigned (x * 10 ^ (escala - so)) →
      m1.reg .rdx = ofSigned (s.valor m.mem * 10 ^ (escala - sc)) →
        ∃ m2, run opera none m1 = .next m2 ∧ Keeps libres m1 m2 ∧ signed (m2.reg .rax) = r)
    (hq : q = (r : Rat) / 10 ^ (escala - sc)) :
    Da (carga ++ (rescale sc escala ++ (apartando .rdx operando ++
      (opera ++ rescaleRedondeado escala sc modo)))) m (modo.redondea q) := by
  obtain ⟨m1, hrun1, hkeep1, hrax1, hrdx1⟩ :=
    run_operandos h hcabe hs hx hcarga hop hso hfx hsc
  obtain ⟨m2, hrun2, hkeep2, hr⟩ := hopera m1 hrax1 hrdx1
  obtain ⟨m3, hrun3, hkeep3, hv⟩ := Da.tras hrun2 hkeep2 (da_rescale hr hsc hdown modo)
  rw [hq]
  exact ⟨m3, (hrun1 _).trans hrun3, hkeep1.trans hkeep3, hv⟩

private theorem da_cuentaAdd (hcode : cg.cuentaAdd src dst modo = some code)
    (hfit : Verbo.add.Cabe modo (cg.varScale dst) (s.valor m.mem) so x) :
    Da code m (modo.redondea (Verbo.add.exacto (s.valor m.mem / 10 ^ cg.varScale dst)
      (x / 10 ^ so) * 10 ^ cg.varScale dst)) := by
  obtain ⟨hfx, hfsum, hmax⟩ := hfit
  unfold cuentaAdd at hcode
  rw [hx.escala] at hcode
  simp only [Option.bind_eq_bind, Option.bind_eq_some_iff] at hcode
  obtain ⟨carga, hcarga, operando, hop, hcode⟩ := hcode
  cases hcode
  generalize cg.varScale dst = sc at *
  have hso := le_max_right sc so
  have hsc := le_max_left sc so
  refine da_opera h hcabe hs hx hcarga hop hso hsc hfx (by omega) (fun m1 hrax hrdx ↦
    ⟨m1.setF .rax (m1.reg .rax + m1.reg .rdx), rfl, ⟨fun r hr ↦ ?_, rfl, rfl⟩, ?_⟩)
    (r := s.valor m.mem * 10 ^ (max sc so - sc) + x * 10 ^ (max sc so - so)) ?_
  · simp [libres] at hr
    simp [hr]
  · rw [Machine.setF_reg, if_pos rfl, hrax, hrdx, ← ofSigned_add, add_comm, signed_ofSigned hfsum]
  · unfold Verbo.exacto
    dsimp only
    rw [add_mul, a_escala hsc hsc, a_escala hso hsc, ← add_div]
    push_cast
    rfl

private theorem da_cuentaSubtract (hcode : cg.cuentaSubtract src dst modo = some code)
    (hfit : Verbo.subtract.Cabe modo (cg.varScale dst) (s.valor m.mem) so x) :
    Da code m (modo.redondea (Verbo.subtract.exacto (s.valor m.mem / 10 ^ cg.varScale dst)
      (x / 10 ^ so) * 10 ^ cg.varScale dst)) := by
  obtain ⟨hfx, hfsum, hmax⟩ := hfit
  unfold cuentaSubtract at hcode
  rw [hx.escala] at hcode
  simp only [Option.bind_eq_bind, Option.bind_eq_some_iff] at hcode
  obtain ⟨carga, hcarga, operando, hop, hcode⟩ := hcode
  cases hcode
  generalize cg.varScale dst = sc at *
  have hso := le_max_right sc so
  have hsc := le_max_left sc so
  refine da_opera h hcabe hs hx hcarga hop hso hsc hfx (by omega) (fun m1 hrax hrdx ↦
    ⟨(m1.setF .rdx (m1.reg .rdx - m1.reg .rax)).set .rax (m1.reg .rdx - m1.reg .rax), ?_,
      ⟨fun r hr ↦ ?_, rfl, rfl⟩, ?_⟩)
    (r := s.valor m.mem * 10 ^ (max sc so - sc) - x * 10 ^ (max sc so - so)) ?_
  · simp [run, step]
  · simp [libres] at hr
    simp [hr]
  · rw [Machine.set_reg, if_pos rfl, hrax, hrdx, ← ofSigned_sub, signed_ofSigned hfsum]
  · unfold Verbo.exacto
    dsimp only
    rw [sub_mul, a_escala hsc hsc, a_escala hso hsc, ← sub_div]
    push_cast
    rfl

private theorem da_cuentaMultiply (hcode : cg.cuentaMultiply src dst modo = some code)
    (hfit : Verbo.multiply.Cabe modo (cg.varScale dst) (s.valor m.mem) so x) :
    Da code m (modo.redondea (Verbo.multiply.exacto (s.valor m.mem / 10 ^ cg.varScale dst)
      (x / 10 ^ so) * 10 ^ cg.varScale dst)) := by
  obtain ⟨hfx, hfprod, hmax⟩ := hfit
  unfold cuentaMultiply at hcode
  rw [hx.escala] at hcode
  simp only [Option.bind_eq_bind, Option.bind_eq_some_iff] at hcode
  obtain ⟨carga, hcarga, operando, hop, hcode⟩ := hcode
  cases hcode
  generalize cg.varScale dst = sc at *
  obtain ⟨m1, hrun1, hkeep1, hrax1, hrdx1⟩ := @run_operandos cg h src dst m s so x carga operando
    hcabe hs hx hcarga so so hop le_rfl (by rwa [Nat.sub_self, pow_zero, mul_one]) le_rfl
  rw [Nat.sub_self, pow_zero, mul_one] at hrax1 hrdx1
  have hnada : rescale so so = [] := if_pos rfl
  rw [hnada] at hrun1
  let m2 := m1.setF .rax (m1.reg .rax * m1.reg .rdx)
  have hkeep2 : Keeps libres m1 m2 := Keeps.refl.setF (by decide)
  have hrax2 : signed (m2.reg .rax) = s.valor m.mem * x := by
    simp only [m2, Machine.setF_reg, if_true]
    rw [hrax1, hrdx1, ← ofSigned_mul, mul_comm, signed_ofSigned hfprod]
  have hexacto : Verbo.multiply.exacto (s.valor m.mem / 10 ^ sc) (x / 10 ^ so) * 10 ^ sc =
      ((s.valor m.mem * x : Int) : Rat) / 10 ^ (so - 0) := by
    unfold Verbo.exacto
    push_cast
    rw [Nat.sub_zero]
    field_simp
  have hbaja : (if so > 0 then ([Instr.movImm .rcx (pow10 so)] ++ dividir modo : Codigo) else []) =
      rescaleRedondeado so 0 modo := by
    unfold rescaleRedondeado
    rcases Nat.eq_zero_or_pos so with rfl | hpos
    · rfl
    · rw [if_pos hpos, if_neg hpos.ne', if_neg (by omega), Nat.sub_zero]
  rw [hexacto, hbaja]
  obtain ⟨m3, hrun3, hkeep3, hv⟩ := Da.tras
    (show run ([.imul .rax .rdx] : Codigo) none m1 = .next m2 from rfl) hkeep2
    (da_rescale hrax2 (Nat.zero_le so) hmax modo)
  exact ⟨m3, (hrun1 _).trans hrun3, hkeep1.trans hkeep3, hv⟩

theorem da_cuentaDivide {arit : Aritmetica} (hcode : cg.cuentaDivide src dst arit = some code)
    (hfit : Verbo.divide.Cabe arit.redondeo (cg.varScale dst) (s.valor m.mem) so x) :
    Da code m (arit.redondeo.redondea (Verbo.divide.exacto (s.valor m.mem / 10 ^ cg.varScale dst)
      (x / 10 ^ so) * 10 ^ cg.varScale dst)) := by
  obtain ⟨hfx, hfdiv, hfq, hdiv⟩ := hfit
  unfold cuentaDivide at hcode
  rw [hx.escala] at hcode
  simp only [Option.bind_eq_bind, Option.bind_eq_some_iff] at hcode
  obtain ⟨operando, hop, carga, hcarga, hcode⟩ := hcode
  cases hcode
  generalize cg.varScale dst = sc at *
  have hnada : x * 10 ^ (so - so) = x := by rw [Nat.sub_self, pow_zero, mul_one]
  obtain ⟨m1, hrun1, hkeep1, hrax1⟩ := run_loadOperand h hcabe hop hx le_rfl (by rwa [hnada])
  rw [hnada] at hrax1
  let m1' : Machine := { m1 with stack := m1.reg .rax :: m1.stack }
  have hcabe1 : cg.Cabe m1 := cabe_of_keeps hkeep1 (by decide) hcabe
  have hs1 : cg.Designa m1' dst s :=
    @Designa.congr cg m m1' dst s (hkeep1.reg _ (by decide)) hkeep1.mem hs
  obtain ⟨m2, hrun2, hkeep2, hrax2⟩ := @run_loadVar cg h dst carga m1' s hcabe1 hcarga hs1
  obtain ⟨m3, hrun3, hkeep3, hrax3⟩ := run_rescale_up (Nat.zero_le so) hrax2 .truncar
  have hsube : (if so > 0 then ([.movImm .rcx (pow10 so), .imul .rax .rcx] : Codigo) else []) =
      rescaleRedondeado 0 so .truncar := by
    unfold rescaleRedondeado
    rcases Nat.eq_zero_or_pos so with rfl | hpos
    · rfl
    · rw [if_pos hpos, if_neg hpos.ne, if_pos hpos, Nat.sub_zero]
  obtain ⟨m4, hrun4, hkeep4, hrax4, hrcx4⟩ := @run_apartando m1 .rcx _ _ (by decide) (by decide)
    ⟨m3, (run_append_of_next hrun2).trans hrun3, hkeep2.trans hkeep3, hrax3⟩
  have hx0 : x ≠ 0 := by
    rcases hdiv with hpos | ⟨hne, -⟩
    · exact hpos.ne'
    · exact hne
  have hrcx : signed (m4.reg .rcx) = x := by rw [hrcx4, hrax1, signed_ofSigned hfx]
  obtain ⟨m5, hrun5, hkeep5⟩ := run_saltoDeCero arit.clausula (by rwa [hrcx])
  have hrcx5 : signed (m5.reg .rcx) = x := by rw [hkeep5.reg _ (by decide), hrcx]
  have hrax5 : signed (m5.reg .rax) = s.valor m.mem * 10 ^ so := by
    rw [hkeep5.reg _ (by decide), hrax4, Nat.sub_zero, hkeep1.mem, signed_ofSigned hfdiv]
  obtain ⟨m6, hrun6, hkeep6, hrax6⟩ := @run_dividir_de m5 arit.redondeo (by rwa [hrax5, hrcx5])
    (by rwa [hrax5, hrcx5])
  have hexacto : Verbo.divide.exacto (s.valor m.mem / 10 ^ sc) (x / 10 ^ so) * 10 ^ sc =
      ((s.valor m.mem * 10 ^ so : Int) : Rat) / x := by
    have hx' : (x : Rat) ≠ 0 := by exact_mod_cast hx0
    unfold Verbo.exacto
    push_cast
    field_simp
  rw [hexacto, hsube]
  refine ⟨m6, ?_, ?_, ?_⟩
  · rw [run_append_of_next hrun1, run_append_of_next hrun4, run_append_of_next hrun5, hrun6]
  · exact hkeep1.trans (hkeep4.trans ((hkeep5.mono (by decide)).trans (hkeep6.mono (by decide))))
  · rw [hrax6, hrax5, hrcx5]

/-- The value of a statement is the exact result, rounded. -/
theorem da_cuenta {v : Verbo} {arit : Aritmetica} (hcode : cg.cuenta v src dst arit = some code)
    (hfit : v.Cabe arit.redondeo (cg.varScale dst) (s.valor m.mem) so x) :
    Da code m (arit.redondeo.redondea (v.exacto (s.valor m.mem / 10 ^ cg.varScale dst)
      (x / 10 ^ so) * 10 ^ cg.varScale dst)) := by
  cases v with
  | add => exact da_cuentaAdd h hcabe hs hx hcode hfit
  | subtract => exact da_cuentaSubtract h hcabe hs hx hcode hfit
  | multiply => exact da_cuentaMultiply h hcabe hs hx hcode hfit
  | divide => exact da_cuentaDivide h hcabe hs hx hcode hfit

/-- A statement without the clause leaves in its destination what this keeps of the result. -/
theorem run_emitStatement {v : Verbo} (hcode : cg.emitStatement v src dst ⟨modo, none⟩ = some code)
    (hfit : v.Cabe modo (cg.varScale dst) (s.valor m.mem) so x) :
    ∃ m', run code none m = .next m' ∧ Only libres s.Ocupa m m' ∧
      s.valor m'.mem = s.recibe (modo.redondea (v.exacto (s.valor m.mem / 10 ^ cg.varScale dst)
        (x / 10 ^ so) * 10 ^ cg.varScale dst)) := by
  unfold emitStatement at hcode
  simp only [Option.bind_eq_bind, Option.bind_eq_some_iff] at hcode
  obtain ⟨cuenta, hcuenta, guardar, hguardar, hcode⟩ := hcode
  cases hcode
  obtain ⟨m1, hrun1, hkeep1, hv⟩ := da_cuenta h hcabe hs hx hcuenta hfit
  have hcabe1 : cg.Cabe m1 := cabe_of_keeps hkeep1 (by decide) hcabe
  have hs1 : cg.Designa m1 dst s :=
    @Designa.congr cg m m1 dst s (hkeep1.reg _ (by decide)) hkeep1.mem hs
  obtain ⟨m2, hrun2, honly2, hval⟩ := run_storeVar h hcabe1 hguardar hs1
  exact ⟨m2, (run_append_of_next hrun1).trans hrun2, hkeep1.only.trans honly2, by rw [hval, hv]⟩

end

/-- A statement leaves in its destination the exact result, rounded once to its scale, or what the
destination keeps of it, and no other datum changes; the data take less than `2^31` bytes. -/
theorem statement_exact {items : List DataItem} (hpos : ∀ item ∈ items, 0 < item.elementos)
    (hmarco : marco items < 2 ^ 31) (hcg : reparte items = some cg) {v : Verbo}
    {src dst : Texto} {modo : Modo} {code : Codigo}
    (hcode : cg.emitStatement v src dst ⟨modo, none⟩ = some code) {m : Machine}
    (hcabe : cg.Cabe m) {s : Sitio} (hs : cg.Designa m dst s) {x : Int} {so : Nat}
    (hx : cg.Vale m src x so) (hfit : v.Cabe modo (cg.varScale dst) (s.valor m.mem) so x) :
    ∃ m', run code none m = .next m' ∧
      s.valor m'.mem = s.recibe (modo.redondea (v.exacto (s.valor m.mem / 10 ^ cg.varScale dst)
        (x / 10 ^ so) * 10 ^ cg.varScale dst)) ∧
      (∀ t, cg.Dato m t → t ≠ s → t.valor m'.mem = t.valor m.mem) ∧
      ∀ a, ¬s.Ocupa a → m'.mem a = m.mem a := by
  have h := bien_of_reparte hpos hmarco hcg
  obtain ⟨m', hrun, honly, hval⟩ := run_emitStatement h hcabe hs hx hcode hfit
  refine ⟨m', hrun, hval, ?_, honly.mem⟩
  intro t ht hne
  exact hs.esDato.valor_de_otro h hcabe ht hne honly.mem

/-! ### Examples of the frame -/

/-- `01 A PIC S9(3)V99.` and `01 B PIC 9(3) COMP-3.` -/
def datosChicos : List DataItem :=
  [⟨1, ['A'], some ⟨3, 2, true, true, 0, .display⟩, .display, none⟩,
    ⟨1, ['B'], some ⟨3, 0, false, true, 0, .comp3⟩, .comp3, none⟩]

def cgChico : Codegen := datosChicos.foldl declara new

/-- `A` is `1.00` and `B` is `3`. -/
def maquinaChica : Machine where
  reg := Function.update (fun _ ↦ 0) .rbp 1024
  flags := none
  stack := []
  mem := fun a ↦ if a = 1016 then 100 else if a = 1009 then 0x3F else 0

theorem reparte_chico : reparte datosChicos = some cgChico := if_pos (by decide)

theorem elementos_chicos : ∀ item ∈ datosChicos, 0 < item.elementos := by decide

theorem marco_chico : marco datosChicos < 2 ^ 31 := by decide

theorem bien_chico : cgChico.Bien := bien_of_reparte elementos_chicos marco_chico reparte_chico

theorem cabe_chica : cgChico.Cabe maquinaChica := by
  change cgChico.stackSize ≤ (maquinaChica.reg .rbp).toNat
  decide

theorem designa_A : cgChico.Designa maquinaChica ['A'] ⟨1016, none⟩ := by
  have h := @Designa.suelto cgChico maquinaChica ['A'] (-8) (by decide) (by decide)
  rwa [show (⟨maquinaChica.frame (-8), cgChico.packedDe ['A']⟩ : Sitio) = ⟨1016, none⟩ by
    decide] at h

theorem designa_B : cgChico.Designa maquinaChica ['B'] ⟨1008, some (2, false)⟩ := by
  have h := @Designa.suelto cgChico maquinaChica ['B'] (-16) (by decide) (by decide)
  rwa [show (⟨maquinaChica.frame (-16), cgChico.packedDe ['B']⟩ : Sitio) =
    ⟨1008, some (2, false)⟩ by decide] at h

theorem valor_A : Sitio.valor ⟨1016, none⟩ maquinaChica.mem = 100 := by decide

private theorem valor_B : Sitio.valor ⟨1008, some (2, false)⟩ maquinaChica.mem = 3 := by decide

/-- `ADD 0.005 TO A ROUNDED.` -/
theorem statement_exact_chica : ∃ code,
    cgChico.emitStatement .add ['0', '.', '0', '0', '5'] ['A'] ⟨.masCercanoLejosDeCero, none⟩ =
      some code ∧
    ∃ m', run code none maquinaChica = .next m' ∧ Sitio.valor ⟨1016, none⟩ m'.mem = 101 := by
  have hcode : (cgChico.emitStatement .add ['0', '.', '0', '0', '5'] ['A']
      ⟨.masCercanoLejosDeCero, none⟩).isSome := by decide
  obtain ⟨code, hcode⟩ := Option.isSome_iff_exists.mp hcode
  have hscale : cgChico.varScale ['A'] = 2 := by decide
  have hB : cgChico.Vale maquinaChica ['0', '.', '0', '0', '5'] 5 3 :=
    .literal (by decide) (by decide)
  have hfit : Verbo.add.Cabe .masCercanoLejosDeCero 2 100 3 5 :=
    ⟨by decide, by decide, by decide⟩
  obtain ⟨m', hrun, hval, -⟩ := statement_exact elementos_chicos marco_chico reparte_chico hcode
    cabe_chica designa_A hB (by rwa [valor_A, hscale])
  refine ⟨code, hcode, m', hrun, hval.trans ?_⟩
  rw [valor_A, hscale]
  have hexacto : Verbo.add.exacto ((100 : Int) / 10 ^ 2) ((5 : Int) / 10 ^ 3) * 10 ^ 2 =
      ((1005 : Int) : Rat) / (10 : Int) := by
    norm_num [Verbo.exacto]
  rw [hexacto, ← dividirEnRust_eq (by decide)]
  decide

/-- `SUBTRACT 5 FROM B.`: a picture without a sign keeps no sign, so that packed digits do not hold
every exact result. -/
theorem statement_not_exact : ¬∀ {items : List DataItem} {cg : Codegen} {v : Verbo}
    {src dst : Texto} {modo : Modo} {code : Codigo} {m : Machine} {s : Sitio} {x : Int} {so : Nat},
    (∀ item ∈ items, 0 < item.elementos) → marco items < 2 ^ 31 → reparte items = some cg →
    cg.emitStatement v src dst ⟨modo, none⟩ = some code →
    cg.Cabe m → cg.Designa m dst s → cg.Vale m src x so →
    v.Cabe modo (cg.varScale dst) (s.valor m.mem) so x →
    ∃ m', run code none m = .next m' ∧
      s.valor m'.mem = modo.redondea (v.exacto (s.valor m.mem / 10 ^ cg.varScale dst)
        (x / 10 ^ so) * 10 ^ cg.varScale dst) := by
  intro hall
  have hcode : (cgChico.emitStatement .subtract ['5'] ['B'] ⟨.truncar, none⟩).isSome := by
    decide
  obtain ⟨code, hcode⟩ := Option.isSome_iff_exists.mp hcode
  have hscale : cgChico.varScale ['B'] = 0 := by decide
  have h5 : cgChico.Vale maquinaChica ['5'] 5 0 := .literal (by decide) (by decide)
  have hfit : Verbo.subtract.Cabe .truncar 0 3 0 5 := ⟨by decide, by decide, by decide⟩
  rw [← valor_B, ← hscale] at hfit
  obtain ⟨m', hrun, hval⟩ := hall elementos_chicos marco_chico reparte_chico hcode cabe_chica
    designa_B h5 hfit
  obtain ⟨m'', hrun', -, hval'⟩ := run_emitStatement bien_chico cabe_chica designa_B h5 hcode hfit
  obtain rfl : m' = m'' := by simpa using hrun.symm.trans hrun'
  have hexacto : Verbo.subtract.exacto ((3 : Int) / 10 ^ 0) ((5 : Int) / 10 ^ 0) * 10 ^ 0 =
      ((-2 : Int) : Rat) := by
    norm_num [Verbo.exacto]
  rw [valor_B, hscale, hexacto, Modo.redondea_intCast] at hval hval'
  rw [hval] at hval'
  exact absurd hval' (by decide)

end Codegen

end BmoX.Cobol
