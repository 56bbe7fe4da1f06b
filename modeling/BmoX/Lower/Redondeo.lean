import BmoX.Base.Bits
import BmoX.Base.Rounding
import BmoX.Base.X86

/-!
# Decimal rounding

`toolchain/forge/bmo-lower/src/redondeo.rs`. Code that divides a scaled integer and settles its last
digit by one of the modes of the standard, and the same rule at compile time. Both are the rounding
of the exact quotient, for a divisor above zero.
-/

namespace BmoX.Lower

open BmoX.Base BmoX.Base.X86

/-- Where a jump goes: a place that is patched right away, a label of `fresh_label`, or the block of
a table whose subscript is out of range. -/
inductive Etiqueta
  | salto (n : Nat)
  | fresca (n : Nat)
  | fuera (tabla : List Char)
  deriving DecidableEq

abbrev Codigo := List (Instr Etiqueta)

/-- The modes of the standard; `redondeo.rs:38–67`. -/
inductive Modo
  | truncar
  | masCercanoLejosDeCero
  | masCercanoPar
  | masCercanoHaciaCero
  | haciaArriba
  | haciaAbajo
  deriving DecidableEq, Repr

/-- The nearest modes compare twice the remainder with the divisor; `redondeo.rs:134–172`. -/
def masCercano (fuera : Codigo) : Codigo :=
  ([.mov .rsi .rdx, .test .rsi .rsi, .jcc .ns (.salto 0), .neg .rsi, .label (.salto 0),
    .shl .rsi 1, .cmp .rcx .rsi] : Codigo) ++ fuera ++
  -- `negativo_salta`
  [.test .rdx .rdx, .jcc .ns (.salto 2), .dec .rax, .jmp (.salto 3), .label (.salto 2),
    .inc .rax, .label (.salto 3), .label (.salto 4)]

/-- What a mode does after the division. -/
def ajuste (modo : Modo) : Codigo :=
  match modo with
  | .truncar => []
  | .haciaArriba =>
    [.test .rdx .rdx, .jcc .e (.salto 0), .jcc .ns (.salto 1), .jmp (.salto 0),
      .label (.salto 1), .inc .rax, .label (.salto 0)]
  | .haciaAbajo =>
    [.test .rdx .rdx, .jcc .ns (.salto 0), .dec .rax, .label (.salto 0)]
  | .masCercanoLejosDeCero => masCercano [.jcc .a (.salto 4)]
  | .masCercanoHaciaCero => masCercano [.jcc .ae (.salto 4)]
  | .masCercanoPar =>
    masCercano [.jcc .a (.salto 4), .jcc .ne (.salto 1), .mov .rdi .rax, .andImm .rdi 1,
      .test .rdi .rdi, .jcc .e (.salto 4), .label (.salto 1)]

/-- `rax = rax / rcx`, rounded; `redondeo.rs:79–178`. -/
def dividir (modo : Modo) : Codigo := [Instr.cqo, .idiv .rcx] ++ ajuste modo

/-- The rule, of a quotient, what it leaves over and the divisor. -/
def ajustar (q r divisor : Int) (modo : Modo) : Int :=
  if r = 0 then q
  else
    let paso := if r < 0 then -1 else 1
    let doble := r.natAbs * 2
    let d := divisor.natAbs
    match modo with
    | .truncar => q
    | .masCercanoLejosDeCero => if doble ≥ d then q + paso else q
    | .masCercanoHaciaCero => if doble > d then q + paso else q
    | .masCercanoPar => if doble > d ∨ doble = d ∧ q.tmod 2 ≠ 0 then q + paso else q
    | .haciaArriba => if r > 0 then q + 1 else q
    | .haciaAbajo => if r < 0 then q - 1 else q

/-- The same rule at compile time; `redondeo.rs:180–213`. -/
def dividirEnRust (dividendo divisor : Int) (modo : Modo) : Int :=
  ajustar (dividendo.tdiv divisor) (dividendo.tmod divisor) divisor modo

/-! ### What the modes are -/

/-- What a mode makes of a number, by the names of the standard. -/
def Modo.redondea : Modo → Rat → Int
  | truncar, q => truncate q
  | masCercanoLejosDeCero, q => nearest (fun f ↦ decide (0 ≤ f)) q
  | masCercanoPar, q => nearest (fun f ↦ decide (f % 2 = 1)) q
  | masCercanoHaciaCero, q => nearest (fun f ↦ decide (f < 0)) q
  | haciaArriba, q => ⌈q⌉
  | haciaAbajo, q => ⌊q⌋

/-- The rule is the rounding of the exact quotient. -/
theorem dividirEnRust_eq {n d : Int} (hd : 0 < d) (modo : Modo) :
    dividirEnRust n d modo = modo.redondea ((n : Rat) / d) := by
  obtain ⟨hpos, hneg⟩ := ediv_of_tdiv (n := n) hd
  have h1 := Int.tmod_lt_of_pos n hd
  have h2 := Int.lt_tmod_of_pos n hd
  have hq := Int.mul_tdiv_add_tmod n d
  unfold dividirEnRust ajustar
  dsimp only
  have htrunc := truncate_div (n := n) hd
  have hceil := ceil_div (n := n) hd
  have hpar : (n.tdiv d).tmod 2 = 0 ↔ n.tdiv d % 2 = 0 := by
    rw [← Int.dvd_iff_tmod_eq_zero, Int.dvd_iff_emod_eq_zero]
  have hsign : (n.tmod d < 0 → n / d < 0) ∧ (0 < n.tmod d → 0 ≤ n / d) := by
    constructor
    · intro hr
      apply Int.ediv_neg_of_neg_of_pos _ hd
      by_contra h0
      exact absurd (Int.tmod_nonneg d (Int.not_lt.mp h0)) (Int.not_le.mpr hr)
    · intro hr
      apply Int.ediv_nonneg _ hd.le
      by_contra h0
      exact absurd (tmod_nonpos (Int.not_le.mp h0).le) (Int.not_le.mpr hr)
  generalize n.tmod d = r at *
  generalize n.tdiv d = q at *
  rcases lt_trichotomy r 0 with hr | hr | hr
  · obtain ⟨e1, e2⟩ := hneg hr
    have hlt := hsign.1 hr
    rw [e1] at hlt
    cases modo <;>
      simp only [Modo.redondea, nearest_div hd, floor_div hd, htrunc, hceil, e1, e2,
        decide_eq_true_eq, hpar, ne_eq] <;>
      split_ifs <;> omega
  · obtain ⟨e1, e2⟩ := hpos hr.ge
    cases modo <;>
      simp only [Modo.redondea, nearest_div hd, floor_div hd, htrunc, hceil, e1, e2,
        decide_eq_true_eq, hpar, ne_eq] <;>
      split_ifs <;> omega
  · obtain ⟨e1, e2⟩ := hpos hr.le
    have hle := hsign.2 hr
    rw [e1] at hle
    cases modo <;>
      simp only [Modo.redondea, nearest_div hd, floor_div hd, htrunc, hceil, e1, e2,
        decide_eq_true_eq, hpar, ne_eq] <;>
      split_ifs <;> omega

/-- A whole number is rounded to itself. -/
theorem Modo.redondea_intCast (modo : Modo) (q : Int) : modo.redondea (q : Rat) = q := by
  have hnearest (up : Int → Bool) : nearest up (q : Rat) = q := by
    unfold nearest
    rw [Int.floor_intCast, sub_self, if_pos (by norm_num)]
  cases modo with
  | truncar =>
    change truncate _ = q
    unfold truncate
    split
    · exact Int.floor_intCast q
    · exact Int.ceil_intCast q
  | haciaArriba => exact Int.ceil_intCast q
  | haciaAbajo => exact Int.floor_intCast q
  | masCercanoLejosDeCero => exact hnearest fun f ↦ decide (0 ≤ f)
  | masCercanoPar => exact hnearest fun f ↦ decide (f % 2 = 1)
  | masCercanoHaciaCero => exact hnearest fun f ↦ decide (f < 0)

/-- The modes that round every number in the direction of its neighbours. -/
def Modo.Dirigido (modo : Modo) : Prop := modo = truncar ∨ modo = haciaArriba ∨ modo = haciaAbajo

instance (modo : Modo) : Decidable modo.Dirigido := inferInstanceAs (Decidable (_ ∨ _ ∨ _))

/-- Rounded twice in one direction is rounded once. -/
theorem Modo.Dirigido.redondea_redondea {modo : Modo} (h : modo.Dirigido) (q : Rat) {k : Int}
    (hk : 0 < k) : modo.redondea ((modo.redondea q : Rat) / k) = modo.redondea (q / k) := by
  rcases h with rfl | rfl | rfl
  · exact truncate_truncate_div hk
  · exact ceil_ceil_div hk
  · exact floor_floor_div hk

/-! ### What the code does -/

/-- The registers that a division uses. -/
def usados : List Reg := [.rax, .rdx, .rsi, .rdi]

private theorem signed_cqo (w : UInt64) :
    signed (if signed w < 0 then ofSigned (-1) else 0) * 2 ^ 64 + w.toNat = signed w := by
  split
  · next h =>
    rw [signed_ofSigned (by decide), toNat_of_neg h]
    omega
  · next h =>
    rw [signed_zero, toNat_of_nonneg (Int.not_lt.mp h)]
    omega

/-- A quotient that fits, and its remainder. -/
theorem run_idiv {L : Type} [DecidableEq L] {m : Machine} (hd : signed (m.reg .rcx) ≠ 0)
    (hq : Fits ((signed (m.reg .rax)).tdiv (signed (m.reg .rcx)))) :
    ∃ m', run ([.cqo, .idiv .rcx] : List (Instr L)) none m = .next m' ∧ Keeps usados m m' ∧
      signed (m'.reg .rax) = (signed (m.reg .rax)).tdiv (signed (m.reg .rcx)) ∧
      signed (m'.reg .rdx) = (signed (m.reg .rax)).tmod (signed (m.reg .rcx)) := by
  have hdf := fits_signed (m.reg .rcx)
  have hlt : ((signed (m.reg .rax)).tmod (signed (m.reg .rcx))).natAbs <
      (signed (m.reg .rcx)).natAbs := by
    rw [Int.natAbs_tmod]
    exact Nat.mod_lt _ (Int.natAbs_pos.mpr hd)
  have hr : Fits ((signed (m.reg .rax)).tmod (signed (m.reg .rcx))) := by
    unfold Fits at *
    omega
  have hok : ¬(signed (m.reg .rcx) = 0 ∨
      ¬Fits ((signed (m.reg .rax)).tdiv (signed (m.reg .rcx)))) := by
    rw [not_or, not_not]
    exact ⟨hd, hq⟩
  simp only [run, step, Machine.set_reg, reduceCtorEq, if_true, if_false, signed_cqo, if_neg hok,
    Outcome.next.injEq, exists_eq_left']
  refine ⟨⟨fun r hr ↦ ?_, rfl, rfl⟩, ?_, ?_⟩
  · simp [usados] at hr
    simp [hr]
  · simp [signed_ofSigned hq]
  · simp [signed_ofSigned hr]

/-- Twice a remainder, without its sign, and the flags of the divisor against it. -/
theorem run_doble {m : Machine} (hlt : 2 * (signed (m.reg .rdx)).natAbs < 2 ^ 64) :
    ∃ m', run ([.mov .rsi .rdx, .test .rsi .rsi, .jcc .ns (.salto 0), .neg .rsi,
        .label (.salto 0), .shl .rsi 1, .cmp .rcx .rsi] : Codigo) none m = .next m' ∧
      Keeps [.rsi] m m' ∧ ∃ w : UInt64, w.toNat = 2 * (signed (m.reg .rdx)).natAbs ∧
        m'.flags = some (cmpFlags (m.reg .rcx) w) := by
  have hshl (w : UInt64) (hw : 2 * w.toNat < 2 ^ 64) : (w <<< 1).toNat = 2 * w.toNat := by
    rw [toNat_shiftLeft (by decide) (by change _ * 2 < _; omega)]
    exact Nat.mul_comm ..
  by_cases h : signed (m.reg .rdx) < 0
  · have hneg := toNat_neg_of_neg h
    simp only [run, step, testFlags, Cond.holds, h, Machine.set_reg, Machine.setF_reg, if_true,
      UInt64.and_self, decide_true, Bool.not_true, Bool.false_eq_true, if_false, reduceCtorEq,
      Outcome.next.injEq, exists_eq_left']
    refine ⟨⟨fun r hr ↦ ?_, rfl, rfl⟩, _, ?_, rfl⟩
    · simp at hr
      simp [Machine.setF, Machine.set, hr]
    · rw [hshl _ (by omega)]
      omega
  · have hpos := toNat_of_nonneg (Int.not_lt.mp h)
    simp only [run, step, testFlags, Cond.holds, h, Machine.set_reg, Machine.setF_reg, if_true,
      UInt64.and_self, decide_false, Bool.not_false, if_false, reduceCtorEq, Instr.is,
      decide_true, Bool.false_eq_true, Outcome.next.injEq, exists_eq_left']
    refine ⟨⟨fun r hr ↦ ?_, rfl, rfl⟩, _, ?_, rfl⟩
    · simp at hr
      simp [Machine.setF, Machine.set, hr]
    · rw [hshl _ (by omega)]
      omega

private theorem run_ajuste (m : Machine) :
    ∃ m', run ([.test .rdx .rdx, .jcc .ns (.salto 2), .dec .rax, .jmp (.salto 3),
        .label (.salto 2), .inc .rax, .label (.salto 3), .label (.salto 4)] : Codigo) none m =
        .next m' ∧ Keeps [.rax] m m' ∧
      m'.reg .rax = if signed (m.reg .rdx) < 0 then m.reg .rax - 1 else m.reg .rax + 1 := by
  by_cases h : signed (m.reg .rdx) < 0
  · simp only [run, step, testFlags, Cond.holds, h, UInt64.and_self, decide_true, Bool.not_true,
      Bool.false_eq_true, if_false, Instr.is, if_true, Outcome.next.injEq,
      exists_eq_left', Etiqueta.salto.injEq, decide_false, Nat.reduceEqDiff]
    refine ⟨⟨fun r hr ↦ ?_, rfl, rfl⟩, ?_⟩
    · simp at hr
      simp [Machine.setF, Machine.set, hr]
    · simp
  · simp only [run, step, testFlags, Cond.holds, h, UInt64.and_self, decide_false, Bool.not_false,
      Bool.false_eq_true, if_false, Instr.is, if_true, Outcome.next.injEq,
      exists_eq_left', decide_true]
    refine ⟨⟨fun r hr ↦ ?_, rfl, rfl⟩, ?_⟩
    · simp at hr
      simp [Machine.setF, Machine.set, hr]
    · simp

private theorem run_lejosDeCero {m : Machine} {d w : UInt64} (h : m.flags = some (cmpFlags d w)) :
    run ([.jcc .a (.salto 4)] : Codigo) none m =
      if w.toNat < d.toNat then .jump (.salto 4) m else .next m := by
  have hflag : Cond.holds (cmpFlags d w) .a = decide (w.toNat < d.toNat) := by
    simp only [Cond.holds, cmpFlags, ← UInt64.toNat_inj]
    grind
  by_cases hlt : w.toNat < d.toNat <;> simp [run, step, h, hflag, hlt]

private theorem run_haciaCero {m : Machine} {d w : UInt64} (h : m.flags = some (cmpFlags d w)) :
    run ([.jcc .ae (.salto 4)] : Codigo) none m =
      if w.toNat ≤ d.toNat then .jump (.salto 4) m else .next m := by
  have hflag : Cond.holds (cmpFlags d w) .ae = decide (w.toNat ≤ d.toNat) := by
    simp only [Cond.holds, cmpFlags]
    grind
  by_cases hle : w.toNat ≤ d.toNat <;> simp [run, step, h, hflag, hle]

/-- In a tie, an even quotient stays. -/
theorem run_par {m : Machine} {d w : UInt64} (h : m.flags = some (cmpFlags d w)) :
    ∃ m', Keeps [.rdi] m m' ∧ run ([.jcc .a (.salto 4), .jcc .ne (.salto 1), .mov .rdi .rax,
        .andImm .rdi 1, .test .rdi .rdi, .jcc .e (.salto 4), .label (.salto 1)] : Codigo) none m =
      if w.toNat < d.toNat ∨ w.toNat = d.toNat ∧ signed (m.reg .rax) % 2 = 0 then
        .jump (.salto 4) m' else .next m' := by
  have ha : Cond.holds (cmpFlags d w) .a = decide (w.toNat < d.toNat) := by
    simp only [Cond.holds, cmpFlags, ← UInt64.toNat_inj]
    grind
  have hne : Cond.holds (cmpFlags d w) .ne = decide (w.toNat ≠ d.toNat) := by
    simp only [Cond.holds, cmpFlags, ← UInt64.toNat_inj]
    grind
  have he (v : UInt64) : Cond.holds (testFlags v) .e = decide (v = 0) := rfl
  by_cases hlt : w.toNat < d.toNat
  · refine ⟨m, .refl, ?_⟩
    simp [run, step, h, ha, hlt, Instr.is]
  · by_cases heq : w.toNat = d.toNat
    · by_cases hpar : signed (m.reg .rax) % 2 = 0
      · have hrdi := (and_one_eq_zero (m.reg .rax)).mpr hpar
        refine ⟨{ (m.set .rdi (m.reg .rax)).setF .rdi (m.reg .rax &&& 1) with
            flags := some (testFlags (m.reg .rax &&& 1)) }, ⟨fun r hr ↦ ?_, rfl, rfl⟩, ?_⟩
        · simp at hr
          simp [Machine.setF, Machine.set, hr]
        · simp [run, step, h, ha, hne, he, heq, Instr.is, hrdi, hpar]
      · have hrdi := mt (and_one_eq_zero (m.reg .rax)).mp hpar
        refine ⟨{ (m.set .rdi (m.reg .rax)).setF .rdi (m.reg .rax &&& 1) with
            flags := some (testFlags (m.reg .rax &&& 1)) }, ⟨fun r hr ↦ ?_, rfl, rfl⟩, ?_⟩
        · simp at hr
          simp [Machine.setF, Machine.set, hr]
        · simp [run, step, h, ha, hne, he, heq, hrdi, hpar]
    · refine ⟨m, .refl, ?_⟩
      simp [run, step, h, ha, hne, hlt, heq, Instr.is]

/-- A nearest mode keeps the quotient where `fuera` leaves for the end of the code. -/
theorem run_masCercano {fuera : Codigo} {m : Machine} {queda : Prop} [Decidable queda]
    (hlt : 2 * (signed (m.reg .rdx)).natAbs < 2 ^ 64)
    (hfuera : ∀ (m' : Machine) (w : UInt64), w.toNat = 2 * (signed (m.reg .rdx)).natAbs →
      m'.reg .rax = m.reg .rax → m'.flags = some (cmpFlags (m.reg .rcx) w) →
      ∃ m'', Keeps [.rdi] m' m'' ∧
        run fuera none m' = if queda then .jump (.salto 4) m'' else .next m'') :
    ∃ m', run (masCercano fuera) none m = .next m' ∧ Keeps usados m m' ∧
      m'.reg .rax = if queda then m.reg .rax
        else if signed (m.reg .rdx) < 0 then m.reg .rax - 1 else m.reg .rax + 1 := by
  obtain ⟨m1, hrun1, hkeep1, w, hw, hflags⟩ := run_doble hlt
  obtain ⟨m2, hkeep2, hrun2⟩ := hfuera m1 w hw (hkeep1.reg _ (by decide)) hflags
  have hkeep : Keeps usados m m2 :=
    (hkeep1.mono (by decide)).trans (hkeep2.mono (by decide))
  have hrax : m2.reg .rax = m.reg .rax :=
    (hkeep2.reg _ (by decide)).trans (hkeep1.reg _ (by decide))
  have hrdx : m2.reg .rdx = m.reg .rdx :=
    (hkeep2.reg _ (by decide)).trans (hkeep1.reg _ (by decide))
  unfold masCercano
  rw [List.append_assoc, run_append_of_next hrun1, run_append, hrun2]
  by_cases hq : queda
  · rw [if_pos hq, if_pos hq]
    exact ⟨m2, rfl, hkeep, hrax⟩
  · rw [if_neg hq, if_neg hq]
    obtain ⟨m3, hrun3, hkeep3, hrax3⟩ := run_ajuste m2
    refine ⟨m3, hrun3, hkeep.trans (hkeep3.mono (by decide)), ?_⟩
    rw [hrax3, hrax, hrdx]

private theorem fits_cociente {n d : Int} (hn : Fits n) (hr : n.tmod d ≠ 0) (hd : 0 < d) :
    Fits (n.tdiv d - 1) ∧ Fits (n.tdiv d + 1) := by
  have h2 : 2 ≤ d.natAbs := by
    by_contra h
    have h1 : d = 1 := by omega
    exact hr (by rw [h1, Int.tmod_one])
  have hle : (n.tdiv d).natAbs ≤ n.natAbs / 2 := by
    rw [Int.natAbs_tdiv]
    exact Nat.div_le_div_left h2 (by decide)
  unfold Fits at *
  omega

/-- What comes after a division: one step from the quotient, or none. -/
theorem run_ajustado {m : Machine} (h0 : (signed (m.reg .rdx)).natAbs < (signed (m.reg .rcx)))
    (hroom : signed (m.reg .rdx) ≠ 0 →
      Fits (signed (m.reg .rax) - 1) ∧ Fits (signed (m.reg .rax) + 1)) (modo : Modo) :
    ∃ m', run (ajuste modo) none m = .next m' ∧ Keeps usados m m' ∧
      signed (m'.reg .rax) = ajustar (signed (m.reg .rax)) (signed (m.reg .rdx))
        (signed (m.reg .rcx)) modo := by
  have hdf := fits_signed (m.reg .rcx)
  have hmenos (h : signed (m.reg .rdx) ≠ 0) :
      signed (m.reg .rax - 1) = signed (m.reg .rax) - 1 := signed_sub (hroom h).1
  have hmas (h : signed (m.reg .rdx) ≠ 0) :
      signed (m.reg .rax + 1) = signed (m.reg .rax) + 1 := signed_add (hroom h).2
  have hd0 : ((m.reg .rcx).toNat : Int) = signed (m.reg .rcx) := toNat_of_nonneg (by omega)
  have hlt : 2 * (signed (m.reg .rdx)).natAbs < 2 ^ 64 := by
    unfold Fits at hdf
    omega
  have hcercano (fuera : Codigo) (queda : Prop) [Decidable queda]
      (hqueda : signed (m.reg .rdx) = 0 → queda)
      (hfuera : ∀ (m' : Machine) (w : UInt64), w.toNat = 2 * (signed (m.reg .rdx)).natAbs →
        m'.reg .rax = m.reg .rax → m'.flags = some (cmpFlags (m.reg .rcx) w) →
        ∃ m'', Keeps [.rdi] m' m'' ∧
          run fuera none m' = if queda then .jump (.salto 4) m'' else .next m'') :
      ∃ m', run (masCercano fuera) none m = .next m' ∧ Keeps usados m m' ∧
        signed (m'.reg .rax) = if queda then signed (m.reg .rax) else
          signed (m.reg .rax) + if signed (m.reg .rdx) < 0 then -1 else 1 := by
    obtain ⟨m', hrun, hkeep, hrax⟩ := run_masCercano hlt hfuera
    refine ⟨m', hrun, hkeep, ?_⟩
    rw [hrax]
    split
    · rfl
    · next hq =>
      split
      · exact hmenos (mt hqueda hq)
      · exact hmas (mt hqueda hq)
  have hetest (w : UInt64) : Cond.holds (testFlags w) .e = decide (w = 0) := rfl
  have hnstest (w : UInt64) : Cond.holds (testFlags w) .ns = !decide (signed w < 0) := rfl
  cases modo with
  | truncar =>
    refine ⟨m, rfl, .refl, ?_⟩
    unfold ajustar
    split <;> rfl
  | haciaArriba =>
    unfold ajuste ajustar
    rcases lt_trichotomy (signed (m.reg .rdx)) 0 with h | h | h
    · have hz : m.reg .rdx ≠ 0 := mt signed_eq_zero.mpr h.ne
      simp only [run, step, hetest, hnstest, UInt64.and_self, hz, h, Instr.is, decide_false,
        decide_true, Bool.not_true, Bool.false_eq_true, if_false, if_true, reduceCtorEq,
        Etiqueta.salto.injEq, Outcome.next.injEq, exists_eq_left', h.ne, not_lt.mpr h.le]
      exact ⟨⟨fun r hr ↦ rfl, rfl, rfl⟩, trivial⟩
    · have hz : m.reg .rdx = 0 := signed_eq_zero.mp h
      simp only [run, step, hetest, UInt64.and_self, hz, Instr.is, decide_true, if_true,
        Outcome.next.injEq, exists_eq_left', signed_zero, Etiqueta.salto.injEq,
        one_ne_zero, decide_false, Bool.false_eq_true, if_false]
      exact ⟨⟨fun r hr ↦ rfl, rfl, rfl⟩, trivial⟩
    · have hz : m.reg .rdx ≠ 0 := mt signed_eq_zero.mpr h.ne'
      simp only [run, step, hetest, hnstest, UInt64.and_self, hz, h, Instr.is, decide_false,
        decide_true, Bool.not_false, Bool.false_eq_true, if_false, if_true,
        Etiqueta.salto.injEq, Outcome.next.injEq, exists_eq_left', h.ne', not_lt.mpr h.le,
        zero_ne_one]
      refine ⟨⟨fun r hr ↦ ?_, rfl, rfl⟩, ?_⟩
      · simp [usados] at hr
        simp [hr]
      · simp [hmas h.ne']
  | haciaAbajo =>
    unfold ajuste ajustar
    by_cases h : signed (m.reg .rdx) < 0
    · simp only [run, step, hnstest, UInt64.and_self, h, decide_true, Bool.not_true,
        Bool.false_eq_true, if_false, if_true, Outcome.next.injEq, exists_eq_left', h.ne]
      refine ⟨⟨fun r hr ↦ ?_, rfl, rfl⟩, ?_⟩
      · simp [usados] at hr
        simp [hr]
      · simp [hmenos h.ne]
    · simp only [run, step, hnstest, UInt64.and_self, h, decide_false, Bool.not_false, if_true,
        if_false, Instr.is, Bool.false_eq_true, decide_true, Outcome.next.injEq,
        exists_eq_left', ite_self]
      exact ⟨⟨fun r hr ↦ rfl, rfl, rfl⟩, trivial⟩
  | masCercanoLejosDeCero =>
    obtain ⟨m', hrun, hkeep, hrax⟩ := hcercano [.jcc .a (.salto 4)]
      (2 * (signed (m.reg .rdx)).natAbs < (m.reg .rcx).toNat) (by omega) (by
        intro m' w hw _ hflags
        refine ⟨m', .refl, ?_⟩
        rw [run_lejosDeCero hflags, hw])
    refine ⟨m', hrun, hkeep, ?_⟩
    rw [hrax]
    unfold ajustar
    dsimp only
    split_ifs <;> omega
  | masCercanoHaciaCero =>
    obtain ⟨m', hrun, hkeep, hrax⟩ := hcercano [.jcc .ae (.salto 4)]
      (2 * (signed (m.reg .rdx)).natAbs ≤ (m.reg .rcx).toNat) (by omega) (by
        intro m' w hw _ hflags
        refine ⟨m', .refl, ?_⟩
        rw [run_haciaCero hflags, hw])
    refine ⟨m', hrun, hkeep, ?_⟩
    rw [hrax]
    unfold ajustar
    dsimp only
    split_ifs <;> omega
  | masCercanoPar =>
    obtain ⟨m', hrun, hkeep, hrax⟩ := hcercano [.jcc .a (.salto 4), .jcc .ne (.salto 1),
        .mov .rdi .rax, .andImm .rdi 1, .test .rdi .rdi, .jcc .e (.salto 4), .label (.salto 1)]
      (2 * (signed (m.reg .rdx)).natAbs < (m.reg .rcx).toNat ∨
        2 * (signed (m.reg .rdx)).natAbs = (m.reg .rcx).toNat ∧ signed (m.reg .rax) % 2 = 0)
      (by omega) (by
        intro m' w hw hrax hflags
        obtain ⟨m'', hkeep, hrun⟩ := run_par hflags
        refine ⟨m'', hkeep, ?_⟩
        rw [hrun, hw, hrax])
    have hpar : (signed (m.reg .rax)).tmod 2 = 0 ↔ signed (m.reg .rax) % 2 = 0 := by
      rw [← Int.dvd_iff_tmod_eq_zero, Int.dvd_iff_emod_eq_zero]
    refine ⟨m', hrun, hkeep, ?_⟩
    rw [hrax]
    unfold ajustar
    dsimp only
    split_ifs <;> omega

/-- The code divides by the rule, where the quotient fits and so does what it is rounded to. -/
theorem run_dividir {m : Machine} (hd : 0 < signed (m.reg .rcx)) (modo : Modo) :
    ∃ m', run (dividir modo) none m = .next m' ∧ Keeps usados m m' ∧
      signed (m'.reg .rax) =
        modo.redondea ((signed (m.reg .rax) : Rat) / signed (m.reg .rcx)) := by
  obtain ⟨m1, hrun1, hkeep1, hrax, hrdx⟩ :=
    run_idiv (L := Etiqueta) hd.ne' (fits_tdiv (fits_signed (m.reg .rax)) hd)
  have hrcx : m1.reg .rcx = m.reg .rcx := hkeep1.reg _ (by decide)
  have h1 := Int.tmod_lt_of_pos (signed (m.reg .rax)) hd
  have h2 := Int.lt_tmod_of_pos (signed (m.reg .rax)) hd
  have hroom := fun hr ↦ fits_cociente (fits_signed (m.reg .rax)) hr hd
  rw [← hrax, ← hrdx] at hroom
  rw [← hrdx, ← hrcx] at h1 h2
  obtain ⟨m2, hrun2, hkeep2, hrax2⟩ := run_ajustado (by omega) hroom modo
  refine ⟨m2, ?_, hkeep1.trans hkeep2, ?_⟩
  · exact (run_append_of_next hrun1).trans hrun2
  · rw [hrax2, hrax, hrdx, hrcx, ← dividirEnRust_eq hd]
    rfl

/-- For a divisor above zero the code does not fault, leaves the divisor as it was, and answers what
the rule at compile time answers, which is the rounding of the exact quotient. -/
theorem dividir_redondea {m : Machine} (hd : 1 ≤ signed (m.reg .rcx)) (modo : Modo) :
    ∃ m', run (dividir modo) none m = .next m' ∧ m'.reg .rcx = m.reg .rcx ∧
      signed (m'.reg .rax) =
        dividirEnRust (signed (m.reg .rax)) (signed (m.reg .rcx)) modo ∧
      signed (m'.reg .rax) =
        modo.redondea ((signed (m.reg .rax) : Rat) / signed (m.reg .rcx)) := by
  have hpos : 0 < signed (m.reg .rcx) := hd
  obtain ⟨m', hrun, hkeep, hrax⟩ := run_dividir hpos modo
  have hrcx : m'.reg .rcx = m.reg .rcx := hkeep.reg _ (by decide)
  refine ⟨m', hrun, hrcx, ?_, hrax⟩
  rw [hrax, dividirEnRust_eq hpos]

/-- Two and a half. -/
def dosYMedio : Machine := ⟨fun r ↦ if r = .rcx then 10 else 25, none, [], fun _ ↦ 0⟩

theorem dividir_dosYMedio : 1 ≤ signed (dosYMedio.reg .rcx) ∧
    ∃ m', run (dividir .masCercanoPar) none dosYMedio = .next m' ∧
      m'.reg .rcx = dosYMedio.reg .rcx ∧ signed (m'.reg .rax) = dividirEnRust 25 10 .masCercanoPar ∧
      signed (m'.reg .rax) = Modo.redondea .masCercanoPar ((25 : Int) / (10 : Int)) :=
  ⟨by decide, dividir_redondea (m := dosYMedio) (by decide) .masCercanoPar⟩

/-- Nothing is left over, and the quotient stays, by any divisor. -/
theorem run_exacto {m : Machine} (hrdx : signed (m.reg .rdx) = 0) (hrcx : signed (m.reg .rcx) ≠ 0)
    (modo : Modo) :
    ∃ m', run (ajuste modo) none m = .next m' ∧ Keeps usados m m' ∧
      m'.reg .rax = m.reg .rax := by
  have hzero : m.reg .rdx = 0 := signed_eq_zero.mp hrdx
  have hpos : 0 < (m.reg .rcx).toNat := by
    apply Nat.pos_of_ne_zero
    intro h0
    apply hrcx
    rw [signed_eq_zero, ← UInt64.toNat_inj, h0]
    rfl
  have hcercano (fuera : Codigo)
      (hfuera : ∀ (m' : Machine) (w : UInt64), w.toNat = 0 →
        m'.flags = some (cmpFlags (m.reg .rcx) w) →
        ∃ m'', Keeps [.rdi] m' m'' ∧ run fuera none m' = .jump (.salto 4) m'') :
      ∃ m', run (masCercano fuera) none m = .next m' ∧ Keeps usados m m' ∧
        m'.reg .rax = m.reg .rax := by
    obtain ⟨m', hrun, hkeep, hrax⟩ := @run_masCercano fuera m True _ (by rw [hrdx]; decide) (by
      intro m' w hw _ hflags
      rw [hrdx] at hw
      obtain ⟨m'', hkeep, hrun⟩ := hfuera m' w hw hflags
      exact ⟨m'', hkeep, hrun.trans (if_pos trivial).symm⟩)
    exact ⟨m', hrun, hkeep, hrax.trans (if_pos trivial)⟩
  have hetest (w : UInt64) : Cond.holds (testFlags w) .e = decide (w = 0) := rfl
  have hnstest (w : UInt64) : Cond.holds (testFlags w) .ns = !decide (signed w < 0) := rfl
  cases modo with
  | truncar => exact ⟨m, rfl, .refl, rfl⟩
  | haciaArriba =>
    unfold ajuste
    simp only [run, step, hetest, UInt64.and_self, hzero, Instr.is, decide_true, if_true,
      Outcome.next.injEq, exists_eq_left', Etiqueta.salto.injEq, one_ne_zero, decide_false,
      Bool.false_eq_true, if_false]
    exact ⟨⟨fun r hr ↦ rfl, rfl, rfl⟩, trivial⟩
  | haciaAbajo =>
    unfold ajuste
    simp only [run, step, hnstest, UInt64.and_self, hrdx, lt_irrefl, Instr.is, decide_true,
      decide_false, Bool.not_false, if_true, Outcome.next.injEq, exists_eq_left',
      Bool.false_eq_true, if_false]
    exact ⟨⟨fun r hr ↦ rfl, rfl, rfl⟩, trivial⟩
  | masCercanoLejosDeCero =>
    apply hcercano
    intro m' w hw hflags
    refine ⟨m', .refl, ?_⟩
    rw [run_lejosDeCero hflags, hw, if_pos hpos]
  | masCercanoHaciaCero =>
    apply hcercano
    intro m' w hw hflags
    refine ⟨m', .refl, ?_⟩
    rw [run_haciaCero hflags, hw, if_pos hpos.le]
  | masCercanoPar =>
    apply hcercano
    intro m' w hw hflags
    obtain ⟨m'', hkeep, hrun⟩ := run_par hflags
    refine ⟨m'', hkeep, ?_⟩
    rw [hrun, hw, if_pos (Or.inl hpos)]

/-- A divisor that the adjustment is made for: above zero, or one that needs none. -/
def Divisible (modo : Modo) (n d : Int) : Prop := 0 < d ∨ d ≠ 0 ∧ (modo = .truncar ∨ d ∣ n)

/-- The code divides by the rule also where it does not adjust. -/
theorem run_dividir_de {m : Machine} {modo : Modo}
    (h : Divisible modo (signed (m.reg .rax)) (signed (m.reg .rcx)))
    (hq : Fits ((signed (m.reg .rax)).tdiv (signed (m.reg .rcx)))) :
    ∃ m', run (dividir modo) none m = .next m' ∧ Keeps usados m m' ∧
      signed (m'.reg .rax) =
        modo.redondea ((signed (m.reg .rax) : Rat) / signed (m.reg .rcx)) := by
  rcases h with hd | ⟨hd, h⟩
  · exact run_dividir hd modo
  obtain ⟨m1, hrun1, hkeep1, hrax, hrdx⟩ := run_idiv (L := Etiqueta) hd hq
  have hrcx : m1.reg .rcx = m.reg .rcx := hkeep1.reg _ (by decide)
  rcases h with rfl | h
  · refine ⟨m1, ?_, hkeep1, ?_⟩
    · exact (run_append_of_next hrun1).trans rfl
    · rw [hrax]
      exact (truncate_div_of_ne hd).symm
  · rw [Int.tmod_eq_zero_of_dvd h] at hrdx
    obtain ⟨m2, hrun2, hkeep2, hrax2⟩ := run_exacto hrdx (by rwa [hrcx]) modo
    refine ⟨m2, (run_append_of_next hrun1).trans hrun2, hkeep1.trans hkeep2, ?_⟩
    rw [hrax2, hrax]
    obtain ⟨k, hk⟩ := h
    have hd' : ((signed (m.reg .rcx) : Int) : Rat) ≠ 0 := by exact_mod_cast hd
    have hquot : (signed (m.reg .rax) : Rat) / signed (m.reg .rcx) = (k : Int) := by
      rw [hk, Int.cast_mul, mul_div_cancel_left₀ _ hd']
    rw [hquot, modo.redondea_intCast, hk, Int.mul_tdiv_cancel_left _ hd]

end BmoX.Lower
