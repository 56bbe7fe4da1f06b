import BmoX.Cobol.Etiquetas
import BmoX.Lower.Tarea

/-!
# Tables

`toolchain/lang/cobol/emisor-x86_64/src/codegen.rs:326–455, 526–573, 1423–1482`. An element is
reached by its subscript: a literal is settled at compile time, and a datum at run time, with a
guard before any address is used. A subscript that is out of its table ends the program with a
message. -/

namespace BmoX.Cobol

open BmoX.Base BmoX.Base.X86 BmoX.Lower

namespace Codegen

/-! ### A subscript out of range -/

variable (cg : Codegen)

/-- The name of an element whose subscript, or one inside it, is not in the table `tabla`. -/
inductive Fuera (m : Machine) : Texto → Texto → Prop
  | dato {name base idx off n paso s} : subindice name = some (base, idx) →
      cg.varOffsets base = some off → cg.tablas base = some (n, paso) → parseI64 idx = none →
      cg.isVariable idx → cg.Designa m idx s →
      ¬(1 ≤ s.valor m.mem ∧ s.valor m.mem ≤ n) → Fuera m name base
  | texto {name base idx off n paso v} : subindice name = some (base, idx) →
      cg.varOffsets base = some off → cg.tablas base = some (n, paso) → parseI64 idx = none →
      cg.isVariable idx = false → scaledImm idx 0 = some v →
      ¬(1 ≤ signed v ∧ signed v ≤ n) → Fuera m name base
  | dentro {name base idx tabla} : subindice name = some (base, idx) → parseI64 idx = none →
      cg.isVariable idx → Fuera m idx tabla → Fuera m name tabla

/-- The subscripts that are in a name, each with its table: its own one, and those inside it. -/
inductive Subindicado : Texto → Texto → Texto → Prop
  | propio {name base idx} : subindice name = some (base, idx) → Subindicado name base idx
  | dentro {name base idx tabla interior} : subindice name = some (base, idx) →
      Subindicado idx tabla interior → Subindicado name tabla interior

/-- A datum that is a subscript in the name and is out of its table is out of it modulo `2^64` too,
as the guard sees it. -/
def CuentaBien (m : Machine) (name : Texto) : Prop :=
  ∀ base idx n paso s, Subindicado name base idx → cg.tablas base = some (n, paso) →
    parseI64 idx = none → cg.Designa m idx s → ¬(1 ≤ s.valor m.mem ∧ s.valor m.mem ≤ n) →
    ¬(1 ≤ s.valor m.mem % 2 ^ 64 ∧ s.valor m.mem % 2 ^ 64 ≤ n)

variable {cg}

/-- A subscript is in its table or not: routines that give the code of an address tell it. -/
def Decide (cg : Codegen) (direccion : Texto → Texto → Option Codigo) : Prop :=
  ∀ {name base idx : Texto} {code : Codigo} (m : Machine), subindice name = some (base, idx) →
    direccion base idx = some code →
    (∃ s, cg.Designa m name s) ∨ ∃ tabla, cg.Fuera m name tabla

theorem decide_loadVarCon {direccion : Texto → Texto → Option Codigo} (hdir : cg.Decide direccion)
    {name : Texto} {code : Codigo} (hcode : cg.loadVarCon direccion name = some code)
    (m : Machine) : (∃ s, cg.Designa m name s) ∨ ∃ tabla, cg.Fuera m name tabla := by
  unfold loadVarCon at hcode
  cases hsub : subindice name with
  | some p =>
    obtain ⟨base, idx⟩ := p
    rw [hsub] at hcode
    obtain ⟨dir, hcodedir, -⟩ := Option.bind_eq_some_iff.mp hcode
    exact hdir m hsub hcodedir
  | none =>
    rw [hsub] at hcode
    obtain ⟨off, hoff, -⟩ := Option.bind_eq_some_iff.mp hcode
    exact .inl ⟨_, .suelto hsub hoff⟩

private theorem decide_direccion (fuel : Nat) : cg.Decide (cg.emitDireccionElemento fuel) := by
  induction fuel with
  | zero => exact fun _ _ hcode ↦ absurd hcode (by simp [emitDireccionElemento])
  | succ fuel ih =>
    intro name base idx code m hsub hcode
    simp only [emitDireccionElemento, Option.bind_eq_bind, Option.bind_eq_some_iff] at hcode
    obtain ⟨off, hoff, ⟨n, paso⟩, htab, hcode⟩ := hcode
    cases hidx : parseI64 idx with
    | some fijo =>
      rw [hidx] at hcode
      dsimp only at hcode
      split at hcode
      · exact absurd hcode (by simp)
      · next hin =>
        left
        obtain ⟨k, hk⟩ : ∃ k : Nat, fijo = (k + 1 : Nat) := ⟨(fijo - 1).toNat, by omega⟩
        rw [hk] at hidx
        exact ⟨_, .fijo hsub hoff htab hidx (by omega)⟩
    | none =>
      rw [hidx] at hcode
      dsimp only at hcode
      split at hcode
      · exact absurd hcode (by simp)
      obtain ⟨carga, hcarga, -⟩ := Option.bind_eq_some_iff.mp hcode
      unfold loadOperandCon at hcarga
      cases hvar : cg.isVariable idx with
      | true =>
        rw [if_pos hvar] at hcarga
        obtain ⟨carga', hcarga', -⟩ := Option.bind_eq_some_iff.mp hcarga
        rcases decide_loadVarCon ih hcarga' m with ⟨s, hs⟩ | ⟨tabla, ht⟩
        · by_cases hin : 1 ≤ s.valor m.mem ∧ s.valor m.mem ≤ n
          · left
            obtain ⟨k, hk⟩ : ∃ k : Nat, s.valor m.mem = (k + 1 : Nat) :=
              ⟨(s.valor m.mem - 1).toNat, by omega⟩
            exact ⟨_, .dato hsub hoff htab hidx hvar hs hk (by omega)⟩
          · exact .inr ⟨base, .dato hsub hoff htab hidx hvar hs hin⟩
        · exact .inr ⟨tabla, .dentro hsub hidx hvar ht⟩
      | false =>
        rw [if_neg (by simp [hvar])] at hcarga
        obtain ⟨v, hv, -⟩ := Option.bind_eq_some_iff.mp hcarga
        by_cases hin : 1 ≤ signed v ∧ signed v ≤ n
        · left
          obtain ⟨k, hk⟩ : ∃ k : Nat, signed v = (k + 1 : Nat) := ⟨(signed v - 1).toNat, by omega⟩
          exact ⟨_, .texto hsub hoff htab hidx hvar hv hk (by omega)⟩
        · exact .inr ⟨base, .texto hsub hoff htab hidx hvar hv hin⟩

private theorem run_indice_fuera {m : Machine} {n paso : Nat} {off i : Int} {base : Texto}
    (hrax : m.reg .rax = ofSigned i) (hn : n < 2 ^ 64)
    (hfuera : ¬(1 ≤ i % 2 ^ 64 ∧ i % 2 ^ 64 ≤ n)) :
    ∃ m', run ([.dec .rax, .cmpImm .rax (UInt64.ofNat n), .jcc .ae (.fuera base),
        .movImm .rcx (UInt64.ofNat paso), .imul .rax .rcx, .lea .rcx off, .add .rcx .rax] : Codigo)
        none m = .jump (.fuera base) m' ∧ m'.mem = m.mem := by
  have hdec : m.reg .rax - 1 = ofSigned (i - 1) := by
    rw [hrax, ofSigned_sub]
    rfl
  have hge : n ≤ (ofSigned (i - 1)).toNat := by
    have hnat : (ofSigned (i - 1)).toNat = ((i - 1) % 2 ^ 64).toNat := by
      unfold ofSigned
      exact BitVec.toNat_ofInt ..
    rw [hnat]
    omega
  have hae : Cond.holds (cmpFlags (ofSigned (i - 1)) (UInt64.ofNat n)) .ae = true := by
    rw [holds_cmpFlags_ae, UInt64.toNat_ofNat_of_lt' hn]
    exact decide_eq_true hge
  simp [run, step, hdec, hae, Instr.is]

/-- What it takes for a subscript out of range: routines whose code leads to the block of the table,
with the memory as it was. -/
def Para (cg : Codegen) (direccion : Texto → Texto → Option Codigo) : Prop :=
  ∀ {name base idx tabla : Texto} {code : Codigo} {m : Machine},
    subindice name = some (base, idx) → direccion base idx = some code → cg.Cabe m →
    cg.CuentaBien m name → cg.Fuera m name tabla →
    ∃ m', run code none m = .jump (.fuera tabla) m' ∧ m'.mem = m.mem

private theorem run_append_of_fuera {is js : Codigo} {m m' : Machine} {tabla : Texto}
    (hrun : run is none m = .jump (.fuera tabla) m') (hjs : SoloSaltos js) :
    run (is ++ js) none m = .jump (.fuera tabla) m' := by
  rw [run_append, hrun, Outcome.andThen, run_skip (hjs.is_eq_false (by simp))]

theorem para_loadVarCon {direccion : Texto → Texto → Option Codigo} (hdir : cg.Para direccion)
    {name tabla : Texto} {code : Codigo} {m : Machine}
    (hcode : cg.loadVarCon direccion name = some code) (hcabe : cg.Cabe m)
    (hcuenta : cg.CuentaBien m name) (hf : cg.Fuera m name tabla) :
    ∃ m', run code none m = .jump (.fuera tabla) m' ∧ m'.mem = m.mem := by
  unfold loadVarCon at hcode
  cases hsub : subindice name with
  | some p =>
    obtain ⟨base, idx⟩ := p
    rw [hsub] at hcode
    simp only [Option.bind_eq_bind, Option.bind_eq_some_iff] at hcode
    obtain ⟨dir, hcodedir, lee, hlee, hcode⟩ := hcode
    cases hcode
    obtain ⟨m', hrun, hmem⟩ := hdir hsub hcodedir hcabe hcuenta hf
    exact ⟨m', run_append_of_fuera hrun (soloSaltos_leeDe hlee), hmem⟩
  | none =>
    cases hf with
    | dato hsub' => exact absurd (hsub.symm.trans hsub') (by simp)
    | texto hsub' => exact absurd (hsub.symm.trans hsub') (by simp)
    | dentro hsub' => exact absurd (hsub.symm.trans hsub') (by simp)

theorem para_direccion (h : cg.Bien) (fuel : Nat) : cg.Para (cg.emitDireccionElemento fuel) := by
  induction fuel with
  | zero => exact fun _ hcode ↦ absurd hcode (by simp [emitDireccionElemento])
  | succ fuel ih =>
    intro name base idx tabla code m hsub hcode hcabe hcuenta hf
    rw [emitDireccionElemento_succ h] at hcode
    simp only [Option.bind_eq_bind, Option.bind_eq_some_iff] at hcode
    obtain ⟨off, hoff, ⟨n, paso⟩, htab, hcode⟩ := hcode
    have hn := elementos_lt h hoff htab
    have hlit : parseI64 idx = none := by
      cases hf with
      | dato hsub' _ _ hidx =>
        obtain ⟨-, rfl⟩ := Prod.mk.inj (Option.some.inj (hsub.symm.trans hsub'))
        exact hidx
      | texto hsub' _ _ hidx =>
        obtain ⟨-, rfl⟩ := Prod.mk.inj (Option.some.inj (hsub.symm.trans hsub'))
        exact hidx
      | dentro hsub' hidx =>
        obtain ⟨-, rfl⟩ := Prod.mk.inj (Option.some.inj (hsub.symm.trans hsub'))
        exact hidx
    rw [hlit] at hcode
    dsimp only at hcode
    split at hcode
    · exact absurd hcode (by simp)
    next hscale =>
    rw [not_not] at hscale
    obtain ⟨carga, hcarga, hcode⟩ := Option.bind_eq_some_iff.mp hcode
    cases hcode
    unfold loadOperandCon at hcarga
    cases hf with
    | @dato _ base' idx' off' n' paso' s hsub' hoff' htab' hidx hvar hs hfuera =>
      obtain ⟨rfl, rfl⟩ := Prod.mk.inj (Option.some.inj (hsub.symm.trans hsub'))
      obtain ⟨rfl, rfl⟩ := Prod.mk.inj (Option.some.inj (htab.symm.trans htab'))
      rw [if_pos hvar] at hcarga
      obtain ⟨carga', hcarga', hcarga⟩ := Option.bind_eq_some_iff.mp hcarga
      cases hcarga
      obtain ⟨m1, hrun1, hkeep1, hrax1⟩ := run_loadVarCon h (acierta h fuel) hcarga' hcabe hs
      obtain ⟨m2, hrun2, hmem2⟩ :=
        @run_indice_fuera m1 n paso off (s.valor m.mem) base hrax1 (hn.trans (by decide))
          (hcuenta base idx n paso s (.propio hsub) htab hidx hs hfuera)
      refine ⟨m2, ?_, hmem2.trans hkeep1.mem⟩
      rw [hscale, List.append_assoc, run_append_of_next hrun1]
      exact hrun2
    | @texto _ base' idx' off' n' paso' v hsub' hoff' htab' hidx hvar hv hfuera =>
      obtain ⟨rfl, rfl⟩ := Prod.mk.inj (Option.some.inj (hsub.symm.trans hsub'))
      obtain ⟨rfl, rfl⟩ := Prod.mk.inj (Option.some.inj (htab.symm.trans htab'))
      rw [if_neg (by simp [hvar]), hv] at hcarga
      cases hcarga
      have hfits := fits_signed v
      unfold Fits at hfits
      obtain ⟨m2, hrun2, hmem2⟩ :=
        @run_indice_fuera (m.set .rax v) n paso off (signed v) base
          (by rw [Machine.set_reg, if_pos rfl, ofSigned_signed]) (hn.trans (by decide)) (by omega)
      exact ⟨m2, hrun2, hmem2⟩
    | dentro hsub' hidx hvar hf' =>
      obtain ⟨rfl, rfl⟩ := Prod.mk.inj (Option.some.inj (hsub.symm.trans hsub'))
      rw [if_pos hvar] at hcarga
      obtain ⟨carga', hcarga', hcarga⟩ := Option.bind_eq_some_iff.mp hcarga
      cases hcarga
      have hcuenta' : cg.CuentaBien m idx := fun base' idx' n' paso' s hi ↦
        hcuenta base' idx' n' paso' s (.dentro hsub hi)
      obtain ⟨m1, hrun1, hmem1⟩ := para_loadVarCon ih hcarga' hcabe hcuenta' hf'
      refine ⟨m1, ?_, hmem1⟩
      rw [hscale, List.append_assoc]
      exact run_append_of_fuera hrun1 rfl

private theorem para_loadVar (h : cg.Bien) {name tabla : Texto} {code : Codigo} {m : Machine}
    (hcode : cg.loadVar name = some code) (hcabe : cg.Cabe m) (hcuenta : cg.CuentaBien m name)
    (hf : cg.Fuera m name tabla) :
    ∃ m', run code none m = .jump (.fuera tabla) m' ∧ m'.mem = m.mem :=
  para_loadVarCon (para_direccion h _) hcode hcabe hcuenta hf

/-- What is out of range depends on the memory and the base of the frame. -/
theorem Fuera.congr {m m' : Machine} {name tabla : Texto} (hrbp : m'.reg .rbp = m.reg .rbp)
    (hmem : m'.mem = m.mem) (h : cg.Fuera m name tabla) : cg.Fuera m' name tabla := by
  induction h with
  | dato hsub hoff htab hidx hvar hs hfuera =>
    exact .dato hsub hoff htab hidx hvar (hs.congr hrbp hmem) (by rwa [hmem])
  | texto hsub hoff htab hidx hvar himm hfuera => exact .texto hsub hoff htab hidx hvar himm hfuera
  | dentro hsub hidx hvar _ ih => exact .dentro hsub hidx hvar ih

private theorem para_storeVar (h : cg.Bien) {name tabla : Texto} {code : Codigo} {m : Machine}
    (hcode : cg.storeVar name = some code) (hcabe : cg.Cabe m) (hcuenta : cg.CuentaBien m name)
    (hf : cg.Fuera m name tabla) :
    ∃ m', run code none m = .jump (.fuera tabla) m' ∧ m'.mem = m.mem := by
  unfold storeVar at hcode
  cases hsub : subindice name with
  | some p =>
    obtain ⟨base, idx⟩ := p
    rw [hsub] at hcode
    simp only [Option.bind_eq_bind, Option.bind_eq_some_iff] at hcode
    obtain ⟨dir, hcodedir, escribe, hescribe, hcode⟩ := hcode
    cases hcode
    let m1 : Machine := { m with stack := m.reg .rax :: m.stack }
    have hcuenta1 : cg.CuentaBien m1 name := fun base' idx' n paso s hi htab hidx hs ↦
      hcuenta base' idx' n paso s hi htab hidx (@Designa.congr cg m1 m idx' s rfl rfl hs)
    obtain ⟨m2, hrun, hmem⟩ := @para_direccion cg h _ name base idx tabla dir m1 hsub hcodedir
      hcabe hcuenta1 (@Fuera.congr cg m m1 name tabla rfl rfl hf)
    refine ⟨m2, ?_, hmem⟩
    rw [run_append_of_next (show run _ none m = .next m1 from rfl)]
    exact run_append_of_fuera hrun (soloSaltos_append rfl (soloSaltos_escribeEn hescribe))
  | none =>
    cases hf with
    | dato hsub' => exact absurd (hsub.symm.trans hsub') (by simp)
    | texto hsub' => exact absurd (hsub.symm.trans hsub') (by simp)
    | dentro hsub' => exact absurd (hsub.symm.trans hsub') (by simp)

/-- A subscript of a name that is stored in is in its table or not. -/
theorem decide_storeVar {name : Texto} {code : Codigo} (hcode : cg.storeVar name = some code)
    (m : Machine) : (∃ s, cg.Designa m name s) ∨ ∃ tabla, cg.Fuera m name tabla := by
  unfold storeVar at hcode
  cases hsub : subindice name with
  | some p =>
    obtain ⟨base, idx⟩ := p
    rw [hsub] at hcode
    obtain ⟨dir, hcodedir, -⟩ := Option.bind_eq_some_iff.mp hcode
    exact decide_direccion _ m hsub hcodedir
  | none =>
    rw [hsub] at hcode
    obtain ⟨off, hoff, -⟩ := Option.bind_eq_some_iff.mp hcode
    exact .inl ⟨_, .suelto hsub hoff⟩

/-! ### The end of the program -/

variable (cg)

/-- `codegen.rs:451`. -/
def mensaje (base : Texto) (n : Nat) : Bytes :=
  utf8 ("SUBINDICE FUERA DE RANGO EN " ++ String.ofList base ++ " (1.." ++ toString n ++ ")\n")

/-- `codegen.rs:449–453`. -/
def bloque (base : Texto) (n : Nat) : List (Op Etiqueta) :=
  .instr (.label (.fuera base)) :: (write_const (mensaje base n) ++ Lower.exit (.salto 0))

/-- The blocks of the tables that need one; `codegen.rs:447–455`. -/
def emitBloquesFueraDeRango (bases : List Texto) : List (Op Etiqueta) :=
  bases.flatMap fun base ↦ (cg.tablas base).elim [] fun (n, _) ↦ bloque base n

/-- A code that stops the program with the message of a table, the memory as it was. -/
def Termina (basura : Machine → Reg → UInt64) (code : Codigo) (despues : List (Op Etiqueta))
    (m : Machine) (out : Bytes) (tabla : Texto) : Prop :=
  ∃ n paso c, cg.tablas tabla = some (n, paso) ∧
    Leads (consola basura) ⟨code.map Op.instr ++ despues, m, out⟩ c ∧ Sale c ∧
    c.out = out ++ (mensaje tabla n).filter (· ≠ 0) ∧ c.machine.mem = m.mem

variable {cg}

theorem labels_write_const (b : Bytes) : labels (write_const b : List (Op Etiqueta)) = [] := by
  rw [List.eq_nil_iff_forall_not_mem]
  intro l hl
  rw [mem_labels] at hl
  simp [write_const, write_const_run, write_chunk] at hl

/-- A table that is out of range is one. -/
theorem Fuera.tabla {m : Machine} {name tabla : Texto} (h : cg.Fuera m name tabla) :
    ∃ n paso, cg.tablas tabla = some (n, paso) := by
  induction h with
  | dato _ _ htab => exact ⟨_, _, htab⟩
  | texto _ _ htab => exact ⟨_, _, htab⟩
  | dentro _ _ _ _ ih => exact ih

/-- The block of a table is among those of the program. -/
theorem after_bloques {bases : List Texto} {tabla : Texto} {n paso : Nat} (hmem : tabla ∈ bases)
    (htab : cg.tablas tabla = some (n, paso)) :
    ∃ post, after (.fuera tabla) (cg.emitBloquesFueraDeRango bases) =
      some (write_const (mensaje tabla n) ++ (Lower.exit (.salto 0) ++ post)) := by
  induction bases with
  | nil => exact absurd hmem List.not_mem_nil
  | cons base bases ih =>
    unfold emitBloquesFueraDeRango at *
    rw [List.flatMap_cons]
    by_cases hbase : base = tabla
    · subst hbase
      rw [htab]
      refine ⟨cg.emitBloquesFueraDeRango bases, ?_⟩
      rw [← List.append_assoc]
      exact if_pos rfl
    · have hmem' : tabla ∈ bases := by
        rcases List.mem_cons.mp hmem with heq | hmem
        · exact absurd heq.symm hbase
        · exact hmem
      rw [after_append_of_notMem]
      · exact ih hmem'
      · cases cg.tablas base with
        | none => exact List.not_mem_nil
        | some p =>
          have hlabels : labels (bloque base p.1) = [.fuera base, .salto 0] := by
            unfold bloque
            change _ :: labels (write_const _ ++ Lower.exit _) = _
            rw [labels_append, labels_write_const]
            rfl
          change _ ∉ labels (bloque base p.1)
          rw [hlabels]
          simpa using Ne.symm hbase

/-- A jump to the block of a table is the end of the program. -/
theorem termina_of_jump (basura : Machine → Reg → UInt64) {code : Codigo} {m m' : Machine}
    {name tabla : Texto} {resto : List (Op Etiqueta)} {bases : List Texto}
    (hrun : run code none m = .jump (.fuera tabla) m') (hmem : m'.mem = m.mem)
    (hf : cg.Fuera m name tabla) (hresto : .fuera tabla ∉ labels resto)
    (hbases : ∀ t, .fuera t ∈ code.filterMap target → t ∈ bases) (out : Bytes) :
    cg.Termina basura code (resto ++ cg.emitBloquesFueraDeRango bases) m out tabla := by
  obtain ⟨n, paso, htab⟩ := hf.tabla
  have hen : tabla ∈ bases := by
    rcases mem_targets_of_jump hrun with hno | htarget
    · cases hno
    · exact hbases _ htarget
  obtain ⟨post, hafter⟩ := after_bloques hen htab
  rw [← after_append_of_notMem hresto] at hafter
  obtain ⟨m1, hlead1, hkeep1⟩ : ∃ m1, Leads (consola basura)
      ⟨write_const (mensaje tabla n) ++ (Lower.exit (.salto 0) ++ post), m', out⟩
      ⟨Lower.exit (.salto 0) ++ post, m1, out ++ (mensaje tabla n).filter (· ≠ 0)⟩ ∧
      Keeps gastadosTexto m' m1 :=
    leads_write_const basura out (mensaje tabla n)
  obtain ⟨c, hlead2, hsale, hout, hmem2⟩ : ∃ c : Conf Etiqueta UInt8,
      Leads (consola basura) ⟨Lower.exit (.salto 0) ++ post, m1,
        out ++ (mensaje tabla n).filter (· ≠ 0)⟩ c ∧ Sale c ∧
      c.out = out ++ (mensaje tabla n).filter (· ≠ 0) ∧ c.machine.mem = m1.mem :=
    leads_exit basura (out ++ (mensaje tabla n).filter (· ≠ 0)) (Etiqueta.salto 0)
  exact ⟨n, paso, c, htab, (leads_jump hrun hafter).trans (hlead1.trans hlead2), hsale, hout,
    (hmem2.trans hkeep1.mem).trans hmem⟩

/-! ### The accesses -/

/-- What a load of a place does. -/
def Lee (m : Machine) (s : Sitio) (m' : Machine) : Prop :=
  Keeps libres m m' ∧ m'.reg .rax = ofSigned (s.valor m.mem)

/-- What a store in the place of a name does: to its bytes, and to no other datum or element. -/
def Escribe (cg : Codegen) (name : Texto) (m : Machine) (s : Sitio) (m' : Machine) : Prop :=
  Only libres s.Ocupa m m' ∧ s.valor m'.mem = s.recibe (signed (m.reg .rax)) ∧
    ∀ otro t, cg.Designa m otro t → (nombreBase otro ≠ nombreBase name ∨ t ≠ s) →
      t.valor m'.mem = t.valor m.mem

/-- An access to a name: to its place, or the end of the program. -/
structure Accede (cg : Codegen) (code : Codigo) (name : Texto) (m : Machine)
    (Hecho : Sitio → Machine → Prop) : Prop where
  alguno : (∃ s, cg.Designa m name s) ∨ ∃ tabla, cg.Fuera m name tabla
  dentro : ∀ s, cg.Designa m name s → ∃ m', run code none m = .next m' ∧ Hecho s m'
  fuera : ∀ tabla, cg.Fuera m name tabla → ∀ basura resto bases out, .fuera tabla ∉ labels resto →
    (∀ t, .fuera t ∈ code.filterMap target → t ∈ bases) →
    cg.Termina basura code (resto ++ cg.emitBloquesFueraDeRango bases) m out tabla

/-- The elements of a table have no byte in common. -/
def Aparta (cg : Codegen) (m : Machine) : Prop :=
  ∀ {base off n paso i j}, cg.varOffsets base = some off → cg.tablas base = some (n, paso) →
    i < n → j < n → i ≠ j →
    m.frame (off + (i * paso : Nat)) + cg.ancho base ≤ m.frame (off + (j * paso : Nat)) ∨
      m.frame (off + (j * paso : Nat)) + cg.ancho base ≤ m.frame (off + (i * paso : Nat))

section

variable (h : cg.Bien) {m : Machine} (hcabe : cg.Cabe m)
include h hcabe

private theorem aparta : cg.Aparta m := by
  intro base off n paso i j hoff htab hi hj hne
  have hhueco : cg.hueco base = (n, paso) := by
    unfold hueco
    rw [htab]
    rfl
  obtain ⟨hfi, -⟩ := frame_elemento h hcabe hoff (k := i) (by rwa [hhueco])
  obtain ⟨hfj, -⟩ := frame_elemento h hcabe hoff (k := j) (by rwa [hhueco])
  have hpaso := h.paso base
  rw [hhueco] at hfi hfj hpaso
  dsimp only at hfi hfj hpaso
  rcases Nat.lt_or_gt_of_ne hne with hlt | hlt
  · have hmul := Nat.mul_le_mul_right paso hlt
    rw [Nat.succ_mul] at hmul
    omega
  · have hmul := Nat.mul_le_mul_right paso hlt
    rw [Nat.succ_mul] at hmul
    omega

private theorem Designa.ne_of_base {a b : Texto} {s t : Sitio} (hs : cg.Designa m a s)
    (ht : cg.Designa m b t) (hne : nombreBase a ≠ nombreBase b) : s ≠ t := by
  obtain ⟨x, i, hx, hi, rfl⟩ := hs.elemento
  obtain ⟨y, j, hy, hj, rfl⟩ := ht.elemento
  obtain ⟨hfi, hlei⟩ := frame_elemento h hcabe hx hi
  obtain ⟨hfj, hlej⟩ := frame_elemento h hcabe hy hj
  have haparte := h.aparte hx hy hne
  have hposi := h.positivo (nombreBase a)
  have hposj := h.positivo (nombreBase b)
  intro heq
  have hdir := congrArg Sitio.dir heq
  dsimp only at hdir
  omega

private theorem escribe_of_run {name : Texto} {s : Sitio} (hs : cg.Designa m name s) {m' : Machine}
    (honly : Only libres s.Ocupa m m') (hval : s.valor m'.mem = s.recibe (signed (m.reg .rax))) :
    cg.Escribe name m s m' := by
  refine ⟨honly, hval, fun otro t ht hotro ↦ ?_⟩
  apply hs.esDato.valor_de_otro h hcabe ht.esDato _ honly.mem
  rcases hotro with hbase | hne
  · exact ht.ne_of_base h hcabe hs hbase
  · exact hne

end

/-- **A table access hits its element or stops the program**, where the frame of the data is of less
than `2^31` bytes and the subscripts of the name that are out of their tables are so modulo `2^64`
too. -/
theorem acceso_exacto {items : List DataItem} {cg : Codegen} (hpos : ∀ item ∈ items,
      0 < item.elementos) (hmarco : marco items < 2 ^ 31) (hcg : reparte items = some cg)
    {m : Machine} (hcabe : cg.Cabe m) {name : Texto} (hcuenta : cg.CuentaBien m name) :
    (∀ code, cg.loadVar name = some code → cg.Accede code name m (Lee m)) ∧
      (∀ code, cg.storeVar name = some code → cg.Accede code name m (cg.Escribe name m)) ∧
      cg.Aparta m := by
  have h : cg.Bien := bien_of_reparte hpos hmarco hcg
  refine ⟨fun code hcode ↦ ?_, fun code hcode ↦ ?_, aparta h hcabe⟩
  · refine ⟨decide_loadVarCon (decide_direccion _) hcode m, fun s hs ↦ ?_, ?_⟩
    · exact run_loadVar h hcabe hcode hs
    · intro tabla hf basura resto bases out hresto hbases
      obtain ⟨m', hrun, hmem⟩ := para_loadVar h hcode hcabe hcuenta hf
      exact termina_of_jump basura hrun hmem hf hresto hbases out
  · refine ⟨decide_storeVar hcode m, fun s hs ↦ ?_, ?_⟩
    · obtain ⟨m', hrun, honly, hval⟩ := run_storeVar h hcabe hcode hs
      exact ⟨m', hrun, escribe_of_run h hcabe hs honly hval⟩
    · intro tabla hf basura resto bases out hresto hbases
      obtain ⟨m', hrun, hmem⟩ := para_storeVar h hcode hcabe hcuenta hf
      exact termina_of_jump basura hrun hmem hf hresto hbases out

/-! ### Examples -/

def unaCifra : PicField := ⟨1, 0, false, true, 0, .display⟩

/-- `01 I PIC 9. 01 G. 05 T PIC 9 OCCURS n TIMES.` -/
def datosTabla (n : Nat) : List DataItem :=
  [⟨1, ['I'], some unaCifra, .display, none⟩, ⟨1, ['G'], none, .display, none⟩,
    ⟨5, ['T'], some unaCifra, .display, some n⟩]

def cgTabla (n : Nat) : Codegen := (datosTabla n).foldl declara new

/-- A machine with a frame of that many bytes below `rbp`, and a seven to be stored. -/
def maquinaTabla : Machine := ⟨fun r ↦ if r = .rbp then 1024 else 7, none, [], fun _ ↦ 0⟩

private theorem reparte_tabla (n : Nat) : reparte (datosTabla n) = some (cgTabla n) := by
  rw [reparte, if_pos (by simp [datosTabla, nombres, mayusculas])]
  rfl

/-- A name whose subscript has none inside. -/
theorem Subindicado.eq {name base idx tabla interior : Texto}
    (h : Subindicado name tabla interior) (hsub : subindice name = some (base, idx))
    (hidx : subindice idx = none) : tabla = base ∧ interior = idx := by
  cases h with
  | propio hsub' => exact (Prod.mk.inj (Option.some.inj (hsub.symm.trans hsub'))).imp .symm .symm
  | dentro hsub' h =>
    obtain ⟨-, rfl⟩ := Prod.mk.inj (Option.some.inj (hsub.symm.trans hsub'))
    cases h with
    | propio hno => exact absurd (hidx.symm.trans hno) (by simp)
    | dentro hno => exact absurd (hidx.symm.trans hno) (by simp)

private theorem cuenta_tabla : (cgTabla 3).CuentaBien maquinaTabla "T(I)".toList := by
  intro base idx n paso s hi htab _ hs hfuera
  have hsub : subindice "T(I)".toList = some (['T'], ['I']) := by decide
  obtain ⟨rfl, rfl⟩ := hi.eq hsub (by decide)
  have htab' : (cgTabla 3).tablas ['T'] = some (3, 8) := by decide
  obtain ⟨rfl, rfl⟩ := Prod.mk.inj (Option.some.inj (htab.symm.trans htab'))
  have hfits := fits_signed (maquinaTabla.mem.read64 s.dir)
  have hval : s.valor maquinaTabla.mem = signed (maquinaTabla.mem.read64 s.dir) := by
    obtain ⟨off, k, -, -, rfl⟩ := hs.elemento
    rfl
  unfold Fits at hfits
  rw [hval] at hfuera ⊢
  omega

theorem acceso_exacto_tres :
    (∀ code, (cgTabla 3).loadVar "T(I)".toList = some code →
        (cgTabla 3).Accede code "T(I)".toList maquinaTabla (Lee maquinaTabla)) ∧
      (∀ code, (cgTabla 3).storeVar "T(I)".toList = some code →
        (cgTabla 3).Accede code "T(I)".toList maquinaTabla
          ((cgTabla 3).Escribe "T(I)".toList maquinaTabla)) ∧
      (cgTabla 3).Aparta maquinaTabla := by
  refine acceso_exacto (by decide) (by decide) (reparte_tabla 3) ?_ cuenta_tabla
  change (cgTabla 3).stackSize ≤ (maquinaTabla.reg .rbp).toNat
  decide

/-- A table of `2^32` bytes: what is stored in its second element goes to the datum before it. -/
theorem acceso_vuelve : ¬∀ {items : List DataItem} {cg : Codegen} {name otro : Texto}
    {code : Codigo} {m m' : Machine} {s t : Sitio}, (∀ item ∈ items, 0 < item.elementos) →
    reparte items = some cg → cg.Cabe m → cg.CuentaBien m name → cg.storeVar name = some code →
    cg.Designa m name s → run code none m = .next m' → cg.Designa m otro t →
    nombreBase otro ≠ nombreBase name → t.valor m'.mem = t.valor m.mem := by
  intro hall
  let cg := cgTabla (2 ^ 29)
  have hcabe : cg.Cabe maquinaTabla := by
    change cg.stackSize ≤ (maquinaTabla.reg .rbp).toNat
    decide
  have hsub : subindice "T(2)".toList = some (['T'], ['2']) := by decide
  have hcuenta : cg.CuentaBien maquinaTabla "T(2)".toList := by
    intro base idx n paso s hi _ hno
    obtain ⟨rfl, rfl⟩ := hi.eq hsub (by decide)
    exact absurd hno (by decide)
  have hcode : cg.storeVar "T(2)".toList =
      some [.push .rax, .lea .rcx (-8), .pop .rax, .storeAt .rcx .rax] := by decide
  have hs : cg.Designa maquinaTabla "T(2)".toList
      ⟨maquinaTabla.frame (-16 + (1 * 8 : Nat)), cg.packedDe "T(2)".toList⟩ := by
    have htab : cg.tablas ['T'] = some (2 ^ 29, 8) := by decide
    exact .fijo hsub (by decide) htab (by decide) (by decide)
  have ht : cg.Designa maquinaTabla ['I'] ⟨maquinaTabla.frame (-8), cg.packedDe ['I']⟩ :=
    .suelto (by decide) (by decide)
  have hno := hall (by decide) (reparte_tabla (2 ^ 29)) hcabe hcuenta hcode hs rfl ht (by decide)
  revert hno
  decide

end Codegen

end BmoX.Cobol
