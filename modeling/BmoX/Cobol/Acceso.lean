import BmoX.Cobol.Datos

/-!
# Access to the data

`toolchain/lang/cobol/emisor-x86_64/src/codegen.rs:182–186, 308–516, 1383–1482`. Code that brings an
operand to `rax`, at a scale, and code that takes `rax` to a datum. An emission is none where the
program is rejected.
-/

namespace BmoX.Cobol.Codegen

open BmoX.Base BmoX.Base.X86 BmoX.Lower

variable (cg : Codegen)

/-- `codegen.rs:308–313`. -/
def isVariable (name : Texto) : Bool :=
  match subindice name with
  | some (base, _) => (cg.varOffsets base).isSome
  | none => (cg.varOffsets name).isSome

/-- `codegen.rs:184–186`. -/
def varScale (name : Texto) : Nat := cg.varScales (nombreBase name)

/-- `codegen.rs:1408–1410`. -/
def packedDe (name : Texto) : Option (Nat × Bool) := cg.varPacked (nombreBase name)

/-- A datum that is not a table; `codegen.rs:1383–1405`. -/
def exigeDeclarado (name : Texto) : Option Int :=
  match cg.varOffsets name with
  | some off => if (cg.tablas name).isNone then some off else none
  | none => none

/-- The routines of the packed digits stop the compiler beyond that many bytes. -/
def anchoValido (bytes : Nat) : Prop := 1 ≤ bytes ∧ bytes ≤ 127

instance (bytes : Nat) : Decidable (anchoValido bytes) := inferInstanceAs (Decidable (_ ∧ _))

/-- From the address in `rcx` to `rax`. -/
def leeDe : Option (Nat × Bool) → Option Codigo
  | some (bytes, _) => if anchoValido bytes then some (desempaquetar bytes) else none
  | none => some [.loadAt .rax .rcx]

/-- From `rax` to the address in `rcx`. -/
def escribeEn : Option (Nat × Bool) → Option Codigo
  | some (bytes, signo) => if anchoValido bytes then some (empaquetar bytes signo) else none
  | none => some [.storeAt .rcx .rax]

/-- A datum to `rax`; `codegen.rs:1423–1443`. -/
def loadVarCon (direccion : Texto → Texto → Option Codigo) (name : Texto) : Option Codigo :=
  match subindice name with
  | some (base, idx) => do
    let dir ← direccion base idx
    let lee ← leeDe (cg.packedDe name)
    some (dir ++ lee)
  | none => do
    let off ← cg.exigeDeclarado name
    match cg.packedDe name with
    | some packed =>
      let lee ← leeDe (some packed)
      some ([Instr.lea .rcx off] ++ lee)
    | none => some [.load .rax off]

/-- `rax` from a scale to another one; `codegen.rs:500–516`. -/
def rescaleRedondeado (desde hasta : Nat) (redondeo : Modo) : Codigo :=
  if desde = hasta then []
  else if hasta > desde then [.movImm .rcx (pow10 (hasta - desde)), .imul .rax .rcx]
  else [Instr.movImm .rcx (pow10 (desde - hasta))] ++ dividir redondeo

/-- `codegen.rs:496–498`. -/
def rescale (desde hasta : Nat) : Codigo := rescaleRedondeado desde hasta .truncar

/-- An operand to `rax`, at a scale; `codegen.rs:463–465, 486–494`. -/
def loadOperandCon (direccion : Texto → Texto → Option Codigo) (name : Texto) (scale : Nat) :
    Option Codigo :=
  if cg.isVariable name then do
    let carga ← cg.loadVarCon direccion name
    some (carga ++ rescale (cg.varScale name) scale)
  else do
    let v ← scaledImm name scale
    some [.movImm .rax v]

/-- The address of an element to `rcx`; `codegen.rs:359–432`. A subscript that is another element is
shorter, so that as much fuel as the text is long is enough. -/
def emitDireccionElemento : Nat → Texto → Texto → Option Codigo
  | 0, _, _ => none
  | fuel + 1, base, idx => do
    let off ← cg.varOffsets base
    let (n, paso) ← cg.tablas base
    match parseI64 idx with
    | some fijo =>
      if fijo < 1 ∨ fijo > n then none
      else some [.lea .rcx (i32 (off + i32 (i32 (i32 fijo - 1) * i32 paso)))]
    | none =>
      if cg.varScale idx ≠ 0 then none
      else do
        let carga ← cg.loadOperandCon (emitDireccionElemento fuel) idx 0
        some (carga ++ ([.dec .rax, .cmpImm .rax (ofSigned (i32 n)), .jcc .ae (.fuera base),
          .movImm .rcx (UInt64.ofNat paso), .imul .rax .rcx, .lea .rcx off,
          .add .rcx .rax] : Codigo))

def direccion (name : Texto) : Texto → Texto → Option Codigo :=
  cg.emitDireccionElemento name.length

def loadVar (name : Texto) : Option Codigo := cg.loadVarCon (cg.direccion name) name

def loadOperand (name : Texto) (scale : Nat) : Option Codigo :=
  cg.loadOperandCon (cg.direccion name) name scale

/-- `rax` to a datum; `codegen.rs:1445–1482`. -/
def storeVar (name : Texto) : Option Codigo :=
  match subindice name with
  | some (base, idx) => do
    let dir ← cg.direccion name base idx
    let escribe ← escribeEn (cg.packedDe name)
    some ([Instr.push .rax] ++ (dir ++ ([Instr.pop .rax] ++ escribe)))
  | none => do
    let off ← cg.exigeDeclarado name
    match cg.packedDe name with
    | some packed =>
      let escribe ← escribeEn (some packed)
      some ([Instr.lea .rcx off] ++ escribe)
    | none => some [.store off .rax]

/-- The decimals of an operand; `codegen.rs:475–483`. -/
def escalaOperando (name : Texto) : Nat :=
  if cg.isVariable name then cg.varScale name
  else
    match partir '.' (trim name) with
    | some (_, frac) => (frac.takeWhile Char.isDigit).length
    | none => 0

/-! ### What a name means -/

/-- The place that a name has, where its subscript is in its table. -/
inductive Designa (m : Machine) : Texto → Sitio → Prop
  | suelto {name off} : subindice name = none → cg.exigeDeclarado name = some off →
      Designa m name ⟨m.frame off, cg.packedDe name⟩
  | fijo {name base idx off n paso k} : subindice name = some (base, idx) →
      cg.varOffsets base = some off → cg.tablas base = some (n, paso) →
      parseI64 idx = some ((k + 1 : Nat) : Int) → k < n →
      Designa m name ⟨m.frame (off + (k * paso : Nat)), cg.packedDe name⟩
  | dato {name base idx off n paso k s} : subindice name = some (base, idx) →
      cg.varOffsets base = some off → cg.tablas base = some (n, paso) →
      parseI64 idx = none → cg.isVariable idx → Designa m idx s →
      s.valor m.mem = (k + 1 : Nat) → k < n →
      Designa m name ⟨m.frame (off + (k * paso : Nat)), cg.packedDe name⟩
  | texto {name base idx off n paso k v} : subindice name = some (base, idx) →
      cg.varOffsets base = some off → cg.tablas base = some (n, paso) →
      parseI64 idx = none → cg.isVariable idx = false → scaledImm idx 0 = some v →
      signed v = (k + 1 : Nat) → k < n →
      Designa m name ⟨m.frame (off + (k * paso : Nat)), cg.packedDe name⟩

/-- The whole number that an operand is, and its decimals: what a datum has in memory, or what a
literal says. -/
inductive Vale (m : Machine) : Texto → Int → Nat → Prop
  | dato {name s} : cg.isVariable name → cg.Designa m name s →
      Vale m name (s.valor m.mem) (cg.varScale name)
  | literal {name x e} : cg.isVariable name = false → literal name = some (x, e) →
      Vale m name x e

/-! ### What the code does -/

/-- All the registers but the base of the frame. -/
def libres : List Reg := [.rax, .rcx, .rdx, .rsi, .rdi, .r11]

variable {cg}

theorem nombreBase_of_none {name : Texto} (h : subindice name = none) : nombreBase name = name := by
  unfold nombreBase
  rw [h]

private theorem nombreBase_of_some {name base idx : Texto} (h : subindice name = some (base, idx)) :
    nombreBase name = base := by
  unfold nombreBase
  rw [h]

/-- The place of a name is that of an element of its datum. -/
theorem Designa.elemento {m : Machine} {name : Texto} {s : Sitio} (h : cg.Designa m name s) :
    ∃ off k, cg.varOffsets (nombreBase name) = some off ∧ k < (cg.hueco (nombreBase name)).1 ∧
      s = ⟨m.frame (off + (k * (cg.hueco (nombreBase name)).2 : Nat)),
        cg.varPacked (nombreBase name)⟩ := by
  have helemento {name base idx : Texto} {off : Int} {n paso k : Nat}
      (hsub : subindice name = some (base, idx)) (hoff : cg.varOffsets base = some off)
      (htab : cg.tablas base = some (n, paso)) (hk : k < n) :
      ∃ off' k', cg.varOffsets (nombreBase name) = some off' ∧
        k' < (cg.hueco (nombreBase name)).1 ∧
        (⟨m.frame (off + (k * paso : Nat)), cg.packedDe name⟩ : Sitio) =
          ⟨m.frame (off' + (k' * (cg.hueco (nombreBase name)).2 : Nat)),
            cg.varPacked (nombreBase name)⟩ := by
    have hhueco : cg.hueco base = (n, paso) := by
      unfold hueco
      rw [htab]
      rfl
    rw [nombreBase_of_some hsub]
    refine ⟨off, k, hoff, by rwa [hhueco], ?_⟩
    unfold packedDe
    rw [hhueco, nombreBase_of_some hsub]
  cases h with
  | @suelto name off hsub hdecl =>
    unfold exigeDeclarado at hdecl
    split at hdecl
    · next hoff =>
      split at hdecl
      · next hnone =>
        cases hdecl
        have hhueco : cg.hueco name = (1, cg.ancho name) := by
          unfold hueco
          rw [Option.isNone_iff_eq_none.mp hnone]
          rfl
        rw [nombreBase_of_none hsub]
        refine ⟨off, 0, hoff, by rw [hhueco]; exact Nat.one_pos, ?_⟩
        unfold packedDe
        rw [nombreBase_of_none hsub]
        simp
      · exact absurd hdecl (by simp)
    · exact absurd hdecl (by simp)
  | fijo hsub hoff htab hidx hk => exact helemento hsub hoff htab hk
  | dato hsub hoff htab hidx hvar hs hval hk => exact helemento hsub hoff htab hk
  | texto hsub hoff htab hidx hvar himm hval hk => exact helemento hsub hoff htab hk

theorem Designa.esDato {m : Machine} {name : Texto} {s : Sitio} (h : cg.Designa m name s) :
    cg.Dato m s := by
  obtain ⟨off, k, hoff, hk, rfl⟩ := h.elemento
  exact .intro hoff hk

/-- A number is read from its place. -/
theorem run_leeDe {m : Machine} {s : Sitio} {code : Codigo} (hcode : leeDe s.packed = some code)
    (hdir : (m.reg .rcx).toNat = s.dir) (hpos : 0 < anchoDe s.packed)
    (hmem : s.dir + anchoDe s.packed ≤ 2 ^ 64) :
    ∃ m', run code none m = .next m' ∧ Keeps libres m m' ∧
      m'.reg .rax = ofSigned (s.valor m.mem) := by
  obtain ⟨dir, packed⟩ := s
  dsimp only at *
  unfold leeDe at hcode
  cases packed with
  | some p =>
    obtain ⟨bytes, signo⟩ := p
    simp only at hcode
    split at hcode
    · cases hcode
      obtain ⟨m', hrun, hkeep, hrax⟩ := run_desempaquetar hpos hdir hmem
      exact ⟨m', hrun, hkeep.mono (by decide), hrax⟩
    · exact absurd hcode (by simp)
  | none =>
    cases hcode
    refine ⟨_, rfl, ⟨fun r hr ↦ ?_, rfl, rfl⟩, ?_⟩
    · simp [libres] at hr
      simp [hr]
    · have haddr : m.addr .rcx 0 = dir := by
        unfold Machine.addr
        rw [show m.reg .rcx + UInt64.ofNat 0 = m.reg .rcx from UInt64.add_zero _]
        exact hdir
      rw [Machine.set_reg, if_pos rfl, haddr]
      exact (ofSigned_signed _).symm

/-- A place takes a number. -/
theorem run_escribeEn {m : Machine} {s : Sitio} {code : Codigo}
    (hcode : escribeEn s.packed = some code) (hdir : (m.reg .rcx).toNat = s.dir)
    (hpos : 0 < anchoDe s.packed) (hmem : s.dir + anchoDe s.packed ≤ 2 ^ 64) :
    ∃ m', run code none m = .next m' ∧ Only libres s.Ocupa m m' ∧
      s.valor m'.mem = s.recibe (signed (m.reg .rax)) := by
  obtain ⟨dir, packed⟩ := s
  dsimp only at *
  unfold escribeEn at hcode
  cases packed with
  | some p =>
    obtain ⟨bytes, signo⟩ := p
    simp only at hcode
    split at hcode
    · cases hcode
      obtain ⟨m', hrun, honly, hval⟩ := @run_empaquetar m dir bytes signo hpos hdir hmem
      exact ⟨m', hrun, honly.mono (by decide) fun _ h ↦ h, hval⟩
    · exact absurd hcode (by simp)
  | none =>
    cases hcode
    have haddr : m.addr .rcx 0 = dir := by
      unfold Machine.addr
      rw [show m.reg .rcx + UInt64.ofNat 0 = m.reg .rcx from UInt64.add_zero _]
      exact hdir
    refine ⟨_, rfl, ⟨fun r hr ↦ rfl, fun a ha ↦ ?_, rfl⟩, ?_⟩
    · rw [haddr]
      apply Memory.write64_out
      unfold Sitio.Ocupa anchoDe at ha
      dsimp only at ha
      omega
    · unfold Sitio.valor Sitio.recibe
      dsimp only
      rw [haddr, Memory.read64_write64_self]

theorem cabe_of_keeps {m m' : Machine} {rs : List Reg} (h : Keeps rs m m') (hr : .rbp ∉ rs)
    (hcabe : cg.Cabe m) : cg.Cabe m' := by
  unfold Cabe
  rwa [h.reg _ hr]

/-- What a name means depends on the memory and the base of the frame. -/
theorem Designa.congr {m m' : Machine} {name : Texto} {s : Sitio} (hrbp : m'.reg .rbp = m.reg .rbp)
    (hmem : m'.mem = m.mem) (h : cg.Designa m name s) : cg.Designa m' name s := by
  have hframe (disp : Int) : m.frame disp = m'.frame disp := by
    unfold Machine.frame
    rw [hrbp]
  induction h with
  | suelto hsub hdecl =>
    rw [hframe]
    exact .suelto hsub hdecl
  | fijo hsub hoff htab hidx hk =>
    rw [hframe]
    exact .fijo hsub hoff htab hidx hk
  | dato hsub hoff htab hidx hvar hs hval hk ih =>
    rw [hframe]
    exact .dato hsub hoff htab hidx hvar ih (by rwa [hmem]) hk
  | texto hsub hoff htab hidx hvar himm hval hk =>
    rw [hframe]
    exact .texto hsub hoff htab hidx hvar himm hval hk

private theorem Designa.frame_of_none {m : Machine} {name : Texto} {s : Sitio} {off : Int}
    (h : cg.Designa m name s) (hsub : subindice name = none)
    (hoff : cg.exigeDeclarado name = some off) : m.frame off = s.dir := by
  cases h with
  | suelto _ hoff' => rw [Option.some.inj (hoff.symm.trans hoff')]
  | fijo hsub' => exact absurd (hsub.symm.trans hsub') (by simp)
  | dato hsub' => exact absurd (hsub.symm.trans hsub') (by simp)
  | texto hsub' => exact absurd (hsub.symm.trans hsub') (by simp)

/-- What it takes for the address of an element: a routine that leaves it in `rcx`. -/
def Acierta (cg : Codegen) (direccion : Texto → Texto → Option Codigo) : Prop :=
  ∀ {name base idx : Texto} {code : Codigo} {m : Machine} {s : Sitio},
    subindice name = some (base, idx) → direccion base idx = some code → cg.Cabe m →
    cg.Designa m name s → ∃ m', run code none m = .next m' ∧ Keeps libres m m' ∧
      (m'.reg .rcx).toNat = s.dir

/-- The routine for the operands without a subscript, and for those with one. -/
theorem run_loadVarCon (h : cg.Bien) {direccion : Texto → Texto → Option Codigo}
    (hdir : cg.Acierta direccion) {name : Texto} {code : Codigo} {m : Machine} {s : Sitio}
    (hcode : cg.loadVarCon direccion name = some code) (hcabe : cg.Cabe m)
    (hs : cg.Designa m name s) :
    ∃ m', run code none m = .next m' ∧ Keeps libres m m' ∧
      m'.reg .rax = ofSigned (s.valor m.mem) := by
  obtain ⟨hpos, hle⟩ := hs.esDato.dentro h hcabe
  have hlt := (m.reg .rbp).toNat_lt
  have hpacked : s.packed = cg.packedDe name := by
    cases hs <;> rfl
  unfold loadVarCon at hcode
  cases hsub : subindice name with
  | some p =>
    obtain ⟨base, idx⟩ := p
    rw [hsub] at hcode
    simp only [Option.bind_eq_bind, Option.bind_eq_some_iff] at hcode
    obtain ⟨dir, hcodedir, lee, hlee, hcode⟩ := hcode
    cases hcode
    obtain ⟨m1, hrun1, hkeep1, hrcx⟩ := hdir hsub hcodedir hcabe hs
    rw [← hpacked] at hlee
    obtain ⟨m2, hrun2, hkeep2, hrax⟩ := run_leeDe hlee hrcx hpos (by omega)
    refine ⟨m2, ?_, hkeep1.trans hkeep2, ?_⟩
    · rw [run_append_of_next hrun1, hrun2]
    · rw [hrax, hkeep1.mem]
  | none =>
    rw [hsub] at hcode
    simp only [Option.bind_eq_bind, Option.bind_eq_some_iff] at hcode
    obtain ⟨off, hoff, hcode⟩ := hcode
    have hdir : m.frame off = s.dir := hs.frame_of_none hsub hoff
    cases hp : cg.packedDe name with
    | some p =>
      rw [hp] at hcode
      simp only [Option.bind_eq_some_iff] at hcode
      obtain ⟨lee, hlee, hcode⟩ := hcode
      cases hcode
      let m1 := m.set .rcx (m.reg .rbp + ofSigned off)
      have hkeep1 : Keeps libres m m1 := Keeps.refl.set (by decide)
      rw [← hp, ← hpacked] at hlee
      obtain ⟨m2, hrun2, hkeep2, hrax⟩ := @run_leeDe m1 s lee hlee hdir hpos (by omega)
      exact ⟨m2, hrun2, hkeep1.trans hkeep2, hrax⟩
    | none =>
      rw [hp] at hcode
      cases hcode
      refine ⟨_, rfl, ⟨fun r hr ↦ ?_, rfl, rfl⟩, ?_⟩
      · simp [libres] at hr
        simp [hr]
      · rw [Machine.set_reg, if_pos rfl, hdir]
        unfold Sitio.valor
        rw [hpacked, hp]
        exact (ofSigned_signed _).symm

/-- Going up to a scale loses nothing, modulo `2^64`. -/
theorem run_rescale_up {m : Machine} {desde hasta : Nat} (hle : desde ≤ hasta) {x : Int}
    (hrax : m.reg .rax = ofSigned x) (modo : Modo) :
    ∃ m', run (rescaleRedondeado desde hasta modo) none m = .next m' ∧ Keeps libres m m' ∧
      m'.reg .rax = ofSigned (x * 10 ^ (hasta - desde)) := by
  unfold rescaleRedondeado
  by_cases heq : desde = hasta
  · rw [if_pos heq, heq, Nat.sub_self, pow_zero, mul_one]
    exact ⟨m, rfl, .refl, hrax⟩
  · rw [if_neg heq, if_pos (by omega)]
    refine ⟨_, rfl, ⟨fun r hr ↦ ?_, rfl, rfl⟩, ?_⟩
    · simp [libres] at hr
      simp [hr]
    · simp only [Machine.setF_reg, Machine.set_reg, if_true, reduceCtorEq, if_false, hrax]
      unfold pow10
      rw [← ofSigned_natCast, ← ofSigned_mul]
      push_cast
      rfl

/-- An operand is brought to a scale that has its decimals. -/
theorem run_loadOperandCon (h : cg.Bien) {direccion : Texto → Texto → Option Codigo}
    (hdir : cg.Acierta direccion) {name : Texto} {scale e : Nat} {x : Int} {code : Codigo}
    {m : Machine} (hcode : cg.loadOperandCon direccion name scale = some code)
    (hcabe : cg.Cabe m) (hx : cg.Vale m name x e) (hle : e ≤ scale)
    (hfits : Fits (x * 10 ^ (scale - e))) :
    ∃ m', run code none m = .next m' ∧ Keeps libres m m' ∧
      m'.reg .rax = ofSigned (x * 10 ^ (scale - e)) := by
  unfold loadOperandCon at hcode
  cases hx with
  | dato hvar hs =>
    rw [if_pos hvar] at hcode
    simp only [Option.bind_eq_bind, Option.bind_eq_some_iff] at hcode
    obtain ⟨carga, hcarga, hcode⟩ := hcode
    cases hcode
    obtain ⟨m1, hrun1, hkeep1, hrax1⟩ := run_loadVarCon h hdir hcarga hcabe hs
    obtain ⟨m2, hrun2, hkeep2, hrax2⟩ := run_rescale_up hle hrax1 .truncar
    exact ⟨m2, (run_append_of_next hrun1).trans hrun2, hkeep1.trans hkeep2, hrax2⟩
  | literal hvar hlit =>
    rw [if_neg (by simp [hvar]), scaledImm_literal hlit hle hfits] at hcode
    cases hcode
    refine ⟨_, rfl, ⟨fun r hr ↦ ?_, rfl, rfl⟩, ?_⟩
    · simp [libres] at hr
      simp [hr]
    · simp

private theorem run_indice {m : Machine} {n paso k : Nat} {off : Int} {base : Texto}
    (hrax : m.reg .rax = ofSigned (k + 1 : Nat)) (hk : k < n) (hn : n < 2 ^ 64) :
    ∃ m', run ([.dec .rax, .cmpImm .rax (UInt64.ofNat n), .jcc .ae (.fuera base),
        .movImm .rcx (UInt64.ofNat paso), .imul .rax .rcx, .lea .rcx off, .add .rcx .rax] : Codigo)
        none m = .next m' ∧ Keeps libres m m' ∧
      (m'.reg .rcx).toNat = m.frame (off + (k * paso : Nat)) := by
  have hdec : m.reg .rax - 1 = UInt64.ofNat k := by
    rw [hrax, ofSigned_natCast, UInt64.ofNat_add]
    exact UInt64.add_sub_cancel ..
  have hae : Cond.holds (cmpFlags (UInt64.ofNat k) (UInt64.ofNat n)) .ae = false := by
    simp only [Cond.holds, cmpFlags, UInt64.toNat_ofNat', Nat.mod_eq_of_lt hn,
      Nat.mod_eq_of_lt (hk.trans hn), decide_eq_true hk, Bool.not_true]
  simp only [run, step, Machine.set_reg, Machine.setF_reg, reduceCtorEq, if_true, if_false, hdec,
    hae, Bool.false_eq_true, Outcome.next.injEq, exists_eq_left']
  refine ⟨⟨fun r hr ↦ ?_, rfl, rfl⟩, ?_⟩
  · simp [libres] at hr
    simp [hr]
  · unfold Machine.frame
    rw [ofSigned_add, ofSigned_natCast, UInt64.ofNat_mul, UInt64.add_assoc]

private theorem tabla_le (h : cg.Bien) {base : Texto} {off : Int} {n paso : Nat}
    (hoff : cg.varOffsets base = some off) (htab : cg.tablas base = some (n, paso)) :
    0 < paso ∧ -(cg.stackSize : Int) ≤ off ∧ off + (n * paso : Nat) ≤ 0 := by
  have hdentro := h.dentro hoff
  have hpaso := h.paso base
  have hpos := h.positivo base
  unfold largo hueco at *
  rw [htab] at hdentro hpaso
  simp only [Option.getD_some] at hdentro hpaso
  omega

theorem elementos_lt (h : cg.Bien) {base : Texto} {off : Int} {n paso : Nat}
    (hoff : cg.varOffsets base = some off) (htab : cg.tablas base = some (n, paso)) :
    n < 2 ^ 31 := by
  obtain ⟨hpaso, hle, hfin⟩ := tabla_le h hoff htab
  have hmul : n * 1 ≤ n * paso := Nat.mul_le_mul_left n hpaso
  have hpila := h.pila
  omega

/-- The address of an element, with no number that wraps. -/
theorem emitDireccionElemento_succ (h : cg.Bien) (fuel : Nat) (base idx : Texto) :
    cg.emitDireccionElemento (fuel + 1) base idx = (do
      let off ← cg.varOffsets base
      let (n, paso) ← cg.tablas base
      match parseI64 idx with
      | some fijo =>
        if fijo < 1 ∨ fijo > n then none
        else some [.lea .rcx (off + (fijo - 1) * paso)]
      | none =>
        if cg.varScale idx ≠ 0 then none
        else do
          let carga ← cg.loadOperandCon (cg.emitDireccionElemento fuel) idx 0
          some (carga ++ ([.dec .rax, .cmpImm .rax (UInt64.ofNat n), .jcc .ae (.fuera base),
            .movImm .rcx (UInt64.ofNat paso), .imul .rax .rcx, .lea .rcx off,
            .add .rcx .rax] : Codigo))) := by
  rw [emitDireccionElemento]
  cases hoff : cg.varOffsets base with
  | none => simp only [Option.bind_eq_bind, Option.bind_none]
  | some off =>
    cases htab : cg.tablas base with
    | none => simp only [Option.bind_eq_bind, Option.bind_some, Option.bind_none]
    | some p =>
      obtain ⟨n, paso⟩ := p
      obtain ⟨hpaso, hle, hfin⟩ := tabla_le h hoff htab
      have hpila := h.pila
      have hn := elementos_lt h hoff htab
      simp only [Option.bind_eq_bind, Option.bind_some]
      cases parseI64 idx with
      | none =>
        dsimp only
        rw [i32_of_lt (x := n) (by omega) (by omega), ofSigned_natCast]
      | some fijo =>
        dsimp only
        split
        · rfl
        · next hin =>
          obtain ⟨k, rfl⟩ : ∃ k : Nat, fijo = (k + 1 : Nat) := ⟨(fijo - 1).toNat, by omega⟩
          have hmul : (k + 1) * paso ≤ n * paso := Nat.mul_le_mul_right _ (by omega)
          have hp : 1 * paso ≤ (k + 1) * paso := Nat.mul_le_mul_right _ (by omega)
          rw [Nat.succ_mul] at hmul
          have hk : ((k + 1 : Nat) : Int) - 1 = k := by omega
          rw [i32_of_lt (x := ((k + 1 : Nat) : Int)) (by omega) (by omega), hk,
            i32_of_lt (x := k) (by omega) (by omega), i32_of_lt (x := paso) (by omega) (by omega),
            ← Nat.cast_mul, i32_of_lt (x := (k * paso : Nat)) (by omega) (by omega),
            i32_of_lt (by omega) (by omega)]

/-- The routine of the addresses. -/
theorem acierta (h : cg.Bien) (fuel : Nat) : cg.Acierta (cg.emitDireccionElemento fuel) := by
  induction fuel with
  | zero => exact fun _ hcode _ _ ↦ absurd hcode (by simp [emitDireccionElemento])
  | succ fuel ih =>
    intro name base idx code m s hsub hcode hcabe hs
    rw [emitDireccionElemento_succ h] at hcode
    simp only [Option.bind_eq_bind, Option.bind_eq_some_iff] at hcode
    obtain ⟨off, hoff, ⟨n, paso⟩, htab, hcode⟩ := hcode
    have hn : n < 2 ^ 64 := (elementos_lt h hoff htab).trans (by decide)
    -- the code after the subscript, for a subscript that is in `rax`
    have hdespues {carga : Codigo} {k : Nat} (hk : k < n)
        (hcarga : ∃ m1, run carga none m = .next m1 ∧ Keeps libres m m1 ∧
          m1.reg .rax = ofSigned (k + 1 : Nat)) :
        ∃ m', run (carga ++ ([.dec .rax, .cmpImm .rax (UInt64.ofNat n), .jcc .ae (.fuera base),
          .movImm .rcx (UInt64.ofNat paso), .imul .rax .rcx, .lea .rcx off,
          .add .rcx .rax] : Codigo)) none m = .next m' ∧ Keeps libres m m' ∧
          (m'.reg .rcx).toNat = m.frame (off + (k * paso : Nat)) := by
      obtain ⟨m1, hrun1, hkeep1, hrax1⟩ := hcarga
      obtain ⟨m2, hrun2, hkeep2, hrcx⟩ := @run_indice m1 n paso k off base hrax1 hk hn
      refine ⟨m2, (run_append_of_next hrun1).trans hrun2, hkeep1.trans hkeep2, ?_⟩
      rw [hrcx]
      unfold Machine.frame
      rw [hkeep1.reg _ (by decide)]
    cases hs with
    | suelto hnone => exact absurd (hsub.symm.trans hnone) (by simp)
    | @fijo _ base' idx' off' n' paso' k hsub' hoff' htab' hidx hk =>
      obtain ⟨rfl, rfl⟩ := Prod.mk.inj (Option.some.inj (hsub.symm.trans hsub'))
      obtain rfl := Option.some.inj (hoff.symm.trans hoff')
      obtain ⟨rfl, rfl⟩ := Prod.mk.inj (Option.some.inj (htab.symm.trans htab'))
      rw [hidx] at hcode
      simp only at hcode
      rw [if_neg (by omega)] at hcode
      cases hcode
      refine ⟨_, rfl, ⟨fun r hr ↦ ?_, rfl, rfl⟩, ?_⟩
      · simp [libres] at hr
        simp [hr]
      · rw [Machine.set_reg, if_pos rfl]
        unfold Machine.frame
        congr 3
        push_cast
        ring
    | @dato _ base' idx' off' n' paso' k s' hsub' hoff' htab' hidx hvar hs' hval hk =>
      obtain ⟨rfl, rfl⟩ := Prod.mk.inj (Option.some.inj (hsub.symm.trans hsub'))
      obtain rfl := Option.some.inj (hoff.symm.trans hoff')
      obtain ⟨rfl, rfl⟩ := Prod.mk.inj (Option.some.inj (htab.symm.trans htab'))
      rw [hidx] at hcode
      simp only at hcode
      split at hcode
      · exact absurd hcode (by simp)
      · next hscale =>
        rw [not_not] at hscale
        simp only [Option.bind_eq_some_iff] at hcode
        obtain ⟨carga, hcarga, hcode⟩ := hcode
        cases hcode
        apply hdespues hk
        unfold loadOperandCon at hcarga
        rw [if_pos hvar] at hcarga
        simp only [Option.bind_eq_bind, Option.bind_eq_some_iff] at hcarga
        obtain ⟨carga', hcarga', hcarga⟩ := hcarga
        cases hcarga
        obtain ⟨m1, hrun1, hkeep1, hrax1⟩ := run_loadVarCon h ih hcarga' hcabe hs'
        refine ⟨m1, ?_, hkeep1, by rw [hrax1, hval]⟩
        rw [run_append_of_next hrun1, hscale]
        rfl
    | @texto _ base' idx' off' n' paso' k v hsub' hoff' htab' hidx hvar himm hval hk =>
      obtain ⟨rfl, rfl⟩ := Prod.mk.inj (Option.some.inj (hsub.symm.trans hsub'))
      obtain rfl := Option.some.inj (hoff.symm.trans hoff')
      obtain ⟨rfl, rfl⟩ := Prod.mk.inj (Option.some.inj (htab.symm.trans htab'))
      rw [hidx] at hcode
      simp only at hcode
      split at hcode
      · exact absurd hcode (by simp)
      · simp only [Option.bind_eq_some_iff] at hcode
        obtain ⟨carga, hcarga, hcode⟩ := hcode
        cases hcode
        apply hdespues hk
        unfold loadOperandCon at hcarga
        rw [if_neg (by simp [hvar]), himm] at hcarga
        cases hcarga
        refine ⟨_, rfl, ⟨fun r hr ↦ ?_, rfl, rfl⟩, ?_⟩
        · simp [libres] at hr
          simp [hr]
        · rw [Machine.set_reg, if_pos rfl, ← hval, ofSigned_signed]

section

variable (h : cg.Bien) {name : Texto} {code : Codigo} {m : Machine} {s : Sitio}
  (hcabe : cg.Cabe m)
include h hcabe

theorem run_loadVar (hcode : cg.loadVar name = some code) (hs : cg.Designa m name s) :
    ∃ m', run code none m = .next m' ∧ Keeps libres m m' ∧
      m'.reg .rax = ofSigned (s.valor m.mem) :=
  run_loadVarCon h (acierta h _) hcode hcabe hs

theorem run_loadOperand {scale e : Nat} {x : Int} (hcode : cg.loadOperand name scale = some code)
    (hx : cg.Vale m name x e) (hle : e ≤ scale) (hfits : Fits (x * 10 ^ (scale - e))) :
    ∃ m', run code none m = .next m' ∧ Keeps libres m m' ∧
      m'.reg .rax = ofSigned (x * 10 ^ (scale - e)) :=
  run_loadOperandCon h (acierta h _) hcode hcabe hx hle hfits

/-- A datum takes what is in `rax`. -/
theorem run_storeVar (hcode : cg.storeVar name = some code) (hs : cg.Designa m name s) :
    ∃ m', run code none m = .next m' ∧ Only libres s.Ocupa m m' ∧
      s.valor m'.mem = s.recibe (signed (m.reg .rax)) := by
  obtain ⟨hpos, hle⟩ := hs.esDato.dentro h hcabe
  have hlt := (m.reg .rbp).toNat_lt
  have hpacked : s.packed = cg.packedDe name := by
    cases hs <;> rfl
  unfold storeVar at hcode
  cases hsub : subindice name with
  | some p =>
    obtain ⟨base, idx⟩ := p
    rw [hsub] at hcode
    simp only [Option.bind_eq_bind, Option.bind_eq_some_iff] at hcode
    obtain ⟨dir, hcodedir, escribe, hescribe, hcode⟩ := hcode
    cases hcode
    let m1 : Machine := { m with stack := m.reg .rax :: m.stack }
    have hs1 : cg.Designa m1 name s := @Designa.congr cg m m1 name s rfl rfl hs
    obtain ⟨m2, hrun2, hkeep2, hrcx⟩ := @acierta cg h _ name base idx dir m1 s hsub hcodedir
      hcabe hs1
    let m3 : Machine := { m2.set .rax (m.reg .rax) with stack := m.stack }
    have hrun3 : run ([.pop .rax] : Codigo) none m2 = .next m3 := by
      simp only [run, step, hkeep2.stack]
      rfl
    rw [← hpacked] at hescribe
    have hrcx3 : (m3.reg .rcx).toNat = s.dir := hrcx
    obtain ⟨m4, hrun4, honly4, hval⟩ := run_escribeEn hescribe hrcx3 hpos (by omega)
    refine ⟨m4, ?_, ⟨fun r hr ↦ ?_, fun a ha ↦ ?_, ?_⟩, hval⟩
    · rw [run_append_of_next (show run _ none m = .next m1 from rfl), run_append_of_next hrun2,
        run_append_of_next hrun3, hrun4]
    · rw [honly4.reg r hr]
      simp [libres] at hr
      have hreg := hkeep2.reg r (by simp [libres, hr])
      simp only [m3, Machine.set_reg, hr, if_false]
      exact hreg
    · rw [honly4.mem a ha]
      exact congrFun hkeep2.mem a
    · exact honly4.stack
  | none =>
    rw [hsub] at hcode
    simp only [Option.bind_eq_bind, Option.bind_eq_some_iff] at hcode
    obtain ⟨off, hoff, hcode⟩ := hcode
    have hdir : m.frame off = s.dir := hs.frame_of_none hsub hoff
    cases hp : cg.packedDe name with
    | some p =>
      rw [hp] at hcode
      simp only [Option.bind_eq_some_iff] at hcode
      obtain ⟨escribe, hescribe, hcode⟩ := hcode
      cases hcode
      let m1 := m.set .rcx (m.reg .rbp + ofSigned off)
      have hkeep1 : Keeps libres m m1 := Keeps.refl.set (by decide)
      rw [← hp, ← hpacked] at hescribe
      obtain ⟨m2, hrun2, honly2, hval⟩ := @run_escribeEn m1 s escribe hescribe hdir hpos (by omega)
      exact ⟨m2, hrun2, hkeep1.only.trans honly2, hval⟩
    | none =>
      rw [hp] at hcode
      cases hcode
      refine ⟨_, rfl, ⟨fun r hr ↦ rfl, fun a ha ↦ ?_, rfl⟩, ?_⟩
      · rw [hdir]
        apply Memory.write64_out
        unfold Sitio.Ocupa at ha
        rw [hpacked, hp] at ha
        unfold anchoDe at ha
        dsimp only at ha
        omega
      · unfold Sitio.valor Sitio.recibe
        rw [hpacked, hp]
        dsimp only
        rw [hdir, Memory.read64_write64_self]

end

end BmoX.Cobol.Codegen
