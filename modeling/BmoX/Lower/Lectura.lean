import BmoX.Lower.Fmt

/-!
# Text as numbers

`toolchain/forge/bmo-lower/src/fmt.rs`. What is written is read back, and what goes to the console.
-/

namespace BmoX.Lower.Fmt

open BmoX.Base BmoX.Base.X86

/-- What a character does, that is in `rdx`. -/
def clasifica : List (Instr Rotulo) :=
  [.cmpImm .rdx 0x2D, .jcc .e .esMenos, .cmpImm .rdx 0x2E, .jcc .e .esPunto,
    .subImm .rdx 0x30, .cmpImm .rdx 9, .jcc .a .top,
    .test .r11 .r11, .jcc .e .enEntero, .test .rsi .rsi, .jcc .e .top, .dec .rsi,
    .label .enEntero, .imul .rax .rdi, .add .rax .rdx, .jmp .top,
    .label .esMenos, .movImm .r10 1, .jmp .top,
    .label .esPunto, .movImm .r11 1, .jmp .top]

/-- One character of the text; `fmt.rs:232–271`. -/
def unCaracter : List (Instr Rotulo) :=
  [Instr.cmp .rcx .r9] ++ ([Instr.jcc .ae Rotulo.fin] ++
    ([Instr.loadByteIdx .rdx .r8 .rcx, .inc .rcx] ++ clasifica))

/-- A zero for a digit that did not come. -/
def unCero : List (Instr Rotulo) :=
  [.test .rsi .rsi, .jcc .e .yaEsta, .imul .rax .rdi, .dec .rsi, .jmp .relleno]

/-- The sign, at the end. -/
def conSuSigno : List (Instr Rotulo) :=
  [.test .r10 .r10, .jcc .e .positivo, .neg .rax, .label .positivo]

/-- Nothing read yet. -/
def empieza (escala : Nat) : List (Instr Rotulo) :=
  [.zero .rax, .zero .rcx, .zero .r10, .zero .r11, .movImm .rsi (UInt64.ofNat escala),
    .movImm .rdi 10]

/-- The number of the text, in `rax`; `fmt.rs:222–291`. -/
def parse_decimal_scaled (escala : Nat) : Programa :=
  (empieza escala).map Op.instr ++ (.instr (.label .top) :: (unCaracter.map Op.instr ++
    (.instr (.label .fin) :: .instr (.label .relleno) :: (unCero.map Op.instr ++
      (.instr (.label .yaEsta) :: conSuSigno.map Op.instr)))))

/-! ### What is read of a text -/

/-- What has been read so far: the number, whether there was a minus and a point, and how many
digits of the fraction are still to come. -/
structure Lector where
  acc : UInt64
  neg : Bool
  punto : Bool
  faltan : Nat

/-- One character. -/
def Lector.lee (l : Lector) (b : UInt8) : Lector :=
  if b = 0x2D then { l with neg := true }
  else if b = 0x2E then { l with punto := true }
  else if b < 0x30 ∨ 0x39 < b then l
  else if l.punto then
    if l.faltan = 0 then l
    else { l with acc := l.acc * 10 + (b.toUInt64 - 0x30), faltan := l.faltan - 1 }
  else { l with acc := l.acc * 10 + (b.toUInt64 - 0x30) }

/-- The number that was read. -/
def Lector.valor (l : Lector) : UInt64 :=
  if l.neg then -(l.acc * 10 ^ l.faltan) else l.acc * 10 ^ l.faltan

/-- The number of a text. -/
def leer (escala : Nat) (t : Bytes) : UInt64 := (t.foldl Lector.lee ⟨0, false, false, escala⟩).valor

example : leer 2 (decimal (-1999) 2) = ofSigned (-1999) := by decide

/-! ### What the code reads -/

variable {sys : Machine → Machine × Bytes} {code pre post : Programa} {out : Bytes} {m : Machine}

/-- A machine that has read so much, up to a place of the text. -/
structure Leyendo (m : Machine) (l : Lector) (i : Nat) : Prop where
  rax : m.reg .rax = l.acc
  rcx : m.reg .rcx = UInt64.ofNat i
  rsi : m.reg .rsi = UInt64.ofNat l.faltan
  rdi : m.reg .rdi = 10
  r10 : m.reg .r10 = if l.neg then 1 else 0
  r11 : m.reg .r11 = if l.punto then 1 else 0

/-- The registers that the reading uses. -/
def gastadosLectura : List Reg := [.rax, .rcx, .rdx, .rsi, .r10, .r11]

private theorem toUInt64_eq {b c : UInt8} : b.toUInt64 = c.toUInt64 ↔ b = c := by
  rw [← UInt64.toNat_inj, ← UInt8.toNat_inj, UInt8.toNat_toUInt64, UInt8.toNat_toUInt64]

private theorem noEsDigito (b : UInt8) :
    (9 < (b.toUInt64 - 0x30).toNat) ↔ b < 0x30 ∨ 0x39 < b := by
  have hb := b.toNat_lt
  have h48 : UInt64.toNat 0x30 = 0x30 := rfl
  have h48' : UInt8.toNat 0x30 = 0x30 := rfl
  have h57 : UInt8.toNat 0x39 = 0x39 := rfl
  rw [UInt64.toNat_sub, UInt8.toNat_toUInt64, h48, UInt8.lt_iff_toNat_lt, UInt8.lt_iff_toNat_lt,
    h48',
    h57]
  omega

/-- What a character does to what has been read. -/
theorem run_clasifica {l : Lector} {i : Nat} {b : UInt8} (h : Leyendo m l i)
    (hl : l.faltan < 2 ^ 64) (hrdx : m.reg .rdx = b.toUInt64) :
    ∃ m', run clasifica none m = .jump .top m' ∧ Keeps gastadosLectura m m' ∧
      Leyendo m' (l.lee b) i := by
  have hmenos : Cond.holds (cmpFlags b.toUInt64 0x2D) .e = decide (b = 0x2D) := by
    rw [holds_cmpFlags_e, decide_eq_decide]
    exact toUInt64_eq (c := 0x2D)
  have hpunto : Cond.holds (cmpFlags b.toUInt64 0x2E) .e = decide (b = 0x2E) := by
    rw [holds_cmpFlags_e, decide_eq_decide]
    exact toUInt64_eq (c := 0x2E)
  have hdigito : Cond.holds (cmpFlags (b.toUInt64 - 0x30) 9) .a =
      decide (b < 0x30 ∨ 0x39 < b) := by
    rw [holds_cmpFlags_a, decide_eq_decide]
    exact noEsDigito b
  unfold Lector.lee
  by_cases h1 : b = 0x2D
  · rw [decide_eq_true h1] at hmenos
    rw [if_pos h1]
    simp only [clasifica, run, step, hrdx, hmenos, Machine.setF_reg, Instr.is,
      reduceCtorEq, decide_true, decide_false, if_true, if_false, Bool.false_eq_true,
      Outcome.jump.injEq, true_and, exists_eq_left']
    refine ⟨⟨fun r hr ↦ ?_, rfl, rfl⟩, ?_⟩
    · simp [gastadosLectura] at hr
      simp [hr]
    · constructor <;> simp [h.rax, h.rcx, h.rsi, h.rdi, h.r11]
  rw [decide_eq_false h1] at hmenos
  rw [if_neg h1]
  by_cases h2 : b = 0x2E
  · rw [decide_eq_true h2] at hpunto
    rw [if_pos h2]
    simp only [clasifica, run, step, hrdx, hmenos, hpunto, Machine.setF_reg, Instr.is,
      reduceCtorEq, decide_true, decide_false, if_true, if_false, Bool.false_eq_true,
      Outcome.jump.injEq, true_and, exists_eq_left']
    refine ⟨⟨fun r hr ↦ ?_, rfl, rfl⟩, ?_⟩
    · simp [gastadosLectura] at hr
      simp [hr]
    · constructor <;> simp [h.rax, h.rcx, h.rsi, h.rdi, h.r10]
  rw [decide_eq_false h2] at hpunto
  rw [if_neg h2]
  by_cases h3 : b < 0x30 ∨ 0x39 < b
  · rw [decide_eq_true h3] at hdigito
    rw [if_pos h3]
    simp only [clasifica, run, step, hrdx, hmenos, hpunto, hdigito, Machine.setF_reg, Instr.is,
      reduceCtorEq, decide_false, if_true, if_false, Bool.false_eq_true,
      Outcome.jump.injEq, true_and, exists_eq_left']
    refine ⟨⟨fun r hr ↦ ?_, rfl, rfl⟩, ?_⟩
    · simp [gastadosLectura] at hr
      simp [hr]
    · constructor <;> simp [h.rax, h.rcx, h.rsi, h.rdi, h.r10, h.r11]
  rw [decide_eq_false h3] at hdigito
  rw [if_neg h3]
  have hr11 : Cond.holds (testFlags (m.reg .r11)) .e = !l.punto := by
    rw [holds_testFlags_e, h.r11]
    cases l.punto <;> rfl
  by_cases h4 : l.punto
  · rw [h4] at hr11
    rw [if_pos h4]
    by_cases h5 : l.faltan = 0
    · have hrsi : Cond.holds (testFlags (m.reg .rsi)) .e = true := by
        rw [holds_testFlags_e, h.rsi, h5]
        rfl
      rw [if_pos h5]
      simp only [clasifica, run, step, hrdx, hmenos, hpunto, hdigito, hr11, hrsi, UInt64.and_self,
        Bool.not_true, Machine.setF_reg, Instr.is,
        reduceCtorEq, decide_false, if_true, if_false, Bool.false_eq_true,
        Outcome.jump.injEq, true_and, exists_eq_left']
      refine ⟨⟨fun r hr ↦ ?_, rfl, rfl⟩, ?_⟩
      · simp [gastadosLectura] at hr
        simp [hr]
      · constructor <;> simp [h.rax, h.rcx, h.rsi, h.rdi, h.r10, h.r11]
    · have hrsi : Cond.holds (testFlags (m.reg .rsi)) .e = false := by
        rw [holds_testFlags_e, h.rsi]
        refine decide_eq_false fun h0 ↦ h5 ?_
        have hnat := congrArg UInt64.toNat h0
        rwa [UInt64.toNat_ofNat_of_lt' hl] at hnat
      have hmenos1 : UInt64.ofNat l.faltan - 1 = UInt64.ofNat (l.faltan - 1) := by
        obtain ⟨k, hk⟩ := Nat.exists_eq_succ_of_ne_zero h5
        rw [hk, Nat.succ_sub_one, Nat.succ_eq_add_one, UInt64.ofNat_add]
        exact UInt64.add_sub_cancel ..
      rw [if_neg h5]
      simp only [clasifica, run, step, hrdx, hmenos, hpunto, hdigito, hr11, hrsi, UInt64.and_self,
        Bool.not_true, Machine.setF_reg, Instr.is,
        reduceCtorEq, decide_false, if_true, if_false, Bool.false_eq_true,
        Outcome.jump.injEq, true_and, exists_eq_left']
      refine ⟨⟨fun r hr ↦ ?_, rfl, rfl⟩, ?_⟩
      · simp [gastadosLectura] at hr
        simp [hr]
      · constructor <;> simp [h.rax, h.rcx, h.rsi, h.rdi, h.r10, h.r11, hmenos1]
  · rw [Bool.not_eq_true] at h4
    rw [h4] at hr11
    rw [if_neg (by simp [h4])]
    simp only [clasifica, run, step, hrdx, hmenos, hpunto, hdigito, hr11, UInt64.and_self,
      Bool.not_false, Machine.setF_reg, Instr.is,
      reduceCtorEq, decide_true, decide_false, if_true, if_false, Bool.false_eq_true,
      Outcome.jump.injEq, true_and, exists_eq_left']
    refine ⟨⟨fun r hr ↦ ?_, rfl, rfl⟩, ?_⟩
    · simp [gastadosLectura] at hr
      simp [hr]
    · constructor <;> simp [h.rax, h.rcx, h.rsi, h.rdi, h.r10, h.r11]

private theorem Leyendo.of_keeps {m' : Machine} {l : Lector} {i : Nat} (h : Leyendo m l i)
    (hk : Keeps [] m m') : Leyendo m' l i :=
  ⟨(hk.reg _ (by simp)).trans h.rax, (hk.reg _ (by simp)).trans h.rcx,
    (hk.reg _ (by simp)).trans h.rsi, (hk.reg _ (by simp)).trans h.rdi,
    (hk.reg _ (by simp)).trans h.r10, (hk.reg _ (by simp)).trans h.r11⟩

private theorem run_compara (m : Machine) :
    ∃ m', run ([.cmp .rcx .r9] : List (Instr Rotulo)) none m = .next m' ∧ Keeps [] m m' ∧
      m'.flags = some (cmpFlags (m.reg .rcx) (m.reg .r9)) :=
  ⟨_, rfl, ⟨fun _ _ ↦ rfl, rfl, rfl⟩, rfl⟩

private theorem run_trae {l : Lector} {i : Nat} (h : Leyendo m l i) :
    ∃ m', run ([.loadByteIdx .rdx .r8 .rcx, .inc .rcx] : List (Instr Rotulo)) none m = .next m' ∧
      Keeps gastadosLectura m m' ∧ Leyendo m' l (i + 1) ∧
      m'.reg .rdx = (m.mem (m.reg .r8 + UInt64.ofNat i).toNat).toUInt64 := by
  simp only [run, step, h.rcx, Outcome.next.injEq, exists_eq_left']
  refine ⟨⟨fun r hr ↦ ?_, rfl, rfl⟩, ?_, ?_⟩
  · simp [gastadosLectura] at hr
    simp [hr]
  · constructor <;> simp [h.rax, h.rcx, h.rsi, h.rdi, h.r10, h.r11]
  · simp

private theorem run_unCaracter {l : Lector} {i : Nat} (h : Leyendo m l i) (hl : l.faltan < 2 ^ 64)
    (hi : i < (m.reg .r9).toNat) :
    ∃ m', run unCaracter none m = .jump .top m' ∧ Keeps gastadosLectura m m' ∧
      Leyendo m' (l.lee (m.mem (m.reg .r8 + UInt64.ofNat i).toNat)) (i + 1) := by
  have hlt := (m.reg .r9).toNat_lt
  obtain ⟨m1, hrun1, hkeep1, hflags1⟩ := run_compara m
  have hjcc : run ([.jcc .ae .fin] : List (Instr Rotulo)) none m1 = .next m1 := by
    rw [run_jcc hflags1, holds_cmpFlags_ae, h.rcx,
      UInt64.toNat_ofNat_of_lt' (show i < 2 ^ 64 by omega)]
    exact if_neg (by simpa using hi)
  obtain ⟨m2, hrun2, hkeep2, h2, hrdx2⟩ := run_trae (h.of_keeps hkeep1)
  rw [hkeep1.mem, hkeep1.reg _ (by simp)] at hrdx2
  obtain ⟨m3, hrun3, hkeep3, h3⟩ := run_clasifica h2 hl hrdx2
  refine ⟨m3, ?_, ((hkeep1.mono (by simp)).trans hkeep2).trans hkeep3, h3⟩
  unfold unCaracter
  rw [run_append_of_next hrun1, run_append_of_next hjcc, run_append_of_next hrun2, hrun3]

private theorem run_unCaracter_fin {l : Lector} (h : Leyendo m l (m.reg .r9).toNat) :
    ∃ m', run unCaracter none m = .jump .fin m' ∧ Keeps [] m m' := by
  obtain ⟨m1, hrun1, hkeep1, hflags1⟩ := run_compara m
  have hjcc : run ([.jcc .ae .fin] : List (Instr Rotulo)) none m1 = .jump .fin m1 := by
    rw [run_jcc hflags1, holds_cmpFlags_ae, h.rcx, UInt64.ofNat_toNat]
    exact if_pos (by simp)
  refine ⟨m1, ?_, hkeep1⟩
  unfold unCaracter
  rw [run_append_of_next hrun1, run_append, hjcc]
  rfl

private theorem Lector.faltan_lee (l : Lector) (b : UInt8) : (l.lee b).faltan ≤ l.faltan := by
  unfold Lector.lee
  split
  · exact le_rfl
  split
  · exact le_rfl
  split
  · exact le_rfl
  split
  · split
    · exact le_rfl
    · exact Nat.sub_le _ _
  · exact le_rfl

theorem Lector.faltan_foldl (l : Lector) (t : Bytes) : (t.foldl Lector.lee l).faltan ≤ l.faltan :=
  by
  induction t generalizing l with
  | nil => exact le_rfl
  | cons b t ih => exact (ih _).trans (l.faltan_lee b)

/-- The characters of the text are read one after another. -/
theorem reaches_caracteres (hcode : (labels code).Nodup)
    (h : code = pre ++ (.instr (.label .top) :: (unCaracter.map Op.instr ++ post)))
    {js : Programa} (hfin : after .fin code = some js) {l : Lector} (hl : l.faltan < 2 ^ 64)
    (hm : Leyendo m l 0) :
    ∃ m' i, Reaches sys code ⟨unCaracter.map Op.instr ++ post, m, out⟩ ⟨js, m', out⟩ ∧
      Leyendo m' ((texto m).foldl Lector.lee l) i := by
  have hlen : (texto m).length = (m.reg .r9).toNat := length_bytesEn ..
  let J : Nat → Machine → Prop := fun k m' ↦ ∃ i, i + k = (m.reg .r9).toNat ∧
    Keeps gastadosLectura m m' ∧ Leyendo m' (((texto m).take i).foldl Lector.lee l) i
  have hpaso : ∀ k m', J k m' →
      (∃ k' < k, ∃ m'', run unCaracter none m' = .jump .top m'' ∧ J k' m'') ∨
      ∃ js' m'', exit code post (run unCaracter none m') = some (js', m'') ∧
        (js' = js ∧ ∃ i, Leyendo m'' ((texto m).foldl Lector.lee l) i) := by
    rintro k m' ⟨i, hi, hkeep, hley⟩
    have hr9 : m'.reg .r9 = m.reg .r9 := hkeep.reg _ (by decide)
    cases k with
    | zero =>
      rw [Nat.add_zero] at hi
      rw [List.take_of_length_le (by omega)] at hley
      obtain ⟨m'', hrun, hkeep'⟩ := run_unCaracter_fin (by rwa [hr9, ← hi])
      exact .inr ⟨js, m'', by rw [hrun, exit, hfin, Option.map_some], rfl, i, hley.of_keeps hkeep'⟩
    | succ k =>
      have hmenor : i < (texto m).length := by omega
      obtain ⟨m'', hrun, hkeep', hley'⟩ := run_unCaracter hley
        ((Lector.faltan_foldl _ _).trans_lt hl) (by rw [hr9]; omega)
      have hbyte : m'.mem (m'.reg .r8 + UInt64.ofNat i).toNat = (texto m)[i] := by
        rw [hkeep.mem, hkeep.reg _ (by decide)]
        exact (getElem_bytesEn hmenor).symm
      refine .inl ⟨k, Nat.lt_succ_self k, m'', hrun, i + 1, by omega, hkeep.trans hkeep', ?_⟩
      rw [← List.take_concat_get' _ _ hmenor, List.foldl_append, ← hbyte]
      exact hley'
  have hJ : J (m.reg .r9).toNat m := ⟨0, Nat.zero_add _, .refl, hm⟩
  have hloop : ∃ js' m', Reaches sys code ⟨unCaracter.map Op.instr ++ post, m, out⟩
      ⟨js', m', out⟩ ∧ (js' = js ∧ ∃ i, Leyendo m' ((texto m).foldl Lector.lee l) i) :=
    reaches_loop hcode h hpaso hJ
  obtain ⟨_, m', hreach, rfl, i, hley⟩ := hloop
  exact ⟨m', i, hreach, hley⟩

theorem ofNat_sub_one {n : Nat} (h : n ≠ 0) : UInt64.ofNat n - 1 = UInt64.ofNat (n - 1) := by
  obtain ⟨k, rfl⟩ := Nat.exists_eq_succ_of_ne_zero h
  rw [Nat.succ_sub_one, Nat.succ_eq_add_one, UInt64.ofNat_add]
  exact UInt64.add_sub_cancel ..

theorem ofNat_eq_zero {n : Nat} (h : n < 2 ^ 64) : UInt64.ofNat n = 0 ↔ n = 0 := by
  rw [← UInt64.toNat_inj, UInt64.toNat_ofNat_of_lt' h]
  rfl

/-- One zero. -/
theorem run_unCero {l : Lector} {i : Nat} (h : Leyendo m l i) (hl : l.faltan < 2 ^ 64)
    (h0 : l.faltan ≠ 0) :
    ∃ m', run unCero none m = .jump .relleno m' ∧
      Leyendo m' { l with acc := l.acc * 10, faltan := l.faltan - 1 } i := by
  have hrsi : Cond.holds (testFlags (m.reg .rsi)) .e = false := by
    rw [holds_testFlags_e, h.rsi]
    exact decide_eq_false (mt (ofNat_eq_zero hl).mp h0)
  simp only [unCero, run, step, UInt64.and_self, hrsi, Bool.false_eq_true, if_false,
    Machine.setF_reg, reduceCtorEq, Outcome.jump.injEq, true_and, exists_eq_left']
  constructor <;> simp [h.rax, h.rcx, h.rsi, h.rdi, h.r10, h.r11, ofNat_sub_one h0]

private theorem run_unCero_fin {l : Lector} {i : Nat} (h : Leyendo m l i) (h0 : l.faltan = 0) :
    ∃ m', run unCero none m = .jump .yaEsta m' ∧ Leyendo m' l i := by
  have hrsi : Cond.holds (testFlags (m.reg .rsi)) .e = true := by
    rw [holds_testFlags_e, h.rsi, h0]
    rfl
  simp only [unCero, run, step, UInt64.and_self, hrsi, if_true, Instr.is, if_false,
    Bool.false_eq_true, Outcome.jump.injEq, true_and, exists_eq_left']
  exact h.of_keeps ⟨fun _ _ ↦ rfl, rfl, rfl⟩

/-- The digits that did not come are zeros. -/
theorem reaches_ceros (hcode : (labels code).Nodup)
    (h : code = pre ++ (.instr (.label .relleno) :: (unCero.map Op.instr ++ post)))
    {js : Programa} (hfin : after .yaEsta code = some js) {l : Lector} (hl : l.faltan < 2 ^ 64)
    {i : Nat} (hm : Leyendo m l i) :
    ∃ m', Reaches sys code ⟨unCero.map Op.instr ++ post, m, out⟩ ⟨js, m', out⟩ ∧
      Leyendo m' { l with acc := l.acc * 10 ^ l.faltan, faltan := 0 } i := by
  let J : Nat → Machine → Prop := fun k m' ↦ ∃ l' : Lector, l'.faltan = k ∧ k < 2 ^ 64 ∧
    Leyendo m' l' i ∧ ({ l' with acc := l'.acc * 10 ^ l'.faltan, faltan := 0 } : Lector) =
      { l with acc := l.acc * 10 ^ l.faltan, faltan := 0 }
  have hpaso : ∀ k m', J k m' →
      (∃ k' < k, ∃ m'', run unCero none m' = .jump .relleno m'' ∧ J k' m'') ∨
      ∃ js' m'', exit code post (run unCero none m') = some (js', m'') ∧
        (js' = js ∧ Leyendo m'' { l with acc := l.acc * 10 ^ l.faltan, faltan := 0 } i) := by
    rintro k m' ⟨l', rfl, hk, hley, heq⟩
    by_cases h0 : l'.faltan = 0
    · obtain ⟨m'', hrun, hley'⟩ := run_unCero_fin hley h0
      refine .inr ⟨js, m'', by rw [hrun, exit, hfin, Option.map_some], rfl, ?_⟩
      rw [← heq, h0, UInt64.pow_zero, UInt64.mul_one, ← h0]
      exact hley'
    · obtain ⟨m'', hrun, hley'⟩ := run_unCero hley hk h0
      refine .inl ⟨l'.faltan - 1, by omega, m'', hrun, _, rfl, by omega, hley', ?_⟩
      rw [← heq]
      have hpow : l'.acc * 10 * 10 ^ (l'.faltan - 1) = l'.acc * 10 ^ l'.faltan := by
        obtain ⟨k, hk⟩ := Nat.exists_eq_succ_of_ne_zero h0
        rw [hk, Nat.succ_sub_one, Nat.succ_eq_add_one, UInt64.pow_succ, UInt64.mul_assoc,
          UInt64.mul_comm 10]
      simp only [hpow]
  have hloop : ∃ js' m', Reaches sys code ⟨unCero.map Op.instr ++ post, m, out⟩ ⟨js', m', out⟩ ∧
      (js' = js ∧ Leyendo m' { l with acc := l.acc * 10 ^ l.faltan, faltan := 0 } i) :=
    reaches_loop hcode h hpaso (⟨l, rfl, hl, hm, rfl⟩ : J l.faltan m)
  obtain ⟨_, m', hreach, rfl, hley⟩ := hloop
  exact ⟨m', hreach, hley⟩

/-- The sign. -/
theorem run_conSuSigno {l : Lector} {i : Nat} (h : Leyendo m l i) :
    ∃ m', run conSuSigno none m = .next m' ∧
      m'.reg .rax = if l.neg then -l.acc else l.acc := by
  have hr10 : Cond.holds (testFlags (m.reg .r10)) .e = !l.neg := by
    rw [holds_testFlags_e, h.r10]
    cases l.neg <;> rfl
  cases hneg : l.neg
  · rw [hneg] at hr10
    simp only [conSuSigno, run, step, UInt64.and_self, hr10, Bool.not_false, if_true, Instr.is,
      decide_true, Bool.false_eq_true, if_false, Outcome.next.injEq, exists_eq_left']
    exact h.rax
  · rw [hneg] at hr10
    simp only [conSuSigno, run, step, UInt64.and_self, hr10, Bool.not_true, if_true,
      Bool.false_eq_true, if_false, Outcome.next.injEq, exists_eq_left', Machine.setF_reg]
    exact congrArg _ h.rax

/-- The code reads the number of the text. -/
theorem reaches_parse {escala : Nat} (hs : escala < 2 ^ 64) (hcode : (labels code).Nodup)
    (h : code = pre ++ (parse_decimal_scaled escala ++ post)) :
    ∃ m', Reaches sys code ⟨parse_decimal_scaled escala ++ post, m, out⟩ ⟨post, m', out⟩ ∧
      m'.reg .rax = leer escala (texto m) := by
  obtain ⟨m1, hrun1, hley1, htexto1⟩ : ∃ m1, run (empieza escala) none m = .next m1 ∧
      Leyendo m1 ⟨0, false, false, escala⟩ 0 ∧ texto m1 = texto m := by
    refine ⟨_, rfl, ?_, rfl⟩
    constructor <;> simp
  let resto1 : Programa := .instr (.label .fin) :: .instr (.label .relleno) ::
    (unCero.map Op.instr ++ (.instr (.label .yaEsta) :: (conSuSigno.map Op.instr ++ post)))
  let resto2 : Programa := .instr (.label .yaEsta) :: (conSuSigno.map Op.instr ++ post)
  have hinicio : parse_decimal_scaled escala ++ post = (empieza escala).map Op.instr ++
      (.instr (.label .top) :: (unCaracter.map Op.instr ++ resto1)) := by
    simp [parse_decimal_scaled, resto1]
  have hcode1 : code = pre ++ ((empieza escala).map Op.instr ++
      (.instr (.label .top) :: (unCaracter.map Op.instr ++ resto1))) := by
    rw [h, hinicio]
  have hcode2 : code = (pre ++ (empieza escala).map Op.instr) ++
      (.instr (.label .top) :: (unCaracter.map Op.instr ++ resto1)) := by
    rw [hcode1, List.append_assoc]
  have hcode3 : code = (pre ++ ((empieza escala).map Op.instr ++
      (.instr (.label .top) :: unCaracter.map Op.instr))) ++ resto1 := by
    simp [hcode1]
  have hcode4 : code = (pre ++ ((empieza escala).map Op.instr ++
      (.instr (.label .top) :: (unCaracter.map Op.instr ++ [Op.instr (.label .fin)])))) ++
      (.instr (.label .relleno) :: (unCero.map Op.instr ++ resto2)) := by
    simp [hcode1, resto1, resto2]
  have hcode5 : code = (pre ++ ((empieza escala).map Op.instr ++
      (.instr (.label .top) :: (unCaracter.map Op.instr ++ (.instr (.label .fin) ::
        .instr (.label .relleno) :: unCero.map Op.instr))))) ++ resto2 := by
    simp [hcode1, resto1, resto2]
  have hcode6 : code = (pre ++ ((empieza escala).map Op.instr ++
      (.instr (.label .top) :: (unCaracter.map Op.instr ++ (.instr (.label .fin) ::
        .instr (.label .relleno) :: (unCero.map Op.instr ++ [Op.instr (.label .yaEsta)])))))) ++
      (conSuSigno.map Op.instr ++ post) := by
    simp [hcode1, resto1]
  obtain ⟨m2, i, hreach2, hley2⟩ :=
    reaches_caracteres hcode hcode2 (after_of_nodup hcode hcode3) hs hley1
  have hfaltan := Lector.faltan_foldl ⟨0, false, false, escala⟩ (texto m1)
  obtain ⟨m3, hreach3, hley3⟩ := reaches_ceros hcode hcode4
    (after_of_nodup hcode hcode5) (hfaltan.trans_lt hs) hley2
  obtain ⟨m4, hrun4, hrax4⟩ := run_conSuSigno hley3
  refine ⟨m4, ?_, ?_⟩
  · rw [hinicio]
    exact (reaches_next hcode hcode1 hrun1).trans (reaches_label.trans (hreach2.trans
      (reaches_label.trans (hreach3.trans (reaches_next hcode hcode6 hrun4)))))
  · rw [hrax4, leer, Lector.valor, htexto1]

/-! ### What is written is read -/

private theorem lee_cifraTexto {l : Lector} {d : Nat} (hd : d < 10) :
    l.lee (cifraTexto d) =
      if l.punto then
        if l.faltan = 0 then l
        else { l with acc := l.acc * 10 + UInt64.ofNat d, faltan := l.faltan - 1 }
      else { l with acc := l.acc * 10 + UInt64.ofNat d } := by
  have h : ∀ d < 10, cifraTexto d ≠ 0x2D ∧ cifraTexto d ≠ 0x2E ∧
      ¬(cifraTexto d < 0x30 ∨ 0x39 < cifraTexto d) ∧
      (cifraTexto d).toUInt64 - 0x30 = UInt64.ofNat d := by
    decide
  obtain ⟨h1, h2, h3, h4⟩ := h d hd
  rw [Lector.lee, if_neg h1, if_neg h2, if_neg h3, h4]

private theorem foldl_enBase {l : Lector} (hp : l.punto = false) (h0 : l.acc = 0) (n : Nat) :
    (enBase 10 n).foldl Lector.lee l = { l with acc := UInt64.ofNat n } := by
  induction n using Nat.strong_induction_on with
  | h n ih =>
    have hlast := Nat.mod_lt n (show 0 < 10 by decide)
    rw [enBase, digitos_eq (by decide)]
    split
    next hq =>
      rw [List.map_singleton, List.foldl_cons, List.foldl_nil, lee_cifraTexto hlast, if_neg (by simp
        [hp]),
        h0, UInt64.zero_mul, UInt64.zero_add, show n % 10 = n by omega]
    next hq =>
      have hmenor : n / 10 < n := by omega
      rw [List.map_append, List.foldl_append, ← enBase, ih _ hmenor, List.map_singleton,
        List.foldl_cons, List.foldl_nil, lee_cifraTexto hlast, if_neg (by simp [hp])]
      have hn : UInt64.ofNat (n / 10) * 10 + UInt64.ofNat (n % 10) = UInt64.ofNat n := by
        conv_rhs => rw [← Nat.div_add_mod n 10, Nat.mul_comm, UInt64.ofNat_add, UInt64.ofNat_mul]
        rfl
      simp only [hn]

/-- The digits of a fraction, as many as there is room for. -/
theorem foldl_cifras {l : Lector} {n k : Nat} (hp : l.punto = true) (hf : l.faltan = n + k) (f :
  Nat) :
    ((List.range n).map fun i ↦ cifraTexto (cifra f (n - 1 - i))).foldl Lector.lee l =
      { l with acc := l.acc * 10 ^ n + UInt64.ofNat (f % 10 ^ n), faltan := k } := by
  induction n generalizing k f with
  | zero =>
    cases l
    simp_all [Nat.mod_one]
  | succ n ih =>
    have hmod : f % 10 ^ (n + 1) = f / 10 % 10 ^ n * 10 + f % 10 := by
      rw [Nat.pow_succ', Nat.mod_mul]
      omega
    have hacc : (l.acc * 10 ^ n + UInt64.ofNat (f / 10 % 10 ^ n)) * 10 + UInt64.ofNat (f % 10) =
        l.acc * 10 ^ (n + 1) + UInt64.ofNat (f % 10 ^ (n + 1)) := by
      rw [hmod, UInt64.ofNat_add, UInt64.ofNat_mul, UInt64.pow_succ, show UInt64.ofNat 10 = 10 from
        rfl]
      grind
    rw [cifras_succ, List.foldl_append, ih (k := k + 1) (by omega), List.foldl_cons, List.foldl_nil,
      lee_cifraTexto (Nat.mod_lt f (by decide))]
    simp only [hp, if_true, Nat.succ_ne_zero, if_false, Nat.add_sub_cancel, hacc]

/-- What is written of a number is read as the number. -/
theorem leer_decimal (v : Int) (escala : Nat) :
    leer escala (decimal v escala) = ofSigned v := by
  have hmenos : (menos v).foldl Lector.lee ⟨0, false, false, escala⟩ =
      ⟨0, decide (v < 0), false, escala⟩ := by
    unfold menos
    split
    next h => simp [Lector.lee, h]
    next h => simp [h]
  have hsigno {acc : UInt64} {punto : Bool} (hacc : acc = UInt64.ofNat v.natAbs) :
      Lector.valor ⟨acc, decide (v < 0), punto, 0⟩ = ofSigned v := by
    have habs : ofSigned v = if v < 0 then -UInt64.ofNat v.natAbs else UInt64.ofNat v.natAbs := by
      rw [← ofSigned_natCast, ← ofSigned_neg]
      split <;> congr 1 <;> omega
    rw [Lector.valor, hacc, habs, UInt64.pow_zero, UInt64.mul_one]
    by_cases h : v < 0 <;> simp [h]
  rw [leer, decimal, List.foldl_append, List.foldl_append, hmenos, foldl_enBase rfl rfl]
  by_cases h0 : escala = 0
  · subst h0
    rw [fraccion, if_pos rfl, List.foldl_nil]
    exact hsigno (by rw [Nat.pow_zero, Nat.div_one])
  · have hpunto : Lector.lee ⟨UInt64.ofNat (v.natAbs / 10 ^ escala), decide (v < 0), false, escala⟩
        0x2E = ⟨UInt64.ofNat (v.natAbs / 10 ^ escala), decide (v < 0), true, escala⟩ := rfl
    rw [fraccion, if_neg h0, List.foldl_cons, hpunto, foldl_cifras rfl (Nat.add_zero _).symm]
    apply hsigno
    have hpow (n : Nat) : (10 : UInt64) ^ n = UInt64.ofNat (10 ^ n) := by
      induction n with
      | zero => rfl
      | succ n ih =>
        rw [UInt64.pow_succ, Nat.pow_succ, UInt64.ofNat_mul, ih]
        rfl
    rw [hpow, Nat.mod_mod, ← UInt64.ofNat_mul, ← UInt64.ofNat_add, Nat.mul_comm, Nat.div_add_mod]

/-! ### What the functions promise -/

/-- The code shows a text, and the stack is as before. -/
def Imprime (basura : Machine → Reg → UInt64) (code : Programa) (m : Machine) (t : Bytes) : Prop :=
  ∃ m', Ends (consola basura) code m m' t ∧ m'.reg .rsp = m.reg .rsp ∧ m'.stack = m.stack

/-- The text of the number with that scale is written in the buffer, and nothing is shown. -/
def Formatea (basura : Machine → Reg → UInt64) (escala : Nat) (m : Machine) : Prop :=
  ∃ m', Ends (consola basura) (formatear_decimal_scaled escala) m m' [] ∧
    Escrito m m' (decimal (signed (m.reg .rax)) escala)

/-- What was written is read as the number, wherever it is put. -/
def Vuelve (basura : Machine → Reg → UInt64) (escala : Nat) (m : Machine) : Prop :=
  ∃ m', Ends (consola basura) (formatear_decimal_scaled escala) m m' [] ∧
    ∀ m1, texto m1 = texto m' → ∃ m2, Ends (consola basura) (parse_decimal_scaled escala) m1 m2 [] ∧
      m2.reg .rax = m.reg .rax

private theorem labels_decimales (n : Nat) : labels ((decimales n).map Op.instr) = [] := by
  induction n with
  | zero => rfl
  | succ n ih => simpa [decimales, divide, pon, labels, Op.mark] using ih

theorem nodup_formatear (escala : Nat) : (labels (formatear_decimal_scaled escala)).Nodup := by
  unfold formatear_decimal_scaled
  split
  · decide
  · have hparte : labels ((parte escala).map Op.instr) = [] := rfl
    simp [labels_decimales, hparte]
    decide

/-- What `formatear_decimal_scaled` writes of a number. -/
def textoEscalado (v : Int) (escala : Nat) : Bytes :=
  if escala = 0 then textoI64 v else decimal v escala

variable (basura : Machine → Reg → UInt64)

private theorem ends_formatear {escala : Nat} (hs : escala ≤ 18) (m : Machine) :
    ∃ m', Ends (consola basura) (formatear_decimal_scaled escala) m m' [] ∧
      Escrito m m' (textoEscalado (signed (m.reg .rax)) escala) := by
  have hcode := nodup_formatear escala
  have hpartes : formatear_decimal_scaled escala =
      [] ++ (formatear_decimal_scaled escala ++ []) := by simp
  unfold textoEscalado
  by_cases h0 : escala = 0
  · subst h0
    obtain ⟨m', hreach, hesc⟩ := reaches_formatear_i64 (m := m) hcode hpartes
    rw [List.append_nil] at hreach
    exact ⟨m', hreach, hesc⟩
  · obtain ⟨m', hreach, hesc⟩ := reaches_formatear_decimal_scaled (m := m) h0 hs hcode hpartes
    rw [if_neg h0]
    rw [List.append_nil] at hreach
    exact ⟨m', hreach, hesc⟩

private theorem reaches_muestra {m0 : Machine} {t : Bytes} (hcode : (labels code).Nodup)
    (h : code = pre ++ (write_buffer ++ [Op.instr (.addImm .rsp (UInt64.ofNat BUFFER))]))
    (hesc : Escrito m0 m t) (hnul : ∀ x ∈ t, x ≠ 0) :
    ∃ m', Reaches (consola basura) code
        ⟨write_buffer ++ [Op.instr (.addImm .rsp (UInt64.ofNat BUFFER))], m, out⟩ ⟨[], m', out ++ t⟩ ∧
      m'.reg .rsp = m0.reg .rsp ∧ m'.stack = m0.stack := by
  obtain ⟨m1, hreach1, hkeep1⟩ := reaches_write_buffer basura out hcode h (hesc.texto_eq ▸ hnul)
  rw [hesc.texto_eq] at hreach1
  refine ⟨m1.setF .rsp (m1.reg .rsp + UInt64.ofNat BUFFER), ?_, ?_, ?_⟩
  · exact hreach1.trans (.step rfl .refl)
  · rw [Machine.setF_reg, if_pos rfl, hkeep1.reg _ (by decide), hesc.rsp]
    exact UInt64.sub_add_cancel ..
  · exact hkeep1.stack.trans hesc.stack

/-- `write_i64` shows what `formatear_i64` writes. -/
theorem imprime_write_i64 (m : Machine) :
    Imprime basura write_i64 m (textoI64 (signed (m.reg .rax))) := by
  have hcode : (labels write_i64).Nodup := by decide
  obtain ⟨m1, hreach1, hesc1⟩ := reaches_formatear_i64 (m := m) hcode
    (show write_i64 = [] ++ (formatear_i64 ++ (write_buffer ++
      [Op.instr (.addImm .rsp (UInt64.ofNat BUFFER))])) from rfl)
  have hnul : ∀ x ∈ textoI64 (signed (m.reg .rax)), x ≠ 0 := by
    have hcifra : ∀ d < 10, cifraConSigno 1 d ≠ 0 ∧ cifraConSigno (-1) d ≠ 0 := by decide
    intro x hx
    rcases List.mem_append.mp hx with hx | hx
    · unfold menos at hx
      split at hx
      · rw [List.mem_singleton.mp hx]
        decide
      · cases hx
    · obtain ⟨d, hd, rfl⟩ := List.mem_map.mp hx
      have hd := hcifra d (digitos_lt (by decide) hd)
      split
      · exact hd.2
      · exact hd.1
  obtain ⟨m2, hreach2, hm2⟩ := reaches_muestra basura hcode
    (show write_i64 = formatear_i64 ++ (write_buffer ++
      [Op.instr (.addImm .rsp (UInt64.ofNat BUFFER))]) from rfl) hesc1 hnul
  exact ⟨m2, hreach1.trans hreach2, hm2⟩

/-- `write_u64_radix` shows every number. -/
theorem imprime_write_u64_radix {radix : UInt8} (hradix : radix = 10 ∨ radix = 16) (m : Machine) :
    Imprime basura (write_u64_radix radix) m (enBase radix.toNat (m.reg .rax).toNat) := by
  have hlt := (m.reg .rax).toNat_lt
  have hcode : (labels (write_u64_radix radix)).Nodup := by
    rcases hradix with rfl | rfl <;> decide
  have hcabe : (digitos radix.toNat (m.reg .rax).toNat).length + ([] : Bytes).length ≤ BUFFER := by
    have hlen : (digitos radix.toNat (m.reg .rax).toNat).length ≤ 20 := by
      rcases hradix with rfl | rfl
      · exact length_digitos (by decide) (by decide) (hlt.trans (by decide))
      · exact length_digitos (by decide) (by decide) (hlt.trans (by decide))
    change _ ≤ 32
    rw [List.length_nil]
    omega
  have hnul : ∀ x ∈ enBase radix.toNat (m.reg .rax).toNat, x ≠ 0 := by
    have hcifra : ∀ d < 16, cifraTexto d ≠ 0 := by decide
    intro x hx
    obtain ⟨d, hd, rfl⟩ := List.mem_map.mp hx
    apply hcifra
    rcases hradix with rfl | rfl
    · exact (digitos_lt (by decide) hd).trans (by decide)
    · exact digitos_lt (by decide) hd
  obtain ⟨m1, hrun1, hesc1, hregs1⟩ := run_prepara m
  let fin : Programa := write_buffer ++ [Op.instr (.addImm .rsp (UInt64.ofNat BUFFER))]
  have hcode1 : write_u64_radix radix = [] ++ (prepara.map Op.instr ++
      (emit_digits radix true ++ fin)) := rfl
  have hcode2 : write_u64_radix radix = prepara.map Op.instr ++ (emit_digits radix true ++ fin) := rfl
  have hcode3 : write_u64_radix radix = (prepara.map Op.instr ++ emit_digits radix true) ++ fin := by
    rw [hcode2, List.append_assoc]
  obtain ⟨m2, hreach2, hesc2, -⟩ := reaches_emit_digits hradix hcode hcode2 hesc1 hcabe
    (congrArg UInt64.toNat (hregs1 .rax (by decide)))
  rw [List.append_nil] at hesc2
  obtain ⟨m3, hreach3, hm3⟩ := reaches_muestra basura hcode hcode3 hesc2 hnul
  exact ⟨m3, (reaches_next hcode hcode1 hrun1).trans (hreach2.trans hreach3), hm3⟩

private theorem textoI64_minimo : textoI64 (-2 ^ 63) ≠ decimal (-2 ^ 63) 0 ∧
    leer 0 (textoI64 (-2 ^ 63)) ≠ ofSigned (-2 ^ 63) := by
  decide

private theorem textoEscalado_eq {v : Int} {escala : Nat} (h : ¬(v = -2 ^ 63 ∧ escala = 0)) :
    textoEscalado v escala = decimal v escala := by
  unfold textoEscalado
  split
  next h0 =>
    subst h0
    exact textoI64_eq fun hv ↦ h ⟨hv, rfl⟩
  next => rfl

private theorem ends_parse {escala : Nat} (hs : escala ≤ 18) (m : Machine) :
    ∃ m', Ends (consola basura) (parse_decimal_scaled escala) m m' [] ∧
      m'.reg .rax = leer escala (texto m) := by
  have hcode : (labels (parse_decimal_scaled escala)).Nodup := by
    change [Rotulo.top, .enEntero, .esMenos, .esPunto, .fin, .relleno, .yaEsta, .positivo].Nodup
    decide
  have hpartes : parse_decimal_scaled escala = [] ++ (parse_decimal_scaled escala ++ []) := by simp
  obtain ⟨m', hreach, hrax⟩ := reaches_parse (m := m) (show escala < 2 ^ 64 by omega) hcode hpartes
  rw [List.append_nil] at hreach
  exact ⟨m', hreach, hrax⟩

private theorem not_formatea (hv : signed (m.reg .rax) = -2 ^ 63) : ¬Formatea basura 0 m := by
  rintro ⟨m', hend', hesc'⟩
  obtain ⟨m1, hend1, hesc1⟩ := ends_formatear basura (Nat.zero_le 18) m
  obtain ⟨rfl, -⟩ := hend1.unique hend'
  rw [hv] at hesc1 hesc'
  exact textoI64_minimo.1 (hesc1.texto_eq.symm.trans hesc'.texto_eq)

/-- Nor shown. -/
theorem not_imprime (hv : signed (m.reg .rax) = -2 ^ 63) :
    ¬Imprime basura write_i64 m (decimal (signed (m.reg .rax)) 0) := by
  rintro ⟨m', hend', -⟩
  obtain ⟨m2, hend2, -⟩ := imprime_write_i64 basura m
  obtain ⟨-, ht⟩ := hend2.unique hend'
  rw [hv] at ht
  exact textoI64_minimo.1 ht

private theorem not_vuelve (hv : signed (m.reg .rax) = -2 ^ 63) : ¬Vuelve basura 0 m := by
  rintro ⟨m', hend', hvuelve⟩
  obtain ⟨m1, hend1, hesc1⟩ := ends_formatear basura (Nat.zero_le 18) m
  obtain ⟨rfl, -⟩ := hend1.unique hend'
  obtain ⟨m2, hend2, hrax2⟩ := hvuelve m1 rfl
  obtain ⟨m3, hend3, hrax3⟩ := ends_parse basura (Nat.zero_le 18) m1
  obtain ⟨rfl, -⟩ := hend2.unique hend3
  rw [hrax2, hesc1.texto_eq, hv] at hrax3
  have hrax : ofSigned (-2 ^ 63) = m.reg .rax := by rw [← hv, ofSigned_signed]
  exact textoI64_minimo.2 (hrax3.symm.trans hrax.symm)

/-- Where numbers are printed and read back exactly: without a scale, the least number is neither
written nor shown as it is, nor read as it was, and all others are; with a scale, and without a
sign, every number is. -/
theorem exactos_iff {escala : Nat} (hs : escala ≤ 18) (m : Machine) :
    (Formatea basura escala m ↔ ¬(signed (m.reg .rax) = -2 ^ 63 ∧ escala = 0)) ∧
    (Imprime basura write_i64 m (decimal (signed (m.reg .rax)) 0) ↔
      signed (m.reg .rax) ≠ -2 ^ 63) ∧
    Imprime basura (write_u64_radix 10) m (enBase 10 (m.reg .rax).toNat) ∧
    Imprime basura (write_u64_radix 16) m (enBase 16 (m.reg .rax).toNat) ∧
    (Vuelve basura escala m ↔ ¬(signed (m.reg .rax) = -2 ^ 63 ∧ escala = 0)) := by
  obtain ⟨m1, hend1, hesc1⟩ := ends_formatear basura hs m
  refine ⟨⟨?_, fun hno ↦ ⟨m1, hend1, ?_⟩⟩, ⟨?_, fun hno ↦ ?_⟩,
    imprime_write_u64_radix basura (.inl rfl) m, imprime_write_u64_radix basura (.inr rfl) m,
    ⟨?_, fun hno ↦ ⟨m1, hend1, fun m2 hm2 ↦ ?_⟩⟩⟩
  · rintro h ⟨hmin, rfl⟩
    exact not_formatea basura hmin h
  · rwa [← textoEscalado_eq hno]
  · exact fun h hmin ↦ not_imprime basura hmin h
  · rw [← textoI64_eq hno]
    exact imprime_write_i64 basura m
  · rintro h ⟨hmin, rfl⟩
    exact not_vuelve basura hmin h
  · obtain ⟨m3, hend3, hrax3⟩ := ends_parse basura hs m2
    refine ⟨m3, hend3, ?_⟩
    rw [hrax3, hm2, hesc1.texto_eq, textoEscalado_eq hno, leer_decimal, ofSigned_signed]

/-- A machine with a number in `rax`, and a kernel that answers with zeros. -/
def conNumero (v : Int) : Machine := ⟨fun _ ↦ ofSigned v, none, [], fun _ ↦ 0⟩

def respondeCero (_ : Machine) (_ : Reg) : UInt64 := 0

/-- `-19.99` is written, and read back. -/
theorem exactos_precio :
    Formatea respondeCero 2 (conNumero (-1999)) ∧ Vuelve respondeCero 2 (conNumero (-1999)) := by
  obtain ⟨hf, -, -, -, hv⟩ := exactos_iff respondeCero (show 2 ≤ 18 by decide) (conNumero (-1999))
  exact ⟨hf.mpr (by decide), hv.mpr (by decide)⟩

/-- The least number is neither written, nor shown, nor read back. -/
theorem minimo_inexacto :
    ¬Formatea respondeCero 0 (conNumero (-2 ^ 63)) ∧
      ¬Imprime respondeCero write_i64 (conNumero (-2 ^ 63)) (decimal (-2 ^ 63) 0) ∧
      ¬Vuelve respondeCero 0 (conNumero (-2 ^ 63)) := by
  have hv : signed ((conNumero (-2 ^ 63)).reg .rax) = -2 ^ 63 := signed_ofSigned (by decide)
  refine ⟨not_formatea _ hv, ?_, not_vuelve _ hv⟩
  have h := not_imprime respondeCero hv
  rwa [hv] at h

end BmoX.Lower.Fmt
