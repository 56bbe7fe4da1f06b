import BmoX.Lower.Empaquetado

/-!
# Zoned decimals

`toolchain/forge/bmo-lower/src/zoned.rs`. One digit a byte, in ASCII, and the sign in the zone of
the last one.
-/

namespace BmoX.Lower

open BmoX.Base BmoX.Base.X86

namespace Zonado

/-- The zone of the last digit of a negative number; `zoned.rs:46`. -/
def NEGATIVO_BASE : UInt64 := 0x70

/-- The zone of every other digit, `b'0'`. -/
def CERO : UInt64 := 0x30

/-- How many bytes a field of that many digits takes; `zoned.rs:50–56`. -/
def bytesPara (digitos : Nat) : Nat := if digitos = 0 then 1 else digitos

/-- The sign in `r11`, and what is left of `rax` without it; `zoned.rs:74–87`. -/
def signo (conSigno : Bool) : Codigo :=
  ([.zero .r11, .test .rax .rax, .jcc .ns (.salto 0)] : Codigo) ++
    (if conSigno then [.movImm .r11 1] else []) ++
    ([.neg .rax, .label (.salto 0), .movImm .rdi 10] : Codigo)

/-- The last digit, with the sign on it; `zoned.rs:94–106`. -/
def ultimo (i : Nat) : Codigo :=
  [.mov .rsi .rdx, .test .r11 .r11, .jcc .e (.salto 0), .addImm .rsi NEGATIVO_BASE,
    .jmp (.salto 1), .label (.salto 0), .addImm .rsi CERO, .label (.salto 1),
    .storeByte .rcx i .rsi]

/-- The digits before byte `n`, down to the first one; `zoned.rs:91–110`. -/
def escritos : Nat → Codigo
  | 0 => []
  | i + 1 => digito ++ ([Instr.addImm .rdx CERO, .storeByte .rcx i .rdx] ++ escritos i)

/-- `rax` zoned at `rcx`; `zoned.rs:69–111`. -/
def write (digitos : Nat) (conSigno : Bool) : Codigo :=
  let n := bytesPara digitos
  signo conSigno ++ (digito ++ (ultimo (n - 1) ++ escritos (n - 1)))

/-- The digit of one byte goes to `rax`; the zone of the last one is kept in `r11`. -/
def leido (i : Nat) (esUltimo : Bool) : Codigo :=
  [Instr.loadByte .rdx .rcx i] ++ (if esUltimo then [.mov .r11 .rdx, .andImm .r11 0xF0] else []) ++
    [Instr.andImm .rdx 0x0F, .imul .rax .rdi, .add .rax .rdx]

/-- The digits of the first `n` bytes. -/
def leidos : Nat → Codigo
  | 0 => []
  | i + 1 => leidos i ++ leido i false

/-- What is zoned at `rcx`, in `rax`; `zoned.rs:124–148`. -/
def read (digitos : Nat) : Codigo :=
  let n := bytesPara digitos
  [Instr.zero .rax, .movImm .rdi 10] ++ (leidos (n - 1) ++ (leido (n - 1) true ++
    ([.cmpImm .r11 NEGATIVO_BASE, .jcc .ne (.salto 0), .neg .rax, .label (.salto 0)] : Codigo)))

/-! ### What the bytes say -/

/-- The digits of the first `n` bytes from `a` on. -/
def cifras (mem : Memory) (a : Nat) : Nat → Nat
  | 0 => 0
  | n + 1 => cifras mem a n * 10 + (mem (a + n)).toNat % 16

/-- The number in the `n` bytes from `a` on. -/
def zonado (mem : Memory) (a n : Nat) : Int :=
  if (mem (a + (n - 1))).toNat / 16 = 7 then -(cifras mem a n : Int) else cifras mem a n

/-- Bytes of one digit say the number. -/
theorem cifras_eq {mem : Memory} {a n w : Nat}
    (h : ∀ i < n, (mem (a + i)).toNat % 16 = cifra w (n - 1 - i)) :
    cifras mem a n = w % 10 ^ n := by
  induction n generalizing w with
  | zero => simp [cifras, Nat.mod_one]
  | succ n ih =>
    have hlast := h n (Nat.lt_succ_self n)
    have hresto : cifras mem a n = w / 10 ^ 1 % 10 ^ n := by
      apply ih
      intro i hi
      have hexp : n + 1 - 1 - i = 1 + (n - 1 - i) := by omega
      rw [cifra_div, h i (by omega), hexp]
    rw [Nat.add_sub_cancel, Nat.sub_self, cifra_zero] at hlast
    rw [cifras, hresto, hlast, Nat.pow_one, Nat.pow_succ', Nat.mod_mul]
    omega

/-- The registers that the two routines use. -/
def gastados : List Reg := [.rax, .rdx, .rdi, .rsi, .r11]

private theorem bytesPara_pos (digitos : Nat) : 0 < bytesPara digitos := by
  unfold bytesPara
  split <;> omega

/-! ### What is written -/

theorem run_signo (m : Machine) (conSigno : Bool) :
    ∃ m', run (signo conSigno) none m = .next m' ∧ Keeps gastados m m' ∧ m'.reg .rdi = 10 ∧
      (m'.reg .rax).toNat = (signed (m.reg .rax)).natAbs ∧
      m'.reg .r11 = if conSigno ∧ signed (m.reg .rax) < 0 then 1 else 0 := by
  have hns (w : UInt64) : Cond.holds (testFlags w) .ns = !decide (signed w < 0) := rfl
  by_cases hneg : signed (m.reg .rax) < 0
  · have habs := toNat_neg_of_neg hneg
    cases conSigno <;>
    · simp only [signo, run, step, Machine.set_reg, Machine.setF_reg, reduceCtorEq, if_true,
        if_false, UInt64.and_self, hns, hneg, decide_true, Bool.not_true, Bool.false_eq_true,
        List.cons_append, List.nil_append, List.append_nil, Outcome.next.injEq, exists_eq_left']
      refine ⟨⟨fun r hr ↦ ?_, rfl, rfl⟩, trivial, by omega, by simp⟩
      simp [gastados] at hr
      simp [hr]
  · have habs := toNat_of_nonneg (Int.not_lt.mp hneg)
    cases conSigno <;>
    · simp only [signo, run, step, Machine.set_reg, Machine.setF_reg, reduceCtorEq, if_true,
        if_false, UInt64.and_self, hns, hneg, decide_false, Bool.not_false, Bool.false_eq_true,
        List.cons_append, List.nil_append, List.append_nil, Outcome.next.injEq, exists_eq_left',
        Instr.is, decide_true]
      refine ⟨⟨fun r hr ↦ ?_, rfl, rfl⟩, trivial, by omega, by simp⟩
      simp [gastados] at hr
      simp [hr]

private theorem toUInt8_zona {d zona : UInt64} (hd : d.toNat < 10) (hz : zona.toNat ≤ 0x70) :
    (d + zona).toUInt8.toNat = zona.toNat + d.toNat := by
  rw [UInt64.toNat_toUInt8, UInt64.toNat_add]
  omega

/-- The last digit goes to its byte. -/
theorem run_ultimo {m : Machine} {a i : Nat} {neg : Prop} [Decidable neg]
    (haddr : m.addr .rcx i = a) (hd : (m.reg .rdx).toNat < 10)
    (hr11 : m.reg .r11 = if neg then 1 else 0) :
    ∃ m', run (ultimo i) none m = .next m' ∧ Only [.rsi] (fun x ↦ x = a) m m' ∧
      (m'.mem a).toNat = (if neg then 0x70 else 0x30) + (m.reg .rdx).toNat := by
  subst haddr
  have he (w : UInt64) : Cond.holds (testFlags w) .e = decide (w = 0) := rfl
  have hone : (1 : UInt64) ≠ 0 := by decide
  by_cases hneg : neg
  · rw [if_pos hneg] at hr11 ⊢
    simp only [ultimo, run, step, Machine.set_reg, Machine.setF_reg, reduceCtorEq, if_true,
      if_false, UInt64.and_self, hr11, he, hone, decide_false, Bool.false_eq_true, Instr.is,
      Etiqueta.salto.injEq, zero_ne_one, decide_true, Machine.setF_mem, Outcome.next.injEq,
      exists_eq_left']
    refine ⟨⟨fun r hr ↦ ?_, fun x hx ↦ ?_, rfl⟩, ?_⟩
    · simp at hr
      simp [hr]
    · exact Function.update_of_ne hx ..
    · have hzona := toUInt8_zona hd (show NEGATIVO_BASE.toNat ≤ 0x70 by decide)
      exact (congrArg _ (Function.update_self ..)).trans hzona
  · rw [if_neg hneg] at hr11 ⊢
    simp only [ultimo, run, step, Machine.set_reg, Machine.setF_reg, reduceCtorEq, if_true,
      if_false, UInt64.and_self, hr11, he, decide_true, Instr.is, Machine.setF_mem,
      Outcome.next.injEq, exists_eq_left']
    refine ⟨⟨fun r hr ↦ ?_, fun x hx ↦ ?_, rfl⟩, ?_⟩
    · simp at hr
      simp [hr]
    · exact Function.update_of_ne hx ..
    · have hzona := toUInt8_zona hd (show CERO.toNat ≤ 0x70 by decide)
      exact (congrArg _ (Function.update_self ..)).trans hzona

/-- The digits of a number go to the bytes from the last one on. -/
theorem run_escritos {m : Machine} {a n : Nat} (h : m.reg .rdi = 10)
    (ha : (m.reg .rcx).toNat = a) (hab : a + n ≤ 2 ^ 64) :
    ∃ m', run (escritos n) none m = .next m' ∧
      Only [.rax, .rdx] (fun x ↦ a ≤ x ∧ x < a + n) m m' ∧
      ∀ i < n, (m'.mem (a + i)).toNat =
        0x30 + cifra (m.reg .rax).toNat (n - 1 - i) := by
  induction n generalizing m with
  | zero => exact ⟨m, rfl, Keeps.refl.only, fun i hi ↦ absurd hi (Nat.not_lt_zero i)⟩
  | succ n ih =>
    obtain ⟨m1, hrun1, hkeep1, hrax1, hrdx1⟩ := run_digito h
    have haddr := addr_campo hkeep1 (by decide) ha hab (Nat.lt_succ_self n)
    let m2 := m1.setF .rdx (m1.reg .rdx + CERO)
    let m3 : Machine := { m2 with
      mem := Function.update m2.mem (m2.addr .rcx n) (m2.reg .rdx).toUInt8 }
    have haddr2 : m2.addr .rcx n = a + n := haddr
    have honly : Only [.rax, .rdx] (fun x ↦ a ≤ x ∧ x < a + (n + 1)) m m3 := by
      refine hkeep1.only.trans ⟨fun r hr ↦ ?_, fun x hx ↦ ?_, rfl⟩
      · simp at hr
        simp [m3, m2, hr]
      · exact Function.update_of_ne (by rw [haddr2]; omega) ..
    have hmem3 : (m3.mem (a + n)).toNat = 0x30 + (m.reg .rax).toNat % 10 := by
      have hd : (m1.reg .rdx).toNat < 10 := by omega
      have hzona := toUInt8_zona hd (show CERO.toNat ≤ 0x70 by decide)
      rw [← hrdx1, ← haddr2]
      exact (congrArg _ (Function.update_self ..)).trans hzona
    obtain ⟨m4, hrun4, honly4, hmem4⟩ := @ih m3 ((honly.reg _ (by decide)).trans h)
      ((congrArg _ (honly.reg _ (by decide))).trans ha) (by omega)
    refine ⟨m4, ?_, honly.trans (honly4.mono (by decide) ?_), ?_⟩
    · unfold escritos
      rw [run_append_of_next hrun1, run_append_of_next (show run _ none m1 = .next m3 from rfl),
        hrun4]
    · intro x hx
      omega
    · intro i hi
      by_cases hin : i = n
      · subst hin
        rw [honly4.mem _ (by omega), hmem3, Nat.add_sub_cancel, Nat.sub_self, cifra_zero]
      · have hrax3 : (m3.reg .rax).toNat = (m.reg .rax).toNat / 10 ^ 1 := by
          rw [Nat.pow_one]
          exact hrax1
        have hexp : n + 1 - 1 - i = 1 + (n - 1 - i) := by omega
        rw [hmem4 i (by omega), hrax3, cifra_div, hexp]

/-- The code writes the digits of the absolute value, and the sign over the last one. -/
theorem run_write {m : Machine} {a digitos : Nat} {conSigno : Bool}
    (ha : (m.reg .rcx).toNat = a) (hab : a + bytesPara digitos ≤ 2 ^ 64) :
    ∃ m', run (write digitos conSigno) none m = .next m' ∧
      Only gastados (fun x ↦ a ≤ x ∧ x < a + bytesPara digitos) m m' ∧
      ∀ i < bytesPara digitos, (m'.mem (a + i)).toNat =
        (if i + 1 = bytesPara digitos ∧ conSigno ∧ signed (m.reg .rax) < 0 then 0x70 else 0x30) +
          cifra (signed (m.reg .rax)).natAbs (bytesPara digitos - 1 - i) := by
  have hb := bytesPara_pos digitos
  unfold write
  dsimp only
  generalize bytesPara digitos = n at hb hab ⊢
  obtain ⟨m1, hrun1, hkeep1, hrdi1, hrax1, hr11⟩ := run_signo m conSigno
  obtain ⟨m2, hrun2, hkeep2, hrax2, hrdx2⟩ := run_digito hrdi1
  have hkeep : Keeps gastados m m2 := hkeep1.trans (hkeep2.mono (by decide))
  have haddr := addr_campo hkeep (by decide) ha hab (show n - 1 < n by omega)
  obtain ⟨m3, hrun3, honly3, hmem3⟩ :=
    run_ultimo haddr (by omega) ((hkeep2.reg _ (by decide)).trans hr11)
  have honly : Only gastados (fun x ↦ a ≤ x ∧ x < a + n) m m3 := by
    apply hkeep.only.trans (honly3.mono (by decide) _)
    intro x hx
    omega
  obtain ⟨m4, hrun4, honly4, hmem4⟩ := @run_escritos m3 a (n - 1)
    ((honly3.reg _ (by decide)).trans ((hkeep2.reg _ (by decide)).trans hrdi1))
    ((congrArg _ (honly.reg _ (by decide))).trans ha) (by omega)
  refine ⟨m4, ?_, honly.trans (honly4.mono (by decide) ?_), ?_⟩
  · rw [run_append_of_next hrun1, run_append_of_next hrun2, run_append_of_next hrun3, hrun4]
  · intro x hx
    omega
  · intro i hi
    by_cases hin : i + 1 = n
    · have hlast : a + i = a + (n - 1) := by omega
      have hexp : n - 1 - i = 0 := by omega
      rw [hlast, honly4.mem _ (by omega), hmem3, hrdx2, hrax1, hexp, cifra_zero]
      simp only [hin, true_and]
    · have hrax3 : (m3.reg .rax).toNat = (signed (m.reg .rax)).natAbs / 10 ^ 1 := by
        rw [honly3.reg _ (by decide), hrax2, hrax1, Nat.pow_one]
      have hexp : n - 1 - i = 1 + (n - 1 - 1 - i) := by omega
      rw [hmem4 i (by omega), hrax3, cifra_div, if_neg fun h ↦ hin h.1, hexp]

/-! ### What is read -/

/-- A byte is read as a digit, and the zone of the last one is kept. -/
theorem run_leido {m : Machine} {i a : Nat} (h : m.reg .rdi = 10) (ha : m.addr .rcx i = a)
    (esUltimo : Bool) :
    ∃ m', run (leido i esUltimo) none m = .next m' ∧ Keeps [.rax, .rdx, .r11] m m' ∧
      m'.reg .rax = m.reg .rax * 10 + UInt64.ofNat ((m.mem a).toNat % 16) ∧
      (esUltimo → m'.reg .r11 = (m.mem a).toUInt64 &&& 0xF0) := by
  subst ha
  cases esUltimo <;>
  · simp only [leido, run, step, Machine.setF_reg, Machine.set_reg, reduceCtorEq, if_true, if_false,
      h, Outcome.next.injEq, exists_eq_left', Bool.false_eq_true, List.cons_append, List.nil_append]
    refine ⟨⟨fun r hr ↦ ?_, rfl, rfl⟩, ?_, ?_⟩
    · simp at hr
      simp [hr]
    · generalize m.mem (m.addr .rcx i) = b
      rw [toUInt64_and]
    · simp

theorem run_leidos {m : Machine} {a n : Nat} (h : m.reg .rdi = 10) (hrax : m.reg .rax = 0)
    (ha : (m.reg .rcx).toNat = a) (hab : a + n ≤ 2 ^ 64) :
    ∃ m', run (leidos n) none m = .next m' ∧ Keeps [.rax, .rdx, .r11] m m' ∧
      m'.reg .rax = UInt64.ofNat (cifras m.mem a n) := by
  induction n with
  | zero => exact ⟨m, rfl, .refl, hrax⟩
  | succ n ih =>
    obtain ⟨m1, hrun1, hkeep1, hrax1⟩ := ih (by omega)
    have hrdi : m1.reg .rdi = 10 := (hkeep1.reg _ (by decide)).trans h
    have haddr := addr_campo hkeep1 (by decide) ha hab (Nat.lt_succ_self n)
    obtain ⟨m2, hrun2, hkeep2, hrax2, -⟩ := run_leido hrdi haddr false
    refine ⟨m2, ?_, hkeep1.trans hkeep2, ?_⟩
    · unfold leidos
      rw [run_append_of_next hrun1, hrun2]
    · rw [hrax2, hrax1, hkeep1.mem, cifras, UInt64.ofNat_add, UInt64.ofNat_mul]
      rfl

set_option maxRecDepth 4096 in
theorem toUInt64_zona (b : UInt8) : b.toUInt64 &&& 0xF0 = NEGATIVO_BASE ↔ b.toNat / 16 = 7 := by
  have h : ∀ n < 256, ((UInt8.ofNat n).toUInt64 &&& 0xF0 = NEGATIVO_BASE ↔ n / 16 = 7) := by
    decide
  have hb := h b.toNat b.toNat_lt
  rwa [UInt8.ofNat_toNat] at hb

/-- The code reads the number of the bytes. -/
theorem run_read {m : Machine} {a digitos : Nat} (ha : (m.reg .rcx).toNat = a)
    (hab : a + bytesPara digitos ≤ 2 ^ 64) :
    ∃ m', run (read digitos) none m = .next m' ∧ Keeps gastados m m' ∧
      m'.reg .rax = ofSigned (zonado m.mem a (bytesPara digitos)) := by
  have hb := bytesPara_pos digitos
  unfold read
  dsimp only
  generalize bytesPara digitos = n at hb hab ⊢
  let m0 := (m.setF .rax 0).set .rdi 10
  have hkeep0 : Keeps gastados m m0 := (Keeps.refl.setF (by decide)).set (by decide)
  have hrun0 : run ([.zero .rax, .movImm .rdi 10] : Codigo) none m = .next m0 := rfl
  obtain ⟨m1, hrun1, hkeep1, hrax1⟩ := @run_leidos m0 a (n - 1) rfl rfl ha (by omega)
  have hkeep : Keeps gastados m m1 := hkeep0.trans (hkeep1.mono (by decide))
  have haddr := addr_campo hkeep (by decide) ha hab (show n - 1 < n by omega)
  obtain ⟨m2, hrun2, hkeep2, hrax2, hr11⟩ := run_leido (hkeep1.reg _ (by decide)) haddr true
  have hkeep' : Keeps gastados m m2 := hkeep.trans (hkeep2.mono (by decide))
  rw [run_append_of_next hrun0, run_append_of_next hrun1, run_append_of_next hrun2]
  have hne (v w : UInt64) : Cond.holds (cmpFlags v w) .ne = !decide (v = w) := rfl
  have hcifras : cifras m.mem a n = cifras m.mem a (n - 1) * 10 +
      (m.mem (a + (n - 1))).toNat % 16 := by
    conv_lhs => rw [show n = n - 1 + 1 by omega, cifras]
  have hmag : ofSigned ((cifras m.mem a n : Nat) : Int) = m2.reg .rax := by
    rw [ofSigned_natCast, hcifras, UInt64.ofNat_add, UInt64.ofNat_mul, hrax2, hrax1, hkeep.mem]
    rfl
  have hzona := toUInt64_zona (m.mem (a + (n - 1)))
  rw [← hkeep.mem, ← hr11 rfl, hkeep.mem] at hzona
  by_cases hneg : (m.mem (a + (n - 1))).toNat / 16 = 7
  · rw [zonado, if_pos hneg, ofSigned_neg, hmag]
    simp only [run, step, hne, hzona.mpr hneg, decide_true, Bool.not_true, Bool.false_eq_true,
      if_false, Outcome.next.injEq, exists_eq_left', Machine.setF_reg, if_true, and_true]
    refine hkeep'.trans ⟨fun r hr ↦ ?_, rfl, rfl⟩
    simp [gastados] at hr
    simp [hr]
  · rw [zonado, if_neg hneg, hmag]
    simp only [run, step, hne, mt hzona.mp hneg, decide_false, Bool.not_false, if_true,
      Bool.false_eq_true, if_false, Instr.is, decide_true, Outcome.next.injEq, exists_eq_left',
      and_true]
    exact hkeep'.trans ⟨fun r hr ↦ rfl, rfl, rfl⟩

end Zonado

end BmoX.Lower
