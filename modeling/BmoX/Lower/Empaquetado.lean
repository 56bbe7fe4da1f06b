import BmoX.Lower.Redondeo

/-!
# Packed decimals

`toolchain/forge/bmo-lower/src/packed.rs`. Two digits a byte, and the sign in the last nibble. The
code that writes a number and the code that reads one go through the bytes without a loop.
-/

namespace BmoX.Lower

open BmoX.Base BmoX.Base.X86

/-- The nibbles of the sign; `packed.rs:48–52`. -/
def POSITIVO : UInt64 := 0x0C

def NEGATIVO : UInt64 := 0x0D

def SIN_SIGNO : UInt64 := 0x0F

/-- One digit out of `rax` into `rdx`. -/
def digito : Codigo := [.zero .rdx, .div .rdi]

/-- Two digits a byte, from the byte before `n` down to the first one. -/
def escritos : Nat → Codigo
  | 0 => []
  | i + 1 =>
    digito ++ ([Instr.mov .r11 .rdx] ++ (digito ++
      ([Instr.shl .rdx 4, .or .rdx .r11, .storeByte .rcx i .rdx] ++ escritos i)))

/-- The nibble of the sign in `r11`, and what is left of `rax` without it. -/
def signo (conSigno : Bool) : Codigo :=
  ([.movImm .r11 (if conSigno then POSITIVO else SIN_SIGNO), .test .rax .rax,
      .jcc .ns (.salto 0)] : Codigo) ++
    (if conSigno then [.movImm .r11 NEGATIVO] else []) ++
    ([.neg .rax, .label (.salto 0), .movImm .rdi 10] : Codigo)

/-- `rax` packed at `rcx`; `packed.rs:78–124`. -/
def empaquetar (bytes : Nat) (conSigno : Bool) : Codigo :=
  signo conSigno ++ (digito ++ ([Instr.shl .rdx 4, .or .rdx .r11,
    .storeByte .rcx (bytes - 1) .rdx] ++ escritos (bytes - 1)))

/-- The two digits of one byte go to `rax`. -/
def leido (i : Nat) : Codigo :=
  [.loadByte .rdx .rcx i, .mov .r11 .rdx, .shr .r11 4, .imul .rax .rdi, .add .rax .r11,
    .andImm .rdx 0x0F, .imul .rax .rdi, .add .rax .rdx]

/-- The digits of the first `n` bytes. -/
def leidos : Nat → Codigo
  | 0 => []
  | i + 1 => leidos i ++ leido i

/-- What is packed at `rcx`, in `rax`; `packed.rs:142–174`. -/
def desempaquetar (bytes : Nat) : Codigo :=
  [Instr.zero .rax, .movImm .rdi 10] ++ (leidos (bytes - 1) ++
    ([.loadByte .rdx .rcx (bytes - 1), .mov .r11 .rdx, .shr .r11 4, .imul .rax .rdi,
      .add .rax .r11, .andImm .rdx 0x0F, .cmpImm .rdx NEGATIVO, .jcc .e (.salto 0),
      .cmpImm .rdx 0x0B, .jcc .ne (.salto 1), .label (.salto 0), .neg .rax,
      .label (.salto 1)] : Codigo))

/-! ### What the bytes say -/

/-- The digits of the first `n` bytes from `a` on. -/
def cifras (mem : Memory) (a : Nat) : Nat → Nat
  | 0 => 0
  | n + 1 => (cifras mem a n * 10 + (mem (a + n)).toNat / 16) * 10 + (mem (a + n)).toNat % 16

/-- The number in the `bytes` bytes from `a` on. -/
def empaquetado (mem : Memory) (a bytes : Nat) : Int :=
  let ultimo := (mem (a + (bytes - 1))).toNat
  let magnitud := cifras mem a (bytes - 1) * 10 + ultimo / 16
  if ultimo % 16 = 0x0D ∨ ultimo % 16 = 0x0B then -magnitud else magnitud

/-- What a field of that many bytes holds of a number: the digits that it has, and a sign where its
picture has one. -/
def recorta (bytes : Nat) (conSigno : Bool) (v : Int) : Int :=
  if conSigno then v.tmod (10 ^ (2 * bytes - 1)) else (v.natAbs % 10 ^ (2 * bytes - 1) : Nat)

private theorem cifras_congr {mem mem' : Memory} {a n : Nat}
    (h : ∀ x, a ≤ x → x < a + n → mem' x = mem x) : cifras mem' a n = cifras mem a n := by
  induction n with
  | zero => rfl
  | succ n ih =>
    unfold cifras
    rw [ih fun x h1 h2 ↦ h x h1 (by omega), h (a + n) (by omega) (by omega)]

theorem empaquetado_congr {mem mem' : Memory} {a bytes : Nat} (hb : 0 < bytes)
    (h : ∀ x, a ≤ x → x < a + bytes → mem' x = mem x) :
    empaquetado mem' a bytes = empaquetado mem a bytes := by
  unfold empaquetado
  rw [cifras_congr fun x h1 h2 ↦ h x h1 (by omega), h (a + (bytes - 1)) (by omega) (by omega)]

/-! ### What the code does -/

/-- The registers that the two routines use. -/
def gastados : List Reg := [.rax, .rdx, .rdi, .r11]

theorem run_digito {m : Machine} (h : m.reg .rdi = 10) :
    ∃ m', run digito none m = .next m' ∧ Keeps [.rax, .rdx] m m' ∧
      (m'.reg .rax).toNat = (m.reg .rax).toNat / 10 ∧
      (m'.reg .rdx).toNat = (m.reg .rax).toNat % 10 := by
  have hlt := (m.reg .rax).toNat_lt
  have hok : ¬((10 : UInt64).toNat = 0 ∨
      2 ^ 64 ≤ ((0 : UInt64).toNat * 2 ^ 64 + (m.reg .rax).toNat) / (10 : UInt64).toNat) := by
    change ¬(10 = 0 ∨ 2 ^ 64 ≤ (0 * 2 ^ 64 + (m.reg .rax).toNat) / 10)
    omega
  simp only [digito, run, step, Machine.setF_reg, reduceCtorEq, if_true, if_false, h, if_neg hok,
    Outcome.next.injEq, exists_eq_left']
  refine ⟨⟨fun r hr ↦ ?_, rfl, rfl⟩, ?_, ?_⟩
  · simp at hr
    simp [hr]
  · change (UInt64.ofNat ((0 * 2 ^ 64 + (m.reg .rax).toNat) / 10)).toNat = _
    rw [UInt64.toNat_ofNat', Nat.mod_eq_of_lt (by omega)]
    omega
  · change (UInt64.ofNat ((0 * 2 ^ 64 + (m.reg .rax).toNat) % 10)).toNat = _
    rw [UInt64.toNat_ofNat', Nat.mod_eq_of_lt (by omega)]
    omega

theorem toUInt64_shiftRight (b : UInt8) : b.toUInt64 >>> 4 = UInt64.ofNat (b.toNat / 16) := by
  have hb := b.toNat_lt
  rw [← UInt64.toNat_inj, toNat_shiftRight _ (by decide), UInt64.toNat_ofNat',
    Nat.mod_eq_of_lt (by omega)]
  rfl

theorem toUInt64_and (b : UInt8) : b.toUInt64 &&& 0x0F = UInt64.ofNat (b.toNat % 16) := by
  have hb := b.toNat_lt
  rw [← UInt64.toNat_inj, toNat_and_mask b.toUInt64 (show UInt64.toNat 0x0F = 2 ^ 4 - 1 from rfl),
    UInt64.toNat_ofNat', UInt8.toNat_toUInt64]
  omega

/-- A byte is read as two digits. -/
theorem run_leido {m : Machine} {i a : Nat} (h : m.reg .rdi = 10) (ha : m.addr .rcx i = a) :
    ∃ m', run (leido i) none m = .next m' ∧ Keeps [.rax, .rdx, .r11] m m' ∧
      m'.reg .rax = (m.reg .rax * 10 + UInt64.ofNat ((m.mem a).toNat / 16)) * 10 +
        UInt64.ofNat ((m.mem a).toNat % 16) := by
  subst ha
  simp only [leido, run, step, Machine.setF_reg, Machine.set_reg, reduceCtorEq, if_true, if_false,
    h, Outcome.next.injEq, exists_eq_left']
  refine ⟨⟨fun r hr ↦ ?_, rfl, rfl⟩, ?_⟩
  · simp at hr
    simp [hr]
  · generalize m.mem (m.addr .rcx i) = b
    rw [toUInt64_shiftRight, toUInt64_and]

/-- The addresses of a field that is not beyond the end of memory. -/
theorem addr_campo {m m' : Machine} {rs : List Reg} {a b i : Nat} (h : Keeps rs m m')
    (hr : .rcx ∉ rs) (ha : (m.reg .rcx).toNat = a) (hab : a + b ≤ 2 ^ 64) (hi : i < b) :
    m'.addr .rcx i = a + i := by
  unfold Machine.addr
  rw [h.reg _ hr, UInt64.toNat_add, ha, UInt64.toNat_ofNat', Nat.mod_eq_of_lt (by omega),
    Nat.mod_eq_of_lt (by omega)]

theorem run_leidos {m : Machine} {a n : Nat} (h : m.reg .rdi = 10) (hrax : m.reg .rax = 0)
    (ha : (m.reg .rcx).toNat = a) (hab : a + n ≤ 2 ^ 64) :
    ∃ m', run (leidos n) none m = .next m' ∧ Keeps [.rax, .rdx, .r11] m m' ∧
      m'.reg .rax = UInt64.ofNat (cifras m.mem a n) := by
  induction n with
  | zero => exact ⟨m, rfl, .refl, hrax⟩
  | succ n ih =>
    obtain ⟨m1, hrun1, hkeep1, hrax1⟩ := ih (by omega)
    have hrdi : m1.reg .rdi = 10 := (hkeep1.reg _ (by decide)).trans h
    have haddr := addr_campo hkeep1 (by decide) ha hab (Nat.lt_succ_self n)
    obtain ⟨m2, hrun2, hkeep2, hrax2⟩ := run_leido hrdi haddr
    refine ⟨m2, ?_, hkeep1.trans hkeep2, ?_⟩
    · unfold leidos
      rw [run_append_of_next hrun1, hrun2]
    · rw [hrax2, hrax1, hkeep1.mem, cifras, UInt64.ofNat_add, UInt64.ofNat_mul, UInt64.ofNat_add,
        UInt64.ofNat_mul]
      rfl

/-- The code reads the number of the bytes. -/
theorem run_desempaquetar {m : Machine} {a bytes : Nat} (hb : 0 < bytes)
    (ha : (m.reg .rcx).toNat = a) (hab : a + bytes ≤ 2 ^ 64) :
    ∃ m', run (desempaquetar bytes) none m = .next m' ∧ Keeps gastados m m' ∧
      m'.reg .rax = ofSigned (empaquetado m.mem a bytes) := by
  let m0 := (m.setF .rax 0).set .rdi 10
  have hkeep0 : Keeps gastados m m0 := (Keeps.refl.setF (by decide)).set (by decide)
  have hrun0 : run ([.zero .rax, .movImm .rdi 10] : Codigo) none m = .next m0 := rfl
  obtain ⟨m1, hrun1, hkeep1, hrax1⟩ := @run_leidos m0 a (bytes - 1) rfl rfl ha (by omega)
  have hkeep : Keeps gastados m m1 := hkeep0.trans (hkeep1.mono (by decide))
  have haddr := addr_campo hkeep (by decide) ha hab (show bytes - 1 < bytes by omega)
  have hrdi : m1.reg .rdi = 10 := hkeep1.reg _ (by decide)
  unfold desempaquetar
  rw [run_append_of_next hrun0, run_append_of_next hrun1]
  have hnib (k : Nat) (hk : k < 16) (v : UInt64) : UInt64.ofNat k = v ↔ k = v.toNat := by
    rw [← UInt64.toNat_inj, UInt64.toNat_ofNat', Nat.mod_eq_of_lt (by omega)]
  have hlt := Nat.mod_lt (m1.mem (a + (bytes - 1))).toNat (show 0 < 16 by decide)
  have he (v w : UInt64) : Cond.holds (cmpFlags v w) .e = decide (v = w) := rfl
  have hne (v w : UInt64) : Cond.holds (cmpFlags v w) .ne = !decide (v = w) := rfl
  unfold empaquetado
  rw [← hkeep.mem]
  have hmag : ofSigned ((cifras m1.mem a (bytes - 1) * 10 +
      (m1.mem (a + (bytes - 1))).toNat / 16 : Nat) : Int) =
      m1.reg .rax * 10 + UInt64.ofNat ((m1.mem (a + (bytes - 1))).toNat / 16) := by
    rw [ofSigned_natCast, UInt64.ofNat_add, UInt64.ofNat_mul, hrax1, hkeep1.mem]
    rfl
  have h13 := hnib _ hlt NEGATIVO
  have h11 := hnib _ hlt 0x0B
  change _ ↔ _ = 13 at h13
  change _ ↔ _ = 11 at h11
  dsimp only
  by_cases hD : (m1.mem (a + (bytes - 1))).toNat % 16 = 13
  · rw [if_pos (Or.inl hD), ofSigned_neg, hmag]
    simp only [run, step, haddr, Machine.set_reg, Machine.setF_reg, reduceCtorEq, if_true,
      if_false, toUInt64_shiftRight, toUInt64_and, hrdi, he, h13.mpr hD, decide_true, Instr.is,
      Outcome.next.injEq, exists_eq_left', and_true]
    refine hkeep.trans ⟨fun r hr ↦ ?_, rfl, rfl⟩
    simp [gastados] at hr
    simp [hr]
  · by_cases hB : (m1.mem (a + (bytes - 1))).toNat % 16 = 11
    · have hotro : ¬(0x0B : UInt64) = NEGATIVO := by decide
      rw [if_pos (Or.inr hB), ofSigned_neg, hmag]
      simp only [run, step, haddr, Machine.set_reg, Machine.setF_reg, reduceCtorEq, if_true,
        if_false, toUInt64_shiftRight, toUInt64_and, hrdi, he, hne, hotro, h11.mpr hB,
        decide_true, decide_false, Bool.not_true, Bool.false_eq_true, Outcome.next.injEq,
        exists_eq_left', and_true]
      refine hkeep.trans ⟨fun r hr ↦ ?_, rfl, rfl⟩
      simp [gastados] at hr
      simp [hr]
    · rw [if_neg (not_or.mpr ⟨hD, hB⟩), hmag]
      simp only [run, step, haddr, Machine.set_reg, Machine.setF_reg, reduceCtorEq, if_true,
        if_false, toUInt64_shiftRight, toUInt64_and, hrdi, he, hne, mt h13.mp hD, mt h11.mp hB,
        decide_true, decide_false, Bool.not_false, Bool.false_eq_true, Outcome.next.injEq,
        exists_eq_left', Instr.is, Etiqueta.salto.injEq, zero_ne_one, and_true]
      refine hkeep.trans ⟨fun r hr ↦ ?_, rfl, rfl⟩
      simp [gastados] at hr
      simp [hr]

/-! ### What is written -/

private theorem toUInt8_digitos {d s : UInt64} (hd : d.toNat < 16) (hs : s.toNat < 16) :
    (d <<< 4 ||| s).toUInt8.toNat = d.toNat * 16 + s.toNat := by
  rw [UInt64.toNat_toUInt8, toNat_shiftLeft_or (by decide) (by change _ * 2 ^ 4 < _; omega)
    (by change _ < 2 ^ 4; omega)]
  change (_ * 16 + _) % 2 ^ 8 = _
  omega

private theorem run_byte {m : Machine} {a i : Nat} (haddr : m.addr .rcx i = a)
    (hd : (m.reg .rdx).toNat < 16) (hs : (m.reg .r11).toNat < 16) :
    ∃ m', run ([.shl .rdx 4, .or .rdx .r11, .storeByte .rcx i .rdx] : Codigo) none m = .next m' ∧
      Only [.rdx] (fun x ↦ x = a) m m' ∧
      (m'.mem a).toNat = (m.reg .rdx).toNat * 16 + (m.reg .r11).toNat := by
  subst haddr
  simp only [run, step, Machine.setF_reg, reduceCtorEq, if_true, if_false, Machine.setF_mem,
    Outcome.next.injEq, exists_eq_left']
  refine ⟨⟨fun r hr ↦ ?_, fun x hx ↦ ?_, rfl⟩, ?_⟩
  · simp at hr
    simp [hr]
  · exact Function.update_of_ne hx ..
  · rw [← toUInt8_digitos hd hs]
    exact congrArg _ (Function.update_self ..)

private theorem dos_cifras (w p : Nat) :
    (w / 10 / 10 % p * 10 + (w / 10 % 10 * 16 + w % 10) / 16) * 10 +
      (w / 10 % 10 * 16 + w % 10) % 16 = w % (100 * p) := by
  have h : w / 10 / 10 = w / 100 := by omega
  rw [Nat.mod_mul, h]
  generalize w / 100 % p = q
  omega

/-- The digit of a number at a place. -/
def cifra (w k : Nat) : Nat := w / 10 ^ k % 10

theorem cifra_zero (w : Nat) : cifra w 0 = w % 10 := by
  rw [cifra, Nat.pow_zero, Nat.div_one]

theorem cifra_div (w k j : Nat) : cifra (w / 10 ^ j) k = cifra w (j + k) := by
  rw [cifra, cifra, Nat.div_div_eq_div_mul, Nat.pow_add]

/-- Bytes of two digits say the number. -/
theorem cifras_eq {mem : Memory} {a n w : Nat}
    (h : ∀ i < n, (mem (a + i)).toNat =
      cifra w (2 * (n - 1 - i) + 1) * 16 + cifra w (2 * (n - 1 - i))) :
    cifras mem a n = w % 10 ^ (2 * n) := by
  induction n generalizing w with
  | zero => simp [cifras, Nat.mod_one]
  | succ n ih =>
    have hlast := h n (Nat.lt_succ_self n)
    have hresto : cifras mem a n = w / 10 ^ 2 % 10 ^ (2 * n) := by
      apply ih
      intro i hi
      have hexp : 2 * (n + 1 - 1 - i) = 2 + 2 * (n - 1 - i) := by omega
      rw [cifra_div, cifra_div, h i (by omega), hexp, Nat.add_assoc]
    have hdos : w / 10 ^ 2 = w / 10 / 10 := by omega
    have hpow : 10 ^ (2 * (n + 1)) = 100 * 10 ^ (2 * n) := by ring
    rw [Nat.add_sub_cancel, Nat.sub_self, Nat.mul_zero, Nat.zero_add, cifra_zero] at hlast
    have huno : cifra w 1 = w / 10 % 10 := by rw [cifra, Nat.pow_one]
    rw [cifras, hresto, hlast, huno, hdos, hpow, dos_cifras]

/-- The digits of a number go to the bytes from the last one on. -/
theorem run_escritos {m : Machine} {a n : Nat} (h : m.reg .rdi = 10)
    (ha : (m.reg .rcx).toNat = a) (hab : a + n ≤ 2 ^ 64) :
    ∃ m', run (escritos n) none m = .next m' ∧
      Only [.rax, .rdx, .r11] (fun x ↦ a ≤ x ∧ x < a + n) m m' ∧
      ∀ i < n, (m'.mem (a + i)).toNat = cifra (m.reg .rax).toNat (2 * (n - 1 - i) + 1) * 16 +
        cifra (m.reg .rax).toNat (2 * (n - 1 - i)) := by
  induction n generalizing m with
  | zero => exact ⟨m, rfl, Keeps.refl.only, fun i hi ↦ absurd hi (Nat.not_lt_zero i)⟩
  | succ n ih =>
    obtain ⟨m1, hrun1, hkeep1, hrax1, hrdx1⟩ := run_digito h
    let m2 := m1.set .r11 (m1.reg .rdx)
    have hkeep2 : Keeps [.rax, .rdx, .r11] m m2 := by
      refine (hkeep1.mono (by decide)).trans ⟨fun r hr ↦ ?_, rfl, rfl⟩
      simp at hr
      simp [m2, hr]
    obtain ⟨m3, hrun3, hkeep3, hrax3, hrdx3⟩ :=
      @run_digito m2 ((hkeep2.reg _ (by decide)).trans h)
    have hkeep : Keeps [.rax, .rdx, .r11] m m3 := hkeep2.trans (hkeep3.mono (by decide))
    have haddr := addr_campo hkeep (by decide) ha hab (Nat.lt_succ_self n)
    have hr11 : (m3.reg .r11).toNat = (m.reg .rax).toNat % 10 := by
      rw [hkeep3.reg _ (by decide)]
      exact hrdx1
    have hrax2 : (m2.reg .rax).toNat = (m.reg .rax).toNat / 10 := hrax1
    rw [hrax2] at hrax3 hrdx3
    obtain ⟨m4, hrun4, honly4, hmem4⟩ := run_byte haddr (by omega) (by omega)
    have honly : Only [.rax, .rdx, .r11] (fun x ↦ a ≤ x ∧ x < a + (n + 1)) m m4 := by
      apply hkeep.only.trans (honly4.mono (by decide) _)
      intro x hx
      omega
    obtain ⟨m5, hrun5, honly5, hmem5⟩ := @ih m4 ((honly.reg _ (by decide)).trans h)
      ((congrArg _ (honly.reg _ (by decide))).trans ha) (by omega)
    refine ⟨m5, ?_, honly.trans (honly5.mono (by decide) ?_), ?_⟩
    · unfold escritos
      rw [run_append_of_next hrun1, run_append_of_next (show run _ none m1 = .next m2 from rfl),
        run_append_of_next hrun3, run_append_of_next hrun4, hrun5]
    · intro x hx
      omega
    · intro i hi
      by_cases hin : i = n
      · subst hin
        rw [honly5.mem _ (by omega), hmem4, hrdx3, hr11, Nat.add_sub_cancel, Nat.sub_self,
          Nat.mul_zero, Nat.zero_add, cifra_zero, cifra, Nat.pow_one]
      · have hrax4 : (m4.reg .rax).toNat = (m.reg .rax).toNat / 10 ^ 2 := by
          rw [honly4.reg _ (by decide), hrax3]
          omega
        have hexp : 2 * (n + 1 - 1 - i) = 2 + 2 * (n - 1 - i) := by omega
        rw [hmem5 i (by omega), hrax4, cifra_div, cifra_div, hexp, Nat.add_assoc]

/-- The last byte has the lowest digit and the sign, and the others the rest of the digits. -/
theorem empaquetado_de {mem : Memory} {a bytes w : Nat} {s : Nat} (hb : 0 < bytes) (hs : s < 16)
    (hlast : (mem (a + (bytes - 1))).toNat = w % 10 * 16 + s)
    (hcifras : cifras mem a (bytes - 1) = w / 10 % 10 ^ (2 * (bytes - 1))) :
    empaquetado mem a bytes = if s = 0x0D ∨ s = 0x0B then -((w % 10 ^ (2 * bytes - 1) : Nat) : Int)
      else (w % 10 ^ (2 * bytes - 1) : Nat) := by
  have hpow : 10 ^ (2 * bytes - 1) = 10 * 10 ^ (2 * (bytes - 1)) := by
    rw [← Nat.pow_succ']
    congr 1
    omega
  have hlo : (w % 10 * 16 + s) % 16 = s := by omega
  have hhi : (w % 10 * 16 + s) / 16 = w % 10 := by omega
  unfold empaquetado
  dsimp only
  rw [hlast, hcifras, hlo, hhi, hpow, Nat.mod_mul]
  rw [show w / 10 % 10 ^ (2 * (bytes - 1)) * 10 + w % 10 =
    w % 10 + 10 * (w / 10 % 10 ^ (2 * (bytes - 1))) by omega]

theorem run_signo (m : Machine) (conSigno : Bool) :
    ∃ m', run (signo conSigno) none m = .next m' ∧ Keeps gastados m m' ∧ m'.reg .rdi = 10 ∧
      (m'.reg .rax).toNat = (signed (m.reg .rax)).natAbs ∧
      m'.reg .r11 = if conSigno then if signed (m.reg .rax) < 0 then NEGATIVO else POSITIVO
        else SIN_SIGNO := by
  have hns (w : UInt64) : Cond.holds (testFlags w) .ns = !decide (signed w < 0) := rfl
  by_cases hneg : signed (m.reg .rax) < 0
  · have habs := toNat_neg_of_neg hneg
    cases conSigno <;>
    · simp only [signo, run, step, Machine.set_reg, Machine.setF_reg, reduceCtorEq, if_true,
        if_false, UInt64.and_self, hns, hneg, decide_true, Bool.not_true, Bool.false_eq_true,
        List.cons_append, List.nil_append, List.append_nil, Outcome.next.injEq, exists_eq_left']
      refine ⟨⟨fun r hr ↦ ?_, rfl, rfl⟩, trivial, by omega, trivial⟩
      simp [gastados] at hr
      simp [hr]
  · have habs := toNat_of_nonneg (Int.not_lt.mp hneg)
    cases conSigno <;>
    · simp only [signo, run, step, Machine.set_reg, reduceCtorEq, if_true, if_false,
        UInt64.and_self, hns, hneg, decide_false, Bool.not_false, Bool.false_eq_true,
        List.cons_append, List.nil_append, List.append_nil, Outcome.next.injEq, exists_eq_left',
        Instr.is, decide_true]
      refine ⟨⟨fun r hr ↦ ?_, rfl, rfl⟩, trivial, by omega, trivial⟩
      simp [gastados] at hr
      simp [hr]

/-- The nibble of the sign of a number. -/
def nibbleSigno (conSigno : Bool) (v : Int) : Nat :=
  if conSigno then if v < 0 then 0x0D else 0x0C else 0x0F

/-- The code writes the digits of the absolute value, two a byte, and the sign in the last one. -/
theorem run_empaquetar_bytes {m : Machine} {a bytes : Nat} {conSigno : Bool} (hb : 0 < bytes)
    (ha : (m.reg .rcx).toNat = a) (hab : a + bytes ≤ 2 ^ 64) :
    ∃ m', run (empaquetar bytes conSigno) none m = .next m' ∧
      Only gastados (fun x ↦ a ≤ x ∧ x < a + bytes) m m' ∧
      ∀ i < bytes, (m'.mem (a + i)).toNat =
        cifra (signed (m.reg .rax)).natAbs (2 * (bytes - 1 - i)) * 16 +
          if i + 1 = bytes then nibbleSigno conSigno (signed (m.reg .rax))
          else cifra (signed (m.reg .rax)).natAbs (2 * (bytes - 1 - i) - 1) := by
  obtain ⟨m1, hrun1, hkeep1, hrdi1, hrax1, hr11⟩ := run_signo m conSigno
  obtain ⟨m2, hrun2, hkeep2, hrax2, hrdx2⟩ := run_digito hrdi1
  have hkeep : Keeps gastados m m2 := hkeep1.trans (hkeep2.mono (by decide))
  have haddr := addr_campo hkeep (by decide) ha hab (show bytes - 1 < bytes by omega)
  have hs : (m2.reg .r11).toNat = nibbleSigno conSigno (signed (m.reg .rax)) := by
    rw [hkeep2.reg _ (by decide), hr11, nibbleSigno]
    split_ifs <;> rfl
  have hs16 : (m2.reg .r11).toNat < 16 := by
    rw [hs, nibbleSigno]
    split_ifs <;> decide
  obtain ⟨m3, hrun3, honly3, hmem3⟩ := run_byte haddr (by omega) hs16
  have honly : Only gastados (fun x ↦ a ≤ x ∧ x < a + bytes) m m3 := by
    apply hkeep.only.trans (honly3.mono (by decide) _)
    intro x hx
    omega
  obtain ⟨m4, hrun4, honly4, hmem4⟩ := @run_escritos m3 a (bytes - 1)
    ((honly3.reg _ (by decide)).trans ((hkeep2.reg _ (by decide)).trans hrdi1))
    ((congrArg _ (honly.reg _ (by decide))).trans ha) (by omega)
  refine ⟨m4, ?_, honly.trans (honly4.mono (by decide) ?_), ?_⟩
  · unfold empaquetar
    rw [run_append_of_next hrun1, run_append_of_next hrun2, run_append_of_next hrun3, hrun4]
  · intro x hx
    omega
  · intro i hi
    by_cases hin : i + 1 = bytes
    · have hlast : a + i = a + (bytes - 1) := by omega
      have hexp : 2 * (bytes - 1 - i) = 0 := by omega
      rw [hlast, honly4.mem _ (by omega), hmem3, hrdx2, hrax1, hs, hexp, cifra_zero, if_pos hin]
    · have hrax3 : (m3.reg .rax).toNat = (signed (m.reg .rax)).natAbs / 10 ^ 1 := by
        rw [honly3.reg _ (by decide), hrax2, hrax1]
        omega
      have halto : 2 * (bytes - 1 - i) = 1 + (2 * (bytes - 1 - 1 - i) + 1) := by omega
      have hbajo : 2 * (bytes - 1 - i) - 1 = 1 + 2 * (bytes - 1 - 1 - i) := by omega
      rw [hmem4 i (by omega), hrax3, cifra_div, cifra_div, if_neg hin, hbajo, halto]

/-- The code writes what the field holds of the number. -/
theorem run_empaquetar {m : Machine} {a bytes : Nat} {conSigno : Bool} (hb : 0 < bytes)
    (ha : (m.reg .rcx).toNat = a) (hab : a + bytes ≤ 2 ^ 64) :
    ∃ m', run (empaquetar bytes conSigno) none m = .next m' ∧
      Only gastados (fun x ↦ a ≤ x ∧ x < a + bytes) m m' ∧
      empaquetado m'.mem a bytes = recorta bytes conSigno (signed (m.reg .rax)) := by
  obtain ⟨m', hrun, honly, hmem⟩ := @run_empaquetar_bytes m a bytes conSigno hb ha hab
  refine ⟨m', hrun, honly, ?_⟩
  have hs16 : nibbleSigno conSigno (signed (m.reg .rax)) < 16 := by
    unfold nibbleSigno
    split_ifs <;> decide
  have hcifras : cifras m'.mem a (bytes - 1) =
      (signed (m.reg .rax)).natAbs / 10 % 10 ^ (2 * (bytes - 1)) := by
    apply cifras_eq
    intro i hi
    have hdiez : (signed (m.reg .rax)).natAbs / 10 = (signed (m.reg .rax)).natAbs / 10 ^ 1 := by
      rw [Nat.pow_one]
    have halto : 2 * (bytes - 1 - i) = 1 + (2 * (bytes - 1 - 1 - i) + 1) := by omega
    have hbajo : 2 * (bytes - 1 - i) - 1 = 1 + 2 * (bytes - 1 - 1 - i) := by omega
    rw [hmem i (by omega), if_neg (by omega), hdiez, cifra_div, cifra_div, hbajo, halto]
  have hlast : (m'.mem (a + (bytes - 1))).toNat = (signed (m.reg .rax)).natAbs % 10 * 16 +
      nibbleSigno conSigno (signed (m.reg .rax)) := by
    rw [hmem (bytes - 1) (by omega), if_pos (by omega), Nat.sub_self, Nat.mul_zero, cifra_zero]
  rw [empaquetado_de hb hs16 hlast hcifras, nibbleSigno]
  have hmod := Int.natAbs_tmod (signed (m.reg .rax)) (10 ^ (2 * bytes - 1))
  rw [Int.natAbs_pow, show (10 : Int).natAbs = 10 from rfl] at hmod
  unfold recorta
  cases conSigno with
  | false => rfl
  | true =>
    by_cases hneg : signed (m.reg .rax) < 0
    · have hle := tmod_nonpos (d := 10 ^ (2 * bytes - 1)) hneg.le
      simp only [hneg, if_true, true_or]
      omega
    · have hge := Int.tmod_nonneg (10 ^ (2 * bytes - 1)) (Int.not_lt.mp hneg)
      simp only [hneg, if_true, if_false, Nat.reduceEqDiff, or_self]
      omega

end BmoX.Lower
