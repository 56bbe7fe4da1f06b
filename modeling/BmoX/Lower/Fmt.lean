import BmoX.Lower.Consola
import BmoX.Lower.Empaquetado
import Mathlib.Data.Nat.Digits.Lemmas

/-!
# Numbers as text

`toolchain/forge/bmo-lower/src/fmt.rs`. A text is written backwards in a buffer on the stack, and
the console shows it.
-/

namespace BmoX.Lower.Fmt

open BmoX.Base BmoX.Base.X86

/-- `BUFFER`; `fmt.rs:35`. -/
def BUFFER : Nat := 32

/-- An empty buffer. -/
def prepara : List (Instr Rotulo) :=
  [.subImm .rsp (UInt64.ofNat BUFFER), .leaAt .r8 .rsp BUFFER, .zero .r9]

/-- The sign goes to `r10`. -/
def apartaSigno : List (Instr Rotulo) :=
  [.zero .r10, .test .rax .rax, .jcc .ns .nonNegative, .movImm .r10 1, .neg .rax,
    .label .nonNegative]

/-- The byte of `rdx` goes before the text. -/
def pon : List (Instr Rotulo) := [.dec .r8, .storeByte .r8 0 .rdx, .inc .r9]

/-- A byte goes before the text. -/
def ponImm (c : UInt8) : List (Instr Rotulo) := [.dec .r8, .storeByteImm .r8 0 c, .inc .r9]

/-- The sign goes before the text. -/
def ponSigno : List (Instr Rotulo) :=
  [Instr.test .r10 .r10, .jcc .e Rotulo.noSign] ++ (ponImm 0x2D ++ [Instr.label Rotulo.noSign])

/-- The last digit goes to `rdx`, and the others stay in `rax`. -/
def divide (unsigned : Bool) : List (Instr Rotulo) :=
  if unsigned then [.zero .rdx, .div .rcx] else [.cqo, .idiv .rcx]

/-- A digit as a character. -/
def caracter (radix : UInt8) : List (Instr Rotulo) :=
  if radix = 16 then
    [.cmpImm .rdx 10, .jcc .l .isDecimalDigit, .addImm .rdx 87, .jmp .stored,
      .label .isDecimalDigit, .addImm .rdx 0x30, .label .stored]
  else [.addImm .rdx 0x30]

/-- One digit, and the next one while there are more. -/
def unDigito (radix : UInt8) (unsigned : Bool) : List (Instr Rotulo) :=
  divide unsigned ++ (caracter radix ++ (pon ++
    ([Instr.test .rax .rax] ++ [Instr.jcc .ne Rotulo.digitLoop])))

/-- The digits of `rax` go before the text; `fmt.rs:292–327`. -/
def emit_digits (radix : UInt8) (unsigned : Bool) : Programa :=
  .instr (.movImm .rcx radix.toUInt64) :: .instr (.label .digitLoop) ::
    (unDigito radix unsigned).map Op.instr

/-- `rax` as text at `r8`, of length `r9`; `fmt.rs:58–83`. -/
def formatear_i64 : Programa :=
  (prepara ++ apartaSigno).map Op.instr ++ (emit_digits 10 false ++ ponSigno.map Op.instr)

/-- The integer part goes to `r11`, and the fraction stays in `rax`. -/
def parte (escala : Nat) : List (Instr Rotulo) :=
  [.movImm .rcx (UInt64.ofNat (10 ^ escala)), .zero .rdx, .div .rcx, .mov .r11 .rax, .mov .rax .rdx,
    .movImm .rcx 10]

/-- The digits of the fraction, as many as they are. -/
def decimales : Nat → List (Instr Rotulo)
  | 0 => []
  | n + 1 => divide true ++ ([Instr.addImm .rdx 0x30] ++ (pon ++ decimales n))

/-- `rax` as text with a point; `fmt.rs:123–181`. -/
def formatear_decimal_scaled (escala : Nat) : Programa :=
  if escala = 0 then formatear_i64
  else
    (prepara ++ (apartaSigno ++ (parte escala ++ (decimales escala ++
      (ponImm 0x2E ++ [Instr.mov .rax .r11]))))).map Op.instr ++
      (emit_digits 10 true ++ ponSigno.map Op.instr)

/-- `rax` is shown; `fmt.rs:41–45`. -/
def write_i64 : Programa :=
  formatear_i64 ++ (write_buffer ++ [Op.instr (.addImm .rsp (UInt64.ofNat BUFFER))])

/-- `rax` is shown without a sign, in base 10 or 16; `fmt.rs:187–198`. -/
def write_u64_radix (radix : UInt8) : Programa :=
  prepara.map Op.instr ++ (emit_digits radix true ++
    (write_buffer ++ [Op.instr (.addImm .rsp (UInt64.ofNat BUFFER))]))

/-! ### What the text should be -/

/-- The digits of a number, the first one first; zero has one. -/
def digitos (b n : Nat) : List Nat := if n = 0 then [0] else (Nat.digits b n).reverse

/-- The character of a digit. -/
def cifraTexto (d : Nat) : UInt8 := UInt8.ofNat (if d < 10 then 0x30 + d else 0x61 + (d - 10))

/-- A number in base `b`. -/
def enBase (b n : Nat) : Bytes := (digitos b n).map cifraTexto

/-- The minus of a negative number. -/
def menos (v : Int) : Bytes := if v < 0 then [0x2D] else []

/-- The point and `escala` digits; nothing where there are none. -/
def fraccion (escala n : Nat) : Bytes :=
  if escala = 0 then []
  else 0x2E :: (List.range escala).map fun i ↦ cifraTexto (cifra n (escala - 1 - i))

/-- The decimal expansion of `v / 10 ^ escala`. -/
def decimal (v : Int) (escala : Nat) : Bytes :=
  menos v ++ (enBase 10 (v.natAbs / 10 ^ escala) ++ fraccion escala (v.natAbs % 10 ^ escala))

example : decimal (-5) 2 = [0x2D, 0x30, 0x2E, 0x30, 0x35] := by decide

/-- All digits but the last one, and the last one. -/
theorem digitos_eq {b : Nat} (hb : 1 < b) (n : Nat) :
    digitos b n = if n / b = 0 then [n % b] else digitos b (n / b) ++ [n % b] := by
  by_cases hn : n = 0
  · simp [digitos, hn]
  · have hdig := Nat.digits_def' hb (Nat.pos_of_ne_zero hn)
    rw [digitos, if_neg hn, hdig, List.reverse_cons]
    by_cases hq : n / b = 0
    · rw [if_pos hq, hq]
      simp
    · rw [if_neg hq, digitos, if_neg hq]

private theorem digitos_ne_nil {b : Nat} (hb : 1 < b) (n : Nat) : digitos b n ≠ [] := by
  rw [digitos_eq hb]
  split <;> simp

/-! ### The buffer -/

/-- A text of at most 32 bytes that ends where the stack was, and nothing else is written. -/
structure Escrito (m0 m : Machine) (t : Bytes) : Prop where
  cabe : t.length ≤ BUFFER
  rsp : m.reg .rsp = m0.reg .rsp - UInt64.ofNat BUFFER
  r8 : m.reg .r8 = m0.reg .rsp - UInt64.ofNat t.length
  r9 : m.reg .r9 = UInt64.ofNat t.length
  bytes : bytesEn m.mem (m.reg .r8) t.length = t
  dentro : ∀ a, (∀ k, 1 ≤ k → k ≤ BUFFER → a ≠ (m0.reg .rsp - UInt64.ofNat k).toNat) →
    m.mem a = m0.mem a
  stack : m.stack = m0.stack

namespace Escrito

variable {m0 m m' : Machine} {t : Bytes}

theorem texto_eq (h : Escrito m0 m t) : texto m = t := by
  have hlen : (m.reg .r9).toNat = t.length := by
    have hcabe := h.cabe
    rw [h.r9, UInt64.toNat_ofNat_of_lt' (show t.length < 2 ^ 64 by unfold BUFFER at hcabe; omega)]
  rw [texto, hlen, h.bytes]

/-- Other registers do not matter. -/
theorem keeps {rs : List Reg} (h : Escrito m0 m t) (hk : Keeps rs m m')
    (hrs : .rsp ∉ rs ∧ .r8 ∉ rs ∧ .r9 ∉ rs) : Escrito m0 m' t where
  cabe := h.cabe
  rsp := (hk.reg _ hrs.1).trans h.rsp
  r8 := (hk.reg _ hrs.2.1).trans h.r8
  r9 := (hk.reg _ hrs.2.2).trans h.r9
  bytes := by rw [hk.mem, hk.reg _ hrs.2.1, h.bytes]
  dentro a ha := by rw [hk.mem, h.dentro a ha]
  stack := hk.stack.trans h.stack

/-- A byte before the text. -/
theorem cons (h : Escrito m0 m t) (hcabe : t.length < BUFFER) {c : UInt8}
    (hrsp : m'.reg .rsp = m.reg .rsp) (hr8 : m'.reg .r8 = m.reg .r8 - 1)
    (hr9 : m'.reg .r9 = m.reg .r9 + 1)
    (hmem : m'.mem = Function.update m.mem (m.reg .r8 - 1).toNat c) (hstack : m'.stack = m.stack) :
    Escrito m0 m' (c :: t) where
  cabe := hcabe
  rsp := hrsp.trans h.rsp
  r8 := by
    rw [hr8, h.r8, List.length_cons, UInt64.ofNat_add, show UInt64.ofNat 1 = 1 from rfl]
    grind
  r9 := by
    rw [hr9, h.r9, List.length_cons, UInt64.ofNat_add]
    rfl
  bytes := by
    have hotro : ∀ i < t.length, (m.reg .r8 + UInt64.ofNat i).toNat ≠ (m.reg .r8 - 1).toNat := by
      intro i hi heq
      unfold BUFFER at hcabe
      have hmas : UInt64.ofNat (i + 1) = 0 := by
        rw [UInt64.ofNat_add, show UInt64.ofNat 1 = 1 from rfl]
        have heq' := UInt64.toNat_inj.mp heq
        grind
      rw [← UInt64.toNat_inj, UInt64.toNat_ofNat_of_lt' (show i + 1 < 2 ^ 64 by omega)] at hmas
      exact Nat.succ_ne_zero i hmas
    have hresto : bytesEn m'.mem (m.reg .r8) t.length = t := by
      conv_rhs => rw [← h.bytes]
      apply List.map_congr_left
      intro i hi
      rw [hmem, Function.update_of_ne (hotro i (List.mem_range.mp hi))]
    have hprimero : bytesEn m'.mem (m.reg .r8 - 1) 1 = [c] := by
      simp [bytesEn, hmem]
    have hsig : m.reg .r8 - 1 + UInt64.ofNat 1 = m.reg .r8 := UInt64.sub_add_cancel ..
    rw [hr8, List.length_cons, Nat.add_comm, bytesEn_add, hprimero, hsig, hresto]
    rfl
  dentro a ha := by
    have hfuera : a ≠ (m.reg .r8 - 1).toNat := by
      have hno := ha (t.length + 1) (Nat.succ_pos _) hcabe
      rw [h.r8]
      rw [UInt64.ofNat_add, show UInt64.ofNat 1 = 1 from rfl] at hno
      intro heq
      apply hno
      rw [heq]
      congr 1
      grind
    rw [hmem, Function.update_of_ne hfuera, h.dentro a ha]
  stack := hstack.trans h.stack

end Escrito

theorem run_prepara (m : Machine) :
    ∃ m', run prepara none m = .next m' ∧ Escrito m m' [] ∧
      ∀ r, r ∉ [Reg.rsp, .r8, .r9] → m'.reg r = m.reg r := by
  simp only [prepara, run, step, Machine.setF_reg, if_true, Outcome.next.injEq, exists_eq_left']
  refine ⟨⟨Nat.zero_le _, by simp, ?_, by simp, rfl, fun _ _ ↦ rfl, rfl⟩, fun r hr ↦ ?_⟩
  · simp
  · simp at hr
    simp [hr]

section

variable {m0 m : Machine} {t : Bytes}

private theorem run_pon (h : Escrito m0 m t) (hcabe : t.length < BUFFER) :
    ∃ m', run pon none m = .next m' ∧ Escrito m0 m' ((m.reg .rdx).toUInt8 :: t) ∧
      ∀ r, r ∉ [Reg.r8, .r9] → m'.reg r = m.reg r := by
  simp only [pon, run, step, Machine.setF_reg, reduceCtorEq, if_false, Outcome.next.injEq,
    exists_eq_left']
  refine ⟨h.cons hcabe ?_ ?_ ?_ ?_ rfl, fun r hr ↦ ?_⟩
  · simp
  · simp
  · simp
  · simp [Machine.addr]
  · simp at hr
    simp [hr]

private theorem run_ponImm (h : Escrito m0 m t) (hcabe : t.length < BUFFER) (c : UInt8) :
    ∃ m', run (ponImm c) none m = .next m' ∧ Escrito m0 m' (c :: t) ∧
      ∀ r, r ∉ [Reg.r8, .r9] → m'.reg r = m.reg r := by
  simp only [ponImm, run, step, Machine.setF_reg, reduceCtorEq, if_false, Outcome.next.injEq,
    exists_eq_left']
  refine ⟨h.cons hcabe ?_ ?_ ?_ ?_ rfl, fun r hr ↦ ?_⟩
  · simp
  · simp
  · simp
  · simp [Machine.addr]
  · simp at hr
    simp [hr]

private theorem run_apartaSigno (m : Machine) :
    ∃ m', run apartaSigno none m = .next m' ∧ Keeps [.rax, .r10] m m' ∧
      (m'.reg .rax).toNat = (signed (m.reg .rax)).natAbs ∧
      m'.reg .r10 = if signed (m.reg .rax) < 0 then 1 else 0 := by
  by_cases hneg : signed (m.reg .rax) < 0
  · have habs := toNat_neg_of_neg hneg
    simp only [apartaSigno, run, step, Machine.set_reg, Machine.setF_reg, reduceCtorEq, if_true,
      if_false, UInt64.and_self, holds_testFlags_ns, hneg, decide_true, Bool.not_true,
      Bool.false_eq_true, Outcome.next.injEq, exists_eq_left']
    refine ⟨⟨fun r hr ↦ ?_, rfl, rfl⟩, by omega, trivial⟩
    simp at hr
    simp [hr]
  · have habs := toNat_of_nonneg (Int.not_lt.mp hneg)
    simp only [apartaSigno, run, step, Machine.setF_reg, reduceCtorEq, if_true, if_false,
      UInt64.and_self, holds_testFlags_ns, hneg, decide_false, Bool.not_false, Outcome.next.injEq,
        exists_eq_left', Instr.is, decide_true, Bool.false_eq_true]
    refine ⟨⟨fun r hr ↦ ?_, rfl, rfl⟩, by omega, trivial⟩
    simp at hr
    simp [hr]

/-- The sign goes before the text. -/
theorem run_ponSigno {v : Int} (h : Escrito m0 m t) (hcabe : t.length < BUFFER)
    (hr10 : m.reg .r10 = if v < 0 then 1 else 0) :
    ∃ m', run ponSigno none m = .next m' ∧ Escrito m0 m' (menos v ++ t) := by
  obtain ⟨m1, hrun1, hflags1, hkeep1⟩ : ∃ m1, run ([.test .r10 .r10] : List (Instr Rotulo)) none m =
      .next m1 ∧ m1.flags = some (testFlags (m.reg .r10)) ∧ Keeps [] m m1 := by
    refine ⟨_, rfl, ?_, fun _ _ ↦ rfl, rfl, rfl⟩
    rw [UInt64.and_self]
  have h1 := h.keeps hkeep1 (by decide)
  have hponSigno : ponSigno = [Instr.test .r10 .r10] ++ ([Instr.jcc .e Rotulo.noSign] ++
      (ponImm 0x2D ++ [Instr.label Rotulo.noSign])) := rfl
  rw [hponSigno, run_append_of_next hrun1]
  by_cases hv : v < 0
  · rw [if_pos hv] at hr10
    have hjcc : run ([.jcc .e .noSign] : List (Instr Rotulo)) none m1 = .next m1 := by
      rw [run_jcc hflags1, holds_testFlags_e, hr10]
      rfl
    obtain ⟨m2, hrun2, h2, -⟩ := run_ponImm h1 hcabe 0x2D
    rw [run_append_of_next hjcc, run_append_of_next hrun2, menos, if_pos hv]
    exact ⟨m2, rfl, h2⟩
  · rw [if_neg hv] at hr10
    have hjcc : run ([.jcc .e .noSign] : List (Instr Rotulo)) none m1 = .jump .noSign m1 := by
      rw [run_jcc hflags1, holds_testFlags_e, hr10]
      rfl
    rw [run_append, hjcc, menos, if_neg hv]
    exact ⟨m1, rfl, h1⟩

private theorem run_divide {b n : Nat} (hb : b ≠ 0) (hrcx : (m.reg .rcx).toNat = b)
    (hrax : (m.reg .rax).toNat = n) :
    ∃ m', run (divide true) none m = .next m' ∧ Keeps [.rax, .rdx] m m' ∧
      (m'.reg .rax).toNat = n / b ∧ (m'.reg .rdx).toNat = n % b := by
  have hlt := (m.reg .rax).toNat_lt
  have hq : n / b < 2 ^ 64 := by
    have hle := Nat.div_le_self n b
    omega
  have hr : n % b < 2 ^ 64 := by
    have hle := Nat.mod_le n b
    omega
  have hok : ¬((m.reg .rcx).toNat = 0 ∨
      2 ^ 64 ≤ ((0 : UInt64).toNat * 2 ^ 64 + (m.reg .rax).toNat) / (m.reg .rcx).toNat) := by
    rw [UInt64.toNat_zero, Nat.zero_mul, Nat.zero_add, hrcx, hrax]
    omega
  simp only [divide, if_true, run, step, Machine.setF_reg, reduceCtorEq, if_false, if_neg hok,
    Outcome.next.injEq, exists_eq_left']
  refine ⟨⟨fun r hr ↦ ?_, rfl, rfl⟩, ?_, ?_⟩
  · simp at hr
    simp [hr]
  · rw [UInt64.toNat_zero, Nat.zero_mul, Nat.zero_add, hrcx, hrax, UInt64.toNat_ofNat_of_lt' hq]
  · rw [UInt64.toNat_zero, Nat.zero_mul, Nat.zero_add, hrcx, hrax, UInt64.toNat_ofNat_of_lt' hr]

/-- With a sign, that of the number. -/
theorem run_divide_signed {v : Int} (hrcx : m.reg .rcx = 10) (hrax : signed (m.reg .rax) = v) :
    ∃ m', run (divide false) none m = .next m' ∧ Keeps usados m m' ∧
      signed (m'.reg .rax) = v.tdiv 10 ∧ signed (m'.reg .rdx) = v.tmod 10 := by
  have h10 : signed (m.reg .rcx) = 10 := by
    rw [hrcx]
    rfl
  have hq := fits_tdiv (hrax ▸ fits_signed (m.reg .rax)) (show (0 : Int) < 10 by decide)
  obtain ⟨m', hrun, hkeep, hq', hr'⟩ := @run_idiv Rotulo _ m (by rw [h10]; decide)
    (by rw [h10, hrax]; exact hq)
  rw [h10, hrax] at hq' hr'
  exact ⟨m', hrun, hkeep, hq', hr'⟩

private theorem toUInt8_cifra {w : UInt64} {d : Nat} (hw : w.toNat = d) (hd : d < 10) :
    (w + 0x30).toUInt8 = cifraTexto d := by
  have h48 : UInt64.toNat 0x30 = 0x30 := rfl
  rw [cifraTexto, if_pos hd, ← UInt8.toNat_inj, UInt64.toNat_toUInt8, UInt64.toNat_add, hw,
    UInt8.toNat_ofNat', h48]
  omega

private theorem run_caracter_diez (m : Machine) :
    ∃ m', run (caracter 10) none m = .next m' ∧ Keeps [.rdx] m m' ∧
      m'.reg .rdx = m.reg .rdx + 0x30 := by
  refine ⟨m.setF .rdx (m.reg .rdx + 0x30), rfl, ⟨fun r hr ↦ ?_, rfl, rfl⟩, by simp⟩
  simp at hr
  simp [hr]

/-- In base 16, a letter from ten on. -/
theorem run_caracter_dieciseis {d : Nat} (hd : d < 16) (hrdx : (m.reg .rdx).toNat = d) :
    ∃ m', run (caracter 16) none m = .next m' ∧ Keeps [.rdx] m m' ∧
      (m'.reg .rdx).toUInt8 = cifraTexto d := by
  have hsd : signed (m.reg .rdx) = d := by rw [signed_of_toNat_lt (by omega), hrdx]
  have hl : Cond.holds (cmpFlags (m.reg .rdx) 10) .l = decide (d < 10) := by
    have h10 : signed 10 = 10 := rfl
    rw [holds_cmpFlags_l _ _ (by rw [hsd, h10]; unfold Fits; omega), hsd, h10, decide_eq_decide]
    omega
  have hcod : caracter 16 = [.cmpImm .rdx 10, .jcc .l .isDecimalDigit, .addImm .rdx 87,
      .jmp .stored, .label .isDecimalDigit, .addImm .rdx 0x30, .label .stored] := rfl
  have htexto {c : UInt64} {k : Nat} (hc : c.toNat = k) (hk : d + k < 256) :
      (m.reg .rdx + c).toUInt8 = UInt8.ofNat (d + k) := by
    rw [← UInt8.toNat_inj, UInt64.toNat_toUInt8, UInt64.toNat_add, hrdx, hc, UInt8.toNat_ofNat']
    omega
  by_cases h10 : d < 10
  · simp only [hcod, run, step, hl, h10, decide_true, if_true, Instr.is, reduceCtorEq, decide_false,
      Bool.false_eq_true, if_false, Outcome.next.injEq, exists_eq_left', Machine.setF_reg]
    refine ⟨⟨fun r hr ↦ ?_, rfl, rfl⟩, ?_⟩
    · simp at hr
      simp [hr]
    · rw [htexto (show UInt64.toNat 0x30 = 0x30 from rfl) (by omega), cifraTexto, if_pos h10,
        Nat.add_comm]
  · simp only [hcod, run, step, hl, h10, decide_false, Bool.false_eq_true, if_false, Instr.is,
      reduceCtorEq, decide_true, if_true, Outcome.next.injEq, exists_eq_left', Machine.setF_reg]
    refine ⟨⟨fun r hr ↦ ?_, rfl, rfl⟩, ?_⟩
    · simp at hr
      simp [hr]
    · rw [htexto (show UInt64.toNat 87 = 87 from rfl) (by omega), cifraTexto, if_neg h10]
      congr 1
      omega

/-- What comes of a digit that is taken out of `rax`. -/
theorem run_unDigito {radix : UInt8} {unsigned : Bool} {m1 m2 : Machine} (h : Escrito m0 m t)
    (hcabe : t.length < BUFFER) (hrun1 : run (divide unsigned) none m = .next m1)
    (hkeep1 : Keeps usados m m1) (hrun2 : run (caracter radix) none m1 = .next m2)
    (hkeep2 : Keeps [.rdx] m1 m2) :
    ∃ m', run (unDigito radix unsigned) none m =
        (if m1.reg .rax = 0 then .next m' else .jump .digitLoop m') ∧
      Escrito m0 m' ((m2.reg .rdx).toUInt8 :: t) ∧ m'.reg .rax = m1.reg .rax ∧
      ∀ r, r ∉ [Reg.rax, .rdx, .rsi, .rdi, .r8, .r9] → m'.reg r = m.reg r := by
  have hkeep : Keeps usados m m2 := hkeep1.trans (hkeep2.mono (by decide))
  obtain ⟨m3, hrun3, h3, hreg3⟩ := run_pon (h.keeps hkeep (by decide)) hcabe
  have hrax3 : m3.reg .rax = m1.reg .rax := by
    rw [hreg3 _ (by decide), hkeep2.reg _ (by decide)]
  obtain ⟨m4, hrun4, hflags4, hkeep4⟩ : ∃ m4,
      run ([.test .rax .rax] : List (Instr Rotulo)) none m3 = .next m4 ∧
      m4.flags = some (testFlags (m1.reg .rax)) ∧ Keeps [] m3 m4 := by
    refine ⟨_, rfl, ?_, fun _ _ ↦ rfl, rfl, rfl⟩
    rw [UInt64.and_self, hrax3]
  refine ⟨m4, ?_, h3.keeps hkeep4 (by decide), ?_, ?_⟩
  · unfold unDigito
    rw [run_append_of_next hrun1, run_append_of_next hrun2, run_append_of_next hrun3,
      run_append_of_next hrun4, run_jcc hflags4, holds_testFlags_ne]
    by_cases h0 : m1.reg .rax = 0 <;> simp [h0]
  · rw [hkeep4.reg _ (by decide), hrax3]
  · intro r hr
    rw [hkeep4.reg r (by simp), hreg3 r (by simp at hr; simp [hr]),
      hkeep.reg r (by simp at hr; simp [usados, hr])]

end

variable {m0 m : Machine} {t : Bytes} {sys : Machine → Machine × Bytes} {code pre post : Programa}
  {out : Bytes}

/-- The digits of a number, which `rax` holds in some way while they are taken out of it. -/
theorem reaches_digitos {radix : UInt8} {unsigned : Bool} {enc : Nat → UInt64} {car : Nat → UInt8}
    {b tope : Nat} (hb : 1 < b) (hcode : (labels code).Nodup)
    (h : code = pre ++ (.instr (.label .digitLoop) :: ((unDigito radix unsigned).map Op.instr ++
      post)))
    (hvuelta : ∀ n ≤ tope, ∀ m, m.reg .rcx = radix.toUInt64 → m.reg .rax = enc n →
      ∃ m1 m2, run (divide unsigned) none m = .next m1 ∧ Keeps usados m m1 ∧
        m1.reg .rax = enc (n / b) ∧ run (caracter radix) none m1 = .next m2 ∧
        Keeps [.rdx] m1 m2 ∧ (m2.reg .rdx).toUInt8 = car (n % b))
    (hcero : ∀ n ≤ tope, enc n = 0 ↔ n = 0) {n : Nat} (hn : n ≤ tope)
    (hescrito : Escrito m0 m t) (hcabe : (digitos b n).length + t.length ≤ BUFFER)
    (hrcx : m.reg .rcx = radix.toUInt64) (hrax : m.reg .rax = enc n) :
    ∃ m', Reaches sys code ⟨(unDigito radix unsigned).map Op.instr ++ post, m, out⟩ ⟨post, m', out⟩ ∧
      Escrito m0 m' ((digitos b n).map car ++ t) ∧
      ∀ r, r ∉ [Reg.rax, .rdx, .rsi, .rdi, .r8, .r9] → m'.reg r = m.reg r := by
  let otros : List Reg := [.rax, .rdx, .rsi, .rdi, .r8, .r9]
  let J : Nat → Machine → Prop := fun k m' ↦ k ≤ tope ∧ m'.reg .rax = enc k ∧
    (∀ r, r ∉ otros → m'.reg r = m.reg r) ∧ ∃ t', Escrito m0 m' t' ∧
      (digitos b k).length + t'.length ≤ BUFFER ∧
      (digitos b k).map car ++ t' = (digitos b n).map car ++ t
  have hpaso : ∀ k m', J k m' →
      (∃ k' < k, ∃ m'', run (unDigito radix unsigned) none m' = .jump .digitLoop m'' ∧ J k' m'') ∨
      ∃ js m'', exit code post (run (unDigito radix unsigned) none m') = some (js, m'') ∧
        (js = post ∧ Escrito m0 m'' ((digitos b n).map car ++ t) ∧
          ∀ r, r ∉ otros → m''.reg r = m.reg r) := by
    rintro k m' ⟨hk, hrax', hotros, t', hesc, hcabe', htexto⟩
    obtain ⟨m1, m2, hrun1, hkeep1, hrax1, hrun2, hkeep2, hcar⟩ :=
      hvuelta k hk m' ((hotros _ (by decide)).trans hrcx) hrax'
    have hlen : t'.length < BUFFER := by
      have hpos := List.length_pos_of_ne_nil (digitos_ne_nil hb k)
      omega
    obtain ⟨m'', hrun, hesc', hrax'', hotros'⟩ := run_unDigito hesc hlen hrun1 hkeep1 hrun2 hkeep2
    rw [hcar] at hesc'
    have hmas : ∀ r, r ∉ otros → m''.reg r = m.reg r := fun r hr ↦
      (hotros' r hr).trans (hotros r hr)
    have hmenor : k / b ≤ k := Nat.div_le_self k b
    have hdig := digitos_eq hb k
    by_cases hq : k / b = 0
    · rw [if_pos ((hrax1.symm ▸ (hcero _ (hmenor.trans hk))).mpr hq)] at hrun
      rw [if_pos hq] at hdig
      rw [hdig] at htexto
      exact .inr ⟨post, m'', by rw [hrun, exit], rfl, htexto ▸ hesc', hmas⟩
    · rw [if_neg (mt (hrax1.symm ▸ (hcero _ (hmenor.trans hk))).mp hq)] at hrun
      rw [if_neg hq] at hdig
      refine .inl ⟨k / b, ?_, m'', hrun, hmenor.trans hk, hrax''.trans hrax1, hmas, _, hesc', ?_,
        ?_⟩
      · have hpos : k ≠ 0 := fun h0 ↦ hq (by rw [h0, Nat.zero_div])
        exact Nat.div_lt_self (Nat.pos_of_ne_zero hpos) hb
      · rw [hdig, List.length_append, List.length_singleton] at hcabe'
        rw [List.length_cons]
        omega
      · rw [← htexto, hdig, List.map_append, List.append_assoc]
        rfl
  have hJ : J n m := ⟨hn, hrax, fun _ _ ↦ rfl, t, hescrito, hcabe, rfl⟩
  have hfin : ∃ js m', Reaches sys code ⟨(unDigito radix unsigned).map Op.instr ++ post, m, out⟩
      ⟨js, m', out⟩ ∧ (js = post ∧ Escrito m0 m' ((digitos b n).map car ++ t) ∧
        ∀ r, r ∉ otros → m'.reg r = m.reg r) :=
    reaches_loop hcode h hpaso hJ
  obtain ⟨_, m', hreach, rfl, hm'⟩ := hfin
  exact ⟨m', hreach, hm'⟩

theorem digitos_lt {b : Nat} (hb : 1 < b) {n d : Nat} (hd : d ∈ digitos b n) : d < b := by
  unfold digitos at hd
  split at hd
  · have := List.mem_singleton.mp hd
    omega
  · exact Nat.digits_lt_base hb (List.mem_reverse.mp hd)

theorem length_digitos {b k n : Nat} (hb : 1 < b) (hk : 0 < k) (hn : n < b ^ k) :
    (digitos b n).length ≤ k := by
  unfold digitos
  split
  · exact hk
  · rwa [List.length_reverse, Nat.digits_length_le_iff hb]

private theorem vuelta_sinSigno {radix : UInt8} (hradix : radix = 10 ∨ radix = 16) {n : Nat}
    (hn : n ≤ 2 ^ 64 - 1) {m : Machine} (hrcx : m.reg .rcx = radix.toUInt64)
    (hrax : m.reg .rax = UInt64.ofNat n) :
    ∃ m1 m2, run (divide true) none m = .next m1 ∧ Keeps usados m m1 ∧
      m1.reg .rax = UInt64.ofNat (n / radix.toNat) ∧ run (caracter radix) none m1 = .next m2 ∧
      Keeps [.rdx] m1 m2 ∧ (m2.reg .rdx).toUInt8 = cifraTexto (n % radix.toNat) := by
  have hb : 0 < radix.toNat := by rcases hradix with rfl | rfl <;> decide
  have hraxNat : (m.reg .rax).toNat = n := by
    rw [hrax, UInt64.toNat_ofNat_of_lt' (show n < 2 ^ 64 by omega)]
  obtain ⟨m1, hrun1, hkeep1, hq, hr⟩ :=
    run_divide hb.ne' (by rw [hrcx, UInt8.toNat_toUInt64]) hraxNat
  have hq' : m1.reg .rax = UInt64.ofNat (n / radix.toNat) := by rw [← hq, UInt64.ofNat_toNat]
  have hdig := Nat.mod_lt n hb
  rcases hradix with rfl | rfl
  · obtain ⟨m2, hrun2, hkeep2, hrdx⟩ := run_caracter_diez m1
    refine ⟨m1, m2, hrun1, hkeep1.mono (by decide), hq', hrun2, hkeep2, ?_⟩
    rw [hrdx]
    exact toUInt8_cifra hr hdig
  · obtain ⟨m2, hrun2, hkeep2, hrdx⟩ := run_caracter_dieciseis hdig hr
    exact ⟨m1, m2, hrun1, hkeep1.mono (by decide), hq', hrun2, hkeep2, hrdx⟩

/-- A number of one sign. -/
def conSigno (s : Int) (k : Nat) : UInt64 := ofSigned (s * k)

/-- The character of a digit of it. -/
def cifraConSigno (s : Int) (d : Nat) : UInt8 := (conSigno s d + 0x30).toUInt8

/-- One digit, with the sign of the number. -/
theorem vuelta_conSigno {s : Int} (hs : s = 1 ∨ s = -1) {k : Nat} (hk : Fits (s * k)) {m : Machine}
    (hrcx : m.reg .rcx = 10) (hrax : m.reg .rax = conSigno s k) :
    ∃ m1 m2, run (divide false) none m = .next m1 ∧ Keeps usados m m1 ∧
      m1.reg .rax = conSigno s (k / 10) ∧ run (caracter 10) none m1 = .next m2 ∧
      Keeps [.rdx] m1 m2 ∧ (m2.reg .rdx).toUInt8 = cifraConSigno s (k % 10) := by
  obtain ⟨m1, hrun1, hkeep1, hq, hr⟩ :=
    run_divide_signed hrcx (by rw [hrax, conSigno, signed_ofSigned hk])
  obtain ⟨m2, hrun2, hkeep2, hrdx⟩ := run_caracter_diez m1
  have hpos : (k : Int).tdiv 10 = (k / 10 : Nat) ∧ (k : Int).tmod 10 = (k % 10 : Nat) :=
    ⟨rfl, rfl⟩
  have hpartes : (s * k).tdiv 10 = s * (k / 10 : Nat) ∧ (s * k).tmod 10 = s * (k % 10 : Nat) := by
    rcases hs with rfl | rfl
    · simpa only [Int.one_mul] using hpos
    · rw [Int.neg_one_mul, Int.neg_tdiv, Int.neg_tmod, hpos.1, hpos.2, Int.neg_one_mul,
        Int.neg_one_mul]
      exact ⟨rfl, rfl⟩
  refine ⟨m1, m2, hrun1, hkeep1, ?_, hrun2, hkeep2, ?_⟩
  · rw [conSigno, ← hpartes.1, ← hq, ofSigned_signed]
  · rw [hrdx, cifraConSigno, conSigno, ← hpartes.2, ← hr, ofSigned_signed]

private theorem keeps_base (m : Machine) (v : UInt64) : Keeps [.rcx] m (m.set .rcx v) := by
  refine ⟨fun r hr ↦ ?_, rfl, rfl⟩
  simp at hr
  simp [hr]

/-- The registers that the digits use. -/
def gastadosDigitos : List Reg := [.rax, .rcx, .rdx, .rsi, .rdi, .r8, .r9]

/-- Without a sign, the digits of the number. -/
theorem reaches_emit_digits {radix : UInt8} (hradix : radix = 10 ∨ radix = 16)
    (hcode : (labels code).Nodup) (h : code = pre ++ (emit_digits radix true ++ post)) {n : Nat}
    (hescrito : Escrito m0 m t) (hcabe : (digitos radix.toNat n).length + t.length ≤ BUFFER)
    (hrax : (m.reg .rax).toNat = n) :
    ∃ m', Reaches sys code ⟨emit_digits radix true ++ post, m, out⟩ ⟨post, m', out⟩ ∧
      Escrito m0 m' (enBase radix.toNat n ++ t) ∧ ∀ r, r ∉ gastadosDigitos → m'.reg r = m.reg r :=
        by
  have hlt := (m.reg .rax).toNat_lt
  have hb : 1 < radix.toNat := by rcases hradix with rfl | rfl <;> decide
  have hkeep1 := keeps_base m radix.toUInt64
  have hcode1 : code = (pre ++ [Op.instr (.movImm .rcx radix.toUInt64)]) ++
      (.instr (.label .digitLoop) :: ((unDigito radix true).map Op.instr ++ post)) := by
    simp [h, emit_digits]
  have hcero : ∀ n ≤ 2 ^ 64 - 1, UInt64.ofNat n = 0 ↔ n = 0 := by
    intro n hn
    rw [← UInt64.toNat_inj, UInt64.toNat_ofNat_of_lt' (show n < 2 ^ 64 by omega)]
    rfl
  have hraxOf : (m.set .rcx radix.toUInt64).reg .rax = UInt64.ofNat n := by
    rw [hkeep1.reg _ (by decide), ← hrax, UInt64.ofNat_toNat]
  obtain ⟨m', hreach, hesc, hregs⟩ : ∃ m', Reaches sys code
      ⟨(unDigito radix true).map Op.instr ++ post, m.set .rcx radix.toUInt64, out⟩ ⟨post, m', out⟩ ∧
      Escrito m0 m' (enBase radix.toNat n ++ t) ∧
      ∀ r, r ∉ [Reg.rax, .rdx, .rsi, .rdi, .r8, .r9] →
        m'.reg r = (m.set .rcx radix.toUInt64).reg r :=
    reaches_digitos hb hcode hcode1 (fun n hn m ↦ vuelta_sinSigno hradix hn) hcero (by omega)
      (hescrito.keeps hkeep1 (by decide)) hcabe (by simp) hraxOf
  refine ⟨m', .step rfl (.step rfl hreach), hesc, fun r hr ↦ ?_⟩
  simp [gastadosDigitos] at hr
  rw [hregs r (by simp [hr]), hkeep1.reg r (by simp [hr])]

/-- With a sign, that of the number on every digit. -/
theorem reaches_emit_digits_signed {s : Int} (hs : s = 1 ∨ s = -1)
    (hcode : (labels code).Nodup) (h : code = pre ++ (emit_digits 10 false ++ post)) {n : Nat}
    (hescrito : Escrito m0 m t) (hcabe : (digitos 10 n).length + t.length ≤ BUFFER)
    (hrax : signed (m.reg .rax) = s * n) :
    ∃ m', Reaches sys code ⟨emit_digits 10 false ++ post, m, out⟩ ⟨post, m', out⟩ ∧
      Escrito m0 m' ((digitos 10 n).map (cifraConSigno s) ++ t) ∧
      ∀ r, r ∉ gastadosDigitos → m'.reg r = m.reg r := by
  have hmenor : ∀ k ≤ n, Fits (s * k) := by
    have hfits := hrax ▸ fits_signed (m.reg .rax)
    intro k hk
    unfold Fits at *
    rcases hs with rfl | rfl <;> omega
  have hkeep1 := keeps_base m 10
  have hcode1 : code = (pre ++ [Op.instr (.movImm .rcx 10)]) ++
      (.instr (.label .digitLoop) :: ((unDigito 10 false).map Op.instr ++ post)) := by
    simp [h, emit_digits]
  have hcero : ∀ k ≤ n, conSigno s k = 0 ↔ k = 0 := by
    intro k hk
    rw [← signed_eq_zero, conSigno, signed_ofSigned (hmenor k hk)]
    rcases hs with rfl | rfl <;> omega
  have hraxOf : (m.set .rcx 10).reg .rax = conSigno s n := by
    rw [hkeep1.reg _ (by decide), conSigno, ← hrax, ofSigned_signed]
  obtain ⟨m', hreach, hesc, hregs⟩ : ∃ m', Reaches sys code
      ⟨(unDigito 10 false).map Op.instr ++ post, m.set .rcx 10, out⟩ ⟨post, m', out⟩ ∧
      Escrito m0 m' ((digitos 10 n).map (cifraConSigno s) ++ t) ∧
      ∀ r, r ∉ [Reg.rax, .rdx, .rsi, .rdi, .r8, .r9] → m'.reg r = (m.set .rcx 10).reg r :=
    reaches_digitos (by decide) hcode hcode1
      (fun k hk m ↦ vuelta_conSigno hs (hmenor k hk)) hcero le_rfl
      (hescrito.keeps hkeep1 (by decide)) hcabe (by simp) hraxOf
  refine ⟨m', .step rfl (.step rfl hreach), hesc, fun r hr ↦ ?_⟩
  simp [gastadosDigitos] at hr
  rw [hregs r (by simp [hr]), hkeep1.reg r (by simp [hr])]

/-! ### The text that is written -/

/-- What `formatear_i64` writes of a number: the least one stays negative while its digits are taken
out of it. -/
def textoI64 (v : Int) : Bytes :=
  menos v ++ (digitos 10 v.natAbs).map (cifraConSigno (if v = -2 ^ 63 then -1 else 1))

private theorem run_principio (m : Machine) :
    ∃ m', run (prepara ++ apartaSigno) none m = .next m' ∧ Escrito m m' [] ∧
      (m'.reg .rax).toNat = (signed (m.reg .rax)).natAbs ∧
      m'.reg .r10 = if signed (m.reg .rax) < 0 then 1 else 0 := by
  obtain ⟨m1, hrun1, h1, hregs1⟩ := run_prepara m
  obtain ⟨m2, hrun2, hkeep2, hrax2, hr10⟩ := run_apartaSigno m1
  have hrax1 : m1.reg .rax = m.reg .rax := hregs1 _ (by decide)
  rw [hrax1] at hrax2 hr10
  refine ⟨m2, ?_, h1.keeps hkeep2 (by decide), hrax2, hr10⟩
  rw [run_append_of_next hrun1, hrun2]

theorem reaches_formatear_i64 (hcode : (labels code).Nodup)
    (h : code = pre ++ (formatear_i64 ++ post)) :
    ∃ m', Reaches sys code ⟨formatear_i64 ++ post, m, out⟩ ⟨post, m', out⟩ ∧
      Escrito m m' (textoI64 (signed (m.reg .rax))) := by
  have hv := fits_signed (m.reg .rax)
  unfold Fits at hv
  generalize hvdef : signed (m.reg .rax) = v at hv ⊢
  obtain ⟨m1, hrun1, h1, hrax1, hr10⟩ := run_principio m
  rw [hvdef] at hrax1 hr10
  obtain ⟨s, hs⟩ : ∃ s : Int, (if v = -2 ^ 63 then -1 else 1) = s := ⟨_, rfl⟩
  have hs1 : s = 1 ∨ s = -1 := by
    rw [← hs]
    split
    · exact .inr rfl
    · exact .inl rfl
  have hrax1s : signed (m1.reg .rax) = s * v.natAbs := by
    rw [← hs]
    split
    next hmin =>
      have hpos := toNat_of_nonneg (w := m1.reg .rax)
      have hneg := toNat_of_neg (w := m1.reg .rax)
      have hfits := fits_signed (m1.reg .rax)
      unfold Fits at hfits
      omega
    next hno =>
      rw [signed_of_toNat_lt (by omega), hrax1]
      omega
  have hlen : (digitos 10 v.natAbs).length ≤ 19 :=
    length_digitos (by decide) (by decide) (by omega)
  have hb : BUFFER = 32 := rfl
  have hinicio : formatear_i64 ++ post = (prepara ++ apartaSigno).map Op.instr ++
      (emit_digits 10 false ++ (ponSigno.map Op.instr ++ post)) := by
    simp [formatear_i64]
  have hcode1 : code = pre ++ ((prepara ++ apartaSigno).map Op.instr ++
      (emit_digits 10 false ++ (ponSigno.map Op.instr ++ post))) := by
    rw [h, hinicio]
  have hcode2 : code = (pre ++ (prepara ++ apartaSigno).map Op.instr) ++
      (emit_digits 10 false ++ (ponSigno.map Op.instr ++ post)) := by
    rw [hcode1, List.append_assoc]
  have hcode3 : code = (pre ++ ((prepara ++ apartaSigno).map Op.instr ++ emit_digits 10 false)) ++
      (ponSigno.map Op.instr ++ post) := by
    simp [hcode1]
  obtain ⟨m2, hreach2, h2, hregs2⟩ : ∃ m2, Reaches sys code
      ⟨emit_digits 10 false ++ (ponSigno.map Op.instr ++ post), m1, out⟩
      ⟨ponSigno.map Op.instr ++ post, m2, out⟩ ∧
      Escrito m m2 ((digitos 10 v.natAbs).map (cifraConSigno s) ++ []) ∧
      ∀ r, r ∉ gastadosDigitos → m2.reg r = m1.reg r :=
    reaches_emit_digits_signed hs1 hcode hcode2 h1 (by rw [List.length_nil]; omega) hrax1s
  rw [List.append_nil] at h2
  obtain ⟨m3, hrun3, h3⟩ := run_ponSigno h2 (by rw [List.length_map]; omega)
    ((hregs2 _ (by decide)).trans hr10)
  refine ⟨m3, ?_, by rw [textoI64, hs]; exact h3⟩
  rw [hinicio]
  exact (reaches_next hcode hcode1 hrun1).trans (hreach2.trans (reaches_next hcode hcode3 hrun3))

private theorem cifraConSigno_uno {d : Nat} (hd : d < 10) : cifraConSigno 1 d = cifraTexto d := by
  rw [cifraConSigno, conSigno, Int.one_mul, ofSigned_natCast]
  exact toUInt8_cifra (UInt64.toNat_ofNat_of_lt' (show d < 2 ^ 64 by omega)) hd

/-- All numbers but the least one are written as they are. -/
theorem textoI64_eq {v : Int} (hv : v ≠ -2 ^ 63) : textoI64 v = decimal v 0 := by
  rw [textoI64, if_neg hv, decimal, Nat.pow_zero, Nat.div_one, fraccion, if_pos rfl,
    List.append_nil,
    enBase]
  congr 1
  exact List.map_congr_left fun d hd ↦ cifraConSigno_uno (digitos_lt (by decide) hd)

/-- The last of the digits of a fraction, and those before it. -/
theorem cifras_succ (f n : Nat) :
    (List.range (n + 1)).map (fun i ↦ cifraTexto (cifra f (n + 1 - 1 - i))) =
      (List.range n).map (fun i ↦ cifraTexto (cifra (f / 10) (n - 1 - i))) ++
        [cifraTexto (f % 10)] := by
  rw [List.range_succ, List.map_append, List.map_singleton, Nat.add_sub_cancel, Nat.sub_self,
    cifra_zero]
  congr 1
  apply List.map_congr_left
  intro i hi
  have hi := List.mem_range.mp hi
  have hexp : n - i = 1 + (n - 1 - i) := by omega
  rw [hexp, ← cifra_div, Nat.pow_one]

/-- The digits of the fraction go before the text. -/
theorem run_decimales {m0 m : Machine} {t : Bytes} {n f : Nat} (h : Escrito m0 m t)
    (hcabe : n + t.length ≤ BUFFER) (hrcx : m.reg .rcx = 10) (hrax : (m.reg .rax).toNat = f) :
    ∃ m', run (decimales n) none m = .next m' ∧
      Escrito m0 m' ((List.range n).map (fun i ↦ cifraTexto (cifra f (n - 1 - i))) ++ t) ∧
      ∀ r, r ∉ [Reg.rax, .rdx, .r8, .r9] → m'.reg r = m.reg r := by
  induction n generalizing m t f with
  | zero => exact ⟨m, rfl, h, fun _ _ ↦ rfl⟩
  | succ n ih =>
    obtain ⟨m1, hrun1, hkeep1, hq, hr⟩ := run_divide (by decide) (b := 10) (by rw [hrcx]; rfl) hrax
    obtain ⟨m2, hrun2, hkeep2, hrdx2⟩ := run_caracter_diez m1
    have hcar : (m2.reg .rdx).toUInt8 = cifraTexto (f % 10) := by
      rw [hrdx2]
      exact toUInt8_cifra hr (Nat.mod_lt f (by decide))
    obtain ⟨m3, hrun3, h3, hregs3⟩ :=
      run_pon ((h.keeps hkeep1 (by decide)).keeps hkeep2 (by decide)) (show t.length < BUFFER by
        omega)
    rw [hcar] at h3
    have hkeep : ∀ r, r ∉ [Reg.rax, .rdx, .r8, .r9] → m3.reg r = m.reg r := by
      intro r hr
      simp at hr
      rw [hregs3 r (by simp [hr]), hkeep2.reg r (by simp [hr]), hkeep1.reg r (by simp [hr])]
    have hrax3 : (m3.reg .rax).toNat = f / 10 := by
      rw [hregs3 _ (by decide), hkeep2.reg _ (by decide), hq]
    obtain ⟨m4, hrun4, h4, hregs4⟩ :=
      ih h3 (by rw [List.length_cons]; omega) ((hkeep _ (by decide)).trans hrcx) hrax3
    refine ⟨m4, ?_, ?_, fun r hr ↦ (hregs4 r hr).trans (hkeep r hr)⟩
    · unfold decimales
      rw [run_append_of_next hrun1]
      exact (run_append_of_next hrun2).trans ((run_append_of_next hrun3).trans hrun4)
    · rw [cifras_succ, List.append_assoc]
      exact h4

/-- The integer part and the fraction. -/
theorem run_parte {m : Machine} {escala n : Nat} (hs : escala ≤ 18) (hrax : (m.reg .rax).toNat = n)
  :
    ∃ m', run (parte escala) none m = .next m' ∧ Keeps [.rax, .rcx, .rdx, .r11] m m' ∧
      (m'.reg .rax).toNat = n % 10 ^ escala ∧ (m'.reg .r11).toNat = n / 10 ^ escala ∧
      m'.reg .rcx = 10 := by
  have hpow : 10 ^ escala ≤ 10 ^ 18 := Nat.pow_le_pow_right (by decide) hs
  have hpos := Nat.pow_pos (a := 10) (n := escala) (by decide)
  let m1 := m.set .rcx (UInt64.ofNat (10 ^ escala))
  have hkeep1 := keeps_base m (UInt64.ofNat (10 ^ escala))
  have hrcx1 : (m1.reg .rcx).toNat = 10 ^ escala := by
    simp only [m1, Machine.set_reg, if_true]
    exact UInt64.toNat_ofNat_of_lt' (show 10 ^ escala < 2 ^ 64 by omega)
  obtain ⟨m2, hrun2, hkeep2, hq, hr⟩ :=
    run_divide hpos.ne' hrcx1 ((congrArg _ (hkeep1.reg .rax (by decide))).trans hrax)
  have hcod : parte escala = [Instr.movImm .rcx (UInt64.ofNat (10 ^ escala))] ++ (divide true ++
      [Instr.mov .r11 .rax, .mov .rax .rdx, .movImm .rcx 10]) := rfl
  have hrun1 : run ([.movImm .rcx (UInt64.ofNat (10 ^ escala))] : List (Instr Rotulo)) none m =
      .next m1 := rfl
  rw [hcod, run_append_of_next hrun1, run_append_of_next hrun2]
  simp only [run, step, Machine.set_reg, reduceCtorEq, if_true, if_false, Outcome.next.injEq,
    exists_eq_left', and_true]
  refine ⟨⟨fun r hr ↦ ?_, hkeep2.mem, hkeep2.stack⟩, hr, hq⟩
  simp at hr
  simp [hr, hkeep2.reg r, m1]

/-- With a scale, every number is written with its point. -/
theorem reaches_formatear_decimal_scaled {escala : Nat} (h0 : escala ≠ 0) (hs : escala ≤ 18)
    (hcode : (labels code).Nodup) (h : code = pre ++ (formatear_decimal_scaled escala ++ post)) :
    ∃ m', Reaches sys code ⟨formatear_decimal_scaled escala ++ post, m, out⟩ ⟨post, m', out⟩ ∧
      Escrito m m' (decimal (signed (m.reg .rax)) escala) := by
  have hv := fits_signed (m.reg .rax)
  unfold Fits at hv
  have hb : BUFFER = 32 := rfl
  generalize hvdef : signed (m.reg .rax) = v at hv ⊢
  let inicio : List (Instr Rotulo) := prepara ++ (apartaSigno ++ (parte escala ++
    (decimales escala ++ (ponImm 0x2E ++ [Instr.mov .rax .r11]))))
  obtain ⟨m1, hrun1, h1, hrax1, hr10⟩ := run_principio m
  rw [hvdef] at hrax1 hr10
  obtain ⟨m2, hrun2, hkeep2, hrax2, hr11, hrcx2⟩ := run_parte hs hrax1
  obtain ⟨m3, hrun3, h3, hregs3⟩ :=
    run_decimales (n := escala) (h1.keeps hkeep2 (by decide)) (by rw [List.length_nil]; omega) hrcx2
      hrax2
  obtain ⟨m4, hrun4, h4, hregs4⟩ := run_ponImm h3 (by simp; omega) 0x2E
  let m5 := m4.set .rax (m4.reg .r11)
  have hkeep5 : Keeps [.rax] m4 m5 := Keeps.refl.set (by decide)
  have hrun5 : run inicio none m = .next m5 := by
    simp only [inicio]
    rw [← List.append_assoc, run_append_of_next hrun1, run_append_of_next hrun2,
      run_append_of_next hrun3, run_append_of_next hrun4]
    rfl
  have h5 : Escrito m m5 (fraccion escala (v.natAbs % 10 ^ escala)) := by
    rw [fraccion, if_neg h0]
    rw [List.append_nil] at h4
    exact h4.keeps hkeep5 (by decide)
  have hrax5 : (m5.reg .rax).toNat = v.natAbs / 10 ^ escala := by
    have hmov : m5.reg .rax = m4.reg .r11 := by simp [m5]
    rw [hmov, hregs4 _ (by decide), hregs3 _ (by decide), hr11]
  have hr10' : m5.reg .r10 = if v < 0 then 1 else 0 := by
    rw [hkeep5.reg _ (by decide), hregs4 _ (by decide), hregs3 _ (by decide),
      hkeep2.reg _ (by decide), hr10]
  have hlenF : (fraccion escala (v.natAbs % 10 ^ escala)).length = escala + 1 := by
    simp [fraccion, h0]
  have hlen : (digitos 10 (v.natAbs / 10 ^ escala)).length ≤ 19 - escala := by
    apply length_digitos (by decide) (by omega)
    rw [Nat.div_lt_iff_lt_mul (Nat.pow_pos (by decide)), ← Nat.pow_add, Nat.sub_add_cancel (by
      omega)]
    omega
  have hcabe : (digitos 10 (v.natAbs / 10 ^ escala)).length +
      (fraccion escala (v.natAbs % 10 ^ escala)).length ≤ BUFFER := by
    rw [hlenF]
    omega
  have hinicio : formatear_decimal_scaled escala ++ post = inicio.map Op.instr ++
      (emit_digits 10 true ++ (ponSigno.map Op.instr ++ post)) := by
    simp [formatear_decimal_scaled, h0, inicio]
  have hcode1 : code = pre ++ (inicio.map Op.instr ++
      (emit_digits 10 true ++ (ponSigno.map Op.instr ++ post))) := by
    rw [h, hinicio]
  have hcode2 : code = (pre ++ inicio.map Op.instr) ++
      (emit_digits 10 true ++ (ponSigno.map Op.instr ++ post)) := by
    rw [hcode1, List.append_assoc]
  have hcode3 : code = (pre ++ (inicio.map Op.instr ++ emit_digits 10 true)) ++
      (ponSigno.map Op.instr ++ post) := by
    simp [hcode1]
  obtain ⟨m6, hreach6, h6, hregs6⟩ : ∃ m6, Reaches sys code
      ⟨emit_digits 10 true ++ (ponSigno.map Op.instr ++ post), m5, out⟩
      ⟨ponSigno.map Op.instr ++ post, m6, out⟩ ∧
      Escrito m m6 (enBase 10 (v.natAbs / 10 ^ escala) ++
        fraccion escala (v.natAbs % 10 ^ escala)) ∧
      ∀ r, r ∉ gastadosDigitos → m6.reg r = m5.reg r :=
    reaches_emit_digits (.inl rfl) hcode hcode2 h5 hcabe hrax5
  obtain ⟨m7, hrun7, h7⟩ := run_ponSigno h6
    (by rw [List.length_append, enBase, List.length_map, hlenF]; omega)
    ((hregs6 _ (by decide)).trans hr10')
  refine ⟨m7, ?_, h7⟩
  rw [hinicio]
  exact (reaches_next hcode hcode1 hrun5).trans (hreach6.trans (reaches_next hcode hcode3 hrun7))

end BmoX.Lower.Fmt
