import BmoX.Base.Bits
import BmoX.Base.Bytes
import BmoX.Base.X86Loop

/-!
# The console

`toolchain/forge/bmo-lower/src/console.rs`. A text goes to the kernel in words of eight bytes, and
the kernel shows those before the first zero.
-/

namespace BmoX.Lower

open BmoX.Base BmoX.Base.X86

/-- The places that the code jumps to, here and where numbers are written and read. -/
inductive Rotulo
  | loopTop | done | haveN | byteLoop
  | nonNegative | digitLoop | isDecimalDigit | stored | noSign
  | top | enEntero | esMenos | esPunto | fin | relleno | yaEsta | positivo
  deriving DecidableEq

abbrev Programa := List (Op Rotulo)

def NR_INVOKE : UInt64 := 0

def CURRENT_TASK : UInt64 := 0xFFFFFFFFFFFFFFFE

def TASK_OP_CONSOLE_WRITE : UInt64 := 0x06

/-- What the kernel does at a call. It leaves what it likes in the registers of the answer and in
those of the instruction, and keeps the others; `op_consola.rs:31–38`. -/
def consola (basura : Machine → Reg → UInt64) (m : Machine) : Machine × Bytes :=
  ({ m with
      reg := fun r ↦ if r ∈ [.rax, .rcx, .rdx, .r11] then basura m r else m.reg r
      flags := none },
    if m.reg .rax = NR_INVOKE ∧ m.reg .rdi = CURRENT_TASK ∧
      m.reg .rsi = TASK_OP_CONSOLE_WRITE
    then (u64Le (m.reg .rdx)).takeWhile (· ≠ 0) else [])

/-- How many bytes go in the next word. -/
def trozo : List (Instr Rotulo) :=
  [.test .r9 .r9, .jcc .e .done, .mov .rcx .r9, .cmpImm .rcx 8, .jcc .be .haveN, .movImm .rcx 8,
    .label .haveN, .zero .rdx, .mov .rax .rcx]

/-- One byte into the word. -/
def unByte : List (Instr Rotulo) :=
  [.dec .rax, .shl .rdx 8, .loadByteIdx .r10 .r8 .rax, .or .rdx .r10, .test .rax .rax]

/-- The bytes of the word, from the last one on. -/
def empaqueta : List (Instr Rotulo) := unByte ++ [Instr.jcc .ne Rotulo.byteLoop]

/-- The text without what goes, and the number of the call. -/
def avanza : List (Instr Rotulo) := [.add .r8 .rcx, .sub .r9 .rcx, .zero .rax]

/-- A word of the text, and the next one. -/
def vuelta : Programa :=
  trozo.map Op.instr ++ (.instr (.label .byteLoop) :: (empaqueta.map Op.instr ++
    (avanza.map Op.instr ++ [Op.syscall, .instr (.jmp .loopTop), .instr (.label .done)])))

/-- The `r9` bytes at `r8` go to the console; `console.rs:105–149`. -/
def write_buffer : Programa :=
  [Op.instr (.movImm .rdi CURRENT_TASK), .instr (.movImm .rsi TASK_OP_CONSOLE_WRITE)] ++
    (.instr (.label .loopTop) :: vuelta)

/-! ### Bytes in memory -/

/-- The `n` bytes at a place, around the end of memory. -/
def bytesEn (mem : Memory) (p : UInt64) (n : Nat) : Bytes :=
  (List.range n).map fun i ↦ mem (p + UInt64.ofNat i).toNat

/-- The text of a machine. -/
def texto (m : Machine) : Bytes := bytesEn m.mem (m.reg .r8) (m.reg .r9).toNat

@[simp] theorem length_bytesEn (mem : Memory) (p : UInt64) (n : Nat) :
    (bytesEn mem p n).length = n := by
  simp [bytesEn]

theorem getElem_bytesEn {mem : Memory} {p : UInt64} {n i : Nat} (h : i < (bytesEn mem p n).length) :
    (bytesEn mem p n)[i] = mem (p + UInt64.ofNat i).toNat := by
  simp [bytesEn]

theorem bytesEn_add (mem : Memory) (p : UInt64) (a b : Nat) :
    bytesEn mem p (a + b) = bytesEn mem p a ++ bytesEn mem (p + UInt64.ofNat a) b := by
  simp only [bytesEn, List.range_add, List.map_append, List.map_map]
  congr 1
  apply List.map_congr_left
  intro i _
  simp only [Function.comp_apply, UInt64.ofNat_add, UInt64.add_assoc]

/-- A word of bytes that are not zero shows them. -/
theorem takeWhile_leBytes {b : Bytes} {w : Nat} (hb : ∀ x ∈ b, x ≠ 0) (hw : b.length ≤ w) :
    (leBytes w (leNat b)).takeWhile (· ≠ 0) = b := by
  induction b generalizing w with
  | nil =>
    cases w with
    | zero => rfl
    | succ w => simp [leBytes, leNat]
  | cons x b ih =>
    obtain ⟨hx, hb⟩ := List.forall_mem_cons.mp hb
    cases w with
    | zero => exact absurd hw (Nat.not_succ_le_zero _)
    | succ w =>
      have hxlt := x.toNat_lt
      have hbyte : UInt8.ofNat (leNat (x :: b)) = x := by
        rw [← UInt8.toNat_inj, leNat, UInt8.toNat_ofNat']
        omega
      have hdiv : leNat (x :: b) / 256 = leNat b := by
        rw [leNat]
        omega
      rw [leBytes, hbyte, hdiv, List.takeWhile_cons_of_pos (by simpa using hx),
        ih hb (Nat.le_of_succ_le_succ hw)]

theorem leNat_lt (b : Bytes) : leNat b < 256 ^ b.length := by
  induction b with
  | nil => decide
  | cons x b ih =>
    have hx := x.toNat_lt
    rw [leNat, List.length_cons, Nat.pow_succ']
    omega

theorem leNat_drop {b : Bytes} {k : Nat} (hk : k < b.length) :
    leNat (b.drop k) = leNat (b.drop (k + 1)) * 256 + b[k].toNat := by
  rw [List.drop_eq_getElem_cons hk, leNat]
  omega

/-! ### What the code shows -/

variable (basura : Machine → Reg → UInt64) (out : Bytes) {code pre post : Programa} {m : Machine}

private theorem run_unByte (m : Machine) :
    ∃ m', run unByte none m = .next m' ∧ Keeps [.rax, .rdx, .r10] m m' ∧
      m'.flags = some (testFlags (m.reg .rax - 1)) ∧ m'.reg .rax = m.reg .rax - 1 ∧
      m'.reg .rdx = m.reg .rdx <<< 8 ||| (m.mem (m.reg .r8 + (m.reg .rax - 1)).toNat).toUInt64 := by
  simp only [unByte, run, step, Machine.set_reg, Machine.setF_reg, reduceCtorEq, if_true, if_false,
    UInt64.and_self, Outcome.next.injEq, exists_eq_left']
  refine ⟨⟨fun r hr ↦ ?_, rfl, rfl⟩, trivial, trivial, rfl⟩
  simp at hr
  simp [hr]

private theorem run_empaqueta (m : Machine) :
    ∃ m', run empaqueta none m =
        (if m.reg .rax - 1 = 0 then .next m' else .jump .byteLoop m') ∧
      Keeps [.rax, .rdx, .r10] m m' ∧ m'.reg .rax = m.reg .rax - 1 ∧
      m'.reg .rdx = m.reg .rdx <<< 8 ||| (m.mem (m.reg .r8 + (m.reg .rax - 1)).toNat).toUInt64 := by
  obtain ⟨m', hrun, hkeep, hflags, hregs⟩ := run_unByte m
  refine ⟨m', ?_, hkeep, hregs⟩
  unfold empaqueta
  rw [run_append_of_next hrun, run_jcc hflags, holds_testFlags_ne]
  by_cases h : m.reg .rax - 1 = 0 <;> simp [h]

/-- The word of the bytes of a piece. -/
theorem reaches_empaqueta (hcode : (labels code).Nodup)
    (h : code = pre ++ (.instr (.label .byteLoop) :: (empaqueta.map Op.instr ++ post)))
    {n : Nat} (hn : n ≠ 0) (hn8 : n ≤ 8) (hrax : m.reg .rax = UInt64.ofNat n)
    (hrdx : m.reg .rdx = 0) :
    ∃ m', Reaches (consola basura) code ⟨empaqueta.map Op.instr ++ post, m, out⟩ ⟨post, m', out⟩ ∧
      Keeps [.rax, .rdx, .r10] m m' ∧
      (m'.reg .rdx).toNat = leNat (bytesEn m.mem (m.reg .r8) n) := by
  let J : Nat → Machine → Prop := fun k m' ↦ Keeps [.rax, .rdx, .r10] m m' ∧ k < n ∧
    m'.reg .rax = UInt64.ofNat (k + 1) ∧
    (m'.reg .rdx).toNat = leNat ((bytesEn m.mem (m.reg .r8) n).drop (k + 1))
  have hlen := length_bytesEn m.mem (m.reg .r8) n
  have hvuelta : ∀ k m', J k m' →
      (∃ k' < k, ∃ m'', run empaqueta none m' = .jump .byteLoop m'' ∧ J k' m'') ∨
      ∃ js m'', exit code post (run empaqueta none m') = some (js, m'') ∧ js = post ∧
        Keeps [.rax, .rdx, .r10] m m'' ∧
        (m''.reg .rdx).toNat = leNat (bytesEn m.mem (m.reg .r8) n) := by
    rintro k m' ⟨hkeep, hk, hrax', hrdx'⟩
    obtain ⟨m'', hrun, hkeep', hrax'', hword⟩ := run_empaqueta m'
    have hmenos : m'.reg .rax - 1 = UInt64.ofNat k := by
      rw [hrax', UInt64.ofNat_add]
      exact UInt64.add_sub_cancel _ _
    have hlt : leNat ((bytesEn m.mem (m.reg .r8) n).drop (k + 1)) < 256 ^ 7 := by
      have hdrop := leNat_lt ((bytesEn m.mem (m.reg .r8) n).drop (k + 1))
      have hpow : 256 ^ (n - (k + 1)) ≤ 256 ^ 7 := Nat.pow_le_pow_right (by decide) (by omega)
      rw [List.length_drop, hlen] at hdrop
      omega
    have hkn : k < (bytesEn m.mem (m.reg .r8) n).length := by omega
    have hbyte : m'.mem (m'.reg .r8 + (m'.reg .rax - 1)).toNat =
        (bytesEn m.mem (m.reg .r8) n)[k] := by
      rw [getElem_bytesEn, hkeep.mem, hkeep.reg _ (by decide), hmenos]
    have hrdx'' : (m''.reg .rdx).toNat = leNat ((bytesEn m.mem (m.reg .r8) n).drop k) := by
      rw [hword, hbyte, leNat_drop hkn, toNat_shiftLeft_or (by decide), hrdx']
      · rfl
      · rw [hrdx']
        change _ * 256 < 2 ^ 64
        omega
      · exact UInt8.toNat_lt _
    rw [hmenos] at hrun
    cases k with
    | zero =>
      rw [if_pos (show UInt64.ofNat 0 = 0 from rfl)] at hrun
      exact .inr ⟨post, m'', by rw [hrun, exit], rfl, hkeep.trans hkeep', hrdx''⟩
    | succ k =>
      have hno : UInt64.ofNat (k + 1) ≠ 0 := by
        rw [ne_eq, ← UInt64.toNat_inj, UInt64.toNat_ofNat_of_lt' (show k + 1 < 2 ^ 64 by omega)]
        exact Nat.succ_ne_zero k
      rw [if_neg hno] at hrun
      exact .inl ⟨k, Nat.lt_succ_self k, m'', hrun, hkeep.trans hkeep', by omega,
        hrax''.trans hmenos, hrdx''⟩
  have hJ : J (n - 1) m := by
    refine ⟨.refl, by omega, ?_, ?_⟩
    · rw [hrax, Nat.sub_add_cancel (by omega)]
    · rw [hrdx, Nat.sub_add_cancel (by omega), List.drop_of_length_le hlen.le]
      rfl
  have hfin : ∃ js m', Reaches (consola basura) code ⟨empaqueta.map Op.instr ++ post, m, out⟩
      ⟨js, m', out⟩ ∧ js = post ∧ Keeps [.rax, .rdx, .r10] m m' ∧
      (m'.reg .rdx).toNat = leNat (bytesEn m.mem (m.reg .r8) n) :=
    reaches_loop hcode h hvuelta hJ
  obtain ⟨_, m', hreach, rfl, hm'⟩ := hfin
  exact ⟨m', hreach, hm'⟩

private theorem run_trozo_nada (h : m.reg .r9 = 0) :
    ∃ m', run trozo none m = .jump .done m' ∧ Keeps [] m m' := by
  simp only [trozo, run, step, UInt64.and_self, holds_testFlags_e, h, decide_true, if_true,
    Instr.is,
    reduceCtorEq, decide_false, Bool.false_eq_true, if_false, Outcome.jump.injEq, true_and,
    exists_eq_left']
  exact ⟨fun _ _ ↦ rfl, rfl, rfl⟩

private theorem run_trozo (h : m.reg .r9 ≠ 0) :
    ∃ m', run trozo none m = .next m' ∧ Keeps [.rax, .rcx, .rdx] m m' ∧
      m'.reg .rcx = UInt64.ofNat (min (m.reg .r9).toNat 8) ∧ m'.reg .rax = m'.reg .rcx ∧
      m'.reg .rdx = 0 := by
  have hbe : Cond.holds (cmpFlags (m.reg .r9) 8) .be = decide ((m.reg .r9).toNat ≤ 8) :=
    holds_cmpFlags_be ..
  by_cases h8 : (m.reg .r9).toNat ≤ 8
  · simp only [trozo, run, step, UInt64.and_self, holds_testFlags_e, hbe, h, h8, decide_true,
      decide_false,
      Bool.false_eq_true, if_true, if_false, Instr.is, Machine.set_reg, Machine.setF_reg,
      reduceCtorEq, Outcome.next.injEq, exists_eq_left', Nat.min_eq_left h8]
    refine ⟨⟨fun r hr ↦ ?_, rfl, rfl⟩, ?_, trivial, trivial⟩
    · simp at hr
      simp [hr]
    · exact UInt64.ofNat_toNat.symm
  · simp only [trozo, run, step, UInt64.and_self, holds_testFlags_e, hbe, h, h8, decide_false,
      Bool.false_eq_true, if_true, if_false, Machine.set_reg, Machine.setF_reg,
      reduceCtorEq, Outcome.next.injEq, exists_eq_left', Nat.min_eq_right (Nat.le_of_not_le h8)]
    refine ⟨⟨fun r hr ↦ ?_, rfl, rfl⟩, rfl, trivial, trivial⟩
    simp at hr
    simp [hr]

/-- The registers that the console uses. -/
def gastadosConsola : List Reg := [.rax, .rcx, .rdx, .rdi, .rsi, .r8, .r9, .r10, .r11]

/-- A word of the text is shown. -/
theorem reaches_vuelta (hcode : (labels code).Nodup)
    (h : code = pre ++ (.instr (.label .loopTop) :: (vuelta ++ post))) (h9 : m.reg .r9 ≠ 0)
    (hrdi : m.reg .rdi = CURRENT_TASK) (hrsi : m.reg .rsi = TASK_OP_CONSOLE_WRITE)
    (hnul : ∀ x ∈ texto m, x ≠ 0) :
    ∃ m', Reaches (consola basura) code ⟨vuelta ++ post, m, out⟩
        ⟨vuelta ++ post, m', out ++ (texto m).take 8⟩ ∧
      Keeps [.rax, .rcx, .rdx, .r8, .r9, .r10, .r11] m m' ∧
      texto m' = (texto m).drop 8 := by
  have hlt := (m.reg .r9).toNat_lt
  have h9' : (m.reg .r9).toNat ≠ 0 := fun h0 ↦ h9 (UInt64.toNat_inj.mp h0)
  obtain ⟨n, hn⟩ : ∃ n, min (m.reg .r9).toNat 8 = n := ⟨_, rfl⟩
  obtain ⟨m1, hrun1, hkeep1, hrcx1, hrax1, hrdx1⟩ := run_trozo h9
  rw [hn] at hrcx1
  let resto : Programa := .syscall :: .instr (.jmp .loopTop) :: .instr (.label .done) :: post
  have hcode1 : code = (pre ++ [Op.instr (.label .loopTop)]) ++ (trozo.map Op.instr ++
      (.instr (.label .byteLoop) :: (empaqueta.map Op.instr ++ (avanza.map Op.instr ++ resto)))) := by
    simp [h, vuelta, resto]
  have hcode2 : code = (pre ++ (.instr (.label .loopTop) :: trozo.map Op.instr)) ++
      (.instr (.label .byteLoop) :: (empaqueta.map Op.instr ++ (avanza.map Op.instr ++ resto))) := by
    simp [h, vuelta, resto]
  have hcode3 : code = (pre ++ (.instr (.label .loopTop) :: trozo.map Op.instr ++
      .instr (.label .byteLoop) :: empaqueta.map Op.instr)) ++ (avanza.map Op.instr ++ resto) := by
    simp [h, vuelta, resto]
  have hstart : vuelta ++ post = trozo.map Op.instr ++ (.instr (.label .byteLoop) ::
      (empaqueta.map Op.instr ++ (avanza.map Op.instr ++ resto))) := by
    simp [vuelta, resto]
  obtain ⟨m2, hreach2, hkeep2, hrdx2⟩ :=
    reaches_empaqueta basura out hcode hcode2 (by omega) (by omega) (hrax1.trans hrcx1) hrdx1
  let m3 := ((m2.setF .r8 (m2.reg .r8 + m2.reg .rcx)).setF .r9 (m2.reg .r9 - m2.reg .rcx)).setF
    .rax 0
  have hkeep12 : Keeps [.rax, .rcx, .rdx, .r10] m m2 :=
    (hkeep1.mono (by decide)).trans (hkeep2.mono (by decide))
  have hkeep3 : Keeps [.rax, .r8, .r9] m2 m3 := by
    refine ⟨fun r hr ↦ ?_, rfl, rfl⟩
    simp at hr
    simp [m3, hr]
  have hkeep : Keeps [.rax, .rcx, .rdx, .r8, .r9, .r10] m m3 :=
    (hkeep12.mono (by decide)).trans (hkeep3.mono (by decide))
  have hpartes : texto m = bytesEn m.mem (m.reg .r8) n ++
      bytesEn m.mem (m.reg .r8 + UInt64.ofNat n) ((m.reg .r9).toNat - n) := by
    rw [← bytesEn_add, Nat.add_sub_cancel' (by omega)]
    rfl
  have htake : (texto m).take 8 = bytesEn m.mem (m.reg .r8) n := by
    by_cases h8 : n = 8
    · rw [hpartes, List.take_left' (by rw [length_bytesEn, h8])]
    · have hnada : (m.reg .r9).toNat - n = 0 := by omega
      rw [hpartes, hnada, List.take_of_length_le (by simp; omega)]
      exact List.append_nil _
  have hdrop : (texto m).drop 8 =
      bytesEn m.mem (m.reg .r8 + UInt64.ofNat n) ((m.reg .r9).toNat - n) := by
    by_cases h8 : n = 8
    · rw [hpartes, List.drop_left' (by rw [length_bytesEn, h8])]
    · have hnada : (m.reg .r9).toNat - n = 0 := by omega
      rw [hpartes, hnada, List.drop_of_length_le (by simp; omega)]
      rfl
  have hsale : (consola basura m3).2 = (texto m).take 8 := by
    have hpide : m3.reg .rax = NR_INVOKE ∧ m3.reg .rdi = CURRENT_TASK ∧
        m3.reg .rsi = TASK_OP_CONSOLE_WRITE := by
      refine ⟨rfl, ?_, ?_⟩
      · rw [hkeep.reg _ (by decide), hrdi]
      · rw [hkeep.reg _ (by decide), hrsi]
    have hrdx3 : (m3.reg .rdx).toNat = leNat ((texto m).take 8) := by
      rw [hkeep3.reg _ (by decide), hrdx2, htake, hkeep1.mem, hkeep1.reg _ (by decide)]
    have hlleno : ∀ x ∈ (texto m).take 8, x ≠ 0 := fun x hx ↦ hnul x (List.mem_of_mem_take hx)
    rw [consola, if_pos hpide, u64Le, hrdx3]
    exact takeWhile_leBytes hlleno (List.length_take_le 8 _)
  refine ⟨(consola basura m3).1, ?_, ⟨fun r hr ↦ ?_, hkeep.mem, hkeep.stack⟩, ?_⟩
  · rw [hstart, ← hsale]
    exact (reaches_next hcode hcode1 hrun1).trans (reaches_label.trans (hreach2.trans
      ((reaches_next hcode hcode3 rfl).trans
        (reaches_syscall.trans (reaches_jmp (hstart ▸ after_of_nodup hcode h))))))
  · simp at hr
    have hno : r ∉ [Reg.rax, .rcx, .rdx, .r11] := by simp [hr]
    exact (if_neg hno).trans (hkeep.reg r (by simp [hr]))
  · have hrcx : m2.reg .rcx = UInt64.ofNat n := by rw [hkeep2.reg _ (by decide), hrcx1]
    have hr8 : m3.reg .r8 = m.reg .r8 + UInt64.ofNat n := by
      rw [← hrcx, ← hkeep12.reg .r8 (by decide)]
      rfl
    have hr9 : (m3.reg .r9).toNat = (m.reg .r9).toNat - n := by
      have hle : UInt64.ofNat n ≤ m.reg .r9 := by
        rw [UInt64.le_iff_toNat_le, UInt64.toNat_ofNat_of_lt' (show n < 2 ^ 64 by omega)]
        omega
      have hsub : m3.reg .r9 = m.reg .r9 - UInt64.ofNat n := by
        rw [← hrcx, ← hkeep12.reg .r9 (by decide)]
        rfl
      rw [hsub, UInt64.toNat_sub_of_le _ _ hle,
        UInt64.toNat_ofNat_of_lt' (show n < 2 ^ 64 by omega)]
    rw [hdrop, ← hr8, ← hr9, ← hkeep.mem]
    rfl

/-- The text is shown, to its end. -/
theorem reaches_textoEntero (hcode : (labels code).Nodup)
    (h : code = pre ++ (.instr (.label .loopTop) :: (vuelta ++ post)))
    (hrdi : m.reg .rdi = CURRENT_TASK) (hrsi : m.reg .rsi = TASK_OP_CONSOLE_WRITE)
    (hnul : ∀ x ∈ texto m, x ≠ 0) :
    ∃ m', Reaches (consola basura) code ⟨vuelta ++ post, m, out⟩ ⟨post, m', out ++ texto m⟩ ∧
      Keeps [.rax, .rcx, .rdx, .r8, .r9, .r10, .r11] m m' := by
  obtain ⟨n, hn⟩ : ∃ n, (texto m).length = n := ⟨_, rfl⟩
  induction n using Nat.strong_induction_on generalizing m out with
  | h n ih =>
    by_cases h9 : m.reg .r9 = 0
    · obtain ⟨m', hrun, hkeep⟩ := run_trozo_nada h9
      have hnada : texto m = [] := by
        rw [texto, h9]
        rfl
      have hcode1 : code = (pre ++ [Op.instr (.label .loopTop)]) ++ (trozo.map Op.instr ++
          (vuelta.drop trozo.length ++ post)) := by
        simp [h, vuelta, trozo]
      have hdone : after .done code = some post := by
        have hfin : vuelta ++ post = vuelta.dropLast ++ .instr (.label .done) :: post := rfl
        rw [hfin, ← List.cons_append, ← List.append_assoc] at h
        exact after_of_nodup hcode h
      rw [hnada, List.append_nil]
      refine ⟨m', ?_, hkeep.mono (by simp)⟩
      exact reaches_jump hcode hcode1 hrun hdone
    · obtain ⟨m1, hreach1, hkeep1, htexto1⟩ := reaches_vuelta basura out hcode h h9 hrdi hrsi hnul
      have hmenos : (texto m1).length < n := by
        have h9' : (m.reg .r9).toNat ≠ 0 := fun h0 ↦ h9 (UInt64.toNat_inj.mp h0)
        have hlen : n = (m.reg .r9).toNat := by rw [← hn, texto, length_bytesEn]
        rw [htexto1, List.length_drop, hn]
        omega
      obtain ⟨m2, hreach2, hkeep2⟩ := ih _ hmenos (out ++ (texto m).take 8)
        ((hkeep1.reg _ (by decide)).trans hrdi) ((hkeep1.reg _ (by decide)).trans hrsi)
        (fun x hx ↦ hnul x (List.mem_of_mem_drop (htexto1 ▸ hx))) rfl
      rw [List.append_assoc, htexto1, List.take_append_drop] at hreach2
      exact ⟨m2, hreach1.trans hreach2, hkeep1.trans hkeep2⟩

/-- `write_buffer` shows the text. -/
theorem reaches_write_buffer (hcode : (labels code).Nodup) (h : code = pre ++ (write_buffer ++
  post))
    (hnul : ∀ x ∈ texto m, x ≠ 0) :
    ∃ m', Reaches (consola basura) code ⟨write_buffer ++ post, m, out⟩ ⟨post, m', out ++ texto m⟩ ∧
      Keeps gastadosConsola m m' := by
  let m1 := (m.set .rdi CURRENT_TASK).set .rsi TASK_OP_CONSOLE_WRITE
  have hkeep1 : Keeps [.rdi, .rsi] m m1 := (Keeps.refl.set (by decide)).set (by decide)
  have hcode1 : code = (pre ++ [Op.instr (.movImm .rdi CURRENT_TASK),
      .instr (.movImm .rsi TASK_OP_CONSOLE_WRITE)]) ++
      (.instr (.label .loopTop) :: (vuelta ++ post)) := by
    simp [h, write_buffer]
  have htexto : texto m1 = texto m := rfl
  obtain ⟨m2, hreach2, hkeep2⟩ :=
    reaches_textoEntero (m := m1) basura out hcode hcode1 rfl rfl (htexto ▸ hnul)
  refine ⟨m2, ?_, (hkeep1.mono (by decide)).trans (hkeep2.mono (by decide))⟩
  exact .step rfl (.step rfl (.step rfl hreach2))

end BmoX.Lower
