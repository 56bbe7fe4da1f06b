import BmoX.Base.Chunks
import BmoX.Base.Cut
import BmoX.Lower.Consola

/-!
# Texts known at compile time, and the end of the process

`toolchain/forge/bmo-lower/src/console.rs:45–84` and `task.rs`. A text goes to the console as
numbers in the code, eight bytes in each, and the bytes zero in it are left out. `exit` asks the
kernel to end the process, which does not go on.
-/

namespace BmoX.Lower

open BmoX.Base BmoX.Base.X86

variable {L : Type}

/-- The word of up to eight bytes; `console.rs:45–49`. -/
def pack (chunk : Bytes) : UInt64 := u64De (chunk ++ zeros (8 - chunk.length))

/-- A word of the text; `console.rs:79–83`. -/
def write_chunk (chunk : Bytes) : List (Op L) :=
  [.instr (.zero .rax), .instr (.movImm .rdx (pack chunk)), .syscall]

/-- `console.rs:70–84`. -/
def write_const_run (text : Bytes) : List (Op L) :=
  [Op.instr (.movImm .rdi CURRENT_TASK), .instr (.movImm .rsi TASK_OP_CONSOLE_WRITE)] ++
    (chunks 8 text).flatMap write_chunk

/-- `console.rs:60–68`. -/
def write_const (text : Bytes) : List (Op L) :=
  ((text.splitOn 0).filter (· ≠ [])).flatMap write_const_run

def TASK_OP_EXIT : UInt64 := 0x04

/-- `task.rs:13–22`. -/
def invoke_current_task (operation : UInt64) : List (Op L) :=
  [.instr (.movImm .rdi CURRENT_TASK), .instr (.movImm .rsi operation), .instr (.zero .rax),
    .syscall]

/-- `task.rs:30–34`; what comes after the call is where a process that it did not end would wait. -/
def exit (espera : L) : List (Op L) :=
  invoke_current_task TASK_OP_EXIT ++ [Op.instr (.label espera), .instr (.jmp espera)]

/-- The process is about to ask the kernel for its end. -/
def Sale (c : Conf L UInt8) : Prop :=
  ∃ p, c.rest = .syscall :: p ∧ c.machine.reg .rax = NR_INVOKE ∧
    c.machine.reg .rdi = CURRENT_TASK ∧ c.machine.reg .rsi = TASK_OP_EXIT

/-! ### What they show -/

private theorem leNat_append_zeros (b : Bytes) (n : Nat) : leNat (b ++ zeros n) = leNat b := by
  induction b with
  | nil =>
    induction n with
    | zero => rfl
    | succ n ih =>
      have hz : zeros (n + 1) = 0 :: zeros n := rfl
      rw [List.nil_append] at ih ⊢
      simp [hz, leNat, ih]
  | cons x b ih => rw [List.cons_append, leNat, leNat, ih]

private theorem flatten_splitOn (b : Bytes) : (b.splitOn 0).flatten = b.filter (· ≠ 0) := by
  induction b with
  | nil => rfl
  | cons x b ih =>
    rw [List.splitOn_cons_eq_if_modifyHead]
    by_cases hx : x = 0
    · rw [if_pos (by simpa using hx), List.flatten_cons, List.nil_append, ih,
        List.filter_cons_of_neg (by simpa using hx)]
    · rw [if_neg (by simpa using hx), List.filter_cons_of_pos (by simpa using hx), ← ih]
      cases h : b.splitOn 0 with
      | nil => exact absurd h (List.splitOn_ne_nil 0 b)
      | cons t ts => rfl

private theorem notMem_of_mem_splitOn {b t : Bytes} (ht : t ∈ b.splitOn 0) : ∀ x ∈ t, x ≠ 0 := by
  intro x hx
  have hmem : x ∈ (b.splitOn 0).flatten := List.mem_flatten.mpr ⟨t, ht, hx⟩
  rw [flatten_splitOn] at hmem
  simpa using (List.mem_filter.mp hmem).2

variable [DecidableEq L] (basura : Machine → Reg → UInt64) {p : List (Op L)} {m : Machine}
  (out : Bytes)

/-- The registers that a text of the code spends. -/
def gastadosTexto : List Reg := [.rax, .rcx, .rdx, .rdi, .rsi, .r11]

/-- A word is shown. -/
theorem leads_write_chunk {b : Bytes} (h8 : b.length ≤ 8) (hb : ∀ x ∈ b, x ≠ 0)
    (hrdi : m.reg .rdi = CURRENT_TASK) (hrsi : m.reg .rsi = TASK_OP_CONSOLE_WRITE) :
    ∃ m', Leads (consola basura) ⟨write_chunk b ++ p, m, out⟩ ⟨p, m', out ++ b⟩ ∧
      Keeps [.rax, .rcx, .rdx, .r11] m m' := by
  let m1 := (m.setF .rax 0).set .rdx (pack b)
  have hsale : (consola basura m1).2 = b := by
    have hpide : m1.reg .rax = NR_INVOKE ∧ m1.reg .rdi = CURRENT_TASK ∧
        m1.reg .rsi = TASK_OP_CONSOLE_WRITE := ⟨rfl, hrdi, hrsi⟩
    have hlt : leNat b < 2 ^ 64 := by
      have hlt := leNat_lt b
      have hpow : 256 ^ b.length ≤ 256 ^ 8 := Nat.pow_le_pow_right (by decide) h8
      omega
    have hrdx : (m1.reg .rdx).toNat = leNat b := by
      change (pack b).toNat = _
      rw [pack, u64De, leNat_append_zeros, UInt64.toNat_ofNat_of_lt' hlt]
    rw [consola, if_pos hpide, u64Le, hrdx]
    exact takeWhile_leBytes hb h8
  refine ⟨(consola basura m1).1, ?_, ⟨fun r hr ↦ ?_, rfl, rfl⟩⟩
  · have hend : Leads (consola basura) ⟨.syscall :: p, m1, out⟩
        ⟨p, (consola basura m1).1, out ++ b⟩ := by
      refine .step ?_ .refl
      simp only [ahead, hsale]
    exact .step rfl (.step rfl hend)
  · have hno : r ∉ [Reg.rax, .rcx, .rdx, .r11] := hr
    simp at hr
    simp [consola, m1, hr]

private theorem leads_chunks {cs : List Bytes} (h : ∀ b ∈ cs, b.length ≤ 8 ∧ ∀ x ∈ b, x ≠ 0)
    (hrdi : m.reg .rdi = CURRENT_TASK) (hrsi : m.reg .rsi = TASK_OP_CONSOLE_WRITE) :
    ∃ m', Leads (consola basura) ⟨cs.flatMap write_chunk ++ p, m, out⟩
        ⟨p, m', out ++ cs.flatten⟩ ∧ Keeps [.rax, .rcx, .rdx, .r11] m m' := by
  induction cs generalizing m out with
  | nil => exact ⟨m, by rw [List.flatten_nil, List.append_nil]; exact .refl, .refl⟩
  | cons b cs ih =>
    obtain ⟨⟨h8, hb⟩, hcs⟩ := List.forall_mem_cons.mp h
    obtain ⟨m1, hlead1, hkeep1⟩ :=
      leads_write_chunk (p := cs.flatMap write_chunk ++ p) basura out h8 hb hrdi hrsi
    obtain ⟨m2, hlead2, hkeep2⟩ := @ih m1 (out ++ b) hcs
      ((hkeep1.reg _ (by decide)).trans hrdi) ((hkeep1.reg _ (by decide)).trans hrsi)
    refine ⟨m2, ?_, hkeep1.trans hkeep2⟩
    rw [List.flatMap_cons, List.append_assoc, List.flatten_cons, ← List.append_assoc out]
    exact hlead1.trans hlead2

private theorem leads_write_const_run {b : Bytes} (hb : ∀ x ∈ b, x ≠ 0) :
    ∃ m', Leads (consola basura) ⟨write_const_run b ++ p, m, out⟩ ⟨p, m', out ++ b⟩ ∧
      Keeps gastadosTexto m m' := by
  let m1 := (m.set .rdi CURRENT_TASK).set .rsi TASK_OP_CONSOLE_WRITE
  have hkeep1 : Keeps gastadosTexto m m1 := (Keeps.refl.set (by decide)).set (by decide)
  have hpiezas : ∀ c ∈ chunks 8 b, c.length ≤ 8 ∧ ∀ x ∈ c, x ≠ 0 := by
    intro c hc
    refine ⟨length_le_of_mem_chunks hc, fun x hx ↦ ?_⟩
    apply hb
    rw [← flatten_chunks (n := 8) (by decide) b]
    exact List.mem_flatten.mpr ⟨c, hc, hx⟩
  obtain ⟨m2, hlead2, hkeep2⟩ := leads_chunks (m := m1) (p := p) basura out hpiezas rfl rfl
  rw [flatten_chunks (by decide)] at hlead2
  exact ⟨m2, .step rfl (.step rfl hlead2), hkeep1.trans (hkeep2.mono (by decide))⟩

/-- **`write_const`** shows its text, but for the bytes zero. -/
theorem leads_write_const (b : Bytes) :
    ∃ m', Leads (consola basura) ⟨write_const b ++ p, m, out⟩
        ⟨p, m', out ++ b.filter (· ≠ 0)⟩ ∧ Keeps gastadosTexto m m' := by
  have hpartes {ts : List Bytes} (h : ∀ t ∈ ts, ∀ x ∈ t, x ≠ 0) (m : Machine) (out : Bytes) :
      ∃ m', Leads (consola basura) ⟨(ts.filter (· ≠ [])).flatMap write_const_run ++ p, m, out⟩
        ⟨p, m', out ++ ts.flatten⟩ ∧ Keeps gastadosTexto m m' := by
    induction ts generalizing m out with
    | nil => exact ⟨m, by rw [List.flatten_nil, List.append_nil]; exact .refl, .refl⟩
    | cons t ts ih =>
      obtain ⟨ht, hts⟩ := List.forall_mem_cons.mp h
      by_cases hnil : t = []
      · rw [List.filter_cons_of_neg (by simpa using hnil), hnil, List.flatten_cons,
          List.nil_append]
        exact ih hts m out
      · obtain ⟨m1, hlead1, hkeep1⟩ := leads_write_const_run (m := m)
          (p := (ts.filter (· ≠ [])).flatMap write_const_run ++ p) basura out ht
        obtain ⟨m2, hlead2, hkeep2⟩ := ih hts m1 (out ++ t)
        refine ⟨m2, ?_, hkeep1.trans hkeep2⟩
        rw [List.filter_cons_of_pos (by simpa using hnil), List.flatMap_cons, List.append_assoc,
          List.flatten_cons, ← List.append_assoc out]
        exact hlead1.trans hlead2
  rw [← flatten_splitOn]
  exact hpartes (fun t ht ↦ notMem_of_mem_splitOn ht) m out

/-- **`exit`** comes to its call. -/
theorem leads_exit (espera : L) :
    ∃ c : Conf L UInt8, Leads (consola basura) ⟨exit espera ++ p, m, out⟩ c ∧ Sale c ∧
      c.out = out ∧ c.machine.mem = m.mem := by
  refine ⟨_, .step rfl (.step rfl (.step rfl .refl)), ⟨_, rfl, rfl, rfl, rfl⟩, rfl, rfl⟩

end BmoX.Lower
