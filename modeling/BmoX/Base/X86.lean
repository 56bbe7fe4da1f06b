import BmoX.Base.Bytes
import BmoX.Base.Signed

/-!
# A machine for straight code

Some instructions of x86-64 on words of 64 bits, with labels that are ahead of their jumps. The
flags are those of the last comparison: an instruction that leaves others forgets them, and a jump
that looks at forgotten flags is a fault here. The stack is a list, above the memory that the code
names. -/

namespace BmoX.Base.X86

inductive Reg
  | rax | rcx | rdx | rbp | rsp | rsi | rdi | r8 | r9 | r10 | r11
  deriving DecidableEq, Repr

/-- The conditions of the jumps. -/
inductive Cond
  | e | ne | ns | a | ae | be | l
  deriving DecidableEq, Repr

/-- Instructions, and labels of `L` between them. A displacement is from the register of the base,
`rbp` where none is named. -/
inductive Instr (L : Type)
  | movImm (d : Reg) (v : UInt64)
  | zero (d : Reg)
  | mov (d s : Reg)
  | add (d s : Reg)
  | addImm (d : Reg) (v : UInt64)
  | sub (d s : Reg)
  | subImm (d : Reg) (v : UInt64)
  | imul (d s : Reg)
  | or (d s : Reg)
  | andImm (d : Reg) (v : UInt64)
  | shl (d : Reg) (k : UInt64)
  | shr (d : Reg) (k : UInt64)
  | neg (d : Reg)
  | inc (d : Reg)
  | dec (d : Reg)
  | cqo
  | idiv (s : Reg)
  | div (s : Reg)
  | push (s : Reg)
  | pop (d : Reg)
  | test (a b : Reg)
  | cmp (a b : Reg)
  | cmpImm (a : Reg) (v : UInt64)
  | load (d : Reg) (disp : Int)
  | store (disp : Int) (s : Reg)
  | lea (d : Reg) (disp : Int)
  | leaAt (d b : Reg) (k : Nat)
  | loadAt (d b : Reg)
  | storeAt (b s : Reg)
  | loadByte (d b : Reg) (k : Nat)
  | loadByteIdx (d b i : Reg)
  | storeByte (b : Reg) (k : Nat) (s : Reg)
  | storeByteImm (b : Reg) (k : Nat) (v : UInt8)
  | jmp (l : L)
  | jcc (c : Cond) (l : L)
  | label (l : L)
  deriving DecidableEq

/-- What a comparison leaves. -/
structure Flags where
  zero : Bool
  sign : Bool
  carry : Bool
  overflow : Bool
  deriving DecidableEq

def Cond.holds (f : Flags) : Cond → Bool
  | e => f.zero
  | ne => !f.zero
  | ns => !f.sign
  | a => !f.carry && !f.zero
  | ae => !f.carry
  | be => f.carry || f.zero
  | l => f.sign != f.overflow

structure Machine where
  reg : Reg → UInt64
  flags : Option Flags
  stack : List UInt64
  mem : Memory

/-- Control goes on, or to a label, or the processor raises an exception. -/
inductive Outcome (L : Type)
  | next (m : Machine)
  | jump (l : L) (m : Machine)
  | fault

namespace Machine

/-- A register is written. -/
def set (m : Machine) (r : Reg) (v : UInt64) : Machine :=
  { m with reg := Function.update m.reg r v }

/-- A register is written, and the flags are not those of a comparison any more. -/
def setF (m : Machine) (r : Reg) (v : UInt64) : Machine := { m.set r v with flags := none }

/-- An address from `rbp`. -/
def frame (m : Machine) (disp : Int) : Nat := (m.reg .rbp + ofSigned disp).toNat

/-- An address from a register. -/
def addr (m : Machine) (b : Reg) (k : Nat) : Nat := (m.reg b + UInt64.ofNat k).toNat

section

variable (m : Machine) (r r' : Reg) (v : UInt64)

@[simp] theorem set_reg : (m.set r v).reg r' = if r' = r then v else m.reg r' :=
  Function.update_apply m.reg r v r'

@[simp] theorem setF_reg : (m.setF r v).reg r' = if r' = r then v else m.reg r' := set_reg m r r' v

@[simp] theorem set_stack : (m.set r v).stack = m.stack := rfl

@[simp] theorem setF_stack : (m.setF r v).stack = m.stack := rfl

@[simp] theorem set_mem : (m.set r v).mem = m.mem := rfl

@[simp] theorem setF_mem : (m.setF r v).mem = m.mem := rfl

@[simp] theorem set_flags : (m.set r v).flags = m.flags := rfl

@[simp] theorem setF_flags : (m.setF r v).flags = none := rfl

end

end Machine

variable {L : Type}

/-- The flags of a number that is compared with zero. -/
def testFlags (w : UInt64) : Flags := ⟨decide (w = 0), decide (signed w < 0), false, false⟩

/-- The flags of the difference of two numbers. -/
def cmpFlags (a b : UInt64) : Flags :=
  ⟨decide (a = b), decide (signed (a - b) < 0), decide (a.toNat < b.toNat),
    decide (¬Fits (signed a - signed b))⟩

section

variable (a b w : UInt64)

theorem holds_testFlags_e : Cond.holds (testFlags w) .e = decide (w = 0) := rfl

theorem holds_testFlags_ne : Cond.holds (testFlags w) .ne = !decide (w = 0) := rfl

theorem holds_testFlags_ns : Cond.holds (testFlags w) .ns = !decide (signed w < 0) := rfl

theorem holds_cmpFlags_e : Cond.holds (cmpFlags a b) .e = decide (a = b) := rfl

theorem holds_cmpFlags_be : Cond.holds (cmpFlags a b) .be = decide (a.toNat ≤ b.toNat) := by
  have heq : a = b ↔ a.toNat = b.toNat := UInt64.toNat_inj.symm
  simp only [Cond.holds, cmpFlags, heq, ← Bool.decide_or, decide_eq_decide]
  omega

theorem holds_cmpFlags_ae : Cond.holds (cmpFlags a b) .ae = decide (b.toNat ≤ a.toNat) := by
  simp only [Cond.holds, cmpFlags, ← decide_not, decide_eq_decide]
  omega

theorem holds_cmpFlags_a : Cond.holds (cmpFlags a b) .a = decide (b.toNat < a.toNat) := by
  have heq : a = b ↔ a.toNat = b.toNat := UInt64.toNat_inj.symm
  simp only [Cond.holds, cmpFlags, heq, ← decide_not, ← Bool.decide_and, decide_eq_decide]
  omega

theorem holds_cmpFlags_l (h : Fits (signed a - signed b)) :
    Cond.holds (cmpFlags a b) .l = decide (signed a < signed b) := by
  simp [Cond.holds, cmpFlags, h, signed_sub h]

end

/-- One instruction. -/
def step (i : Instr L) (m : Machine) : Outcome L :=
  match i with
  | .movImm d v => .next (m.set d v)
  | .zero d => .next (m.setF d 0)
  | .mov d s => .next (m.set d (m.reg s))
  | .add d s => .next (m.setF d (m.reg d + m.reg s))
  | .addImm d v => .next (m.setF d (m.reg d + v))
  | .subImm d v => .next (m.setF d (m.reg d - v))
  | .sub d s => .next (m.setF d (m.reg d - m.reg s))
  | .imul d s => .next (m.setF d (m.reg d * m.reg s))
  | .or d s => .next (m.setF d (m.reg d ||| m.reg s))
  | .andImm d v => .next (m.setF d (m.reg d &&& v))
  | .shl d k => .next (m.setF d (m.reg d <<< k))
  | .shr d k => .next (m.setF d (m.reg d >>> k))
  | .neg d => .next (m.setF d (-m.reg d))
  | .inc d => .next (m.setF d (m.reg d + 1))
  | .dec d => .next (m.setF d (m.reg d - 1))
  | .cqo => .next (m.set .rdx (if signed (m.reg .rax) < 0 then ofSigned (-1) else 0))
  | .idiv s =>
    let n := signed (m.reg .rdx) * 2 ^ 64 + (m.reg .rax).toNat
    let d := signed (m.reg s)
    if d = 0 ∨ ¬Fits (n.tdiv d) then .fault
    else .next ((m.setF .rax (ofSigned (n.tdiv d))).setF .rdx (ofSigned (n.tmod d)))
  | .div s =>
    let n := (m.reg .rdx).toNat * 2 ^ 64 + (m.reg .rax).toNat
    let d := (m.reg s).toNat
    if d = 0 ∨ 2 ^ 64 ≤ n / d then .fault
    else .next ((m.setF .rax (UInt64.ofNat (n / d))).setF .rdx (UInt64.ofNat (n % d)))
  | .push s => .next { m with stack := m.reg s :: m.stack }
  | .pop d =>
    match m.stack with
    | [] => .fault
    | v :: rest => .next { m.set d v with stack := rest }
  | .test a b => .next { m with flags := some (testFlags (m.reg a &&& m.reg b)) }
  | .cmp a b => .next { m with flags := some (cmpFlags (m.reg a) (m.reg b)) }
  | .cmpImm a v => .next { m with flags := some (cmpFlags (m.reg a) v) }
  | .load d disp => .next (m.set d (m.mem.read64 (m.frame disp)))
  | .store disp s => .next { m with mem := m.mem.write64 (m.frame disp) (m.reg s) }
  | .lea d disp => .next (m.set d (m.reg .rbp + ofSigned disp))
  | .leaAt d b k => .next (m.set d (m.reg b + UInt64.ofNat k))
  | .loadAt d b => .next (m.set d (m.mem.read64 (m.addr b 0)))
  | .storeAt b s => .next { m with mem := m.mem.write64 (m.addr b 0) (m.reg s) }
  | .loadByte d b k => .next (m.set d (m.mem (m.addr b k)).toUInt64)
  | .loadByteIdx d b i => .next (m.set d (m.mem (m.reg b + m.reg i).toNat).toUInt64)
  | .storeByteImm b k v => .next { m with mem := Function.update m.mem (m.addr b k) v }
  | .storeByte b k s =>
    .next { m with mem := Function.update m.mem (m.addr b k) (m.reg s).toUInt8 }
  | .jmp l => .jump l m
  | .jcc c l =>
    match m.flags with
    | none => .fault
    | some f => if c.holds f then .jump l m else .next m
  | .label _ => .next m

variable [DecidableEq L]

/-- The label itself. -/
def Instr.is (l : L) : Instr L → Bool
  | .label l' => decide (l' = l)
  | _ => false

/-- Code, from its start or in search of a label. -/
def run : List (Instr L) → Option L → Machine → Outcome L
  | [], none, m => .next m
  | [], some l, m => .jump l m
  | i :: is, none, m =>
    match step i m with
    | .next m => run is none m
    | .jump l m => run is (some l) m
    | .fault => .fault
  | i :: is, some l, m => if i.is l then run is none m else run is (some l) m

/-- What comes after. -/
def Outcome.andThen (o : Outcome L) (is : List (Instr L)) : Outcome L :=
  match o with
  | .next m => run is none m
  | .jump l m => run is (some l) m
  | .fault => .fault

theorem run_append (is js : List (Instr L)) (t : Option L) (m : Machine) :
    run (is ++ js) t m = (run is t m).andThen js := by
  induction is generalizing t m with
  | nil => cases t <;> rfl
  | cons i is ih =>
    cases t with
    | none =>
      simp only [List.cons_append, run]
      cases step i m with
      | next m => exact ih none m
      | jump l m => exact ih (some l) m
      | fault => rfl
    | some l =>
      simp only [List.cons_append, run]
      split
      · exact ih none m
      · exact ih (some l) m

theorem run_append_of_next {is js : List (Instr L)} {m m' : Machine} (h : run is none m = .next m')
  :
    run (is ++ js) none m = run js none m' := by
  rw [run_append, h]
  rfl

theorem run_jcc {m : Machine} {f : Flags} (h : m.flags = some f) (c : Cond) (l : L) :
    run [.jcc c l] none m = if c.holds f then .jump l m else .next m := by
  simp only [run, step, h]
  cases c.holds f <;> rfl

/-- A label that the code does not have is behind it. -/
theorem run_skip {is : List (Instr L)} {l : L} {m : Machine} (h : ∀ i ∈ is, i.is l = false) :
    run is (some l) m = .jump l m := by
  induction is with
  | nil => rfl
  | cons i is ih =>
    obtain ⟨h1, h2⟩ := List.forall_mem_cons.mp h
    rw [run, h1]
    exact ih h2

/-- Only some registers may change. -/
structure Keeps (rs : List Reg) (m m' : Machine) : Prop where
  reg : ∀ r, r ∉ rs → m'.reg r = m.reg r
  mem : m'.mem = m.mem
  stack : m'.stack = m.stack

namespace Keeps

variable {rs rs' : List Reg} {m m' m'' : Machine}

theorem refl : Keeps rs m m := ⟨fun _ _ ↦ rfl, rfl, rfl⟩

theorem trans (h : Keeps rs m m') (h' : Keeps rs m' m'') : Keeps rs m m'' where
  reg r hr := (h'.reg r hr).trans (h.reg r hr)
  mem := h'.mem.trans h.mem
  stack := h'.stack.trans h.stack

theorem mono (h : Keeps rs m m') (hs : ∀ r ∈ rs, r ∈ rs') : Keeps rs' m m' where
  reg r hr := h.reg r fun hr' ↦ hr (hs r hr')
  mem := h.mem
  stack := h.stack

theorem set (h : Keeps rs m m') {r : Reg} {v : UInt64} (hr : r ∈ rs) : Keeps rs m (m'.set r v) where
  reg r' hr' := by
    have hne : r' ≠ r := fun he ↦ hr' (he ▸ hr)
    simpa [hne] using h.reg r' hr'
  mem := h.mem
  stack := h.stack

theorem setF (h : Keeps rs m m') {r : Reg} {v : UInt64} (hr : r ∈ rs) : Keeps rs m (m'.setF r v) :=
  ⟨(h.set hr).reg, h.mem, h.stack⟩

end Keeps

/-- Only some registers may change, and the memory only in some places. -/
structure Only (rs : List Reg) (s : Nat → Prop) (m m' : Machine) : Prop where
  reg : ∀ r, r ∉ rs → m'.reg r = m.reg r
  mem : ∀ a, ¬s a → m'.mem a = m.mem a
  stack : m'.stack = m.stack

theorem Keeps.only {rs : List Reg} {s : Nat → Prop} {m m' : Machine} (h : Keeps rs m m') :
    Only rs s m m' where
  reg := h.reg
  mem a _ := congrFun h.mem a
  stack := h.stack

namespace Only

variable {rs rs' : List Reg} {s s' : Nat → Prop} {m m' m'' : Machine}

theorem trans (h : Only rs s m m') (h' : Only rs s m' m'') : Only rs s m m'' where
  reg r hr := (h'.reg r hr).trans (h.reg r hr)
  mem a ha := (h'.mem a ha).trans (h.mem a ha)
  stack := h'.stack.trans h.stack

theorem mono (h : Only rs s m m') (hr : ∀ r ∈ rs, r ∈ rs') (hs : ∀ a, s a → s' a) :
    Only rs' s' m m' where
  reg r hr' := h.reg r fun hmem ↦ hr' (hr r hmem)
  mem a ha := h.mem a fun hmem ↦ ha (hs a hmem)
  stack := h.stack

end Only

end BmoX.Base.X86
