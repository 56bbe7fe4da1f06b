import BmoX.Base.Bits
import BmoX.Base.Bytes
import BmoX.Base.Interleave

/-!
# The pen the card reads from

`platform/drivers/net/src/tx.rs`: the descriptors of the outgoing ring and the plan of the memory
that holds them and their buffers. The card is the other side of that memory: it sends what a
descriptor of its own points to and gives the descriptor back.
-/

namespace BmoX.Red.Salida

open BmoX.Base

/-! ### The shape -/

/-- `ANILLO`; `tx.rs:44`. -/
abbrev anillo : Nat := 16

instance : NeZero anillo := ⟨by decide⟩

/-- `BUFER`; `tx.rs:46`. -/
abbrev bufer : Nat := 2048

/-- `DESC`; `tx.rs:48`. -/
abbrev desc : Nat := 16

/-- `ALINEACION`; `tx.rs:50`. -/
abbrev alineacion : Nat := 256

/-- `MINIMA`; `tx.rs:52`. -/
abbrev minima : Nat := 60

/-- `MAXIMA`; `tx.rs:54`. -/
abbrev maxima : Nat := 1514

/-! The bits of `opts1`; `tx.rs:82–94`. -/

namespace Bit

abbrev own : UInt32 := 0x80000000
abbrev eor : UInt32 := 0x40000000
abbrev fs : UInt32 := 0x20000000
abbrev ls : UInt32 := 0x10000000
abbrev lenMask : UInt32 := 0xFFFF

end Bit

/-- `TxDesc`; `tx.rs:97–104`. -/
@[ext]
structure TxDesc where
  opts1 : UInt32
  opts2 : UInt32
  addrLo : UInt32
  addrHi : UInt32
  deriving DecidableEq

namespace TxDesc

/-- `quieto`; `tx.rs:109–116`. -/
def quieto (buf : Nat) (ultimo : Bool) : TxDesc where
  opts1 := if ultimo then Bit.eor else 0
  opts2 := 0
  addrLo := UInt32.ofNat buf
  addrHi := UInt32.ofNat (buf / 2 ^ 32)

/-- `para_enviar`; `tx.rs:119–123`. -/
def paraEnviar (buf : Nat) (largo : UInt16) (ultimo : Bool) : TxDesc :=
  let d := quieto buf ultimo
  { d with opts1 := d.opts1 ||| (Bit.own ||| Bit.fs ||| Bit.ls ||| (largo.toUInt32 &&& Bit.lenMask)) }

/-- `lo_tiene_la_tarjeta`; `tx.rs:126–128`. -/
def loTieneLaTarjeta (d : TxDesc) : Bool := d.opts1 &&& Bit.own ≠ 0

/-- The last of the ring, for the card. -/
def ultimo (d : TxDesc) : Bool := d.opts1 &&& Bit.eor ≠ 0

/-- Where the card reads. -/
def dir (d : TxDesc) : Nat := d.addrLo.toNat + d.addrHi.toNat * 2 ^ 32

/-- How much the card reads. -/
def largo (d : TxDesc) : Nat := (d.opts1 &&& Bit.lenMask).toNat

/-- A descriptor in memory; `#[repr(C)]`. -/
def aBytes (d : TxDesc) : Bytes := u32Le d.opts1 ++ u32Le d.opts2 ++ u32Le d.addrLo ++ u32Le d.addrHi

/-- The descriptor that lies in memory. -/
def deBytes (b : Bytes) : TxDesc where
  opts1 := u32De (slice b 0 4)
  opts2 := u32De (slice b 4 4)
  addrLo := u32De (slice b 8 4)
  addrHi := u32De (slice b 12 4)

@[simp] theorem length_aBytes (d : TxDesc) : d.aBytes.length = desc := by
  simp [aBytes]

@[simp] theorem deBytes_aBytes (d : TxDesc) : deBytes d.aBytes = d := by
  have h1 : (u32Le d.opts1 ++ u32Le d.opts2).length = 8 := by simp
  have h2 : (u32Le d.opts1 ++ u32Le d.opts2 ++ u32Le d.addrLo).length = 12 := by simp
  have hall : d.aBytes = u32Le d.opts1 ++ u32Le d.opts2 ++ u32Le d.addrLo ++ u32Le d.addrHi := rfl
  ext : 1
  · simp [deBytes, aBytes, slice]
  · simp [deBytes, aBytes, slice]
  · simp only [deBytes]
    rw [hall, slice_append_left (by rw [h2]), slice_append_right (by rw [h1]), h1,
      slice_self (by simp), u32De_u32Le]
  · simp only [deBytes]
    rw [hall, slice_append_right (by rw [h2]), h2, slice_self (by simp), u32De_u32Le]

theorem deBytes_opts1 (v : UInt32) (b : Bytes) :
    deBytes (u32Le v ++ b) = { deBytes (u32Le v ++ b) with opts1 := v } := by
  ext
  · simp [deBytes, slice]
  all_goals rfl

section

variable {buf : Nat} {largo : UInt16} {ultimo : Bool}

private theorem dir_quieto (ultimo : Bool) (h : buf < 2 ^ 64) : (quieto buf ultimo).dir = buf := by
  simp only [dir, quieto, UInt32.toNat_ofNat']
  omega

theorem dir_paraEnviar (h : buf < 2 ^ 64) : (paraEnviar buf largo ultimo).dir = buf :=
  dir_quieto ultimo h

private theorem opts1_quieto : (quieto buf ultimo).opts1 = if ultimo then Bit.eor else 0 := rfl

theorem tiene_quieto : (quieto buf ultimo).loTieneLaTarjeta = false := by
  rw [loTieneLaTarjeta, opts1_quieto]
  cases ultimo <;> rfl

/-- The bits of `mask` in a descriptor to be sent: those of the quiet one, the three flags and the
length. -/
theorem opts1_paraEnviar (mask : UInt32) : (paraEnviar buf largo ultimo).opts1 &&& mask =
    ((if ultimo then Bit.eor else 0) &&& mask) ||| (((Bit.own ||| Bit.fs ||| Bit.ls) &&& mask) |||
      (largo.toUInt32 &&& (Bit.lenMask &&& mask))) := by
  rw [paraEnviar, or_and_distrib32, or_and_distrib32, UInt32.and_assoc, opts1_quieto]

theorem tiene_paraEnviar : (paraEnviar buf largo ultimo).loTieneLaTarjeta = true := by
  have hno : Bit.lenMask &&& Bit.own = 0 := by decide
  rw [loTieneLaTarjeta, opts1_paraEnviar, hno, UInt32.and_zero]
  cases ultimo <;> rfl

theorem ultimo_paraEnviar : (paraEnviar buf largo ultimo).ultimo = ultimo := by
  have hno : Bit.lenMask &&& Bit.eor = 0 := by decide
  rw [TxDesc.ultimo, opts1_paraEnviar, hno, UInt32.and_zero]
  cases ultimo <;> rfl

theorem largo_paraEnviar : (paraEnviar buf largo ultimo).largo = largo.toNat := by
  have hflags : (Bit.own ||| Bit.fs ||| Bit.ls) &&& Bit.lenMask = 0 := by decide
  have hultimo : (if ultimo then Bit.eor else 0) &&& Bit.lenMask = 0 := by cases ultimo <;> decide
  have hlt := largo.toNat_lt
  rw [TxDesc.largo, opts1_paraEnviar, hflags, hultimo, UInt32.and_self, UInt32.zero_or,
    UInt32.zero_or, UInt32.toNat_and, UInt16.toNat_toUInt32]
  exact (Nat.and_two_pow_sub_one_eq_mod largo.toNat 16).trans (Nat.mod_eq_of_lt hlt)

end

end TxDesc

/-! ### The plan -/

/-- `Falta`; `anillo.rs:93–100`. -/
inductive Falta
  | noAlineada | pequena | desborda
  deriving DecidableEq

/-- `bytes_necesarios`; `tx.rs:132–134`. -/
def bytesNecesarios : Nat := desc * anillo + bufer * anillo

/-- `Plan`, a memory that was found fit; `tx.rs:138–142`. -/
structure Plan where
  base : Nat
  bytes : Nat
  alineada : base % alineacion = 0
  entra : base + bytes < 2 ^ 64
  basta : bytesNecesarios ≤ bytes

namespace Plan

/-- `nuevo`; `tx.rs:145–156`. -/
def nuevo (base bytes : Nat) : Except Falta Plan :=
  if h1 : base % alineacion = 0 then
    if h2 : base + bytes < 2 ^ 64 then
      if h3 : bytesNecesarios ≤ bytes then .ok ⟨base, bytes, h1, h2, h3⟩
      else .error .pequena
    else .error .desborda
  else .error .noAlineada

/-- `descriptores`; `tx.rs:159–161`. -/
def descriptores (p : Plan) : Nat := p.base

/-- `bufer`; `tx.rs:164–169`. -/
def bufer (p : Plan) (i : Nat) : Option Nat :=
  if i ≥ anillo then none else some (p.base + desc * anillo + Salida.bufer * i)

/-- `contiene`; `tx.rs:172–177`. -/
def contiene (p : Plan) (dir largo : Nat) : Bool :=
  dir + largo < 2 ^ 64 && p.base ≤ dir && dir + largo ≤ p.base + p.bytes

/-- `quieto`; `tx.rs:180–186`. -/
def quieto (p : Plan) (i : Nat) : Option TxDesc := do
  let buf ← p.bufer i
  if !p.contiene buf Salida.bufer then
    none
  else
    some (TxDesc.quieto buf (i = anillo - 1))

/-- `para_enviar`; `tx.rs:191–197`. -/
def paraEnviar (p : Plan) (i largo : Nat) : Option TxDesc := do
  let buf ← p.bufer i
  if !(minima ≤ largo && largo ≤ maxima) || !p.contiene buf largo then
    none
  else
    some (TxDesc.paraEnviar buf (UInt16.ofNat largo) (i = anillo - 1))

/-- Where the `i`-th descriptor is. -/
def dirDesc (p : Plan) (i : Nat) : Nat := p.base + desc * i

/-- Where the `i`-th buffer is. -/
def dirBufer (p : Plan) (i : Nat) : Nat := p.base + desc * anillo + Salida.bufer * i

section

variable {p : Plan} {i j : Nat}

theorem bufer_eq (h : i < anillo) : p.bufer i = some (p.dirBufer i) := if_neg (by omega)

private theorem dirBufer_fin (h : i < anillo) : p.dirBufer i + Salida.bufer ≤ p.base + p.bytes := by
  have := p.basta
  simp only [bytesNecesarios, dirBufer, anillo, desc, Salida.bufer] at *
  omega

theorem dirBufer_lt (h : i < anillo) : p.dirBufer i < 2 ^ 64 := by
  have := dirBufer_fin (p := p) h
  have := p.entra
  omega

private theorem contiene_bufer (h : i < anillo) {n : Nat} (hn : n ≤ Salida.bufer) :
    p.contiene (p.dirBufer i) n = true := by
  have hfin := dirBufer_fin (p := p) h
  have hentra := p.entra
  have hbase : p.base ≤ p.dirBufer i := by
    rw [dirBufer]
    omega
  simp only [contiene, Bool.and_eq_true, decide_eq_true_eq]
  omega

theorem quieto_eq (h : i < anillo) :
    p.quieto i = some (TxDesc.quieto (p.dirBufer i) (i = anillo - 1)) := by
  simp [quieto, bufer_eq h, contiene_bufer h]

theorem paraEnviar_eq (h : i < anillo) {largo : Nat} (h1 : minima ≤ largo) (h2 : largo ≤ maxima) :
    p.paraEnviar i largo =
      some (TxDesc.paraEnviar (p.dirBufer i) (UInt16.ofNat largo) (i = anillo - 1)) := by
  have hcont := contiene_bufer (p := p) h (n := largo) (h2.trans (by decide))
  simp [paraEnviar, bufer_eq h, hcont, h1, h2]

end

end Plan

/-! ### The memory and the card -/

/-- The memory as the card sees it, with the clock. The card has the address of the ring and its
place in it. Then the descriptors it was given with what they pointed to, the frames it sent, and how
often the kernel wrote to something of the card's. -/
structure Mundo where
  mem : Memory
  reloj : UInt64
  tnpds : Nat
  pos : Nat
  entregadas : List (Nat × Bytes)
  cable : List Bytes
  invadidas : Nat

namespace Mundo

/-- The descriptor at an address. -/
def descEn (m : Mundo) (dir : Nat) : TxDesc := .deBytes (m.mem.load dir desc)

/-- What a descriptor points to. -/
def apuntado (m : Mundo) (d : TxDesc) : Bytes := m.mem.load d.dir d.largo

/-- A byte of a descriptor that the card has, or of its buffer. -/
def DeLaTarjeta (m : Mundo) (x : Nat) : Prop :=
  ∃ i < anillo, (m.descEn (m.tnpds + desc * i)).loTieneLaTarjeta = true ∧
    ((m.tnpds + desc * i ≤ x ∧ x < m.tnpds + desc * i + desc) ∨
      ((m.descEn (m.tnpds + desc * i)).dir ≤ x ∧ x < (m.descEn (m.tnpds + desc * i)).dir + bufer))

instance (m : Mundo) (x : Nat) : Decidable (m.DeLaTarjeta x) :=
  inferInstanceAs (Decidable (∃ i < anillo, _ ∧ _))

/-- A write of the kernel. -/
def escribe (m : Mundo) (dir : Nat) (b : Bytes) : Mundo :=
  { m with
    mem := m.mem.store dir b
    invadidas := if ∃ k < b.length, m.DeLaTarjeta (dir + k) then m.invadidas + 1 else m.invadidas }

/-- A descriptor is written; with `OWN` in it, the card is given it. -/
def escribeDesc (m : Mundo) (dir : Nat) (d : TxDesc) : Mundo :=
  let m' := m.escribe dir d.aBytes
  if d.loTieneLaTarjeta then { m' with entregadas := m'.entregadas ++ [(dir, m'.apuntado d)] } else m'

/-- The card has sent what its descriptor points to and gives it back, `opts1` written over. -/
def devuelve (m : Mundo) (opts1 : UInt32) : Mundo :=
  let d := m.descEn (m.tnpds + desc * m.pos)
  { m with
    mem := m.mem.store (m.tnpds + desc * m.pos) (u32Le opts1)
    pos := if d.ultimo then 0 else m.pos + 1
    cable := m.cable ++ [m.apuntado d] }

end Mundo

/-- What is done to it. -/
inductive Op
  | reloj
  | copiar (dir : Nat) (b : Bytes)
  | leerDesc (dir : Nat)
  | escribirDesc (dir : Nat) (d : TxDesc)
  | campana
  | devolver (opts1 : UInt32)
  | tic (t : UInt64)

/-- The kernel's side and the card's. -/
abbrev corral : Interface := ⟨Op, fun
  | .reloj => UInt64
  | .leerDesc _ => TxDesc
  | _ => Unit⟩

/-- One thing done. -/
def maneja : Prog.Handler corral Mundo
  | .reloj, m => (m.reloj, m)
  | .copiar dir b, m => ((), m.escribe dir b)
  | .leerDesc dir, m => (m.descEn dir, m)
  | .escribirDesc dir d, m => ((), m.escribeDesc dir d)
  | .campana, m => ((), m)
  | .devolver opts1, m => ((), m.devuelve opts1)
  | .tic t, m => ((), { m with reloj := t })

/-- One call. -/
def pide (o : Op) : Prog corral (corral.Res o) := Prog.op (I := corral) o

end BmoX.Red.Salida
