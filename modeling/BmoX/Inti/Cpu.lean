import BmoX.Base.Binary64
import BmoX.Inti.Emision

/-!
# What the machine does

The instructions that move words, compare them and truncate doubles, with the short jumps and the
traps between them. An instruction that is of another kind stops the run.
-/

namespace BmoX.Inti

open BmoX.Base

/-- The flags that the conditions here look at. -/
structure Banderas where
  carry : Bool
  parity : Bool
  zero : Bool
  deriving DecidableEq, Inhabited

/-- The condition of a jump, by the low half of its code. -/
def Banderas.cumple (f : Banderas) (cc : Nat) : Option Bool :=
  match cc % 16 with
  | 2 => some f.carry
  | 3 => some !f.carry
  | 4 => some f.zero
  | 5 => some !f.zero
  | 10 => some f.parity
  | 11 => some !f.parity
  | _ => none

/-- Whether the low byte of a word has an even number of ones. -/
def paridad (w : UInt64) : Bool := (List.range 8).countP (w.toNat.testBit ·) % 2 = 0

/-- Registers, the low halves of those of floats, flags, and the words of the frame. -/
structure Cpu where
  regs : Nat → UInt64
  xmm : Nat → UInt64
  banderas : Banderas
  marco : Int → UInt64
  deriving Inhabited

namespace Cpu

variable (m : Cpu)

def pon (d : Nat) (w : UInt64) : Cpu := { m with regs := Function.update m.regs d w }

def ponXmm (x : Nat) (w : UInt64) : Cpu := { m with xmm := Function.update m.xmm x w }

@[simp] theorem pon_regs (d : Nat) (w : UInt64) (r : Nat) :
    (m.pon d w).regs r = if r = d then w else m.regs r := Function.update_apply ..

@[simp] theorem pon_xmm (d : Nat) (w : UInt64) : (m.pon d w).xmm = m.xmm := rfl

@[simp] theorem pon_marco (d : Nat) (w : UInt64) : (m.pon d w).marco = m.marco := rfl

@[simp] theorem ponXmm_regs (x : Nat) (w : UInt64) : (m.ponXmm x w).regs = m.regs := rfl

@[simp] theorem ponXmm_marco (x : Nat) (w : UInt64) : (m.ponXmm x w).marco = m.marco := rfl

/-- `cmp`. -/
def compara (a b : UInt64) : Banderas := ⟨a < b, paridad (a - b), a = b⟩

/-- `comisd`: with what is not a number, all three flags. -/
def comparaDobles (a b : UInt64) : Banderas :=
  if Binary64.isNaN a ∨ Binary64.isNaN b then ⟨true, true, true⟩
  else ⟨Binary64.units a < Binary64.units b, false, Binary64.units a = Binary64.units b⟩

/-- `movsx`, and `movsxd` for four bytes. -/
def extiende (bytes : Nat) (w : UInt64) : UInt64 :=
  match bytes with
  | 4 => ⟨(w.toBitVec.setWidth 32).signExtend 64⟩
  | 2 => ⟨(w.toBitVec.setWidth 16).signExtend 64⟩
  | _ => ⟨(w.toBitVec.setWidth 8).signExtend 64⟩

end Cpu

/-- An instruction that is no jump. -/
def Ins.hace (m : Cpu) : Ins → Option Cpu
  | movImm d v => some (m.pon d v)
  | zero d => some (m.pon d 0)
  | mov d s => some (m.pon d (m.regs s))
  | deMarco d disp => some (m.pon d (m.marco disp))
  | aMarco disp s => some { m with marco := Function.update m.marco disp (m.regs s) }
  | cmp a b => some { m with banderas := Cpu.compara (m.regs a) (m.regs b) }
  | movsx bytes d s => some (m.pon d (Cpu.extiende bytes (m.regs s)))
  | movqXmm x s => some (m.ponXmm x (m.regs s))
  | movqDeXmm d x => some (m.pon d (m.xmm x))
  | comisd => some { m with banderas := Cpu.comparaDobles (m.xmm 0) (m.xmm 1) }
  | cvttsd2si d => some (m.pon d (Binary64.toWord (m.xmm 0)))
  | _ => none

/-- How a run ends: it goes on after the code, traps, or meets an instruction that is not modelled.
-/
inductive Parada
  | sigue (m : Cpu)
  | atrapa (codigo : Nat)
  | fuera

/-- A run; `salta` says that a short jump is taken, to where it is closed. -/
def corre : List Ins → Bool → Cpu → Parada
  | [], _, m => .sigue m
  | i :: is, true, m => corre is (i ≠ .cierraCorto) m
  | i :: is, false, m =>
    match i with
    | .corto cc =>
      match m.banderas.cumple cc with
      | some b => corre is b m
      | none => .fuera
    | .cierraCorto => corre is false m
    | .atrapa cc codigo =>
      match m.banderas.cumple cc with
      | some true => .atrapa codigo
      | some false => corre is false m
      | none => .fuera
    | i =>
      match i.hace m with
      | some m => corre is false m
      | none => .fuera

section

variable {is : List Ins} {m m' : Cpu} {i : Ins}

theorem corre_atrapa {cc codigo : Nat} {b : Bool} (h : m.banderas.cumple cc = some b) :
    corre (.atrapa cc codigo :: is) false m =
      if b then .atrapa codigo else corre is false m := by
  change (match m.banderas.cumple cc with
    | some true => Parada.atrapa codigo
    | some false => corre is false m
    | none => .fuera) = _
  rw [h]
  cases b <;> rfl

end

/-! ### Values -/

variable (marco : Marco)

/-- The word that a value is; `lib.rs:612–645`. -/
def Valor.palabra (m : Cpu) : Valor → UInt64
  | .const (.entero n) => UInt64.ofInt n
  | .const (.flotante bits) => bits
  | .const (.logico b) => if b then 1 else 0
  | .local l => m.marco (marco.deLocal l)
  | .temporal t =>
    match marco.sitio t with
    | .registro r => m.regs r
    | .pila disp => m.marco disp
  | _ => 0

theorem Cpu.palabra_flotante (m : Cpu) (bits : UInt64) :
    (Valor.const (.flotante bits)).palabra marco m = bits := rfl

/-- A value is loaded. -/
theorem corre_carga (reg : Nat) (v : Valor) (is : List Ins) (m : Cpu) :
    corre (carga marco reg v ++ is) false m = corre is false (m.pon reg (v.palabra marco m)) := by
  unfold carga Valor.palabra
  cases v with
  | const c => cases c <;> rfl
  | «local» l => rfl
  | temporal t =>
    dsimp only
    cases hs : marco.sitio t with
    | pila disp => rfl
    | registro r =>
      dsimp only
      split
      · rfl
      · next hr =>
        obtain rfl := of_not_not hr
        rw [Cpu.pon, Function.update_eq_self]
        rfl
  | nombre n => rfl

end BmoX.Inti
