import BmoX.Base.Cache
import BmoX.Base.Prog
import BmoX.Estratos.Transaccion

/-!
# What the store asks of the machine

The calls that `kernel/src/ring0/fsys/estratos` makes: blocks of the mounted partition, its two
static variables, the clock, the running process, and the FAT32 volume it copies from. A syscall
runs with interrupts off, so nothing happens between two calls but what they say.

A disk keeps accepted writes in a cache until a flush; the superblock is written one sector at
a time. `paso` is a disk where any call may fail, `pasoBien` one where none does.
-/

namespace BmoX.Fsys

open BmoX.Base BmoX.Blake3 BmoX.Estratos

/-- `SUPER` and `IDENTIDAD_OK`; `estratos/mod.rs:72–74`. `MONTADO` is whether there is a
superblock. -/
structure Memoria where
  super : Option Superblock
  identidadOk : Bool

/-- The calls of the store. -/
inductive Orden
  | lee (bloque : UInt64)
  | escribe (bloque : UInt64) (datos : Bloque)
  | escribeSuper (bloque : UInt64) (sector : Arr superLen)
  | vacia
  | memoria
  | fija (m : Memoria)
  | idDisco
  | ahora
  | pidActual
  | tamano (ruta : String)
  | abrirRangos (ruta : String)
  | leerRango (desde : Nat) (size : UInt32) (piden : Nat)

/-- What the machine answers to each call. -/
abbrev nucleo : Interface where
  Op := Orden
  Res
    | .lee _ => Option Bloque
    | .escribe _ _ => Bool
    | .escribeSuper _ _ => Bool
    | .vacia => Bool
    | .memoria => Memoria
    | .fija _ => Unit
    | .idDisco => Hash
    | .ahora => UInt64
    | .pidActual => UInt32
    | .tamano _ => Option UInt32
    | .abrirRangos _ => Bool
    | .leerRango _ _ piden => { b : Bytes // b.length ≤ piden }

/-! ### The calls under their names -/

/-- `read_block`; `estratos/mod.rs:154–158`. -/
def readBlock (bloque : UInt64) : Prog nucleo (Option Bloque) := .op (I := nucleo) (.lee bloque)

/-- `write_block`; `estratos/mod.rs:177–181`. -/
def writeBlock (bloque : UInt64) (src : Bloque) : Prog nucleo Bool :=
  .op (I := nucleo) (.escribe bloque src)

/-- `write_superblock`: one sector; `estratos/mod.rs:208–212`. -/
def writeSuperblock (bloque : UInt64) (sb : Arr superLen) : Prog nucleo Bool :=
  .op (I := nucleo) (.escribeSuper bloque sb)

/-- `disk::flush`; `dev/disk/mod.rs:660`. -/
def flush : Prog nucleo Bool := .op (I := nucleo) .vacia

/-- The static variables. -/
def memoria : Prog nucleo Memoria := .op (I := nucleo) .memoria

/-- Set the static variables. -/
def fijar (m : Memoria) : Prog nucleo Unit := .op (I := nucleo) (.fija m)

/-- `superbloque`; `estratos/mod.rs:90`. -/
def superbloque : Prog nucleo (Option Superblock) := do return (← memoria).super

/-- `identidad_ok`; `estratos/mod.rs:89`. -/
def identidadOk : Prog nucleo Bool := do return (← memoria).identidadOk

/-- `fijar_superbloque`; `estratos/mod.rs:439–441`. -/
def fijarSuperbloque (nuevo : Superblock) : Prog nucleo Unit := do
  fijar { ← memoria with super := some nuevo }

/-- `es::disk_id_of` of the device; `estratos/mod.rs:550`. -/
def idDisco : Prog nucleo Hash := .op (I := nucleo) .idDisco

/-- `clock::ahora`. -/
def ahora : Prog nucleo UInt64 := .op (I := nucleo) .ahora

/-- `scheduler::current_pid`. -/
def currentPid : Prog nucleo UInt32 := .op (I := nucleo) .pidActual

/-- `fs::tamano`; `fsys/fs.rs:580–582`. -/
def tamano (ruta : String) : Prog nucleo (Option UInt32) := .op (I := nucleo) (.tamano ruta)

/-- `fs::abrir_rangos`; `fsys/fs.rs:428–437`. -/
def abrirRangos (ruta : String) : Prog nucleo Bool := .op (I := nucleo) (.abrirRangos ruta)

/-- `fs::leer_rango`: as many bytes as it could bring; `fsys/fs.rs:473–512`. -/
def leerRango (desde : Nat) (size : UInt32) (piden : Nat) :
    Prog nucleo { b : Bytes // b.length ≤ piden } := .op (I := nucleo) (.leerRango desde size piden)

/-! ### The machine -/

/-- A disk, the static variables and, for the statements, every data block accepted so far. -/
structure Mundo where
  disco : Cache UInt64 Bloque
  memoria : Memoria
  puestos : List (UInt64 × Bloque)

namespace Mundo

/-- What the disk reads now. -/
def vista (m : Mundo) : UInt64 → Bloque := m.disco.view

/-- A block whose first sector is another. -/
def conSector (b : Bloque) (sector : Arr superLen) : Bloque :=
  Arr.pad bloque (splice b.1 0 sector.1)

/-- After accepting a data block. -/
def con (m : Mundo) (lba : UInt64) (b : Bloque) : Mundo :=
  ⟨m.disco.write lba b, m.memoria, m.puestos ++ [(lba, b)]⟩

/-- After accepting a superblock. -/
def sellado (m : Mundo) (lba : UInt64) (sector : Arr superLen) : Mundo :=
  { m with disco := m.disco.write lba (conSector (m.vista lba) sector) }

/-- After a flush. -/
def vaciado (m : Mundo) : Mundo := { m with disco := m.disco.flush }

end Mundo

/-- A machine where any call to the disk may fail. A data block that is refused may still have
been torn; a sector that is refused was written or not. -/
def paso : Prog.Env nucleo Mundo
  | .lee lba, m, r, m' => m' = m ∧ (r = some (m.vista lba) ∨ r = none)
  | .escribe lba b, m, r, m' =>
    r = true ∧ m' = m.con lba b ∨
      r = false ∧ (m' = m ∨ ∃ b', m' = { m with disco := m.disco.write lba b' })
  | .escribeSuper lba sector, m, r, m' =>
    r = true ∧ m' = m.sellado lba sector ∨ r = false ∧ (m' = m ∨ m' = m.sellado lba sector)
  | .vacia, m, r, m' =>
    r = true ∧ m' = m.vaciado ∨ r = false ∧ ∃ d, m.disco.FlushFailed d ∧ m' = { m with disco := d }
  | .memoria, m, r, m' => m' = m ∧ r = m.memoria
  | .fija mem, m, _, m' => m' = { m with memoria := mem }
  | .idDisco, m, _, m' => m' = m
  | .ahora, m, _, m' => m' = m
  | .pidActual, m, _, m' => m' = m
  | .tamano _, m, _, m' => m' = m
  | .abrirRangos _, m, _, m' => m' = m
  | .leerRango _ _ _, m, _, m' => m' = m

/-- A machine whose disk does all it is asked. -/
def pasoBien : Prog.Env nucleo Mundo
  | .lee lba, m, r, m' => m' = m ∧ r = some (m.vista lba)
  | .escribe lba b, m, r, m' => r = true ∧ m' = m.con lba b
  | .escribeSuper lba sector, m, r, m' => r = true ∧ m' = m.sellado lba sector
  | .vacia, m, r, m' => r = true ∧ m' = m.vaciado
  | o, m, r, m' => paso o m r m'

/-- A disk that does all it is asked is a disk. -/
theorem paso_of_pasoBien {o : Orden} {m m' : Mundo} {r : nucleo.Res o}
    (h : pasoBien o m r m') : paso o m r m' := by
  cases o with
  | lee lba => exact ⟨h.1, .inl h.2⟩
  | escribe lba b => exact .inl h
  | escribeSuper lba sector => exact .inl h
  | vacia => exact .inl h
  | _ => exact h

section Reglas

variable {σ : Type} {E : Prog.Env nucleo σ} {G : Orden → σ → Prop} {s : σ}

@[simp] theorem safe_readBlock {lba : UInt64} {Q : Option Bloque → σ → Prop} :
    Prog.Safe E G Q (readBlock lba) s ↔ G (.lee lba) s ∧ ∀ r s', E (.lee lba) s r s' → Q r s' :=
  Iff.rfl

@[simp] theorem safe_writeBlock {lba : UInt64} {b : Bloque} {Q : Bool → σ → Prop} :
    Prog.Safe E G Q (writeBlock lba b) s ↔
      G (.escribe lba b) s ∧ ∀ r s', E (.escribe lba b) s r s' → Q r s' := Iff.rfl

@[simp] theorem safe_writeSuperblock {lba : UInt64} {sb : Arr superLen} {Q : Bool → σ → Prop} :
    Prog.Safe E G Q (writeSuperblock lba sb) s ↔
      G (.escribeSuper lba sb) s ∧ ∀ r s', E (.escribeSuper lba sb) s r s' → Q r s' := Iff.rfl

@[simp] theorem safe_flush {Q : Bool → σ → Prop} :
    Prog.Safe E G Q flush s ↔ G .vacia s ∧ ∀ r s', E .vacia s r s' → Q r s' := Iff.rfl

@[simp] theorem safe_memoria {Q : Memoria → σ → Prop} :
    Prog.Safe E G Q memoria s ↔ G .memoria s ∧ ∀ r s', E .memoria s r s' → Q r s' := Iff.rfl

@[simp] theorem safe_fijar {mem : Memoria} {Q : Unit → σ → Prop} :
    Prog.Safe E G Q (fijar mem) s ↔ G (.fija mem) s ∧ ∀ r s', E (.fija mem) s r s' → Q r s' :=
  Iff.rfl

@[simp] theorem safe_idDisco {Q : Hash → σ → Prop} :
    Prog.Safe E G Q idDisco s ↔ G .idDisco s ∧ ∀ r s', E .idDisco s r s' → Q r s' := Iff.rfl

@[simp] theorem safe_ahora {Q : UInt64 → σ → Prop} :
    Prog.Safe E G Q ahora s ↔ G .ahora s ∧ ∀ r s', E .ahora s r s' → Q r s' := Iff.rfl

@[simp] theorem safe_currentPid {Q : UInt32 → σ → Prop} :
    Prog.Safe E G Q currentPid s ↔ G .pidActual s ∧ ∀ r s', E .pidActual s r s' → Q r s' := Iff.rfl

end Reglas

end BmoX.Fsys
