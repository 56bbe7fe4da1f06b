import BmoX.Base.Bytes
import BmoX.Base.Prog

/-!
# The network mailbox

`platform/shared/bmo-puerta-red/src/buzon.rs`. The memory is seen byte by byte: every function is a
program of single reads and writes, so that the other side can act between any two of them.
-/

namespace BmoX.Red

open BmoX.Base

/-! ### The shape -/

/-- `MAGIA`, `BRED`; `buzon.rs:39`. -/
def magia : UInt32 := u32De [0x42, 0x52, 0x45, 0x44]

/-- `VERSION`; `buzon.rs:40`. -/
def version : UInt16 := 1

/-- `CASILLAS`; `buzon.rs:43`. -/
abbrev casillas : Nat := 8

/-- `TRAMA_MAXIMA`; `buzon.rs:46`. -/
abbrev tramaMaxima : Nat := 1514

/-- `CASILLA`; `buzon.rs:47`. -/
abbrev casilla : Nat := 1536

/-- `CABECERA`; `buzon.rs:48`. -/
abbrev cabecera : Nat := 64

/-- `BYTES`; `buzon.rs:49`. -/
abbrev bytes : Nat := cabecera + 2 * casillas * casilla

/-! The fields of the header; `buzon.rs:54–72`. -/

namespace Campo

abbrev magia : Nat := 0
abbrev version : Nat := 4
abbrev casillas : Nat := 6
abbrev txEscrito : Nat := 8
abbrev txLeido : Nat := 12
abbrev rxEscrito : Nat := 16
abbrev rxLeido : Nat := 20
abbrev rxSecuencia : Nat := 24
abbrev estado : Nat := 32
abbrev tiradas : Nat := 48

end Campo

/-- `casilla_tx`; `buzon.rs:75–77`. -/
def casillaTx (i : Nat) : Nat := cabecera + i % casillas * casilla

/-- `casilla_rx`; `buzon.rs:80–82`. -/
def casillaRx (i : Nat) : Nat := cabecera + casillas * casilla + i % casillas * casilla

/-! ### The memory -/

/-- `Memoria`: what can be asked of it; `buzon.rs:89–93`. Its size does not change and is passed to
each function as `tam`. -/
inductive Op
  | leer8 (off : Nat)
  | escribir8 (off : Nat) (v : UInt8)
  deriving DecidableEq

/-- The memory of the mailbox. -/
abbrev memoria : Interface := ⟨Op, fun
  | .leer8 _ => UInt8
  | .escribir8 _ _ => Unit⟩

/-- `leer8`. -/
def leer8 (off : Nat) : Prog memoria UInt8 := Prog.op (I := memoria) (.leer8 off)

/-- `escribir8`. -/
def escribir8 (off : Nat) (v : UInt8) : Prog memoria Unit := Prog.op (I := memoria) (.escribir8 off v)

/-- `leer16`; `buzon.rs:107–109`. -/
def leer16 (off : Nat) : Prog memoria UInt16 := do
  let b0 ← leer8 off
  let b1 ← leer8 (off + 1)
  return u16De [b0, b1]

/-- `leer32`; `buzon.rs:111–113`. -/
def leer32 (off : Nat) : Prog memoria UInt32 := do
  let b0 ← leer8 off
  let b1 ← leer8 (off + 1)
  let b2 ← leer8 (off + 2)
  let b3 ← leer8 (off + 3)
  return u32De [b0, b1, b2, b3]

/-- `escribir_bytes`; `buzon.rs:119–123`. -/
def escribirBytes (off : Nat) : Bytes → Prog memoria Unit
  | [] => return ()
  | v :: b => do
    escribir8 off v
    escribirBytes (off + 1) b

/-- `escribir16`; `buzon.rs:125–127`. -/
def escribir16 (off : Nat) (v : UInt16) : Prog memoria Unit := escribirBytes off (u16Le v)

/-- `escribir32`; `buzon.rs:129–131`. -/
def escribir32 (off : Nat) (v : UInt32) : Prog memoria Unit := escribirBytes off (u32Le v)

/-- `escribir64`; `buzon.rs:133–135`. -/
def escribir64 (off : Nat) (v : UInt64) : Prog memoria Unit := escribirBytes off (u64Le v)

/-- The loop that copies `n` bytes out of the mailbox; `buzon.rs:226–228` and `344–346`. -/
def copiar (off : Nat) : Nat → Prog memoria Bytes
  | 0 => return []
  | n + 1 => do
    let b ← leer8 off
    return b :: (← copiar (off + 1) n)

theorem leer16_eq (off : Nat) : leer16 off = copiar off 2 >>= fun bs ↦ pure (u16De bs) := rfl

theorem leer32_eq (off : Nat) : leer32 off = copiar off 4 >>= fun bs ↦ pure (u32De bs) := rfl

/-! ### The kernel's side -/

/-- `Mal`; `buzon.rs:139–146`. -/
inductive Mal
  | indiceImposible | largoImposible | buzonCorto
  deriving DecidableEq

/-- `Lado`; `buzon.rs:160–167`. -/
structure Lado where
  txLeido : UInt32
  rxEscrito : UInt32
  rxSeq : UInt64
  sacadas : UInt64
  metidas : UInt64
  tiradas : UInt64
  deriving DecidableEq

namespace Lado

/-- `nuevo`; `buzon.rs:176–178`. -/
def nuevo : Lado := ⟨0, 0, 0, 0, 0, 0⟩

/-- `preparar`; `buzon.rs:182–194`. -/
def preparar (tam : Nat) (l : Lado) : Prog memoria (Except Mal Unit × Lado) := do
  if tam < bytes then
    return (.error .buzonCorto, l)
  escribirBytes 0 (zeros bytes)
  escribir32 Campo.magia magia
  escribir16 Campo.version version
  escribir16 Campo.casillas (UInt16.ofNat casillas)
  return (.ok (), nuevo)

/-- `sacar`, with what is left in the buffer; `buzon.rs:206–231`. -/
def sacar (tam : Nat) (l : Lado) (dst : Bytes) :
    Prog memoria (Except Mal (Option Nat) × Lado × Bytes) := do
  if tam < bytes then
    return (.error .buzonCorto, l, dst)
  let escrito ← leer32 Campo.txEscrito
  let pendientes := (escrito - l.txLeido).toNat
  if pendientes = 0 then
    return (.ok none, l, dst)
  if pendientes > casillas then
    return (.error .indiceImposible, l, dst)
  let base := casillaTx l.txLeido.toNat
  let largo := (← leer16 base).toNat
  let l := { l with txLeido := l.txLeido + 1 }
  escribir32 Campo.txLeido l.txLeido
  if largo > tramaMaxima ∨ largo > dst.length then
    return (.error .largoImposible, l, dst)
  let copia ← copiar (base + 2) largo
  return (.ok (some largo), { l with sacadas := l.sacadas + 1 }, copia ++ dst.drop largo)

/-- `meter`; `buzon.rs:234–259`. -/
def meter (tam : Nat) (l : Lado) (trama : Bytes) : Prog memoria (Except Mal Bool × Lado) := do
  if tam < bytes then
    return (.error .buzonCorto, l)
  let leido ← leer32 Campo.rxLeido
  let ocupadas := (l.rxEscrito - leido).toNat
  if ocupadas > casillas then
    return (.error .indiceImposible, l)
  if ocupadas = casillas ∨ trama.length > tramaMaxima then
    let l := { l with tiradas := l.tiradas + 1 }
    escribir32 Campo.tiradas l.tiradas.toUInt32
    return (.ok false, l)
  let base := casillaRx l.rxEscrito.toNat
  escribir16 base (UInt16.ofNat trama.length)
  escribirBytes (base + 2) trama
  let l := { l with rxEscrito := l.rxEscrito + 1 }
  escribir32 Campo.rxEscrito l.rxEscrito
  let l := { l with rxSeq := l.rxSeq + 1 }
  escribir64 Campo.rxSecuencia l.rxSeq
  return (.ok true, { l with metidas := l.metidas + 1 })

end Lado

/-! ### The process's side -/

/-- `NoEnvia`; `buzon.rs:274–281`. -/
inductive NoEnvia
  | revocado | llena | larga
  deriving DecidableEq

namespace Cliente

/-- `vivo`; `buzon.rs:289–294`. -/
def vivo (tam : Nat) : Prog memoria Bool := do
  if tam < bytes then
    return false
  if (← leer32 Campo.magia) ≠ magia then
    return false
  if (← leer16 Campo.casillas).toNat ≠ casillas then
    return false
  return (← leer32 Campo.estado) = 0

/-- `enviar`; `buzon.rs:313–330`. -/
def enviar (tam : Nat) (trama : Bytes) : Prog memoria (Except NoEnvia Unit) := do
  if !(← vivo tam) then
    return .error .revocado
  if trama.length > tramaMaxima then
    return .error .larga
  let escrito ← leer32 Campo.txEscrito
  let leido ← leer32 Campo.txLeido
  if (escrito - leido).toNat ≥ casillas then
    return .error .llena
  let base := casillaTx escrito.toNat
  escribir16 base (UInt16.ofNat trama.length)
  escribirBytes (base + 2) trama
  escribir32 Campo.txEscrito (escrito + 1)
  return .ok ()

/-- `recibir`, with what is left in the buffer; `buzon.rs:333–349`. -/
def recibir (tam : Nat) (dst : Bytes) : Prog memoria (Option Nat × Bytes) := do
  if tam < bytes then
    return (none, dst)
  if (← leer32 Campo.magia) ≠ magia then
    return (none, dst)
  let escrito ← leer32 Campo.rxEscrito
  let leido ← leer32 Campo.rxLeido
  if escrito = leido then
    return (none, dst)
  let base := casillaRx leido.toNat
  let largo := min (min (← leer16 base).toNat tramaMaxima) dst.length
  let copia ← copiar (base + 2) largo
  escribir32 Campo.rxLeido (leido + 1)
  return (some largo, copia ++ dst.drop largo)

end Cliente

end BmoX.Red
