import BmoX.Base.Prog
import BmoX.Estratos.Objetos

/-!
# Streams: splitting one into blocks and walking its tree

`platform/drivers/storage/estratos/src/flujo.rs:66–233` and `read.rs:38–85`. The crate does no
input or output of its own: the caller brings `poner`, which writes one block, and `bloque`,
which reads one. Block counts are natural numbers, since a plan counts under 2^53 of them; block
numbers are words and wrap.
-/

namespace BmoX.Estratos

open BmoX.Base BmoX.Blake3

variable {I : Interface}

/-! ### Plans -/

/-- `FILAS`; `flujo.rs:49`. -/
abbrev filas : Nat := nivelesMax + 1

/-- What storing a stream will cost; `flujo.rs:53–61`. -/
structure Plan where
  niveles : Nat
  porNivel : Nat → Nat
  total : Nat
  niveles_le : niveles ≤ nivelesMax

/-- The levels above a row of `n` blocks; the loop of `flujo.rs:84–91`, with `quedan` rows
still free. -/
def subir : Nat → Nat → (Nat → Nat) → Nat → Option (Nat × (Nat → Nat))
  | quedan, niveles, porNivel, n =>
    if n > 1 then
      match quedan with
      | 0 => none
      | quedan + 1 =>
        let n := (n + (ptrsPorBloque - 1)) / ptrsPorBloque
        subir quedan (niveles + 1) (Function.update porNivel (niveles + 1) n) n
    else some (niveles, porNivel)

/-- Climbing adds at most the rows that are free. -/
theorem subir_niveles_le {quedan niveles n : Nat} {porNivel : Nat → Nat}
    {r : Nat × (Nat → Nat)} (h : subir quedan niveles porNivel n = some r) :
    r.1 ≤ niveles + quedan := by
  induction quedan generalizing niveles porNivel n with
  | zero =>
    rw [subir] at h
    split at h
    · cases h
    · cases h
      exact Nat.le_refl _
  | succ quedan ih =>
    rw [subir] at h
    split at h
    · exact (ih h).trans (by omega)
    · cases h
      exact Nat.le_add_right ..

/-- The layout for `size` bytes; `flujo.rs:71–97`. -/
def planDe (size : UInt64) : Option Plan :=
  if size = 0 then none
  else
    let datos := (size.toNat + (bloque - 1)) / bloque
    let fila := Function.update (fun _ ↦ 0) 0 datos
    match h : subir nivelesMax 0 fila datos with
    | none => none
    | some (niveles, porNivel) =>
      some ⟨niveles, porNivel, ((List.range filas).map porNivel).sum,
        (subir_niveles_le h).trans (Nat.zero_add _).le⟩

/-! ### Building the tree -/

/-- A tree under construction; `flujo.rs:108–119`. -/
structure Arbol where
  plan : Plan
  cursor : Nat → UInt64
  indice : Nat → Bloque
  lleno : Nat → Nat
  raiz : Option BlockPtr
  trozos : Nat

/-- One block written: where and which bytes. -/
abbrev Poner (I : Interface) := UInt64 → Bytes → Prog I Bool

namespace Arbol

/-- The row `k` of a plan starts after the rows below it; the loop of `flujo.rs:131–135`. -/
def cursorDe (plan : Plan) (base : UInt64) : Nat → UInt64
  | 0 => base
  | k + 1 => cursorDe plan base k + UInt64.ofNat (plan.porNivel k)

/-- Start a tree at `base`, with `cuantos` index blocks lent; `flujo.rs:126–137`. -/
def nuevo (plan : Plan) (base : UInt64) (cuantos : Nat) (indice : Nat → Bloque) :
    Except FormatError Arbol :=
  if cuantos < plan.niveles then .error .sinScratch
  else .ok ⟨plan, cursorDe plan base, indice, fun _ ↦ 0, none, 0⟩

/-- Copy a pointer into the index of a level; `flujo.rs:187–189`. -/
def anotar (a : Arbol) (nivel : Nat) (ptr : BlockPtr) : Arbol :=
  let hueco := a.lleno nivel * ptrLen
  let mio := Arr.pad bloque (splice (a.indice (nivel - 1)).1 hueco ptr.encode)
  { a with
    indice := Function.update a.indice (nivel - 1) mio
    lleno := Function.update a.lleno nivel (a.lleno nivel + 1) }

/-- Write the index of a level as far as it is filled; `flujo.rs:199–217`. -/
def cerrarNivel (poner : Poner I) (a : Arbol) (nivel : Nat) :
    ExceptT FormatError (Prog I) (BlockPtr × Arbol) := do
  let usados := a.lleno nivel * ptrLen
  let lba := a.cursor nivel
  let datos := (a.indice (nivel - 1)).1.take usados
  if ← poner lba datos then
    return (.nuevo lba 0 datos,
      { a with
        cursor := Function.update a.cursor nivel (lba + 1)
        lleno := Function.update a.lleno nivel 0 })
  else throw .io

/-- Hang a pointer from a level, closing the full ones upwards; the loop of `flujo.rs:172–196`.
`quedan` counts the levels from this one up to the last. -/
def colgar (poner : Poner I) : Nat → Arbol → BlockPtr → ExceptT FormatError (Prog I) Arbol
  | 0, a, ptr => return { a with raiz := some ptr }
  | quedan + 1, a, ptr => do
    let nivel := a.plan.niveles - quedan
    let a := a.anotar nivel ptr
    if a.lleno nivel < ptrsPorBloque then return a
    else
      let (ptr, a) ← cerrarNivel poner a nivel
      colgar poner quedan a ptr

/-- Push the next piece of data; `flujo.rs:144–164`. -/
def empujar (poner : Poner I) (a : Arbol) (datos : Bytes) :
    ExceptT FormatError (Prog I) Arbol := do
  if datos = [] ∨ datos.length > bloque then throw .badField
  else if a.trozos ≥ a.plan.porNivel 0 then throw .badField
  else
    let lba := a.cursor 0
    if ← poner lba datos then
      let a := { a with
        cursor := Function.update a.cursor 0 (lba + 1)
        trozos := a.trozos + 1 }
      colgar poner a.plan.niveles a (.nuevo lba 0 datos)
    else throw .io

/-- Close the levels that stay half full; the loop of `flujo.rs:224–231`. `quedan` counts the
levels from this one up to the last. -/
def cerrarDesde (poner : Poner I) : Nat → Arbol → ExceptT FormatError (Prog I) Arbol
  | 0, a => return a
  | quedan + 1, a => do
    let nivel := a.plan.niveles - quedan
    if a.lleno nivel > 0 then
      let (ptr, a) ← cerrarNivel poner a nivel
      cerrarDesde poner quedan (← colgar poner quedan a ptr)
    else cerrarDesde poner quedan a

/-- Close what is half done and hand over the root; `flujo.rs:220–233`. -/
def cerrar (poner : Poner I) (a : Arbol) : ExceptT FormatError (Prog I) BlockPtr := do
  if a.trozos ≠ a.plan.porNivel 0 then throw .badField
  else
    match (← cerrarDesde poner a.plan.niveles a).raiz with
    | some raiz => return raiz
    | none => throw .badField

end Arbol

/-! ### Walking the tree -/

/-- One block read, or nothing; `Fuente`, `read.rs:29–33`. -/
abbrev Fuente (I : Interface) := UInt64 → Prog I (Option Bloque)

/-- What receives the pieces: a state, and whether it wants more. -/
abbrev Salida (τ : Type) := τ → Bytes → τ × Bool

section Walk

variable {τ : Type}

/-- The bytes a pointer promises, checked; `read.rs:58–70`. -/
def leerPuntero (src : Fuente I) (scratch : Nat) (p : BlockPtr) :
    ExceptT FormatError (Prog I) Bytes := do
  if scratch = 0 then throw .sinScratch
  else
    match ← src p.lba with
    | none => throw .io
    | some mio =>
      let ini := p.off.toNat
      let fin := ini + p.len.toNat
      if fin > bloque then throw .badField
      else
        let datos := slice mio.1 ini p.len.toNat
        if p.verifica datos then return datos else throw .badChecksum

/-- Walk the pointers of an index block; the loop of `read.rs:77–83`. -/
def bajarHijos (baja : BlockPtr → τ × Bool → ExceptT FormatError (Prog I) (τ × Bool)) :
    List Bytes → τ × Bool → ExceptT FormatError (Prog I) (τ × Bool)
  | [], e => return e
  | r :: rs, e => do
    let hijo ← liftM (BlockPtr.decode r)
    if hijo.esNulo then return e
    else
      let e ← baja hijo e
      if e.2 then bajarHijos baja rs e else return e

/-- Walk the tree under a pointer; the state carries `seguir`; `read.rs:49–85`. -/
def bajar (src : Fuente I) (salida : Salida τ) :
    Nat → Nat → BlockPtr → τ × Bool → ExceptT FormatError (Prog I) (τ × Bool)
  | niveles, scratch, p, e =>
    if e.2 then do
      let datos ← leerPuntero src scratch p
      match niveles with
      | 0 => return salida e.1 datos
      | niveles + 1 => bajarHijos (bajar src salida niveles (scratch - 1)) (records ptrLen datos) e
    else return e

/-- Walk the tree of a stream and hand over its pieces in order; `read.rs:38–47`. -/
def descender (src : Fuente I) (raiz : BlockPtr) (niveles scratch : Nat) (salida : Salida τ)
    (t : τ) : ExceptT FormatError (Prog I) τ := do
  return (← bajar src salida niveles scratch raiz (t, true)).1

end Walk

end BmoX.Estratos
