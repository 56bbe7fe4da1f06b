import BmoX.Estratos.Carpeta
import BmoX.Estratos.Flujo
import Mathlib.Data.List.Forall2

/-!
# What the blocks of a volume say

The abstract side of the store: a volume is its blocks, `v`, and a pointer names what reads back
under it with the hash it carries. `B` is the set of blocks everything must lie in, so that what
is written elsewhere does not change it.
-/

namespace BmoX.Estratos

open BmoX.Base BmoX.Blake3

/-- The bytes a pointer names, if they are the ones it promises. -/
def leePtr (v : UInt64 → Bloque) (p : BlockPtr) : Option Bytes :=
  if p.off.toNat + p.len.toNat > bloque then none
  else
    let datos := slice (v p.lba).1 p.off.toNat p.len.toNat
    if p.verifica datos then some datos else none

/-- The pointers of an index block, up to the first null one. -/
def punterosDe : List Bytes → Except FormatError (List BlockPtr)
  | [] => .ok []
  | r :: rs => do
    let p ← BlockPtr.decode r
    if p.esNulo then return []
    else return p :: (← punterosDe rs)

section Volumen

variable (v : UInt64 → Bloque) (B : UInt64 → Prop)

/-- The pointer reads `d`, in a block of `B`. -/
structure Lee (p : BlockPtr) (d : Bytes) : Prop where
  lee : leePtr v p = some d
  dentro : B p.lba

/-- The pieces of the stream under `p`, with `niveles` levels of indices over them. -/
def Flujo : Nat → BlockPtr → List Bytes → Prop
  | 0, p, ts => ∃ d, Lee v B p d ∧ ts = [d]
  | niveles + 1, p, ts => ∃ d ps tss, Lee v B p d ∧ punterosDe (records ptrLen d) = .ok ps ∧
      List.Forall₂ (Flujo niveles) ps tss ∧ ts = tss.flatten

/-- The pointer names an estrato. -/
def EsEstrato (p : BlockPtr) (e : Estrato) : Prop :=
  p.esNulo = false ∧ ∃ d, Lee v B p d ∧ Estrato.decode d = .ok e

end Volumen

/-! ### Frame -/

section Marco

variable {v v' : UInt64 → Bloque} {B B' : UInt64 → Prop}

/-- Blocks of `B` say the same in another volume that keeps them. -/
def Conserva (v v' : UInt64 → Bloque) (B B' : UInt64 → Prop) : Prop :=
  ∀ lba, B lba → B' lba ∧ v' lba = v lba

theorem Lee.conserva (hc : Conserva v v' B B') {p : BlockPtr} {d : Bytes} (h : Lee v B p d) :
    Lee v' B' p d := by
  obtain ⟨hlee, hB⟩ := h
  obtain ⟨hB', heq⟩ := hc _ hB
  refine ⟨?_, hB'⟩
  rw [leePtr, heq]
  exact hlee

theorem EsEstrato.conserva (hc : Conserva v v' B B') {p : BlockPtr} {e : Estrato}
    (h : EsEstrato v B p e) : EsEstrato v' B' p e := by
  obtain ⟨hp, d, hd, he⟩ := h
  exact ⟨hp, d, hd.conserva hc, he⟩

end Marco

/-! ### A volume says one thing -/

section Unico

variable {v : UInt64 → Bloque} {B B' : UInt64 → Prop}

theorem Lee.unico {p : BlockPtr} {d d' : Bytes} (h : Lee v B p d) (h' : Lee v B' p d') : d = d' :=
  Option.some.inj (h.lee.symm.trans h'.lee)

theorem EsEstrato.unico {p : BlockPtr} {e e' : Estrato} (h : EsEstrato v B p e)
    (h' : EsEstrato v B' p e') : e = e' := by
  obtain ⟨-, d, hd, he⟩ := h
  obtain ⟨-, d', hd', he'⟩ := h'
  obtain rfl := hd.unico hd'
  exact Except.ok.inj (he.symm.trans he')

end Unico

end BmoX.Estratos
