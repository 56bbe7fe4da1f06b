import BmoX.Base.Bitmap
import BmoX.Mm.Titular

/-!
# The physical frame allocator

`kernel/src/ring0/mm/phys/roja.rs`. One bit for each frame of the physmap, zero for a free one, in
words of 64: whole words that are full are skipped, a hint says where the last frame came from, and
beside the bitmap stands the number of free frames. Arithmetic on addresses wraps, as in the release
build.
-/

namespace BmoX.Mm

open BmoX.Base

/-- `MAX_PHYS`; `phys/roja.rs:32`. -/
def maxPhys : UInt64 := physmapSize

/-- `FRAME_SLOTS`; `phys/roja.rs:33`. -/
abbrev frameSlots : Nat := 65536

instance : NeZero frameSlots := ⟨by decide⟩

/-- An entry of the boot memory map; `boot_context/src/lib.rs:18–22`. -/
structure MemoryEntry where
  base : UInt64
  size : UInt64
  kind : UInt32

/-- What `init` reads: the fields of the `BootContext`, where it lies and how long it is, and the
end of the kernel image. -/
structure Arranque where
  memoryMap : List MemoryEntry
  stages : List (UInt64 × UInt64)
  ctx : UInt64
  ctxBytes : UInt64
  fbAddr : UInt64
  fbStride : UInt32
  fbHeight : UInt32
  ring3PayloadPhys : UInt64
  ring3PayloadSize : UInt64
  ring3WorkspacePhys : UInt64
  ring3WorkspaceSize : UInt64
  bssEnd : UInt64

/-- `caida::BASE` and `caida::BYTES`; `cabina/caida.rs:82–84`. -/
def caidaBase : UInt64 := 0x04000000

def caidaBytes : UInt64 := 262144

/-- The allocator: `BITMAP`, `TOTAL_FRAMES`, `FREE_FRAMES`, `HINT`, and the table of owners that it
keeps up to date. -/
structure Fisica where
  bitmap : Bitmap frameSlots
  totalFrames : UInt64
  freeFrames : UInt64
  hint : Nat
  titulares : Titulares

/-- `a & !(PAGE - 1)`. -/
def alinea (a : UInt64) : UInt64 := a &&& ~~~(page - 1)

/-- `frame as u64 * PAGE`. -/
def marco (f : Nat) : UInt64 := UInt64.ofNat f * page

namespace Fisica

/-! ### Start -/

/-- The body of the loop of `reserve_range`; `phys/roja.rs:96–102`. -/
def reserveMarco (s : Fisica) (f : Nat) : Fisica :=
  if s.bitmap (Bitmap.word f) &&& bitMask (f % 64) = 0 then
    { s with bitmap := s.bitmap.set f, freeFrames := s.freeFrames - 1 }
  else s

/-- `reserve_range`; `phys/roja.rs:84–104`. -/
def reserveRange (s : Fisica) (base size : UInt64) : Fisica :=
  if size = 0 ∨ base ≥ maxPhys then s
  else
    let a := alinea base
    let fin := alinea (base + size + page - 1)
    let fin := if fin > maxPhys then maxPhys else fin
    (List.range' (a / page).toNat ((fin / page).toNat - (a / page).toNat)).foldl reserveMarco s

/-- The body of the loop of `init` over a usable entry; `phys/roja.rs:152–178`. -/
def usaMarco (s : Fisica) (f : Nat) : Fisica :=
  if s.bitmap (Bitmap.word f) &&& bitMask (f % 64) ≠ 0 then
    { s with
      bitmap := s.bitmap.clear f
      totalFrames := s.totalFrames + 1
      freeFrames := s.freeFrames + 1 }
  else s

/-- What `init` does with an entry of the map; `phys/roja.rs:124–180`. -/
def usaEntrada (s : Fisica) (e : MemoryEntry) : Fisica :=
  if e.kind ≠ 1 ∨ e.size = 0 then s
  else
    let base := alinea (e.base + page - 1)
    let fin := alinea (e.base + e.size)
    if base ≥ maxPhys then s
    else
      let fin := if fin > maxPhys then maxPhys else fin
      (List.range' (base / page).toNat ((fin / page).toNat - (base / page).toNat)).foldl usaMarco s

end Fisica

namespace Arranque

/-- The ranges `init` reserves, in its order; `phys/roja.rs:182–218`. -/
def reservas (a : Arranque) : List (UInt64 × UInt64) :=
  let kernelEnd := alinea (a.bssEnd + page - 1)
  let fbStart := alinea a.fbAddr
  let fbTail := a.fbStride.toUInt64 * a.fbHeight.toUInt64 * 4 + (a.fbAddr - fbStart)
  [(0, 0x100000), (0x400000, kernelEnd - 0x400000)] ++
    a.stages.filter (fun r ↦ r.1 ≠ 0 ∧ r.2 ≠ 0) ++
    [(a.ctx, a.ctxBytes)] ++
    (if a.fbAddr ≠ 0 then [(fbStart, fbTail)] else []) ++
    [(0xFEC00000, 0x1400000), (caidaBase, caidaBytes)] ++
    (if a.ring3PayloadPhys ≠ 0 then [(a.ring3PayloadPhys, a.ring3PayloadSize)] else []) ++
    (if a.ring3WorkspacePhys ≠ 0 then [(a.ring3WorkspacePhys, a.ring3WorkspaceSize)] else [])

/-- `init`, over the table of owners as it stands; `phys/roja.rs:108–219`. -/
def init (a : Arranque) (t : Titulares) : Fisica :=
  a.reservas.foldl (fun s r ↦ s.reserveRange r.1 r.2)
    (a.memoryMap.foldl Fisica.usaEntrada
      { bitmap := fun _ ↦ ~~~0, totalFrames := 0, freeFrames := 0, hint := 0, titulares := t })

end Arranque

namespace Fisica

/-! ### Frames out and in -/

/-- The scan of `alloc_frame`: the first of `n` words from `i` on that is not full;
`phys/roja.rs:290–299`. -/
def buscaPalabra (bm : Bitmap frameSlots) : Nat → Fin frameSlots → Option (Fin frameSlots)
  | 0, _ => none
  | n + 1, i => if bm i ≠ ~~~0 then some i else buscaPalabra bm n (i + 1)

/-- `contar_de_nuevo`; `phys/roja.rs:252–258`. -/
def contarDeNuevo (bm : Bitmap frameSlots) : UInt64 :=
  (List.finRange frameSlots).foldl (fun libres i ↦ libres + UInt64.ofNat (countZeros (bm i))) 0

/-- `alloc_frame`; `phys/roja.rs:260–321`. -/
def allocFrame (s : Fisica) : Option UInt64 × Fisica :=
  if s.freeFrames = 0 then (none, s)
  else match buscaPalabra s.bitmap frameSlots (Fin.ofNat frameSlots s.hint) with
    | some i =>
      let w := s.bitmap i
      let bit := trailingZeros (~~~w)
      let phys := marco (i * 64 + bit)
      (some phys, { s with
        bitmap := Function.update s.bitmap i (w ||| bitMask bit)
        freeFrames := s.freeFrames - 1
        hint := i
        titulares := s.titulares.marcar phys .anonimo })
    | none => (none, { s with freeFrames := contarDeNuevo s.bitmap })

/-- The scan of `alloc_frames_contig` from `frame` on, with the run that is open; `n` bounds the
turns; `phys/roja.rs:344–375`. -/
def buscaTramo (bm : Bitmap frameSlots) (count : UInt64) : Nat → Nat → UInt64 → Nat → Option Nat
  | 0, _, _, _ => none
  | n + 1, frame, run, start =>
    if frame < frameSlots * 64 then
      if run = 0 ∧ frame % 64 = 0 ∧ bm (Bitmap.word frame) = ~~~0 then
        buscaTramo bm count n (frame + 64) run start
      else if bm (Bitmap.word frame) &&& bitMask (frame % 64) = 0 then
        let start := if run = 0 then frame else start
        let run := run + 1
        if run = count then some start else buscaTramo bm count n (frame + 1) run start
      else buscaTramo bm count n (frame + 1) 0 start
    else none

/-- `alloc_frames_contig`; `phys/roja.rs:331–378`. -/
def allocFramesContig (s : Fisica) (count : UInt64) : Option UInt64 × Fisica :=
  if count = 0 then (none, s)
  else if s.freeFrames < count then (none, s)
  else match buscaTramo s.bitmap count (frameSlots * 64) 0 0 0 with
    | some start =>
      let frames := List.range' start count.toNat
      (some (marco start), { s with
        bitmap := frames.foldl Bitmap.set s.bitmap
        freeFrames := s.freeFrames - count
        hint := start / 64
        titulares := frames.foldl (fun t f ↦ t.marcar (marco f) .anonimo) s.titulares })
    | none => (none, s)

/-- `free_frame`; `phys/roja.rs:443–501`. -/
def freeFrame (s : Fisica) (phys : UInt64) : Fisica :=
  if phys % page ≠ 0 ∨ phys ≥ maxPhys then s
  else
    let f := (phys / page).toNat
    if s.bitmap (Bitmap.word f) &&& bitMask (f % 64) ≠ 0 then
      { s with
        bitmap := s.bitmap.clear f
        freeFrames := s.freeFrames + 1
        titulares := s.titulares.marcar phys .nadie }
    else s

/-- `alloc_frame_de`; `phys/roja.rs:510–514`. -/
def allocFrameDe (s : Fisica) (quien : Titular) : Option UInt64 × Fisica :=
  match s.allocFrame with
  | (none, s) => (none, s)
  | (some f, s) => (some f, { s with titulares := s.titulares.marcar f quien })

/-- `free_frame_de`; `phys/roja.rs:545–563`. -/
def freeFrameDe (s : Fisica) (phys : UInt64) (quien : Titular) : Bool × Fisica :=
  if s.titulares.puedeSoltar phys quien then (true, s.freeFrame phys) else (false, s)

/-- `esta_libre`; `phys/roja.rs:587–596`. -/
def estaLibre (s : Fisica) (phys : UInt64) : Option Bool :=
  if phys ≥ maxPhys then none
  else
    let f := (phys / page).toNat
    some (s.bitmap (Bitmap.word f) &&& bitMask (f % 64) = 0)

end Fisica

end BmoX.Mm
