import BmoX.Base.Linked
import BmoX.Base.Bytes

/-!
# The free-list heap

`toolchain/lang/base/bmo-rt/src/heap/`. Blocks of memory with a header of one word: their size, and
whether they are free in its low bit. The free blocks are a list, linked inside themselves; a backend
gives arenas to be cut in blocks, and chunks of their own for large requests. Arithmetic on sizes
wraps, as in the release build.
-/

namespace BmoX.Rt

open BmoX.Base

/-! ### Headers -/

/-- `MIN_BLOCK`, `ARENA_SIZE` and `ARENA_MAGIC`; `heap/freelist.rs:6–10`. -/
def minBlock : UInt64 := 32

def arenaSize : UInt64 := 1024 * 1024

def arenaMagic : UInt64 := 0x52544E41B4D0424D

/-- `HEADER_SIZE`, and the size of an `ArenaHeader`; `heap/freelist.rs:35–42`. -/
def headerSize : Nat := 8

def arenaHeaderSize : Nat := 24

/-- `BlockHeader::new`; `heap/freelist.rs:18–20`. -/
def blockHeader (size : UInt64) (free : Bool) : UInt64 := size ||| if free then 1 else 0

/-- A chunk that the backend gave, and whether it is an arena. -/
structure Chunk where
  base : Nat
  bytes : Nat
  arena : Bool
  deriving DecidableEq, Repr

/-- The allocator over its backend: the memory, `free_head`, `arenas`, and the chunks that the
backend gave. A null pointer is zero. -/
structure Heap where
  mem : Memory
  freeHead : Nat
  arenas : Nat
  chunks : List Chunk

/-- The backend's answer to a call: a chunk of at least so many bytes, or null. -/
abbrev Backend := UInt64 → Nat

/-- No list is longer: a walk that goes on for so long never ends. -/
def memorySize : Nat := 2 ^ 64

namespace Heap

/-- `BlockHeader::size`; `heap/freelist.rs:22–24`. -/
def sizeOf (m : Memory) (hdr : Nat) : UInt64 := m.read64 hdr &&& ~~~1

/-- `read_next_free`; `heap/freelist.rs:215–217`. -/
def readNextFree (m : Memory) (hdr : Nat) : Nat := (m.read64 (hdr + headerSize)).toNat

/-- `write_next_free`; `heap/freelist.rs:219–221`. -/
def writeNextFree (m : Memory) (hdr next : Nat) : Memory :=
  m.write64 (hdr + headerSize) (UInt64.ofNat next)

/-- `alloc_chunk` of the backend. -/
def allocChunk (h : Heap) (b : Backend) (minSize : UInt64) (arena : Bool) : Nat × Heap :=
  if b minSize = 0 then (0, h)
  else (b minSize, { h with chunks := ⟨b minSize, minSize.toNat, arena⟩ :: h.chunks })

/-! ### Out -/

/-- `add_arena`; `heap/freelist.rs:200–213`. -/
def addArena (h : Heap) (b : Backend) (size : UInt64) : Nat × Heap :=
  let totalSize := size + 24
  let (raw, h) := h.allocChunk b totalSize true
  if raw = 0 then (0, h)
  else
    let mem := h.mem.write64 raw arenaMagic
    let mem := mem.write64 (raw + 8) totalSize
    let mem := mem.write64 (raw + 16) (UInt64.ofNat h.arenas)
    (raw, { h with mem, arenas := raw })

/-- A block of the list goes out, cut if the rest of it can be a block;
`heap/freelist.rs:111–129`. -/
def takeBlock (h : Heap) (prev curr : Nat) (needed : UInt64) : Nat × Heap :=
  let blockSize := sizeOf h.mem curr
  let nextFree := readNextFree h.mem curr
  let h := if prev = 0 then { h with freeHead := nextFree }
    else { h with mem := writeNextFree h.mem prev nextFree }
  let remaining := blockSize - needed
  if remaining ≥ minBlock then
    let remainderHdr := curr + needed.toNat
    let mem := h.mem.write64 curr (blockHeader needed false)
    let mem := mem.write64 remainderHdr (blockHeader remaining true)
    let mem := writeNextFree mem remainderHdr nextFree
    (curr + headerSize, { h with mem, freeHead := remainderHdr })
  else
    (curr + headerSize, { h with mem := h.mem.write64 curr (blockHeader blockSize false) })

/-- A block comes from a new arena; `heap/freelist.rs:135–155`. -/
def takeArena (h : Heap) (b : Backend) (needed : UInt64) : Nat × Heap :=
  let (arena, h) := h.addArena b arenaSize
  if arena = 0 then (0, h)
  else
    let size := h.mem.read64 (arena + 8)
    let blockStart := arena + arenaHeaderSize
    let avail := size - 24
    if avail < needed then (0, h)
    else
      let remaining := avail - needed
      if remaining ≥ minBlock then
        let remainderHdr := blockStart + needed.toNat
        let mem := h.mem.write64 blockStart (blockHeader needed false)
        let mem := mem.write64 remainderHdr (blockHeader remaining true)
        let mem := writeNextFree mem remainderHdr h.freeHead
        (blockStart + headerSize, { h with mem, freeHead := remainderHdr })
      else
        (blockStart + headerSize,
          { h with mem := h.mem.write64 blockStart (blockHeader avail false) })

/-- A block that is large enough. -/
def fits (m : Memory) (needed : UInt64) (hdr : Nat) : Bool := needed ≤ sizeOf m hdr

/-- `allocate_from_freelist`; `heap/freelist.rs:101–156`. -/
def allocateFromFreelist (h : Heap) (b : Backend) (needed : UInt64) : Option (Nat × Heap) := do
  let needed := if needed < minBlock then minBlock else needed
  let (prev, curr) ← walk (readNextFree h.mem) (fits h.mem needed) memorySize 0 h.freeHead
  return if curr ≠ 0 then h.takeBlock prev curr needed else h.takeArena b needed

/-- `allocate_large`; `heap/freelist.rs:192–198`. -/
def allocateLarge (h : Heap) (b : Backend) (needed : UInt64) : Nat × Heap :=
  let total := if needed < minBlock then minBlock else needed
  let (raw, h) := h.allocChunk b total false
  if raw = 0 then (0, h)
  else (raw + headerSize, { h with mem := h.mem.write64 raw (blockHeader total false) })

/-- The bytes of a block for a request: its header, and the request rounded up to words. -/
def needed (size : UInt64) : UInt64 := 8 + ((size + 7) &&& ~~~7)

/-- `allocate`, which `malloc` and `alloc` are; `none` never returns; `heap/freelist.rs:75–86`. -/
def allocate (h : Heap) (b : Backend) (size : UInt64) : Option (Nat × Heap) :=
  if size = 0 then some (0, h)
  else if needed size ≥ arenaSize / 2 then some (h.allocateLarge b (needed size))
  else h.allocateFromFreelist b (needed size)

/-! ### In -/

/-- The loop of `deallocate_inner`: a free block that starts where this one ends is taken out of the
list and joined to it; `heap/freelist.rs:166–186`. -/
def joinNext (h : Heap) (hdr : Nat) (blockSize : UInt64) : Option Heap := do
  let nextBlock := hdr + blockSize.toNat
  let (prev, curr) ← walk (readNextFree h.mem) (· = nextBlock) memorySize 0 h.freeHead
  if curr = 0 then return h
  else
    let nextSize := sizeOf h.mem nextBlock
    let nextNext := readNextFree h.mem nextBlock
    let h := if prev = 0 then { h with freeHead := nextNext }
      else { h with mem := writeNextFree h.mem prev nextNext }
    return { h with mem := h.mem.write64 hdr (blockHeader (blockSize + nextSize) true) }

/-- `deallocate_inner`; `heap/freelist.rs:158–190`. -/
def deallocateInner (h : Heap) (ptr : Nat) : Option Heap := do
  let hdr := ptr - headerSize
  let h := { h with mem := h.mem.write64 hdr (h.mem.read64 hdr ||| 1) }
  let h ← h.joinNext hdr (sizeOf h.mem hdr)
  return { h with mem := writeNextFree h.mem hdr h.freeHead, freeHead := hdr }

/-- `deallocate`, which `free` and `dealloc` are; `heap/freelist.rs:88–93`. -/
def deallocate (h : Heap) (ptr : Nat) : Option Heap :=
  if ptr = 0 then some h else h.deallocateInner ptr

/-! ### Other calls -/

/-- `calloc`; `heap/mod.rs:39–46`. -/
def calloc (h : Heap) (b : Backend) (nmemb size : UInt64) : Option (Nat × Heap) := do
  let total := nmemb * size
  if total = 0 then return (0, h)
  else
    let (ptr, h) ← h.allocate b total
    if ptr = 0 then return (0, h)
    else return (ptr, { h with mem := h.mem.store ptr (zeros total.toNat) })

/-- `realloc`, of `heap/mod.rs:49–55` and of the allocator, `heap/freelist.rs:233–246`. -/
def realloc (h : Heap) (b : Backend) (ptr : Nat) (newSize : UInt64) : Option (Nat × Heap) :=
  if ptr = 0 then h.allocate b newSize
  else if newSize = 0 then do return (0, ← h.deallocate ptr)
  else do
    let oldSize := sizeOf h.mem (ptr - headerSize) - 8
    if newSize ≤ oldSize then return (ptr, h)
    else
      let (newPtr, h) ← h.allocate b newSize
      if newPtr = 0 then return (0, h)
      else
        let copySize := if oldSize < newSize then oldSize else newSize
        let h := { h with mem := h.mem.store newPtr (h.mem.load ptr copySize.toNat) }
        return (newPtr, ← h.deallocate ptr)

end Heap

end BmoX.Rt
