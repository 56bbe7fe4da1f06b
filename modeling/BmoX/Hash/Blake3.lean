import BmoX.Base.Bytes

/-!
# BLAKE3, incremental

`platform/shared/bmo-hash/src/lib.rs:33–350`. A 1024-byte chunk is compressed in 64-byte
blocks; finished chunks leave a chaining value on a stack that `push_cv` merges pairwise.
An index of the source that would be out of bounds (a Rust panic) is `none`.
-/

namespace BmoX.Blake3

open BmoX.Base

/-- A 256-bit sum; `estratos/src/lib.rs:79`. -/
abbrev Hash := Arr 32

/-- `NO_HASH`: all zeros, "there is none"; `estratos/src/lib.rs:82`. -/
def noHash : Hash := Arr.pad 32 []

/-- A chaining value: eight words. -/
abbrev Cv := Vector UInt32 8

/-- Bytes of a compression block; `bmo-hash/src/lib.rs:35`. -/
def blockLen : Nat := 64

/-- Bytes of a chunk; `bmo-hash/src/lib.rs:36`. -/
def chunkLen : Nat := 1024

/-- Entries of the chaining-value stack; `bmo-hash/src/lib.rs:277`. -/
def cvStackMax : Nat := 54

/-- Domain flags; `bmo-hash/src/lib.rs:39–42`. -/
def chunkStart : UInt32 := 1
@[inherit_doc chunkStart] def chunkEnd : UInt32 := 2
@[inherit_doc chunkStart] def parent : UInt32 := 4
@[inherit_doc chunkStart] def root : UInt32 := 8

/-- Initial chaining value; `bmo-hash/src/lib.rs:45–54`. -/
def iv : Cv :=
  #v[0x6A09E667, 0xBB67AE85, 0x3C6EF372, 0xA54FF53A,
     0x510E527F, 0x9B05688C, 0x1F83D9AB, 0x5BE0CD19]

local instance neZeroDieciseis : NeZero 16 := ⟨by decide⟩

/-- Message permutation between rounds; `bmo-hash/src/lib.rs:57`. -/
def msgPermutation : Vector (Fin 16) 16 :=
  #v[2, 6, 3, 10, 7, 0, 4, 13, 1, 11, 12, 5, 9, 14, 15, 8]

/-- `u32::rotate_right` for `0 < n < 32`. -/
def rotateRight (x n : UInt32) : UInt32 := (x >>> n) ||| (x <<< (32 - n))

/-- The quarter round; `bmo-hash/src/lib.rs:61–70`. -/
def g (s : Vector UInt32 16) (a b c d : Fin 16) (mx my : UInt32) : Vector UInt32 16 :=
  let s := s.set a (s[a] + s[b] + mx)
  let s := s.set d (rotateRight (s[d] ^^^ s[a]) 16)
  let s := s.set c (s[c] + s[d])
  let s := s.set b (rotateRight (s[b] ^^^ s[c]) 12)
  let s := s.set a (s[a] + s[b] + my)
  let s := s.set d (rotateRight (s[d] ^^^ s[a]) 8)
  let s := s.set c (s[c] + s[d])
  s.set b (rotateRight (s[b] ^^^ s[c]) 7)

/-- Columns, then diagonals; `bmo-hash/src/lib.rs:73–84`. -/
def round (s m : Vector UInt32 16) : Vector UInt32 16 :=
  let s := g s 0 4 8 12 m[(0 : Fin 16)] m[(1 : Fin 16)]
  let s := g s 1 5 9 13 m[(2 : Fin 16)] m[(3 : Fin 16)]
  let s := g s 2 6 10 14 m[(4 : Fin 16)] m[(5 : Fin 16)]
  let s := g s 3 7 11 15 m[(6 : Fin 16)] m[(7 : Fin 16)]
  let s := g s 0 5 10 15 m[(8 : Fin 16)] m[(9 : Fin 16)]
  let s := g s 1 6 11 12 m[(10 : Fin 16)] m[(11 : Fin 16)]
  let s := g s 2 7 8 13 m[(12 : Fin 16)] m[(13 : Fin 16)]
  g s 3 4 9 14 m[(14 : Fin 16)] m[(15 : Fin 16)]

/-- `bmo-hash/src/lib.rs:87–92`. -/
def permute (m : Vector UInt32 16) : Vector UInt32 16 := msgPermutation.map (m[·])

/-- Six rounds each followed by a permutation, and a seventh; `bmo-hash/src/lib.rs:121–134`. -/
def rounds : Nat → Vector UInt32 16 → Vector UInt32 16 → Vector UInt32 16
  | 0, s, m => round s m
  | n + 1, s, m => rounds n (round s m) (permute m)

/-- Compression of one block; `bmo-hash/src/lib.rs:95–142`. -/
def compress (chaining : Cv) (block : Vector UInt32 16) (counter : UInt64)
    (len flags : UInt32) : Vector UInt32 16 :=
  let tail : Vector UInt32 8 :=
    #v[iv[0], iv[1], iv[2], iv[3], counter.toUInt32, (counter >>> 32).toUInt32, len, flags]
  let s := rounds 6 (chaining ++ tail) block
  Vector.ofFn fun i : Fin 16 ↦
    if h : i < 8 then s[i] ^^^ s[i.val + 8] else s[i] ^^^ chaining[i.val - 8]

/-- The first eight words of a compression. -/
def cvOf (s : Vector UInt32 16) : Cv := Vector.ofFn fun i : Fin 8 ↦ s[i.val]

/-- Sixteen little-endian words of a block, zero after its bytes;
`bmo-hash/src/lib.rs:144–151`. -/
def wordsFromBytes (block : Bytes) : Vector UInt32 16 :=
  let b := Arr.pad blockLen block
  Vector.ofFn fun i : Fin 16 ↦ u32De (slice b.1 (4 * i.val) 4)

/-- A chunk being filled. `block` holds the bytes present in the 64-byte buffer, so its
length is `block_len`; `bmo-hash/src/lib.rs:154–161`. -/
structure ChunkState where
  chaining : Cv
  chunkCounter : UInt64
  block : Bytes
  blocksCompressed : Nat
  flags : UInt32

namespace ChunkState

/-- `bmo-hash/src/lib.rs:164–173`. -/
def new (key : Cv) (chunkCounter : UInt64) (flags : UInt32) : ChunkState :=
  ⟨key, chunkCounter, [], 0, flags⟩

/-- `bmo-hash/src/lib.rs:175–177`. -/
def len (c : ChunkState) : Nat := c.blocksCompressed * blockLen + c.block.length

/-- `bmo-hash/src/lib.rs:179–185`. -/
def startFlag (c : ChunkState) : UInt32 := if c.blocksCompressed = 0 then chunkStart else 0

/-- Compress the full block of a chunk; `bmo-hash/src/lib.rs:190–211`. -/
def comprimir (c : ChunkState) : ChunkState :=
  let s := compress c.chaining (wordsFromBytes c.block) c.chunkCounter
    (UInt32.ofNat blockLen) (c.flags ||| c.startFlag)
  { c with chaining := cvOf s, blocksCompressed := c.blocksCompressed + 1, block := [] }

/-- One turn of the loop per unit of fuel, each copying at least one byte;
`bmo-hash/src/lib.rs:187–218`. -/
def updateLoop : Nat → ChunkState → Bytes → ChunkState
  | 0, c, _ => c
  | n + 1, c, input =>
    if input = [] then c
    else
      let c := if c.block.length = blockLen then c.comprimir else c
      let take := min (blockLen - c.block.length) input.length
      updateLoop n { c with block := c.block ++ input.take take } (input.drop take)

/-- `bmo-hash/src/lib.rs:187–218`. -/
def update (c : ChunkState) (input : Bytes) : ChunkState := updateLoop input.length c input

/-- Close the chunk; `bmo-hash/src/lib.rs:224–250`. -/
def output (c : ChunkState) (isRoot : Bool) : Cv :=
  let flags := c.flags ||| c.startFlag ||| chunkEnd ||| (if isRoot then root else 0)
  cvOf (compress c.chaining (wordsFromBytes c.block) c.chunkCounter
    (UInt32.ofNat c.block.length) flags)

end ChunkState

/-- Combine two chaining values; `bmo-hash/src/lib.rs:253–271`. -/
def parentCv (left right key : Cv) (flags : UInt32) (isRoot : Bool) : Cv :=
  cvOf (compress key (left ++ right) 0 (UInt32.ofNat blockLen)
    (flags ||| parent ||| (if isRoot then root else 0)))

/-- The hasher; the top of `cv_stack` is the head of the list;
`bmo-hash/src/lib.rs:274–279`. -/
structure Hasher where
  chunk : ChunkState
  cvStack : List Cv

namespace Hasher

/-- `bmo-hash/src/lib.rs:282–288`. -/
def new : Hasher := ⟨ChunkState.new iv 0 0, []⟩

/-- Merge while the chunk count is even, then push. The 64-bit count is halved at every
turn, so 64 units of fuel are enough for any non-zero count;
`bmo-hash/src/lib.rs:290–302`. -/
def pushCv : Nat → List Cv → Cv → UInt64 → Option (List Cv)
  | 0, _, _, _ => none
  | n + 1, pila, cv, total =>
    if total &&& 1 = 0 then
      match pila with
      | [] => none
      | left :: resto => pushCv n resto (parentCv left cv iv 0 false) (total >>> 1)
    else if pila.length < cvStackMax then some (cv :: pila)
    else none

/-- Close a full chunk and open the next; `bmo-hash/src/lib.rs:306–311`. -/
def cerrarChunk (h : Hasher) : Option Hasher := do
  let cv := h.chunk.output false
  let chunksSoFar := h.chunk.chunkCounter + 1
  let pila ← pushCv 64 h.cvStack cv chunksSoFar
  return ⟨ChunkState.new iv chunksSoFar 0, pila⟩

/-- One turn of the loop per unit of fuel, each consuming at least one byte;
`bmo-hash/src/lib.rs:304–317`. -/
def updateLoop : Nat → Hasher → Bytes → Option Hasher
  | 0, h, _ => some h
  | n + 1, h, input =>
    if input = [] then some h
    else do
      let h ← if h.chunk.len = chunkLen then h.cerrarChunk else some h
      let take := min (chunkLen - h.chunk.len) input.length
      updateLoop n { h with chunk := h.chunk.update (input.take take) } (input.drop take)

/-- `bmo-hash/src/lib.rs:304–317`. -/
def update (h : Hasher) (input : Bytes) : Option Hasher := updateLoop input.length h input

/-- `cv_to_bytes`; `bmo-hash/src/lib.rs:337–343`. -/
def cvToBytes (cv : Cv) : Hash := Arr.pad 32 (cv.toList.flatMap u32Le)

/-- Empty the stack towards the root: the last merge carries `ROOT`;
`bmo-hash/src/lib.rs:325–332`. -/
def vaciar : List Cv → Cv → Cv
  | [], cv => cv
  | left :: resto, cv => vaciar resto (parentCv left cv iv 0 resto.isEmpty)

/-- `bmo-hash/src/lib.rs:319–334`. -/
def finalize (h : Hasher) : Hash :=
  if h.cvStack = [] then cvToBytes (h.chunk.output true)
  else cvToBytes (vaciar h.cvStack (h.chunk.output false))

end Hasher

/-- One-shot hash; `bmo-hash/src/lib.rs:346–350`. -/
def hash (bytes : Bytes) : Option Hash := do
  let h ← Hasher.new.update bytes
  return h.finalize

/-- `estratos::blake3`, the one-shot hash re-exported; `estratos/src/lib.rs:69`. -/
@[irreducible] def blake3 (bytes : Bytes) : Hash := (hash bytes).getD noHash

end BmoX.Blake3
