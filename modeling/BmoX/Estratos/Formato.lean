import BmoX.Hash.Blake3
import Mathlib.Algebra.Order.Ring.Nat
import Mathlib.Data.Vector.Basic
import Mathlib.Tactic.Common

/-!
# On-disk format: pointers, superblocks and estratos

`platform/drivers/storage/estratos/src/lib.rs` and the `BlockPtr` of `objects.rs:51–126`.
A record is the concatenation of its fields at the offsets of the source. The records with
a checksum store it last, over everything before it.
-/

namespace BmoX.Estratos

open BmoX.Base BmoX.Blake3

/-- What can go wrong reading a structure; `estratos/src/lib.rs:107–123`. -/
inductive FormatError
  | shortBuffer
  | badMagic
  | badVersion
  | badChecksum
  | badField
  | io
  | sinScratch
  deriving DecidableEq, Repr

/-- `BLOQUE`; `estratos/src/objects.rs:53`. -/
abbrev bloque : Nat := 4096

/-- The contents of one block. -/
abbrev Bloque := Arr bloque

/-! ### Block pointers -/

/-- `PTR_LEN`; `estratos/src/objects.rs:58`. -/
abbrev ptrLen : Nat := 48

/-- `PTRS_POR_BLOQUE`; `estratos/src/objects.rs:62`. -/
abbrev ptrsPorBloque : Nat := bloque / ptrLen

/-- Where a piece of content is and what it must hold; `estratos/src/objects.rs:70–79`. -/
structure BlockPtr where
  lba : UInt64
  off : UInt32
  len : UInt32
  hash : Hash
  deriving DecidableEq

namespace BlockPtr

/-- `estratos/src/objects.rs:82`. -/
def nulo : BlockPtr := ⟨0, 0, 0, noHash⟩

/-- A pointer to known content; `estratos/src/objects.rs:85–87`. -/
def nuevo (lba : UInt64) (off : UInt32) (datos : Bytes) : BlockPtr :=
  ⟨lba, off, UInt32.ofNat datos.length, blake3 datos⟩

/-- `estratos/src/objects.rs:89`. -/
def esNulo (p : BlockPtr) : Bool := p.len = 0 ∧ p.lba = 0

/-- Is this what the pointer promised? `estratos/src/objects.rs:96–98`. -/
def verifica (p : BlockPtr) (datos : Bytes) : Bool :=
  datos.length = p.len.toNat ∧ blake3 datos = p.hash

/-- The pointer stays inside its block, the check of `objects.rs:117`. -/
def EnBloque (p : BlockPtr) : Prop := p.off.toNat + p.len.toNat ≤ bloque

instance (p : BlockPtr) : Decidable p.EnBloque := inferInstanceAs (Decidable (_ ≤ _))

/-- `estratos/src/objects.rs:100–107`. -/
def encode (p : BlockPtr) : Bytes := u64Le p.lba ++ u32Le p.off ++ u32Le p.len ++ p.hash.1

/-- `estratos/src/objects.rs:109–125`. -/
def decode (b : Bytes) : Except FormatError BlockPtr :=
  if b.length < ptrLen then .error .shortBuffer
  else
    let off := u32De (slice b 8 4)
    let len := u32De (slice b 12 4)
    if off.toNat + len.toNat > bloque then .error .badField
    else .ok ⟨u64De (slice b 0 8), off, len, Arr.pad 32 (slice b 16 32)⟩

@[simp] theorem length_encode (p : BlockPtr) : p.encode.length = 48 := by
  simp [encode]

/-- Decoding an encoded pointer only checks that it stays inside its block, whatever
follows its bytes. -/
theorem decode_encode_append (p : BlockPtr) (r : Bytes) :
    decode (p.encode ++ r) = if p.EnBloque then .ok p else .error .badField := by
  have hlen : ¬ (p.encode ++ r).length < ptrLen := by
    simp
  rw [decode, if_neg hlen]
  simp (disch := simp) only [encode, List.append_assoc, slice_append_left,
    slice_append_right, slice_self, length_u64Le, length_u32Le, Nat.sub_self, Nat.reduceSub,
    u64De_u64Le, u32De_u32Le, Arr.pad_val]
  by_cases h : p.EnBloque
  · rw [if_pos h, if_neg (Nat.not_lt.mpr h)]
  · rw [if_neg h, if_pos (Nat.not_le.mp h)]

theorem decode_encode {p : BlockPtr} (h : p.EnBloque) : decode p.encode = .ok p := by
  rw [← List.append_nil p.encode, decode_encode_append, if_pos h]

/-- Every decoded pointer stays inside its block. -/
theorem enBloque_of_decode {b : Bytes} {p : BlockPtr} (h : decode b = .ok p) : p.EnBloque := by
  simp only [decode] at h
  split at h
  · cases h
  · split at h
    · cases h
    · next hlen =>
      cases h
      exact Nat.not_lt.mp hlen

end BlockPtr

/-! ### Superblocks -/

/-- `MAGIC`; `estratos/src/lib.rs:85`. -/
def magic : Bytes := utf8 "ESTRATOS"

/-- `VERSION`; `estratos/src/lib.rs:90`. -/
abbrev version : UInt32 := 1

/-- `BLOCK_SIZE`; `estratos/src/lib.rs:93`. -/
abbrev blockSize : UInt32 := 4096

/-- `SUPER_LEN`; `estratos/src/lib.rs:98`. -/
abbrev superLen : Nat := 512

/-- `SUPER_A_BLOCK`; `estratos/src/lib.rs:102`. -/
abbrev superABlock : UInt64 := 0

/-- `SUPER_B_BLOCK`; `estratos/src/lib.rs:103`. -/
abbrev superBBlock : UInt64 := 1

/-- The root of the volume; `estratos/src/lib.rs:172–192`. -/
structure Superblock where
  version : UInt32
  blockSize : UInt32
  generation : UInt64
  totalBlocks : UInt64
  logHead : UInt64
  diskId : Hash
  estrato : BlockPtr
  deriving DecidableEq

namespace Superblock

/-- A freshly formatted volume; `estratos/src/lib.rs:214–224`. -/
def new (diskId : Hash) (totalBlocks : UInt64) : Superblock :=
  { version := Estratos.version, blockSize := Estratos.blockSize, generation := 1, totalBlocks := totalBlocks
    logHead := 2, diskId := diskId, estrato := .nulo }

/-- Everything the checksum covers; `estratos/src/lib.rs:228–236`. -/
def cuerpo (s : Superblock) : Bytes :=
  magic ++ u32Le s.version ++ u32Le s.blockSize ++ u64Le s.generation ++ u64Le s.totalBlocks ++
    u64Le s.logHead ++ s.diskId.1 ++ s.estrato.encode ++ zeros 360

/-- `estratos/src/lib.rs:227–240`. -/
def encode (s : Superblock) : Bytes := s.cuerpo ++ (blake3 s.cuerpo).1

/-- The log head is neither over the copies nor past the volume; `lib.rs:265`. -/
def LogEnSitio (totalBlocks logHead : UInt64) : Prop :=
  2 ≤ logHead ∧ (totalBlocks = 0 ∨ logHead ≤ totalBlocks)

instance (t h : UInt64) : Decidable (LogEnSitio t h) := inferInstanceAs (Decidable (_ ∧ _))

private theorem logEnSitio_iff {t h : UInt64} :
    ¬ (h < 2 ∨ (t ≠ 0 ∧ h > t)) ↔ LogEnSitio t h := by
  simp only [LogEnSitio, not_or, not_and, UInt64.not_lt]
  tauto

/-- Read a superblock, checking all of it; `estratos/src/lib.rs:248–273`. -/
def decode (b : Bytes) : Except FormatError Superblock :=
  if b.length < superLen then .error .shortBuffer
  else if slice b 0 8 ≠ magic then .error .badMagic
  else
    let v := u32De (slice b 8 4)
    if v ≠ Estratos.version then .error .badVersion
    else if slice b 480 32 ≠ (blake3 (slice b 0 480)).1 then .error .badChecksum
    else
      let bs := u32De (slice b 12 4)
      if bs ≠ Estratos.blockSize then .error .badField
      else
        let generation := u64De (slice b 16 8)
        let totalBlocks := u64De (slice b 24 8)
        let logHead := u64De (slice b 32 8)
        if logHead < 2 ∨ (totalBlocks ≠ 0 ∧ logHead > totalBlocks) then .error .badField
        else do
          let diskId := Arr.pad 32 (slice b 40 32)
          let estrato ← BlockPtr.decode (slice b 72 ptrLen)
          return ⟨v, bs, generation, totalBlocks, logHead, diskId, estrato⟩

/-- `estratos/src/lib.rs:280–282`. -/
def belongsTo (s : Superblock) (disk : Hash) : Bool := s.diskId = disk

/-- The values a superblock can have on disk: those `decode` accepts. -/
@[mk_iff] structure Valido (s : Superblock) : Prop where
  version : s.version = Estratos.version
  blockSize : s.blockSize = Estratos.blockSize
  logHead : LogEnSitio s.totalBlocks s.logHead
  estrato : s.estrato.EnBloque

instance (s : Superblock) : Decidable s.Valido := decidable_of_iff _ (valido_iff s).symm

@[simp] theorem length_cuerpo (s : Superblock) : s.cuerpo.length = 480 := by
  simp [cuerpo, show magic.length = 8 by decide]

@[simp] theorem length_encode (s : Superblock) : s.encode.length = 512 := by
  simp [encode]

private theorem ventana_cuerpo (s : Superblock) (r : Bytes) {o n : Nat} (h : o + n ≤ 480) :
    slice (s.encode ++ r) o n = slice s.cuerpo o n := by
  rw [encode, List.append_assoc, slice_append_left (by rw [length_cuerpo]; exact h)]

private theorem ventana_suma (s : Superblock) (r : Bytes) :
    slice (s.encode ++ r) 480 32 = (blake3 s.cuerpo).1 := by
  simp (disch := simp) only [encode, List.append_assoc, slice_append_right, length_cuerpo,
    Nat.sub_self, slice_append_self]

private theorem campos (s : Superblock) :
    slice s.cuerpo 0 8 = magic ∧ slice s.cuerpo 8 4 = u32Le s.version ∧
    slice s.cuerpo 12 4 = u32Le s.blockSize ∧ slice s.cuerpo 16 8 = u64Le s.generation ∧
    slice s.cuerpo 24 8 = u64Le s.totalBlocks ∧ slice s.cuerpo 32 8 = u64Le s.logHead ∧
    slice s.cuerpo 40 32 = s.diskId.1 ∧ slice s.cuerpo 72 48 = s.estrato.encode := by
  have hm : magic.length = 8 := by decide
  refine ⟨?_, ?_, ?_, ?_, ?_, ?_, ?_, ?_⟩ <;>
    simp (disch := simp [hm]) only [cuerpo, List.append_assoc, slice_append_right,
      slice_append_self, hm, length_u32Le, length_u64Le, Arr.length_val, Nat.reduceSub,
      Nat.sub_self]

/-- Decoding an encoded superblock only checks its version, its block size, where its log
starts and where its estrato is, whatever follows the sector. -/
theorem decode_encode_append (s : Superblock) (r : Bytes) :
    decode (s.encode ++ r) =
      if s.version ≠ Estratos.version then .error .badVersion
      else if s.Valido then .ok s else .error .badField := by
  obtain ⟨hmagic, hver, hbs, hgen, htot, hlog, hid, hest⟩ := campos s
  have hlen : ¬ (s.encode ++ r).length < superLen := by
    simp
  have hptr := BlockPtr.decode_encode_append s.estrato []
  rw [List.append_nil] at hptr
  rw [decode, if_neg hlen]
  simp (disch := decide) only [ventana_cuerpo, ventana_suma, slice_self (length_cuerpo s).le,
    hmagic, hver, hbs, hgen, htot, hlog, hid, hest, u32De_u32Le, u64De_u64Le, Arr.pad_val,
    hptr, ne_eq, not_true_eq_false, if_false]
  by_cases hv : s.version = Estratos.version
  · rw [if_neg (not_not.mpr hv), if_neg (not_not.mpr hv)]
    by_cases hb : s.blockSize = Estratos.blockSize
    · rw [if_neg (not_not.mpr hb)]
      by_cases hl : LogEnSitio s.totalBlocks s.logHead
      · rw [if_neg (logEnSitio_iff.mpr hl)]
        by_cases he : s.estrato.EnBloque
        · rw [if_pos he, if_pos ⟨hv, hb, hl, he⟩]
          rfl
        · rw [if_neg he, if_neg fun h ↦ he h.estrato]
          rfl
      · rw [if_pos (not_not.mp (mt logEnSitio_iff.mp hl)), if_neg fun h ↦ hl h.logHead]
    · rw [if_pos hb, if_neg fun h ↦ hb h.blockSize]
  · rw [if_pos hv, if_pos hv]

theorem decode_encode {s : Superblock} (h : s.Valido) (r : Bytes) :
    decode (s.encode ++ r) = .ok s := by
  rw [decode_encode_append, if_neg (not_not.mpr h.version), if_pos h]

/-- Every decoded superblock is valid. -/
theorem valido_of_decode {b : Bytes} {s : Superblock} (h : decode b = .ok s) : s.Valido := by
  simp only [decode] at h
  split at h
  · cases h
  split at h
  · cases h
  split at h
  · cases h
  next hv =>
  split at h
  · cases h
  split at h
  · cases h
  next hb =>
  split at h
  · cases h
  next hl =>
  cases he : BlockPtr.decode (slice b 72 ptrLen) with
  | error e =>
    rw [he] at h
    cases h
  | ok p =>
    rw [he] at h
    cases h
    exact ⟨not_not.mp hv, not_not.mp hb, logEnSitio_iff.mp hl, BlockPtr.enBloque_of_decode he⟩

end Superblock

/-- Of the two copies, the one that rules; `estratos/src/lib.rs:295–308`. -/
def pickSuperblock (a b : Bytes) : Except FormatError (Superblock × UInt64) :=
  match Superblock.decode a, Superblock.decode b with
  | .ok sa, .ok sb =>
    if sa.generation ≥ sb.generation then .ok (sa, superABlock) else .ok (sb, superBBlock)
  | .ok sa, .error _ => .ok (sa, superABlock)
  | .error _, .ok sb => .ok (sb, superBBlock)
  | .error e, .error _ => .error e

/-- The block of the next superblock: always the other one; `lib.rs:311–313`. -/
def nextSuperBlock (current : UInt64) : UInt64 :=
  if current = superABlock then superBBlock else superABlock

/-! ### Estratos -/

/-- `ESTRATO_LEN`; `estratos/src/lib.rs:318`. -/
abbrev estratoLen : Nat := 224

/-- `MOTIVO_LEN`; `estratos/src/lib.rs:326`. -/
abbrev motivoLen : Nat := 64

/-- Who made an estrato; `estratos/src/lib.rs:331–335`. -/
inductive Autor
  | kernel
  | proceso (pid : UInt32)
  | herramienta
  deriving DecidableEq

namespace Autor

/-- `estratos/src/lib.rs:338`. -/
def code : Autor → UInt32
  | kernel => 0
  | proceso _ => 1
  | herramienta => 2

/-- `estratos/src/lib.rs:339`. -/
def pid : Autor → UInt32
  | proceso p => p
  | _ => 0

/-- `Autor::from`; `estratos/src/lib.rs:340–342`. -/
def ofCode (code pid : UInt32) : Autor :=
  if code = 1 then proceso pid else if code = 2 then herramienta else kernel

private theorem ofCode_code (a : Autor) : ofCode a.code a.pid = a := by
  cases a <;> rfl

end Autor

/-- A root: the commit; `estratos/src/lib.rs:351–364`. -/
structure Estrato where
  raiz : BlockPtr
  padre : BlockPtr
  tiempo : UInt64
  autor : Autor
  motivo : Arr motivoLen
  deriving DecidableEq

namespace Estrato

/-- `estratos/src/lib.rs:367–372`. -/
def new (raiz padre : BlockPtr) (tiempo : UInt64) (autor : Autor) (motivo : String) : Estrato :=
  ⟨raiz, padre, tiempo, autor, Arr.pad motivoLen ((utf8 motivo).take motivoLen)⟩

/-- `estratos/src/lib.rs:374–377`. -/
def motivoStr (e : Estrato) : String := utf8D (e.motivo.1.takeWhile (· ≠ 0))

/-- `estratos/src/lib.rs:380`. -/
def conNombre (e : Estrato) : Bool := e.motivo.1.head? ≠ some 0

/-- Everything the checksum covers; `estratos/src/lib.rs:383–389`. -/
def cuerpo (e : Estrato) : Bytes :=
  e.raiz.encode ++ e.padre.encode ++ u64Le e.tiempo ++ u32Le e.autor.code ++ u32Le e.autor.pid ++
    e.motivo.1 ++ zeros 16

/-- `estratos/src/lib.rs:382–393`. -/
def encode (e : Estrato) : Bytes := e.cuerpo ++ (blake3 e.cuerpo).1

/-- `estratos/src/lib.rs:395–406`. -/
def decode (b : Bytes) : Except FormatError Estrato :=
  if b.length < estratoLen then .error .shortBuffer
  else if slice b 192 32 ≠ (blake3 (slice b 0 192)).1 then .error .badChecksum
  else do
    let raiz ← BlockPtr.decode (slice b 0 ptrLen)
    let padre ← BlockPtr.decode (slice b 48 ptrLen)
    let tiempo := u64De (slice b 96 8)
    let autor := Autor.ofCode (u32De (slice b 104 4)) (u32De (slice b 108 4))
    return ⟨raiz, padre, tiempo, autor, Arr.pad motivoLen (slice b 112 motivoLen)⟩

@[simp] theorem length_cuerpo (e : Estrato) : e.cuerpo.length = 192 := by
  simp [cuerpo, motivoLen]

@[simp] theorem length_encode (e : Estrato) : e.encode.length = 224 := by
  simp [encode]

private theorem ventana_cuerpo (e : Estrato) {o n : Nat} (h : o + n ≤ 192) :
    slice e.encode o n = slice e.cuerpo o n := by
  rw [encode, slice_append_left (by rw [length_cuerpo]; exact h)]

private theorem ventana_suma (e : Estrato) :
    slice e.encode 192 32 = (blake3 e.cuerpo).1 := by
  simp (disch := simp) only [encode, slice_append_right, length_cuerpo, Nat.sub_self, slice_self]

private theorem campos (e : Estrato) :
    slice e.cuerpo 0 48 = e.raiz.encode ∧ slice e.cuerpo 48 48 = e.padre.encode ∧
    slice e.cuerpo 96 8 = u64Le e.tiempo ∧ slice e.cuerpo 104 4 = u32Le e.autor.code ∧
    slice e.cuerpo 108 4 = u32Le e.autor.pid ∧ slice e.cuerpo 112 64 = e.motivo.1 := by
  refine ⟨?_, ?_, ?_, ?_, ?_, ?_⟩ <;>
    simp (disch := simp) only [cuerpo, List.append_assoc, slice_append_right, slice_append_self,
      BlockPtr.length_encode, length_u32Le, length_u64Le, Nat.reduceSub, Nat.sub_self]

/-- An estrato survives its bytes exactly when its two pointers stay inside their blocks. -/
theorem decode_encode_eq (e : Estrato) :
    decode e.encode =
      if e.raiz.EnBloque ∧ e.padre.EnBloque then .ok e else .error .badField := by
  obtain ⟨hraiz, hpadre, htiempo, hcode, hpid, hmotivo⟩ := campos e
  have hlen : ¬ e.encode.length < estratoLen := by
    simp
  have hr := BlockPtr.decode_encode_append e.raiz []
  have hp := BlockPtr.decode_encode_append e.padre []
  rw [List.append_nil] at hr hp
  rw [decode, if_neg hlen]
  simp (disch := decide) only [ventana_cuerpo, ventana_suma, slice_self (length_cuerpo e).le,
    hraiz, hpadre, htiempo, hcode, hpid, hmotivo, u32De_u32Le, u64De_u64Le, Arr.pad_val,
    Autor.ofCode_code, hr, hp, ne_eq, not_true_eq_false, if_false]
  by_cases h1 : e.raiz.EnBloque
  · by_cases h2 : e.padre.EnBloque
    · rw [if_pos h1, if_pos h2, if_pos ⟨h1, h2⟩]
      rfl
    · rw [if_pos h1, if_neg h2, if_neg (not_and_of_not_right _ h2)]
      rfl
  · rw [if_neg h1, if_neg (not_and_of_not_left _ h1)]
    rfl

theorem decode_encode {e : Estrato} (hr : e.raiz.EnBloque) (hp : e.padre.EnBloque) :
    decode e.encode = .ok e := by
  rw [decode_encode_eq, if_pos ⟨hr, hp⟩]

/-- The pointers of a decoded estrato stay inside their blocks. -/
theorem enBloque_of_decode {b : Bytes} {e : Estrato} (h : decode b = .ok e) :
    e.raiz.EnBloque ∧ e.padre.EnBloque := by
  simp only [decode] at h
  split at h
  · cases h
  split at h
  · cases h
  cases hr : BlockPtr.decode (slice b 0 ptrLen) with
  | error err =>
    rw [hr] at h
    cases h
  | ok r =>
    cases hp : BlockPtr.decode (slice b 48 ptrLen) with
    | error err =>
      rw [hr, hp] at h
      cases h
    | ok p =>
      rw [hr, hp] at h
      cases h
      exact ⟨BlockPtr.enBloque_of_decode hr, BlockPtr.enBloque_of_decode hp⟩

end Estrato

end BmoX.Estratos
