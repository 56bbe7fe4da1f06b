import BmoX.Base.Blocks

/-!
# A mounted FAT volume: sectors, clusters and the table that chains them

`bmo-fat32` reads 512-byte sectors of a partition. The table says which cluster follows which; the
driver remembers the last sector of it that it read. A device may fail at any read, and a read that
failed leaves anything in the buffer.
-/

namespace BmoX.Fat

open BmoX.Base

/-- `bmo_block::BlockDevice`, for reading: what the disk holds, and what a read does in each turn.
A read that says it went well brought the sectors asked for. -/
structure BlockDevice where
  sector : UInt64 → Bytes
  read : Nat → UInt64 → UInt16 → Bytes → Bool × Bytes
  length_sector : ∀ lba, (sector lba).length = 512
  length_read : ∀ t lba count dst, (read t lba count dst).2.length = dst.length
  read_ok : ∀ t lba count dst, dst.length = 512 * count.toNat → (read t lba count dst).1 = true →
    (read t lba count dst).2 =
      (List.range count.toNat).flatMap fun i ↦ sector (lba + UInt64.ofNat i)

/-- `FatVolume`, what mounting it fixed. -/
structure FatVolume where
  dev : BlockDevice
  partLba : UInt64
  sectorsPerCluster : UInt8
  fatStart : UInt32
  dataStart : UInt32
  maxCluster : UInt32
  /-- `mount` turns a volume without this away. -/
  sectores_pos : 0 < sectorsPerCluster.toNat

/-- `SIN_CACHE`. -/
def sinCache : UInt64 := 18446744073709551615

/-- `Buf`: which of the two internal buffers. -/
inductive Buf
  | buf
  | fatCache

namespace FatVolume

variable (v : FatVolume)

/-- The sectors of a cluster. -/
def spc : Nat := v.sectorsPerCluster.toNat

/-- The bytes of a cluster. -/
def delCluster : Nat := v.spc * 512

/-- `abs`. -/
def abs (lba : UInt64) : UInt64 := v.partLba + lba

/-- A sector of the volume. -/
def sector (lba : UInt64) : Bytes := v.dev.sector (v.abs lba)

/-- `cluster_valido`. -/
def clusterValido (cluster : UInt32) : Bool := 2 ≤ cluster && cluster ≤ v.maxCluster

/-- `cluster_to_lba`. -/
def clusterToLba (cluster : UInt32) : UInt64 :=
  v.dataStart.toUInt64 + (cluster.toUInt64 - 2) * v.sectorsPerCluster.toUInt64

/-- `lba_valido`. -/
def lbaValido (cluster : UInt32) : Option UInt64 :=
  if v.clusterValido cluster then some (v.clusterToLba cluster) else none

/-- The sector of the table with the entry of a cluster. -/
def fatSector (cluster : UInt32) : UInt64 := (v.fatStart + cluster * 4 / 512).toUInt64

/-- What the entry of a cluster says, in its sector of the table: the next cluster of the chain, or
that there is none, or none that the volume has. -/
def entrada (fat : Bytes) (cluster : UInt32) : Option UInt32 :=
  let entry := u32De (slice fat (cluster * 4 % 512).toNat 4) &&& 0x0FFFFFFF
  if entry = 0 then none
  else if 0x0FFFFFF7 ≤ entry then none
  else if !v.clusterValido entry then none
  else some entry

/-- The cluster after another, as the disk has it. -/
def siguiente (cluster : UInt32) : Option UInt32 := v.entrada (v.sector (v.fatSector cluster))
  cluster

/-- The bytes of a cluster, as the disk has them. -/
def datos (cluster : UInt32) : Bytes :=
  (List.range v.spc).flatMap fun i ↦ v.sector (v.clusterToLba cluster + UInt64.ofNat i)

/-- **The file**: the clusters of the chain one after the other, cut to its size. -/
def contenido (cluster : UInt32) (size : Nat) : Bytes :=
  if v.clusterValido cluster then Blocks.content v.siguiente v.datos cluster size else []

end FatVolume

/-- What a volume changes when it is read: the two buffers, which sector of the table the second one
holds, and how many reads the device has seen. -/
structure Estado (v : FatVolume) where
  turno : Nat
  buf : Bytes
  fatCache : Bytes
  fatCacheLba : UInt64
  length_buf : buf.length = 512
  length_fatCache : fatCache.length = 512
  fatCache_eq : fatCacheLba ≠ sinCache → fatCache = v.sector fatCacheLba

/-- A part of a reading: whether it went well, the buffer of the caller after it and the state. -/
structure Paso (v : FatVolume) where
  ok : Bool
  dst : Bytes
  estado : Estado v

namespace FatVolume

variable {v : FatVolume}

theorem delCluster_pos : 0 < v.delCluster := Nat.mul_pos v.sectores_pos (by decide)

theorem length_sector (lba : UInt64) : (v.sector lba).length = 512 := v.dev.length_sector _

theorem length_datos (c : UInt32) : (v.datos c).length = v.delCluster := by
  rw [datos, length_flatMap_const fun i ↦ length_sector _, List.length_range, delCluster,
    Nat.mul_comm]

private theorem read_one {t : Nat} {lba : UInt64} {dst : Bytes} (hl : dst.length = 512)
    (h : (v.dev.read t (v.abs lba) 1 dst).1 = true) :
    (v.dev.read t (v.abs lba) 1 dst).2 = v.sector lba := by
  rw [v.dev.read_ok t _ 1 dst hl h]
  have h1 : (1 : UInt16).toNat = 1 := rfl
  rw [h1, List.range_one, List.flatMap_singleton, sector]
  congr 1
  exact UInt64.add_zero _

variable (v)

/-- `read_sector`: the buffer of the table remembers what it holds. -/
def readSector (e : Estado v) (lba : UInt64) : Buf → Bool × Estado v
  | .buf =>
    let r := v.dev.read e.turno (v.abs lba) 1 e.buf
    (r.1, { e with
      turno := e.turno + 1
      buf := r.2
      length_buf := (v.dev.length_read ..).trans e.length_buf })
  | .fatCache =>
    if e.fatCacheLba = lba then (true, e)
    else
      let r := v.dev.read e.turno (v.abs lba) 1 e.fatCache
      (r.1, { e with
        turno := e.turno + 1
        fatCache := r.2
        fatCacheLba := if r.1 then lba else sinCache
        length_fatCache := (v.dev.length_read ..).trans e.length_fatCache
        fatCache_eq := fun h ↦ by
          cases hr : r.1 with
          | false => simp [hr] at h
          | true => simpa [hr] using read_one e.length_fatCache hr })

/-- `read_fat_entry`. -/
def readFatEntry (e : Estado v) (cluster : UInt32) : Option UInt32 × Estado v :=
  let (ok, e) := v.readSector e (v.fatSector cluster) .fatCache
  (if ok then v.entrada e.fatCache cluster else none, e)

/-- `leer_directo`, to `dst[d..d + 512 * count]`. -/
def leerDirecto (e : Estado v) (lba : UInt64) (count : Nat) (dst : Bytes) (d : Nat) : Paso v :=
  let r := v.dev.read e.turno (v.abs lba) (UInt16.ofNat count) (slice dst d (512 * count))
  ⟨r.1, splice dst d r.2, { e with turno := e.turno + 1 }⟩

/-- The whole sectors, when there are any: straight to the buffer of the caller. -/
def leerEnteros (e : Estado v) (lba : UInt64) (enteros : Nat) (dst : Bytes) (d : Nat) : Paso v :=
  if 0 < enteros then v.leerDirecto e lba enteros dst d else ⟨true, dst, e⟩

/-- Part of a sector, the `n` bytes from `desde`: through the internal buffer. -/
def rebote (e : Estado v) (lba : UInt64) (desde n : Nat) (dst : Bytes) (d : Nat) : Paso v :=
  let (ok, e) := v.readSector e lba .buf
  ⟨ok, if ok then splice dst d (slice e.buf desde n) else dst, e⟩

/-- What the device has to be able to read so that a cluster is read whole, and the one after it
found. -/
structure Legible (cluster : UInt32) : Prop where
  datos : ∀ t i (count : UInt16) dst, i + count.toNat ≤ v.spc →
    (v.dev.read t (v.abs (v.clusterToLba cluster + UInt64.ofNat i)) count dst).1 = true
  fat : ∀ t dst, (v.dev.read t (v.abs (v.fatSector cluster)) 1 dst).1 = true

/-- No disk errors in the chain of a file. -/
def SinErrores (cluster : UInt32) : Prop :=
  ∀ i c, Blocks.At v.siguiente cluster i c → v.Legible c

variable {v} {e : Estado v} {c : UInt32} {dst : Bytes} {d : Nat}

theorem lbaValido_eq (h : v.clusterValido c = true) : v.lbaValido c = some (v.clusterToLba c) :=
  if_pos h

theorem lbaValido_eq_none (h : v.clusterValido c = false) : v.lbaValido c = none := by
  rw [lbaValido, h]
  rfl

theorem valido_of_siguiente {c' : UInt32} (h : v.siguiente c = some c') :
    v.clusterValido c' = true := by
  rw [siguiente, entrada] at h
  grind

private theorem fatSector_ne : v.fatSector c ≠ sinCache := by
  intro h
  have h' := congrArg UInt64.toNat h
  rw [fatSector, UInt32.toNat_toUInt64] at h'
  have hlt := (v.fatStart + c * 4 / 512).toNat_lt
  have hs : sinCache.toNat = 18446744073709551615 := rfl
  omega

/-- What the table says is what the disk has, or nothing. -/
theorem readFatEntry_fst :
    (v.readFatEntry e c).1 = v.siguiente c ∨ (v.readFatEntry e c).1 = none := by
  rw [readFatEntry, readSector]
  by_cases h : e.fatCacheLba = v.fatSector c
  · left
    rw [if_pos h, siguiente, ← h, ← e.fatCache_eq (h ▸ fatSector_ne)]
    rfl
  · rw [if_neg h]
    dsimp only
    cases hr : (v.dev.read e.turno (v.abs (v.fatSector c)) 1 e.fatCache).1 with
    | false => exact Or.inr (if_neg Bool.false_ne_true)
    | true =>
      left
      rw [if_pos rfl, read_one e.length_fatCache hr, siguiente]

theorem readFatEntry_of_legible (h : v.Legible c) : (v.readFatEntry e c).1 = v.siguiente c := by
  rw [readFatEntry, readSector]
  by_cases hc : e.fatCacheLba = v.fatSector c
  · rw [if_pos hc, siguiente, ← hc, ← e.fatCache_eq (hc ▸ fatSector_ne)]
    rfl
  · have hr := h.fat e.turno e.fatCache
    rw [if_neg hc]
    dsimp only
    rw [hr, if_pos rfl, read_one e.length_fatCache hr, siguiente]

/-- What a part of a reading does: when it went well `w` stands at `d`, and what is before `d` is as
it was in any case. -/
structure Trae (w : Bytes) (d : Nat) (dst : Bytes) (p : Paso v) : Prop where
  length_eq : p.dst.length = dst.length
  before : p.dst.take d = dst.take d
  done : p.ok = true → p.dst = splice dst d w

theorem Trae.nada : Trae [] d dst (⟨true, dst, e⟩ : Paso v) := ⟨rfl, rfl, fun _ ↦ splice_nil.symm⟩

/-- A part that failed: nothing of it is counted. -/
theorem Trae.falla {S : Prop} {w : Bytes} {p : Paso v} (h : Trae w d dst p) (w' : Bytes)
    (hs : S → p.ok = true) (hp : p.ok = false) : Served S w' d dst p.dst 0 := by
  apply Served.stop h.length_eq h.before
  intro hS
  rw [hs hS] at hp
  cases hp

/-- A part that went well, and what comes after it. -/
theorem Trae.sigue {S : Prop} {w w' dst' : Bytes} {l n : Nat} {p : Paso v} (h : Trae w d dst p)
    (hl : w.length = l) (hd : d + l ≤ dst.length) (hp : p.ok = true)
    (hs : Served S w' (d + l) p.dst dst' n) : Served S (w ++ w') d dst dst' (l + n) := by
  subst hl
  rw [h.done hp] at hs
  exact hs.append hd

private theorem flatMap_sectores {i n : Nat} (h : i + n ≤ v.spc) :
    ((List.range n).flatMap fun j ↦
      v.dev.sector (v.abs (v.clusterToLba c + UInt64.ofNat i) + UInt64.ofNat j)) =
      slice (v.datos c) (512 * i) (512 * n) := by
  have hs (j : Nat) : (v.sector (v.clusterToLba c + UInt64.ofNat j)).length = 512 :=
    length_sector _
  rw [datos, slice_flatMap_range hs h]
  congr 1
  ext1 j
  rw [sector, abs, abs, UInt64.ofNat_add, UInt64.add_assoc, UInt64.add_assoc]

private theorem spc_lt : v.spc < 256 := v.sectorsPerCluster.toNat_lt

theorem trae_leerEnteros {i n : Nat} (h : i + n ≤ v.spc) (hd : d + 512 * n ≤ dst.length) :
    Trae (slice (v.datos c) (512 * i) (512 * n)) d dst
      (v.leerEnteros e (v.clusterToLba c + UInt64.ofNat i) n dst d) := by
  rw [leerEnteros]
  by_cases hn : 0 < n
  · have hw : (UInt16.ofNat n).toNat = n := by
      have hlt : n < 2 ^ 16 := by
        have := @spc_lt v
        omega
      exact UInt16.toNat_ofNat_of_lt' hlt
    have hl : (slice dst d (512 * n)).length = 512 * n := by
      rw [length_slice]
      omega
    rw [if_pos hn, leerDirecto]
    constructor
    · exact length_splice (by rw [v.dev.length_read, hl]; exact hd)
    · exact take_splice (by omega)
    · intro hok
      dsimp only at hok ⊢
      rw [v.dev.read_ok _ _ _ _ (by rw [hl, hw]) hok, hw, flatMap_sectores h]
  · obtain rfl : n = 0 := by omega
    rw [if_neg hn, Nat.mul_zero, slice, List.take_zero]
    exact Trae.nada

theorem ok_leerEnteros {i n : Nat} (hc : v.Legible c) (h : i + n ≤ v.spc) :
    (v.leerEnteros e (v.clusterToLba c + UInt64.ofNat i) n dst d).ok = true := by
  rw [leerEnteros]
  by_cases hn : 0 < n
  · have hlt : n < 2 ^ 16 := by
      have := @spc_lt v
      omega
    rw [if_pos hn]
    exact hc.datos _ i _ _ (by rw [UInt16.toNat_ofNat_of_lt' hlt]; exact h)
  · rw [if_neg hn]

theorem trae_rebote {i desde n : Nat} (h : i < v.spc) (hn : desde + n ≤ 512)
    (hd : d + n ≤ dst.length) :
    Trae (slice (v.datos c) (512 * i + desde) n) d dst
      (v.rebote e (v.clusterToLba c + UInt64.ofNat i) desde n dst d) := by
  rw [rebote, readSector]
  dsimp only
  cases hr : (v.dev.read e.turno (v.abs (v.clusterToLba c + UInt64.ofNat i)) 1 e.buf).1 with
  | false => exact ⟨rfl, rfl, fun h ↦ absurd h Bool.false_ne_true⟩
  | true =>
    have hw := flatMap_sectores (c := c) (show i + 1 ≤ v.spc from h)
    rw [List.range_one, List.flatMap_singleton] at hw
    have hs : v.sector (v.clusterToLba c + UInt64.ofNat i) = slice (v.datos c) (512 * i) 512 :=
      (congrArg v.dev.sector (UInt64.add_zero _).symm).trans hw
    have hb : slice (v.dev.read e.turno (v.abs (v.clusterToLba c + UInt64.ofNat i)) 1 e.buf).2 desde
      n
        = slice (v.datos c) (512 * i + desde) n := by
      rw [read_one e.length_buf hr, hs, slice_slice hn]
    have hl : (slice (v.datos c) (512 * i + desde) n).length ≤ n := by
      rw [length_slice]
      omega
    rw [if_pos rfl]
    constructor
    · exact length_splice (by rw [hb]; omega)
    · exact take_splice (by omega)
    · exact fun _ ↦ congrArg (splice dst d) hb

theorem ok_rebote {i desde n : Nat} (hc : v.Legible c) (h : i < v.spc) :
    (v.rebote e (v.clusterToLba c + UInt64.ofNat i) desde n dst d).ok = true :=
  hc.datos _ i 1 _ h

end FatVolume

end BmoX.Fat
