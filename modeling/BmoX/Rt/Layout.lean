import BmoX.Base.Bits
import BmoX.Rt.Freelist
import Mathlib.Data.List.Pairwise

/-!
# Blocks in memory

What the memory of a heap says of its blocks, and what each write of the allocator does to them: a
block leaves the list or enters it, is cut in two, or is joined to the next one.
-/

namespace BmoX.Rt

open BmoX.Base

/-- A block: where its header is, and its bytes, header included. -/
@[ext] structure Block where
  hdr : Nat
  size : Nat
  deriving DecidableEq, Repr

namespace Block

/-- The address after a block. -/
def stop (b : Block) : Nat := b.hdr + b.size

/-- An address of a block. -/
def Has (b : Block) (x : Nat) : Prop := b.hdr ≤ x ∧ x < b.stop

/-- Two blocks share no address. -/
def Apart (b c : Block) : Prop := b.stop ≤ c.hdr ∨ c.stop ≤ b.hdr

instance : Std.Symm Apart := ⟨fun _ _ h ↦ Or.symm h⟩

/-- A block at a word, of whole words, with room for a link. -/
structure Ok (b : Block) : Prop where
  pos : 0 < b.hdr
  word : b.hdr % 8 = 0
  words : b.size % 8 = 0
  large : 32 ≤ b.size
  space : b.stop ≤ memorySize

theorem Apart.hdr_ne {b c : Block} (h : b.Apart c) (hb : b.Ok) (hc : c.Ok) : b.hdr ≠ c.hdr := by
  have h1 := hb.large
  have h2 := hc.large
  unfold Apart stop at h
  omega

end Block

namespace Chunk

/-- The first address for blocks, and the one after the chunk. -/
def start (c : Chunk) : Nat := c.base + if c.arena then arenaHeaderSize else 0

def stop (c : Chunk) : Nat := c.base + c.bytes

/-- Two chunks share no address. -/
def Apart (c d : Chunk) : Prop := c.stop ≤ d.base ∨ d.stop ≤ c.base

end Chunk

/-! ### Headers -/

/-- A header gives its size back. -/
theorem blockHeader_size {size : UInt64} (h : size.toNat % 8 = 0) (free : Bool) :
    blockHeader size free &&& ~~~1 = size := by
  have hf : (if free then 1 else 0 : UInt64) &&& ~~~1 = 0 := by
    cases free <;> decide
  have hs : size &&& ~~~1 = size := by
    apply UInt64.toNat_inj.mp
    rw [toNat_and_not_mask (w := 1) size rfl]
    omega
  unfold blockHeader
  rw [or_and_distrib, hf, hs, UInt64.or_zero]

theorem or_one_size (w : UInt64) : (w ||| 1) &&& ~~~1 = w &&& ~~~1 := by
  have h1 : (1 : UInt64) &&& ~~~1 = 0 := by decide
  rw [or_and_distrib, h1, UInt64.or_zero]

namespace Heap

/-- An address that the chunks have for blocks. -/
def Usable (chunks : List Chunk) (x : Nat) : Prop := ∃ c ∈ chunks, c.start ≤ x ∧ x < c.stop

/-- The blocks of a heap: those of the list, in its order, and the others. -/
structure Layout (h : Heap) (free used : List Block) : Prop where
  list : Linked (readNextFree h.mem) h.freeHead (free.map Block.hdr)
  header : ∀ b ∈ free ++ used, (sizeOf h.mem b.hdr).toNat = b.size
  ok : ∀ b ∈ free ++ used, b.Ok
  apart : (free ++ used).Pairwise Block.Apart
  usable : ∀ b ∈ free ++ used, ∀ x, b.Has x → Usable h.chunks x

/-- The bytes of some blocks are the same in two memories. -/
def Keeps (m m' : Memory) (bs : List Block) : Prop := ∀ b ∈ bs, ∀ x, b.Has x → m' x = m x

section

variable {m m' m'' : Memory} {b c : Block} {bs cs : List Block}

theorem Keeps.refl : Keeps m m bs := fun _ _ _ _ ↦ rfl

theorem Keeps.trans (h : Keeps m m' bs) (h' : Keeps m' m'' bs) : Keeps m m'' bs :=
  fun b hb x hx ↦ (h' b hb x hx).trans (h b hb x hx)

theorem Keeps.mono (h : Keeps m m' bs) (hs : ∀ b ∈ cs, b ∈ bs) : Keeps m m' cs :=
  fun b hb ↦ h b (hs b hb)

/-- A word in a block is in no other one. -/
theorem keeps_write64 {a : Nat} {v : UInt64} (h1 : c.hdr ≤ a) (h2 : a + 8 ≤ c.stop)
    (hap : ∀ b ∈ bs, c.Apart b) : Keeps m (m.write64 a v) bs := by
  intro b hb x hx
  apply Memory.write64_out
  have h := hap b hb
  unfold Block.Apart at h
  unfold Block.Has at hx
  omega

/-- What a block says is in its first words. -/
theorem Keeps.sizeOf (h : Keeps m m' bs) (hb : b ∈ bs) (hok : b.Ok) :
    sizeOf m' b.hdr = sizeOf m b.hdr := by
  have hl := hok.large
  unfold Heap.sizeOf
  rw [Memory.read64_congr]
  intro x h1 h2
  apply h b hb x
  unfold Block.Has Block.stop
  omega

theorem Keeps.readNextFree (h : Keeps m m' bs) (hb : b ∈ bs) (hok : b.Ok) :
    readNextFree m' b.hdr = readNextFree m b.hdr := by
  have hl := hok.large
  unfold Heap.readNextFree headerSize
  rw [Memory.read64_congr]
  intro x h1 h2
  apply h b hb x
  unfold Block.Has Block.stop
  omega

private theorem sizeOf_writeNextFree {n : Nat} (hdr : Nat) :
    Heap.sizeOf (writeNextFree m hdr n) hdr = Heap.sizeOf m hdr := by
  unfold Heap.sizeOf writeNextFree headerSize
  rw [Memory.read64_write64_of_disjoint (by omega)]

private theorem readNextFree_writeNextFree {hdr n : Nat} (hn : n < 2 ^ 64) :
    Heap.readNextFree (writeNextFree m hdr n) hdr = n := by
  unfold Heap.readNextFree writeNextFree
  rw [Memory.read64_write64_self, UInt64.toNat_ofNat', Nat.mod_eq_of_lt hn]

theorem sizeOf_write64 {hdr : Nat} {size : UInt64} (h : size.toNat % 8 = 0) (free : Bool) :
    Heap.sizeOf (m.write64 hdr (blockHeader size free)) hdr = size := by
  unfold Heap.sizeOf
  rw [Memory.read64_write64_self, blockHeader_size h]

end

/-! ### What the writes do -/

namespace Layout

variable {h h' : Heap} {free used bs cs l pre post : List Block} {b c q : Block} {a : Nat}

theorem of_perm (hl : Layout h free used) (hp : used.Perm bs) : Layout h free bs := by
  have hmem : ∀ b, b ∈ free ++ bs → b ∈ free ++ used := by
    intro b hb
    exact (hp.append_left free).mem_iff.mpr hb
  constructor
  · exact hl.list
  · exact fun b hb ↦ hl.header b (hmem b hb)
  · exact fun b hb ↦ hl.ok b (hmem b hb)
  · exact (hp.append_left free).pairwise hl.apart fun h ↦ symm h
  · exact fun b hb ↦ hl.usable b (hmem b hb)

theorem apart_of_ne (hl : Layout h free used) (hb : b ∈ free ++ used) (hc : c ∈ free ++ used)
    (hne : b ≠ c) : b.Apart c := hl.apart.forall hb hc hne

private theorem sizeOf_link (hl : Layout h free used) (hq : q ∈ free ++ used) (n : Nat)
    (hb : b ∈ free ++ used) :
    sizeOf (writeNextFree h.mem q.hdr n) b.hdr = sizeOf h.mem b.hdr := by
  by_cases hbq : q = b
  · rw [hbq]
    exact sizeOf_writeNextFree b.hdr
  · have hq' := (hl.ok q hq).large
    have hk : Keeps h.mem (writeNextFree h.mem q.hdr n) [b] := by
      apply keeps_write64 (c := q)
      · exact Nat.le_add_right ..
      · unfold headerSize Block.stop
        omega
      · intro c hc
        rw [List.mem_singleton.mp hc]
        exact hl.apart_of_ne hq hb hbq
    exact hk.sizeOf List.mem_cons_self (hl.ok b hb)

private theorem keeps_link (hl : Layout h free used) (hq : q ∈ free ++ used) (n : Nat)
    (hbs : ∀ b ∈ bs, b ∈ free ++ used ∧ q ≠ b) : Keeps h.mem (writeNextFree h.mem q.hdr n) bs := by
  have hq' := (hl.ok q hq).large
  apply keeps_write64 (c := q)
  · exact Nat.le_add_right ..
  · unfold headerSize Block.stop
    omega
  · intro b hb
    exact hl.apart_of_ne hq (hbs b hb).1 (hbs b hb).2

/-- Some blocks that are in use become others in their place, or in new chunks. -/
theorem replace (hl : Layout h free (bs ++ used)) (hk : Keeps h.mem h'.mem (free ++ used))
    (hhead : h'.freeHead = h.freeHead) (hch : ∀ x, Usable h.chunks x → Usable h'.chunks x)
    (hnew : ∀ c ∈ cs, (sizeOf h'.mem c.hdr).toNat = c.size ∧ c.Ok ∧
      ∀ x, c.Has x → Usable h'.chunks x)
    (hap : cs.Pairwise Block.Apart) (hfar : ∀ c ∈ cs, ∀ d ∈ free ++ used, c.Apart d) :
    Layout h' free (cs ++ used) := by
  have hold : ∀ b ∈ free ++ used, b ∈ free ++ (bs ++ used) := by
    intro b hb
    rw [List.mem_append] at hb ⊢
    rw [List.mem_append]
    tauto
  have hcases : ∀ b ∈ free ++ (cs ++ used), b ∈ cs ∨ b ∈ free ++ used := by
    intro b hb
    rw [List.mem_append, List.mem_append] at hb
    rw [List.mem_append]
    tauto
  constructor
  · rw [hhead]
    apply hl.list.congr
    intro x hx
    obtain ⟨b, hb, rfl⟩ := List.mem_map.mp hx
    have hb' := List.mem_append_left used hb
    exact hk.readNextFree hb' (hl.ok b (hold b hb'))
  · intro b hb
    rcases hcases b hb with hb | hb
    · exact (hnew b hb).1
    · rw [hk.sizeOf hb (hl.ok b (hold b hb))]
      exact hl.header b (hold b hb)
  · intro b hb
    rcases hcases b hb with hb | hb
    · exact (hnew b hb).2.1
    · exact hl.ok b (hold b hb)
  · have h1 := List.pairwise_append.mp hl.apart
    have h2 := List.pairwise_append.mp h1.2.1
    apply List.pairwise_append.mpr
    refine ⟨h1.1, List.pairwise_append.mpr ⟨hap, h2.2.1, ?_⟩, ?_⟩
    · exact fun c hc d hd ↦ hfar c hc d (List.mem_append_right free hd)
    · intro d hd c hc
      rcases List.mem_append.mp hc with hc | hc
      · exact symm (hfar c hc d (List.mem_append_left used hd))
      · exact h1.2.2 d hd c (List.mem_append_right bs hc)
  · intro b hb
    rcases hcases b hb with hb | hb
    · exact (hnew b hb).2.2
    · exact fun x hx ↦ hch x (hl.usable b (hold b hb) x hx)

/-- Only headers, and the links of the list, are looked at. -/
theorem congr_mem (hl : Layout h free used) {m : Memory}
    (hf : ∀ b ∈ free, ∀ x, b.hdr ≤ x → x < b.hdr + 16 → m x = h.mem x)
    (hu : ∀ b ∈ used, ∀ x, b.hdr ≤ x → x < b.hdr + headerSize → m x = h.mem x) :
    Layout { h with mem := m } free used := by
  constructor
  · apply hl.list.congr
    intro x hx
    obtain ⟨b, hb, rfl⟩ := List.mem_map.mp hx
    unfold readNextFree headerSize
    rw [Memory.read64_congr]
    intro x h1 h2
    exact hf b hb x (by omega) (by omega)
  · intro b hb
    rw [← hl.header b hb]
    unfold sizeOf
    rw [Memory.read64_congr]
    intro x h1 h2
    rcases List.mem_append.mp hb with hb | hb
    · exact hf b hb x h1 (by omega)
    · exact hu b hb x h1 h2
  · exact hl.ok
  · exact hl.apart
  · exact hl.usable

/-- What is stored in a block that is in use keeps the rest. -/
theorem store (hl : Layout h free used) (hb : b ∈ used) {d : Bytes}
    (h1 : b.hdr + headerSize ≤ a) (h2 : a + d.length ≤ b.stop) :
    Layout { h with mem := h.mem.store a d } free used := by
  have hbm : b ∈ free ++ used := List.mem_append_right free hb
  have hout : ∀ c ∈ free ++ used, c ≠ b → ∀ x, c.Has x → h.mem.store a d x = h.mem x := by
    intro c hc hne x hx
    apply Memory.store_out
    have hap := hl.apart_of_ne hc hbm hne
    unfold Block.Apart at hap
    unfold Block.Has at hx
    omega
  apply hl.congr_mem
  · intro c hc x hx1 hx2
    have hcm : c ∈ free ++ used := List.mem_append_left used hc
    have hl32 := (hl.ok c hcm).large
    refine hout c hcm ?_ x ⟨hx1, by unfold Block.stop; omega⟩
    rintro rfl
    have hself := (List.pairwise_append.mp hl.apart).2.2 c hc c hb
    exact hself.hdr_ne (hl.ok c hcm) (hl.ok c hcm) rfl
  · intro c hc x hx1 hx2
    by_cases hcb : c = b
    · apply Memory.store_out
      rw [hcb] at hx2
      omega
    · have hcm : c ∈ free ++ used := List.mem_append_right free hc
      have hl32 := (hl.ok c hcm).large
      unfold headerSize at hx2
      exact hout c hcm hcb x ⟨hx1, by unfold Block.stop; omega⟩

/-- What is stored in a block is in no other one. -/
theorem keeps_store (hl : Layout h free (b :: used)) {d : Bytes} (h1 : b.hdr ≤ a)
    (h2 : a + d.length ≤ b.stop) : Keeps h.mem (h.mem.store a d) (free ++ used) := by
  have hcons := List.pairwise_cons.mp (List.perm_middle.pairwise hl.apart fun h ↦ symm h)
  intro c hc x hx
  apply Memory.store_out
  have hap := hcons.1 c hc
  unfold Block.Apart at hap
  unfold Block.Has at hx
  omega

/-- The last block before one in the list, or none: the node that a walk leaves behind. -/
def prevOf (pre : List Block) : Nat := (pre.map Block.hdr).getLast?.getD 0

/-- A block leaves the list. -/
theorem unlink (hl : Layout h (pre ++ b :: post) used) :
    let next := readNextFree h.mem b.hdr
    let h' := if prevOf pre = 0 then { h with freeHead := next }
      else { h with mem := writeNextFree h.mem (prevOf pre) next }
    Layout h' (pre ++ post) (b :: used) ∧ Keeps h.mem h'.mem (b :: used) ∧
      Linked (readNextFree h'.mem) next (post.map Block.hdr) ∧ (pre = [] → h'.freeHead = next) ∧
      h'.chunks = h.chunks ∧ h'.arenas = h.arenas := by
  have hp : (pre ++ b :: post ++ used).Perm (pre ++ post ++ b :: used) := by
    rw [List.append_assoc, List.append_assoc]
    exact (List.perm_middle.symm).append_left pre
  have hmem : ∀ c ∈ pre ++ post ++ b :: used, c ∈ pre ++ b :: post ++ used :=
    fun c hc ↦ hp.mem_iff.mpr hc
  have hap := hp.pairwise hl.apart fun h ↦ symm h
  have hlist := hl.list
  rw [List.map_append, List.map_cons] at hlist
  dsimp only
  rcases List.eq_nil_or_concat' pre with rfl | ⟨pre', q, rfl⟩
  · have h0 : prevOf [] = 0 := rfl
    rw [if_pos h0]
    refine ⟨⟨hlist.tail, fun c hc ↦ hl.header c (hmem c hc), fun c hc ↦ hl.ok c (hmem c hc), hap,
      fun c hc ↦ hl.usable c (hmem c hc)⟩, Keeps.refl, hlist.tail, fun _ ↦ rfl, rfl, rfl⟩
  · have hq : q ∈ pre' ++ [q] ++ b :: post ++ used :=
      List.mem_append_left _ (List.mem_append_left _ (List.mem_append_right _ List.mem_cons_self))
    have hprev : prevOf (pre' ++ [q]) = q.hdr := by simp [prevOf]
    have hq0 : q.hdr ≠ 0 := Nat.ne_of_gt (hl.ok q hq).pos
    rw [hprev, if_neg hq0]
    have hnext : readNextFree h.mem b.hdr < 2 ^ 64 := UInt64.toNat_lt _
    -- the other blocks are not `q`
    have hp' : (pre' ++ [q] ++ post ++ b :: used).Perm (q :: (pre' ++ post ++ b :: used)) := by
      rw [List.append_assoc, List.append_assoc, List.append_assoc, List.singleton_append]
      exact List.perm_middle
    have hne : ∀ c ∈ pre' ++ post ++ b :: used, c ∈ pre' ++ [q] ++ b :: post ++ used ∧ q ≠ c := by
      intro c hc
      refine ⟨hmem c (hp'.mem_iff.mpr (List.mem_cons_of_mem q hc)), ?_⟩
      rintro rfl
      have hself := (List.pairwise_cons.mp (hp'.pairwise hap fun h ↦ symm h)).1 q hc
      exact hself.hdr_ne (hl.ok q hq) (hl.ok q hq) rfl
    have hkeep := hl.keeps_link hq (readNextFree h.mem b.hdr) hne
    have hlinks : ∀ x ∈ pre'.map Block.hdr ++ post.map Block.hdr,
        readNextFree (writeNextFree h.mem q.hdr (readNextFree h.mem b.hdr)) x =
          readNextFree h.mem x := by
      intro x hx
      rw [← List.map_append] at hx
      obtain ⟨c, hc, rfl⟩ := List.mem_map.mp hx
      have hc' := List.mem_append_left (b :: used) hc
      exact hkeep.readNextFree hc' (hl.ok c (hne c hc').1)
    refine ⟨⟨?_, fun c hc ↦ ?_, fun c hc ↦ hl.ok c (hmem c hc), hap,
      fun c hc ↦ hl.usable c (hmem c hc)⟩, ?_, ?_, ?_, rfl, rfl⟩
    · rw [List.map_append, List.map_append, List.append_assoc]
      apply Linked.unlink (b := b.hdr)
      · rw [List.map_append, List.append_assoc] at hlist
        exact hlist
      · exact readNextFree_writeNextFree hnext
      · exact hlinks
    · rw [hl.sizeOf_link hq _ (hmem c hc)]
      exact hl.header c (hmem c hc)
    · exact hkeep.mono fun c hc ↦ List.mem_append_right _ hc
    · exact hlist.tail.congr fun x hx ↦ hlinks x (List.mem_append_right _ hx)
    · intro h0
      simp at h0

/-- A block that is in use becomes the head of a part of the list. -/
theorem push (hl : Layout h free (b :: used)) (hs : l.Sublist free)
    (ha : Linked (readNextFree h.mem) a (l.map Block.hdr)) :
    Layout { h with mem := writeNextFree h.mem b.hdr a, freeHead := b.hdr } (b :: l) used ∧
      Keeps h.mem (writeNextFree h.mem b.hdr a) used := by
  have hb : b ∈ free ++ b :: used := by simp
  have hp : (free ++ b :: used).Perm (b :: (free ++ used)) := List.perm_middle
  have hcons := List.pairwise_cons.mp (hp.pairwise hl.apart fun h ↦ symm h)
  have hmem : ∀ c ∈ b :: l ++ used, c ∈ free ++ b :: used := by
    intro c hc
    rw [hp.mem_iff]
    simp only [List.cons_append, List.mem_cons, List.mem_append] at hc ⊢
    have hsub : c ∈ l → c ∈ free := fun h ↦ hs.subset h
    tauto
  have hne : ∀ c ∈ free ++ used, c ∈ free ++ b :: used ∧ b ≠ c := by
    intro c hc
    have hc' : c ∈ free ++ b :: used := by
      rw [hp.mem_iff]
      exact List.mem_cons_of_mem b hc
    refine ⟨hc', ?_⟩
    rintro rfl
    exact (hcons.1 b hc).hdr_ne (hl.ok b hb) (hl.ok b hb) rfl
  have hkeep := hl.keeps_link hb a hne
  have ha64 : a < 2 ^ 64 := by
    cases hll : l with
    | nil =>
      rw [hll] at ha
      cases ha
      decide
    | cons d l' =>
      have hd : d ∈ free ++ b :: used := hmem d (by simp [hll])
      have hok := hl.ok d hd
      have h1 := hok.space
      have h2 := hok.large
      rw [hll] at ha
      rw [ha.head]
      unfold Block.stop memorySize at h1
      omega
  refine ⟨⟨?_, fun c hc ↦ ?_, fun c hc ↦ hl.ok c (hmem c hc), ?_,
    fun c hc ↦ hl.usable c (hmem c hc)⟩, hkeep.mono fun c hc ↦ List.mem_append_right _ hc⟩
  · rw [List.map_cons]
    apply Linked.cons (Nat.ne_of_gt (hl.ok b hb).pos)
    dsimp only
    rw [readNextFree_writeNextFree ha64]
    apply ha.congr
    intro x hx
    obtain ⟨c, hc, rfl⟩ := List.mem_map.mp hx
    have hc' := List.mem_append_left used (hs.subset hc)
    exact hkeep.readNextFree hc' (hl.ok c (hne c hc').1)
  · dsimp only
    rw [hl.sizeOf_link hb a (hmem c hc)]
    exact hl.header c (hmem c hc)
  · rw [List.cons_append]
    apply List.pairwise_cons.mpr
    constructor
    · intro c hc
      apply hcons.1 c
      simp only [List.mem_append] at hc ⊢
      have hsub : c ∈ l → c ∈ free := fun h ↦ hs.subset h
      tauto
    · exact hcons.2.sublist (hs.append (List.Sublist.refl used))

end Layout

end Heap

end BmoX.Rt
