import BmoX.Rt.Layout
import Mathlib.Data.List.Perm.Subperm

/-!
# What the calls do to the blocks

The heap as its blocks: a request takes a block of the list, whole or cut, or one of a new chunk; a
block that is given back enters the list, alone or joined to the one after it. The calls do to the
memory what these moves say.
-/

namespace BmoX.Rt

open BmoX.Base

/-- A chunk is the answer of a backend to a call. -/
def Backend.Gave (back : Backend) (c : Chunk) : Prop :=
  ∃ n, back n ≠ 0 ∧ c.base = back n ∧ c.bytes = n.toNat

/-- A request of `n` bytes takes a block: what is left of the list, and the chunks. -/
inductive Takes (back : Backend) (n : Nat) (free : List Block) (chunks : List Chunk) :
    Block → List Block → List Chunk → Prop
  | whole {pre post : List Block} {b : Block} (hf : free = pre ++ b :: post)
      (hpre : ∀ c ∈ pre, c.size < n) (h1 : n ≤ b.size) (h2 : b.size < n + 32) (hn : n < 524288) :
      Takes back n free chunks b (pre ++ post) chunks
  | cut {pre post : List Block} {b : Block} (hf : free = pre ++ b :: post)
      (hpre : ∀ c ∈ pre, c.size < n) (h : n + 32 ≤ b.size) (hn : n < 524288) :
      Takes back n free chunks ⟨b.hdr, n⟩ (⟨b.hdr + n, b.size - n⟩ :: post) chunks
  | arena {c : Chunk} (hno : ∀ b ∈ free, b.size < n) (hg : back.Gave c) (hc : c.arena = true)
      (hs : c.bytes = 1048600) (hn : n < 524288) :
      Takes back n free chunks ⟨c.start, n⟩ (⟨c.start + n, 1048576 - n⟩ :: free) (c :: chunks)
  | large {c : Chunk} (hg : back.Gave c) (hc : c.arena = false) (hs : c.bytes = n)
      (hn : 524288 ≤ n) : Takes back n free chunks ⟨c.start, n⟩ free (c :: chunks)

/-- A block is given back: the list after it. -/
inductive Gives (b : Block) (free : List Block) : List Block → Prop
  | alone (h : ∀ c ∈ free, c.hdr ≠ b.stop) : Gives b free (b :: free)
  | joined {pre post : List Block} {c : Block} (hf : free = pre ++ c :: post)
      (hc : c.hdr = b.stop) : Gives b free (⟨b.hdr, b.size + c.size⟩ :: (pre ++ post))

/-- What a backend promises: null, or a chunk at a word, in the address space, apart from those that
it gave before. -/
def Backend.Honest (b : Backend) (chunks : List Chunk) : Prop :=
  ∀ n, b n ≠ 0 → b n % 8 = 0 ∧ b n + n.toNat ≤ memorySize ∧
    ∀ c ∈ chunks, b n + n.toNat ≤ c.base ∨ c.stop ≤ b n

namespace Heap

variable {h : Heap} {free used bs : List Block} {b c : Block} {back : Backend}

/-! ### Walks -/

private theorem length_lt_of_nodup {l : List Nat} (hn : l.Nodup) {N : Nat}
    (h : ∀ x ∈ l, 0 < x ∧ x < N) : l.length < N ∨ N = 0 := by
  have hsub : l ⊆ List.range' 1 (N - 1) := by
    intro x hx
    rw [List.mem_range'_1]
    have := h x hx
    omega
  have hlen := (hn.subperm hsub).length_le
  rw [List.length_range'] at hlen
  omega

/-- No list is as long as the memory. -/
theorem Layout.length_lt (hl : Layout h free used) : (free.map Block.hdr).length < memorySize := by
  have hok : ∀ b ∈ free, b.Ok := fun b hb ↦ hl.ok b (List.mem_append_left used hb)
  have hnodup : (free.map Block.hdr).Nodup := by
    rw [List.nodup_iff_pairwise_ne, List.pairwise_map]
    apply (List.pairwise_append.mp hl.apart).1.imp_of_mem
    intro b c hb hc hap
    exact hap.hdr_ne (hok b hb) (hok c hc)
  have hlt := length_lt_of_nodup hnodup (N := memorySize) fun x hx ↦ by
    obtain ⟨b, hb, rfl⟩ := List.mem_map.mp hx
    have h1 := (hok b hb).space
    have h2 := (hok b hb).large
    unfold Block.stop at h1
    exact ⟨(hok b hb).pos, by omega⟩
  rcases hlt with hlt | h0
  · exact hlt
  · cases h0

/-- A walk over the list of free blocks. -/
theorem Layout.walk_cases (hl : Layout h free used) (stop : Nat → Bool) :
    ((∀ b ∈ free, stop b.hdr = false) ∧
      ∃ q, walk (readNextFree h.mem) stop memorySize 0 h.freeHead = some (q, 0)) ∨
    ∃ pre b post, free = pre ++ b :: post ∧ (∀ c ∈ pre, stop c.hdr = false) ∧
      stop b.hdr = true ∧
      walk (readNextFree h.mem) stop memorySize 0 h.freeHead = some (Layout.prevOf pre, b.hdr) := by
  rcases @Linked.walk_cases (readNextFree h.mem) stop _ _ hl.list _ 0 hl.length_lt with
    ⟨h1, q, hq⟩ | ⟨pre, x, post, h1, h2, h3, h4⟩
  · left
    exact ⟨fun b hb ↦ h1 b.hdr (List.mem_map_of_mem hb), q, hq⟩
  · right
    obtain ⟨pre', post', rfl, rfl, hpost⟩ := List.map_eq_append_iff.mp h1
    obtain ⟨b, post'', rfl, rfl, rfl⟩ := List.map_eq_cons_iff.mp hpost
    exact ⟨pre', b, post'', rfl, fun c hc ↦ h2 c.hdr (List.mem_map_of_mem hc), h3, h4⟩

/-! ### A block goes out -/

/-- A block with another header of the same size. -/
theorem Layout.reheader (hl : Layout h free (b :: used)) {v : UInt64}
    (hv : (v &&& ~~~1).toNat = b.size) :
    Layout { h with mem := h.mem.write64 b.hdr v } free (b :: used) ∧
      Keeps h.mem (h.mem.write64 b.hdr v) (free ++ used) := by
  have hb : b ∈ free ++ b :: used := by simp
  have hok := hl.ok b hb
  have hcons := List.pairwise_cons.mp (List.perm_middle.pairwise hl.apart fun h ↦ symm h)
  have hkeep : Keeps h.mem (h.mem.write64 b.hdr v) (free ++ used) := by
    apply keeps_write64 (c := b) (Nat.le_refl _)
    · have := hok.large
      unfold Block.stop
      omega
    · exact hcons.1
  refine ⟨?_, hkeep⟩
  refine @Layout.replace h { h with mem := h.mem.write64 b.hdr v } free used [b] [b] hl hkeep rfl
    (fun _ hx ↦ hx) ?_ ?_ ?_
  · intro c hc
    rw [List.mem_singleton.mp hc]
    unfold sizeOf
    dsimp only
    rw [Memory.read64_write64_self]
    exact ⟨hv, hok, hl.usable b hb⟩
  · exact List.pairwise_singleton _ _
  · intro c hc d hd
    rw [List.mem_singleton.mp hc]
    exact hcons.1 d hd

/-- A block is cut in two. -/
theorem Layout.split (hl : Layout h free (b :: used)) {n r : UInt64} (hn : n.toNat % 8 = 0)
    (h32 : 32 ≤ n.toNat) (hr : n.toNat + r.toNat = b.size) (hr32 : 32 ≤ r.toNat) :
    let m := (h.mem.write64 b.hdr (blockHeader n false)).write64 (b.hdr + n.toNat)
      (blockHeader r true)
    Layout { h with mem := m } free
      (⟨b.hdr + n.toNat, r.toNat⟩ :: ⟨b.hdr, n.toNat⟩ :: used) ∧
      Keeps h.mem m (free ++ used) ∧ readNextFree m b.hdr = readNextFree h.mem b.hdr := by
  have hb : b ∈ free ++ b :: used := by simp
  have hok := hl.ok b hb
  have hpos := hok.pos
  have hword := hok.word
  have hwords := hok.words
  have hspace := hok.space
  have hcons := List.pairwise_cons.mp (List.perm_middle.pairwise hl.apart fun h ↦ symm h)
  unfold Block.stop at hspace
  have hkeep : Keeps h.mem ((h.mem.write64 b.hdr (blockHeader n false)).write64
      (b.hdr + n.toNat) (blockHeader r true)) (free ++ used) := by
    refine Keeps.trans
      (?_ : Keeps h.mem (h.mem.write64 b.hdr (blockHeader n false)) (free ++ used)) ?_
    · apply keeps_write64 (c := b) (Nat.le_refl _) _ hcons.1
      unfold Block.stop
      omega
    · apply keeps_write64 (c := b) (Nat.le_add_right ..) _ hcons.1
      unfold Block.stop
      omega
  dsimp only
  refine ⟨?_, hkeep, ?_⟩
  · refine @Layout.replace h { h with mem := _ } free used [b]
      [⟨b.hdr + n.toNat, r.toNat⟩, ⟨b.hdr, n.toNat⟩] hl hkeep rfl (fun _ hx ↦ hx) ?_ ?_ ?_
    · intro c hc
      rcases List.mem_cons.mp hc with rfl | hc
      · refine ⟨?_, ⟨by dsimp only; omega, by dsimp only; omega, by dsimp only; omega, hr32, ?_⟩,
          fun x hx ↦ hl.usable b hb x ?_⟩
        · dsimp only
          rw [sizeOf_write64 (by omega)]
        · unfold Block.stop
          dsimp only
          omega
        · unfold Block.Has Block.stop at hx ⊢
          dsimp only at hx
          omega
      · rw [List.mem_singleton.mp hc]
        refine ⟨?_, ⟨hpos, hword, hn, h32, ?_⟩, fun x hx ↦ hl.usable b hb x ?_⟩
        · dsimp only
          unfold sizeOf
          rw [Memory.read64_write64_of_disjoint (by omega)]
          exact congrArg UInt64.toNat (sizeOf_write64 hn false)
        · unfold Block.stop
          dsimp only
          omega
        · unfold Block.Has Block.stop at hx ⊢
          dsimp only at hx
          omega
    · apply List.pairwise_pair.mpr
      right
      exact Nat.le_refl _
    · intro c hc d hd
      have hbd := hcons.1 d hd
      unfold Block.Apart Block.stop at hbd ⊢
      rcases List.mem_cons.mp hc with rfl | hc
      · dsimp only
        omega
      · rw [List.mem_singleton.mp hc]
        dsimp only
        omega
  · unfold readNextFree headerSize
    rw [Memory.read64_write64_of_disjoint (by omega), Memory.read64_write64_of_disjoint (by omega)]

/-- A block takes in the one that starts where it ends. -/
theorem Layout.join (hl : Layout h free (c :: b :: used)) (hc : c.hdr = b.stop) {size : UInt64}
    (hs : size.toNat = b.size + c.size) :
    Layout { h with mem := h.mem.write64 b.hdr (blockHeader size true) } free
      (⟨b.hdr, b.size + c.size⟩ :: used) ∧
      Keeps h.mem (h.mem.write64 b.hdr (blockHeader size true)) (free ++ used) := by
  have hb : b ∈ free ++ c :: b :: used := by simp
  have hcm : c ∈ free ++ c :: b :: used := by simp
  have hok := hl.ok b hb
  have hokc := hl.ok c hcm
  have h1 := hok.words
  have h2 := hokc.words
  have hcons := List.pairwise_cons.mp (List.perm_middle.pairwise hl.apart fun h ↦ symm h)
  have hcons' := List.pairwise_cons.mp (List.perm_middle.pairwise hcons.2 fun h ↦ symm h)
  have hfar : ∀ d ∈ free ++ used, c.Apart d ∧ b.Apart d := by
    intro d hd
    refine ⟨hcons.1 d ?_, hcons'.1 d hd⟩
    rw [List.mem_append] at hd ⊢
    rw [List.mem_cons]
    tauto
  have hkeep : Keeps h.mem (h.mem.write64 b.hdr (blockHeader size true)) (free ++ used) := by
    apply keeps_write64 (c := b) (Nat.le_refl _)
    · have := hok.large
      unfold Block.stop
      omega
    · exact fun d hd ↦ (hfar d hd).2
  refine ⟨?_, hkeep⟩
  refine @Layout.replace h { h with mem := h.mem.write64 b.hdr (blockHeader size true) } free used
    [c, b] [⟨b.hdr, b.size + c.size⟩] hl hkeep rfl (fun _ hx ↦ hx) ?_ ?_ ?_
  · intro d hd
    rw [List.mem_singleton.mp hd]
    refine ⟨?_, ⟨hok.pos, hok.word, by dsimp only; omega, ?_, ?_⟩, fun x hx ↦ ?_⟩
    · dsimp only
      rw [sizeOf_write64 (by omega), hs]
    · have := hok.large
      dsimp only
      omega
    · have := hokc.space
      unfold Block.stop at this hc ⊢
      dsimp only
      omega
    · unfold Block.Has Block.stop at hx
      dsimp only at hx
      unfold Block.stop at hc
      by_cases hxb : x < b.hdr + b.size
      · exact hl.usable b hb x ⟨hx.1, hxb⟩
      · apply hl.usable c hcm x
        unfold Block.Has Block.stop
        omega
  · exact List.pairwise_singleton _ _
  · intro d hd e he
    rw [List.mem_singleton.mp hd]
    obtain ⟨h3, h4⟩ := hfar e he
    have h5 := hokc.large
    have h6 := hok.large
    have hoke := hl.ok e (by rw [List.mem_append] at he ⊢; simp only [List.mem_cons]; tauto)
    have h7 := hoke.large
    unfold Block.Apart Block.stop at h3 h4 ⊢
    unfold Block.stop at hc
    dsimp only
    omega

/-- A block in a new chunk. -/
theorem Layout.fresh (hl : Layout h free used) {m : Memory} {ch : Chunk} {bs : List Block}
    {arenas : Nat} (hch : ∀ d ∈ h.chunks, ch.Apart d)
    (hm : ∀ x, x < ch.base ∨ ch.stop ≤ x → m x = h.mem x)
    (hbs : ∀ b ∈ bs, (sizeOf m b.hdr).toNat = b.size ∧ b.Ok ∧ ch.start ≤ b.hdr ∧ b.stop ≤ ch.stop)
    (hap : bs.Pairwise Block.Apart) :
    Layout { h with mem := m, chunks := ch :: h.chunks, arenas } free (bs ++ used) ∧
      Keeps h.mem m (free ++ used) := by
  have hstart : ch.base ≤ ch.start := Nat.le_add_right ..
  have hout : ∀ b ∈ free ++ used, ∀ x, b.Has x → x < ch.base ∨ ch.stop ≤ x := by
    intro b hb x hx
    obtain ⟨d, hd, h1, h2⟩ := hl.usable b hb x hx
    have h3 := hch d hd
    have h4 : d.base ≤ d.start := Nat.le_add_right ..
    unfold Chunk.Apart at h3
    omega
  have hkeep : Keeps h.mem m (free ++ used) := fun b hb x hx ↦ hm x (hout b hb x hx)
  refine ⟨?_, hkeep⟩
  refine @Layout.replace h { h with mem := m, chunks := ch :: h.chunks, arenas } free used [] bs hl
    hkeep rfl ?_ ?_ hap ?_
  · intro x hx
    obtain ⟨d, hd, hx⟩ := hx
    exact ⟨d, List.mem_cons_of_mem ch hd, hx⟩
  · intro b hb
    obtain ⟨h1, h2, h3, h4⟩ := hbs b hb
    refine ⟨h1, h2, fun x hx ↦ ⟨ch, List.mem_cons_self, ?_⟩⟩
    unfold Block.Has at hx
    omega
  · intro b hb d hd
    obtain ⟨-, h2, h3, h4⟩ := hbs b hb
    have h5 := h2.large
    have h6 := (hl.ok d hd).large
    have h7 := hout d hd d.hdr ⟨Nat.le_refl _, by unfold Block.stop; omega⟩
    have h8 := hout d hd (d.stop - 1) (by unfold Block.Has Block.stop; omega)
    by_contra hno
    have h9 := hout d hd (if b.hdr ≤ d.hdr then d.hdr else b.hdr) (by
      unfold Block.Apart Block.stop at hno
      unfold Block.Has Block.stop
      split <;> omega)
    unfold Block.Apart Block.stop at hno
    unfold Block.stop at h4 h8
    split at h9 <;> omega

/-- `take_block` takes the block of the list that it is told. -/
theorem takeBlock_spec (back : Backend) {pre post : List Block}
    (hl : Layout h (pre ++ b :: post) used) {n : UInt64} (hn : n.toNat % 8 = 0)
    (h32 : 32 ≤ n.toNat) (hsmall : n.toNat < 524288) (hfit : n.toNat ≤ b.size)
    (hpre : ∀ c ∈ pre, c.size < n.toNat) :
    let r := h.takeBlock (Layout.prevOf pre) b.hdr n
    ∃ blk free', Takes back n.toNat (pre ++ b :: post) h.chunks blk free' r.2.chunks ∧
      r.1 = blk.hdr + headerSize ∧ Layout r.2 free' (blk :: used) ∧ Keeps h.mem r.2.mem used := by
  have hb : b ∈ pre ++ b :: post ++ used := by simp
  have hsize := hl.header b hb
  have hok := hl.ok b hb
  obtain ⟨hl1, hk1, hlink, -, hch, -⟩ := hl.unlink
  unfold takeBlock
  dsimp only
  generalize (if Layout.prevOf pre = 0 then
      { h with freeHead := readNextFree h.mem b.hdr } else
      { h with mem := writeNextFree h.mem (Layout.prevOf pre) (readNextFree h.mem b.hdr) }) = h1
    at hl1 hk1 hlink hch ⊢
  have hrem : (sizeOf h.mem b.hdr - n).toNat = b.size - n.toNat := by
    rw [UInt64.toNat_sub_of_le _ _ (UInt64.le_iff_toNat_le.mpr (by omega)), hsize]
  have hmin : minBlock.toNat = 32 := rfl
  split
  · next hge =>
    -- cut: what is left goes where the block was in the list, which becomes its head
    have hge' := UInt64.le_iff_toNat_le.mp hge
    rw [hrem, hmin] at hge'
    obtain ⟨hl2, hk2, -⟩ := hl1.split (n := n) (r := sizeOf h.mem b.hdr - n) hn h32
      (by omega) (by omega)
    rw [hrem] at hl2
    have hlink2 : Linked (readNextFree ((h1.mem.write64 b.hdr (blockHeader n false)).write64
        (b.hdr + n.toNat) (blockHeader (sizeOf h.mem b.hdr - n) true)))
        (readNextFree h.mem b.hdr) (post.map Block.hdr) := by
      apply hlink.congr
      intro x hx
      obtain ⟨c, hc, rfl⟩ := List.mem_map.mp hx
      have hc' : c ∈ pre ++ post ++ used :=
        List.mem_append_left _ (List.mem_append_right _ hc)
      apply hk2.readNextFree hc'
      exact hl1.ok c (List.mem_append_left _ (List.mem_append_right _ hc))
    obtain ⟨hl3, hk3⟩ := hl2.push (List.sublist_append_right pre post) hlink2
    refine ⟨_, _, ?_, ?_, hl3, ?_⟩
    · rw [hch]
      exact .cut rfl hpre (by omega) hsmall
    · rfl
    · apply Keeps.trans (hk1.mono fun c hc ↦ List.mem_cons_of_mem b hc)
      apply Keeps.trans (hk2.mono fun c hc ↦ List.mem_append_right _ hc)
      exact hk3.mono fun c hc ↦ List.mem_cons_of_mem _ hc
  · next hlt =>
    have hlt' := mt UInt64.le_iff_toNat_le.mpr hlt
    rw [hrem, hmin] at hlt'
    have hv : (blockHeader (sizeOf h.mem b.hdr) false &&& ~~~1).toNat = b.size := by
      rw [blockHeader_size (by rw [hsize]; exact hok.words), hsize]
    obtain ⟨hl2, hk2⟩ := hl1.reheader hv
    refine ⟨b, pre ++ post, ?_, rfl, hl2, ?_⟩
    · rw [hch]
      exact .whole rfl hpre hfit (by omega) hsmall
    · apply Keeps.trans (hk1.mono fun c hc ↦ List.mem_cons_of_mem b hc)
      exact hk2.mono fun c hc ↦ List.mem_append_right _ hc

/-- `allocate_large` takes a chunk of its own, or there is none. -/
theorem allocateLarge_spec (hl : Layout h free used) (hb : back.Honest h.chunks) {n : UInt64}
    (hn : n.toNat % 8 = 0) (hlarge : 524288 ≤ n.toNat) :
    let r := h.allocateLarge back n
    (r = (0, h) ∧ back n = 0) ∨
    ∃ blk, Takes back n.toNat free h.chunks blk free r.2.chunks ∧ r.1 = blk.hdr + headerSize ∧
      Layout r.2 free (blk :: used) ∧ Keeps h.mem r.2.mem used := by
  have hmin : minBlock.toNat = 32 := rfl
  have hno : ¬n < minBlock := by
    rw [UInt64.lt_iff_toNat_lt, hmin]
    omega
  unfold allocateLarge allocChunk
  rw [if_neg hno]
  by_cases h0 : back n = 0
  · left
    dsimp only
    rw [if_pos h0]
    exact ⟨rfl, h0⟩
  · right
    obtain ⟨h8, hspace, hap⟩ := hb n h0
    dsimp only
    rw [if_neg h0]
    dsimp only
    rw [if_neg h0]
    have hfresh := @Layout.fresh h free used hl (h.mem.write64 (back n) (blockHeader n false))
      ⟨back n, n.toNat, false⟩ [⟨back n, n.toNat⟩] h.arenas hap
      (fun x hx ↦ Memory.write64_out (by unfold Chunk.stop at hx; dsimp only at hx; omega))
      (fun b hb ↦ by
        rw [List.mem_singleton.mp hb]
        refine ⟨?_, ⟨by dsimp only; omega, h8, hn, by dsimp only; omega, hspace⟩, ?_, Nat.le_refl _⟩
        · dsimp only
          rw [sizeOf_write64 hn]
        · exact Nat.le_of_eq (Nat.add_zero _))
      (List.pairwise_singleton _ _)
    exact ⟨⟨back n, n.toNat⟩, @Takes.large back _ _ _ ⟨back n, n.toNat, false⟩
      ⟨n, h0, rfl, rfl⟩ rfl rfl hlarge, rfl,
      hfresh.1, hfresh.2.mono fun c hc ↦ List.mem_append_right _ hc⟩

/-- A block comes from a new arena, or there is none. -/
theorem takeArena_spec (hl : Layout h free used) (hb : back.Honest h.chunks) {n : UInt64}
    (hn : n.toNat % 8 = 0) (h32 : 32 ≤ n.toNat) (hsmall : n.toNat < 524288)
    (hno : ∀ b ∈ free, b.size < n.toNat) :
    let r := h.takeArena back n
    (r = (0, h) ∧ back (arenaSize + 24) = 0) ∨
    ∃ blk free', Takes back n.toNat free h.chunks blk free' r.2.chunks ∧
      r.1 = blk.hdr + headerSize ∧ Layout r.2 free' (blk :: used) ∧ Keeps h.mem r.2.mem used := by
  have htotal : (arenaSize + 24).toNat = 1048600 := rfl
  unfold takeArena addArena allocChunk
  by_cases h0 : back (arenaSize + 24) = 0
  · left
    simp only [if_pos h0, if_true]
    exact ⟨trivial, h0⟩
  · right
    obtain ⟨h8, hspace, hap⟩ := hb _ h0
    simp only [if_neg h0]
    generalize hraw : back (arenaSize + 24) = raw at *
    rw [htotal] at hspace hap
    -- the header of the arena is written, and its size read back
    generalize hm0 : ((h.mem.write64 raw arenaMagic).write64 (raw + 8) (arenaSize + 24)).write64
      (raw + 16) (UInt64.ofNat h.arenas) = m0
    have hread : m0.read64 (raw + 8) = arenaSize + 24 := by
      rw [← hm0, Memory.read64_write64_of_disjoint (by omega), Memory.read64_write64_self]
    have havail : arenaSize + 24 - 24 = arenaSize := rfl
    have hsize : arenaSize.toNat = 1048576 := rfl
    have hlt : ¬arenaSize < n := by
      rw [UInt64.lt_iff_toNat_lt, hsize]
      omega
    have hrem : (arenaSize - n).toNat = 1048576 - n.toNat := by
      rw [UInt64.toNat_sub_of_le _ _ (UInt64.le_iff_toNat_le.mpr (by omega)), hsize]
    have hge : arenaSize - n ≥ minBlock := by
      apply UInt64.le_iff_toNat_le.mpr
      rw [hrem, show minBlock.toNat = 32 from rfl]
      omega
    rw [hread, havail, if_neg hlt, if_pos hge]
    dsimp only [arenaHeaderSize]
    -- both parts of the arena are blocks, and the rest of it becomes the head of the list
    generalize hm1 : (m0.write64 (raw + 24) (blockHeader n false)).write64 (raw + 24 + n.toNat)
      (blockHeader (arenaSize - n) true) = m1
    have hout : ∀ x, x < raw ∨ raw + 1048600 ≤ x → m1 x = h.mem x := by
      intro x hx
      rw [← hm1, ← hm0]
      repeat rw [Memory.write64_out (by omega)]
    have hbs : ∀ b ∈ [(⟨raw + 24 + n.toNat, 1048576 - n.toNat⟩ : Block), ⟨raw + 24, n.toNat⟩],
        (sizeOf m1 b.hdr).toNat = b.size ∧ b.Ok ∧ raw + 24 ≤ b.hdr ∧ b.stop ≤ raw + 1048600 := by
      intro b hb
      rw [List.mem_cons, List.mem_singleton] at hb
      rcases hb with rfl | rfl
      · refine ⟨?_, ⟨?_, ?_, ?_, ?_, ?_⟩, ?_, ?_⟩
        · rw [← hm1, sizeOf_write64 (by omega), hrem]
        all_goals
          unfold memorySize at *
          simp only [Block.stop]
          omega
      · refine ⟨?_, ⟨?_, ?_, ?_, ?_, ?_⟩, ?_, ?_⟩
        · rw [← hm1]
          unfold sizeOf
          rw [Memory.read64_write64_of_disjoint (by dsimp only; omega)]
          exact congrArg UInt64.toNat (sizeOf_write64 hn false)
        all_goals
          unfold memorySize at *
          simp only [Block.stop]
          omega
    obtain ⟨hl1, hk1⟩ := @Layout.fresh h free used hl m1 ⟨raw, 1048600, true⟩ _ raw hap hout hbs
      (List.pairwise_pair.mpr (.inr (Nat.le_refl _)))
    obtain ⟨hl2, hk2⟩ := hl1.push (List.Sublist.refl free) hl1.list
    refine ⟨⟨raw + 24, n.toNat⟩, _, ?_, rfl, hl2, ?_⟩
    · exact @Takes.arena back n.toNat free h.chunks ⟨raw, 1048600, true⟩ hno
        ⟨arenaSize + 24, by rw [hraw]; exact h0, hraw.symm, rfl⟩ rfl rfl hsmall
    · apply Keeps.trans (hk1.mono fun c hc ↦ List.mem_append_right _ hc)
      exact hk2.mono fun c hc ↦ List.mem_cons_of_mem _ hc

/-- The bytes of a block for a request. -/
def bytesFor (size : Nat) : Nat := max 32 (8 + (size + 7) / 8 * 8)

private theorem toNat_needed {size : UInt64} (hs : size.toNat ≤ 2 ^ 64 - 16) :
    (needed size).toNat = 8 + (size.toNat + 7) / 8 * 8 := by
  have h7 : (size + 7).toNat = size.toNat + 7 := by
    rw [UInt64.toNat_add, show (7 : UInt64).toNat = 7 from rfl, Nat.mod_eq_of_lt (by omega)]
  have hand : ((size + 7) &&& ~~~7).toNat = (size.toNat + 7) / 8 * 8 := by
    rw [toNat_and_not_mask (w := 3) (size + 7) (m := 7) rfl, h7]
    rfl
  unfold needed
  rw [UInt64.toNat_add, hand, show (8 : UInt64).toNat = 8 from rfl, Nat.mod_eq_of_lt (by omega)]

/-- A request returns, with a null pointer and nothing done, or with a block. -/
theorem allocate_spec (hl : Layout h free used) (hb : back.Honest h.chunks) {size : UInt64}
    (h0 : size ≠ 0) (hs : size.toNat ≤ 2 ^ 64 - 16) :
    ∃ p h', h.allocate back size = some (p, h') ∧ ((p = 0 ∧ h' = h) ∨
      ∃ blk free', Takes back (bytesFor size.toNat) free h.chunks blk free' h'.chunks ∧
        p = blk.hdr + headerSize ∧ Layout h' free' (blk :: used) ∧ Keeps h.mem h'.mem used) := by
  have hneed := toNat_needed hs
  have hhalf : (arenaSize / 2).toNat = 524288 := rfl
  have hmin : minBlock.toNat = 32 := rfl
  unfold allocate bytesFor
  rw [if_neg h0]
  split
  · next hge =>
    have hge' := UInt64.le_iff_toNat_le.mp hge
    rw [hneed, hhalf] at hge'
    have hmax : max 32 (8 + (size.toNat + 7) / 8 * 8) = (needed size).toNat := by omega
    rw [hmax]
    rcases allocateLarge_spec hl hb (n := needed size) (by omega) (by omega) with
      ⟨hr, -⟩ | ⟨blk, h1, h2, h3, h4⟩
    · exact ⟨_, _, congrArg some hr, .inl ⟨rfl, rfl⟩⟩
    · exact ⟨_, _, rfl, .inr ⟨blk, free, h1, h2, h3, h4⟩⟩
  · next hlt =>
    have hlt' := mt UInt64.le_iff_toNat_le.mpr hlt
    rw [hneed, hhalf] at hlt'
    unfold allocateFromFreelist
    have hn : (if needed size < minBlock then minBlock else needed size).toNat =
        max 32 (8 + (size.toNat + 7) / 8 * 8) := by
      split
      · next h =>
        have h' := UInt64.lt_iff_toNat_lt.mp h
        omega
      · next h =>
        have h' := mt UInt64.lt_iff_toNat_lt.mpr h
        omega
    rw [← hn]
    dsimp only
    generalize (if needed size < minBlock then minBlock else needed size) = n at hn ⊢
    have hfits : ∀ b ∈ free, fits h.mem n b.hdr = decide (n.toNat ≤ b.size) := by
      intro b hb
      unfold fits
      rw [decide_eq_decide, UInt64.le_iff_toNat_le, hl.header b (List.mem_append_left used hb)]
    rcases hl.walk_cases (fits h.mem n) with
      ⟨hno, q, hq⟩ | ⟨pre, b, post, rfl, hpre, hstop, hw⟩
    · rw [hq]
      have hsmall : ∀ b ∈ free, b.size < n.toNat := by
        intro b hb
        have hf := hno b hb
        rw [hfits b hb, decide_eq_false_iff_not] at hf
        omega
      rcases takeArena_spec hl hb (n := n) (by omega) (by omega) (by omega) hsmall with
        ⟨hr, -⟩ | ⟨blk, free', h1, h2, h3, h4⟩
      · exact ⟨_, _, congrArg some hr, .inl ⟨rfl, rfl⟩⟩
      · exact ⟨_, _, rfl, .inr ⟨blk, free', h1, h2, h3, h4⟩⟩
    · rw [hw]
      have hbm : b ∈ pre ++ b :: post := by simp
      have hb0 : b.hdr ≠ 0 := Nat.ne_of_gt (hl.ok b (List.mem_append_left used hbm)).pos
      rw [hfits b hbm, decide_eq_true_eq] at hstop
      have hsmall : ∀ c ∈ pre, c.size < n.toNat := by
        intro c hc
        have hf := hpre c hc
        rw [hfits c (List.mem_append_left _ hc), decide_eq_false_iff_not] at hf
        omega
      obtain ⟨blk, free', h1, h2, h3, h4⟩ :=
        takeBlock_spec back hl (n := n) (by omega) (by omega) (by omega) hstop hsmall
      refine ⟨_, _, congrArg some (if_pos hb0), .inr ⟨blk, free', h1, h2, h3, h4⟩⟩

/-- Where a free block is large enough, the backend is not asked. -/
theorem allocate_of_fits (hl : Layout h free used) {size : UInt64} (back' : Backend)
    (hs : size.toNat ≤ 2 ^ 64 - 16) (hsmall : 8 + (size.toNat + 7) / 8 * 8 < 524288)
    (hb : b ∈ free) (hfit : bytesFor size.toNat ≤ b.size) :
    h.allocate back' size = h.allocate back size := by
  have hneed := toNat_needed hs
  have hhalf : (arenaSize / 2).toNat = 524288 := rfl
  have hmin : minBlock.toNat = 32 := rfl
  have hlt : ¬needed size ≥ arenaSize / 2 := by
    apply mt UInt64.le_iff_toNat_le.mp
    omega
  unfold bytesFor at hfit
  unfold allocate allocateFromFreelist
  rw [if_neg hlt, if_neg hlt]
  dsimp only
  rcases hl.walk_cases (fits h.mem (if needed size < minBlock then minBlock else needed size)) with
    ⟨hno, -⟩ | ⟨pre, c, post, rfl, -, -, hw⟩
  · have hf := hno b hb
    unfold fits at hf
    rw [decide_eq_false_iff_not, UInt64.le_iff_toNat_le,
      hl.header b (List.mem_append_left used hb)] at hf
    exfalso
    apply hf
    split
    · omega
    · omega
  · have hc : c ∈ pre ++ c :: post ++ used := by simp
    have hc0 : c.hdr ≠ 0 := Nat.ne_of_gt (hl.ok c hc).pos
    rw [hw]
    simp only [Option.bind_eq_bind, Option.bind_some, if_pos hc0]

/-! ### A block comes back -/

/-- A free block after this one is joined to it. -/
theorem joinNext_spec (hl : Layout h free (b :: used)) :
    ∃ h' free' b', h.joinNext b.hdr (sizeOf h.mem b.hdr) = some h' ∧ b'.hdr = b.hdr ∧
      Gives b free (b' :: free') ∧ Layout h' free' (b' :: used) ∧ Keeps h.mem h'.mem used ∧
      h'.chunks = h.chunks := by
  have hb : b ∈ free ++ b :: used := by simp
  have hok := hl.ok b hb
  have hsize := hl.header b hb
  unfold joinNext
  rw [hsize]
  dsimp only
  rcases hl.walk_cases (fun x ↦ decide (x = b.hdr + b.size)) with
    ⟨hno, q, hq⟩ | ⟨pre, c, post, rfl, -, hstop, hw⟩
  · rw [hq]
    refine ⟨h, free, b, rfl, rfl, .alone fun c hc ↦ ?_, hl, Keeps.refl, rfl⟩
    exact of_decide_eq_false (hno c hc)
  · have hc : c.hdr = b.stop := of_decide_eq_true hstop
    have hcm : c ∈ pre ++ c :: post ++ b :: used := by simp
    have hokc := hl.ok c hcm
    have hc0 : c.hdr ≠ 0 := Nat.ne_of_gt hokc.pos
    have hsizec := hl.header c hcm
    have hpos := hok.pos
    have hspace := hokc.space
    obtain ⟨hl1, hk1, -, -, hch, -⟩ := hl.unlink
    rw [hw]
    have hstop' : b.hdr + b.size = c.hdr := hc.symm
    simp only [Option.bind_eq_bind, Option.bind_some, if_neg hc0, hstop']
    have hsum : (sizeOf h.mem b.hdr + sizeOf h.mem c.hdr).toNat = b.size + c.size := by
      unfold Block.stop memorySize at hspace
      unfold Block.stop at hc
      rw [UInt64.toNat_add, hsize, hsizec, Nat.mod_eq_of_lt (by omega)]
    generalize (if Layout.prevOf pre = 0 then
        { h with freeHead := readNextFree h.mem c.hdr } else
        { h with mem := writeNextFree h.mem (Layout.prevOf pre) (readNextFree h.mem c.hdr) }) = h1
      at hl1 hk1 hch ⊢
    obtain ⟨hl2, hk2⟩ := hl1.join hc hsum
    refine ⟨_, pre ++ post, ⟨b.hdr, b.size + c.size⟩, rfl, rfl, .joined rfl hc, hl2, ?_, hch⟩
    apply Keeps.trans (hk1.mono fun d hd ↦ List.mem_cons_of_mem c (List.mem_cons_of_mem b hd))
    exact hk2.mono fun d hd ↦ List.mem_append_right _ hd

/-- `deallocate_inner` returns, with the block in the list. -/
theorem deallocateInner_spec (hl : Layout h free (b :: used)) :
    ∃ h' free', h.deallocateInner (b.hdr + headerSize) = some h' ∧ Gives b free free' ∧
      Layout h' free' used ∧ Keeps h.mem h'.mem used ∧ h'.chunks = h.chunks := by
  have hb : b ∈ free ++ b :: used := by simp
  have hsize := hl.header b hb
  have hv : ((h.mem.read64 b.hdr ||| 1) &&& ~~~1).toNat = b.size := by
    rw [or_one_size]
    exact hsize
  obtain ⟨hl0, hk0⟩ := hl.reheader hv
  obtain ⟨h1, free', b', hj, hb', hg, hl1, hk1, hch⟩ := joinNext_spec hl0
  obtain ⟨hl2, hk2⟩ := hl1.push (List.Sublist.refl free') hl1.list
  unfold deallocateInner
  rw [Nat.add_sub_cancel]
  dsimp only
  rw [hj, ← hb']
  refine ⟨_, _, rfl, hg, hl2, ?_, hch⟩
  apply Keeps.trans (hk0.mono fun c hc ↦ List.mem_append_right _ hc)
  exact hk1.trans hk2

end Heap

end BmoX.Rt
