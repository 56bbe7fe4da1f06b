import BmoX.Rt.Moves

/-!
# Runs of the heap

Calls in any order, with the answers of the backend to each, and the owner's writes in its blocks:
what each does to the blocks and to what they hold.
-/

namespace BmoX.Rt

open BmoX.Base

/-- A pointer that was given out and not given back: for how many bytes, and for which alignment. -/
structure Live where
  p : Nat
  n : Nat
  align : Nat
  deriving DecidableEq, Repr

/-- A call, or a write of the owner. `malloc` is `alloc` with alignment 8. -/
inductive Call
  | alloc (size : UInt64) (align : Nat)
  | calloc (nmemb size : UInt64)
  | realloc (p : Nat) (size : UInt64) (align : Nat)
  | free (p : Nat)
  | write (a : Nat) (v : UInt8)

namespace Call

/-- The pointer that is returned, and the heap after. -/
def exec (c : Call) (back : Backend) (h : Heap) : Option (Nat × Heap) :=
  match c with
  | alloc size _ => h.allocate back size
  | calloc nmemb size => h.calloc back nmemb size
  | realloc p size _ => h.realloc back p size
  | free p => (h.deallocate p).map fun h ↦ (0, h)
  | write a v => some (0, { h with mem := Function.update h.mem a v })

/-- The bytes that are asked for, as a number. -/
def bytes : Call → Nat
  | alloc size _ | realloc _ size _ => size.toNat
  | calloc nmemb size => nmemb.toNat * size.toNat
  | free _ | write _ _ => 0

/-- The pointer that is given back. -/
def gives : Call → Nat
  | realloc p _ _ | free p => p
  | alloc _ _ | calloc _ _ | write _ _ => 0

/-- What was asked for is counted without wrapping. -/
def Counted (c : Call) : Prop := c.bytes ≤ 2 ^ 64 - 16

/-- A request that the backend serves with a chunk of its own. -/
def Large (c : Call) : Prop := 524288 ≤ Heap.bytesFor c.bytes

/-- The owner's write at an address. -/
def Writes (c : Call) (x : Nat) : Prop := ∃ v, c = write x v

end Call

/-- The heap, and the pointers that are out. -/
structure State where
  heap : Heap
  live : List Live

namespace State

/-- The pointers that are out after a call that returned `p`. -/
def after (s : State) (c : Call) (p : Nat) : List Live :=
  match c with
  | .alloc size align => if p = 0 then s.live else ⟨p, size.toNat, align⟩ :: s.live
  | .calloc nmemb size => if p = 0 then s.live else ⟨p, nmemb.toNat * size.toNat, 8⟩ :: s.live
  | .realloc q size align =>
    if p = 0 then if size = 0 then s.live.filter (·.p ≠ q) else s.live
    else ⟨p, size.toNat, align⟩ :: s.live.filter (·.p ≠ q)
  | .free q => s.live.filter (·.p ≠ q)
  | .write _ _ => s.live

/-- A call that looks for a block. -/
def Asks (s : State) : Call → Prop
  | .alloc size _ => size ≠ 0
  | .calloc nmemb size => nmemb * size ≠ 0
  | .realloc q size _ =>
    if q = 0 then size ≠ 0 else Heap.sizeOf s.heap.mem (q - headerSize) - 8 < size
  | .free _ | .write _ _ => False

/-- What callers and the backend keep to: a pointer that is given back is out, the owner writes in
its blocks, and the backend is honest. -/
structure Legal (s : State) (c : Call) (back : Backend) : Prop where
  honest : back.Honest s.heap.chunks
  gives : c.gives = 0 ∨ ∃ v ∈ s.live, v.p = c.gives
  writes : ∀ x, c.Writes x → ∃ v ∈ s.live, v.p ≤ x ∧ x < v.p + v.n

/-- An empty heap in any memory. -/
def new (m : Memory) : State := ⟨⟨m, 0, 0, []⟩, []⟩

end State

/-- The runs in which every call satisfies `C`. -/
inductive Runs (C : State → Call → Backend → Prop) : State → Prop
  | new (m : Memory) : Runs C (.new m)
  | call {s : State} {c : Call} {back : Backend} {p : Nat} {h : Heap} (hs : Runs C s)
      (hl : s.Legal c back) (hc : C s c back) (he : c.exec back s.heap = some (p, h)) :
      Runs C ⟨h, s.after c p⟩

/-! ### The blocks of a state -/

/-- The blocks: those of the list, those in use, and the chunks. -/
structure Blocks where
  free : List Block
  used : List Block
  chunks : List Chunk

/-- A block comes back, or none. -/
inductive Blocks.Frees (B : Blocks) : Blocks → Prop
  | none : Frees B B
  | one {b : Block} {free rest : List Block} (hp : B.used.Perm (b :: rest))
      (h : Gives b B.free free) : Frees B ⟨free, rest, B.chunks⟩

/-- What a call for `n` bytes does to the blocks: where it asks for one, one may go out first. -/
inductive Blocks.Goes (back : Backend) (n : Nat) (asks : Prop) (B : Blocks) : Blocks → Prop
  | frees {B' : Blocks} (h : B.Frees B') : Goes back n asks B B'
  | takes {blk : Block} {free : List Block} {chunks : List Chunk} {B' : Blocks} (ha : asks)
      (h : Takes back n B.free B.chunks blk free chunks)
      (h' : Blocks.Frees ⟨free, blk :: B.used, chunks⟩ B') : Goes back n asks B B'

/-- The pointers that are out are those of the blocks in use, each with room for what it was asked
for. -/
structure Match (live : List Live) (used : List Block) : Prop where
  block : ∀ v ∈ live, ∃ b ∈ used, v.p = b.hdr + 8 ∧ v.n + 8 ≤ b.size
  owner : ∀ b ∈ used, ∃ v ∈ live, v.p = b.hdr + 8
  nodup : (live.map Live.p).Nodup

/-- The blocks of a state. -/
structure State.Has (s : State) (B : Blocks) : Prop where
  layout : s.heap.Layout B.free B.used
  chunks : s.heap.chunks = B.chunks
  owners : Match s.live B.used

/-- The bytes of the pointers that stay out are as they were, but for the owner's writes, and a
block that moves takes its bytes with it. -/
structure State.Keeps (s : State) (c : Call) (p : Nat) (h : Heap) : Prop where
  stays : ∀ v ∈ s.live, v ∈ s.after c p → ∀ x, v.p ≤ x → x < v.p + v.n → ¬c.Writes x →
    h.mem x = s.heap.mem x
  moves : ∀ q size align, c = .realloc q size align → p ≠ 0 → ∀ v ∈ s.live, v.p = q →
    ∀ k, k < v.n → k < size.toNat → h.mem (p + k) = s.heap.mem (q + k)

/-! ### What a call does -/

private theorem Takes.size_le {back : Backend} {n : Nat} {free free' : List Block}
    {chunks chunks' : List Chunk} {blk : Block}
    (h : Takes back n free chunks blk free' chunks') : n ≤ blk.size := by
  cases h with
  | whole _ _ h1 _ _ => exact h1
  | cut _ _ _ _ => exact Nat.le_refl n
  | arena _ _ _ _ _ => exact Nat.le_refl n
  | large _ _ _ _ => exact Nat.le_refl n

theorem Heap.bytesFor_ge (n : Nat) : n + 8 ≤ Heap.bytesFor n := by
  unfold Heap.bytesFor
  omega

private theorem Heap.Layout.hdr_inj {h : Heap} {free used : List Block} (hl : h.Layout free used)
    {b c : Block} (hb : b ∈ used) (hc : c ∈ used) (hh : b.hdr = c.hdr) : b = c := by
  by_contra hne
  have hb' := List.mem_append_right free hb
  have hc' := List.mem_append_right free hc
  exact (hl.apart_of_ne hb' hc' hne).hdr_ne (hl.ok b hb') (hl.ok c hc') hh

namespace Match

variable {live : List Live} {used rest : List Block} {b blk : Block} {h : Heap} {free : List Block}

/-- A block goes out. -/
theorem take (hm : Match live used) (hl : h.Layout free (blk :: used)) {n : Nat}
    (hn : n + 8 ≤ blk.size) (align : Nat) :
    Match (⟨blk.hdr + 8, n, align⟩ :: live) (blk :: used) where
  block v hv := by
    rcases List.mem_cons.mp hv with rfl | hv
    · exact ⟨blk, List.mem_cons_self, rfl, hn⟩
    · obtain ⟨b, hb, h1, h2⟩ := hm.block v hv
      exact ⟨b, List.mem_cons_of_mem blk hb, h1, h2⟩
  owner b hb := by
    rcases List.mem_cons.mp hb with rfl | hb
    · exact ⟨_, List.mem_cons_self, rfl⟩
    · obtain ⟨v, hv, hp⟩ := hm.owner b hb
      exact ⟨v, List.mem_cons_of_mem _ hv, hp⟩
  nodup := by
    rw [List.map_cons, List.nodup_cons]
    refine ⟨fun hmem ↦ ?_, hm.nodup⟩
    obtain ⟨v, hv, hp⟩ := List.mem_map.mp hmem
    obtain ⟨b, hb, h1, -⟩ := hm.block v hv
    dsimp only at hp
    have hap := hl.apart
    have hcons := List.pairwise_cons.mp (List.perm_middle.pairwise hap fun h ↦ symm h)
    have hbb := hcons.1 b (List.mem_append_right free hb)
    have hokb := hl.ok b (List.mem_append_right free (List.mem_cons_of_mem blk hb))
    have hok := hl.ok blk (List.mem_append_right free List.mem_cons_self)
    apply hbb.hdr_ne hok hokb
    omega

/-- A block comes back. -/
theorem give (hm : Match live used) (hl : h.Layout free used) (hp : used.Perm (b :: rest)) :
    Match (live.filter (·.p ≠ b.hdr + 8)) rest where
  block v hv := by
    obtain ⟨hv, hne⟩ := List.mem_filter.mp hv
    obtain ⟨c, hc, h1, h2⟩ := hm.block v hv
    rcases List.mem_cons.mp (hp.mem_iff.mp hc) with rfl | hc
    · exact absurd h1 (of_decide_eq_true hne)
    · exact ⟨c, hc, h1, h2⟩
  owner c hc := by
    have hcu := hp.mem_iff.mpr (List.mem_cons_of_mem b hc)
    obtain ⟨v, hv, h1⟩ := hm.owner c hcu
    refine ⟨v, List.mem_filter.mpr ⟨hv, decide_eq_true fun h2 ↦ ?_⟩, h1⟩
    have hl' := hl.of_perm hp
    have hcons := (List.pairwise_append.mp hl'.apart).2.1
    have hcb := (List.pairwise_cons.mp hcons).1 c hc
    have hokb := hl'.ok b (List.mem_append_right free List.mem_cons_self)
    have hokc := hl'.ok c (List.mem_append_right free (List.mem_cons_of_mem b hc))
    apply hcb.hdr_ne hokb hokc
    omega
  nodup := hm.nodup.sublist (List.filter_sublist.map _)

theorem of_perm (hm : Match live used) (hp : used.Perm rest) : Match live rest where
  block v hv := by
    obtain ⟨b, hb, h⟩ := hm.block v hv
    exact ⟨b, hp.mem_iff.mp hb, h⟩
  owner b hb := hm.owner b (hp.mem_iff.mpr hb)
  nodup := hm.nodup

end Match

namespace State.Has

variable {s : State} {B : Blocks} {back : Backend}

/-- What a live pointer points to is in its block. -/
theorem keeps (hs : s.Has B) {m : Memory} (hk : Heap.Keeps s.heap.mem m B.used) {v : Live}
    (hv : v ∈ s.live) {x : Nat} (h1 : v.p ≤ x) (h2 : x < v.p + v.n) : m x = s.heap.mem x := by
  obtain ⟨b, hb, hp, hn⟩ := hs.owners.block v hv
  apply hk b hb x
  unfold Block.Has Block.stop
  omega

private theorem block_of (hs : s.Has B) {q : Nat} (hq : ∃ v ∈ s.live, v.p = q) :
    ∃ b rest, B.used.Perm (b :: rest) ∧ q = b.hdr + 8 := by
  obtain ⟨v, hv, rfl⟩ := hq
  obtain ⟨b, hb, hp, -⟩ := hs.owners.block v hv
  exact ⟨b, _, List.perm_cons_erase hb, hp⟩

/-- A request. -/
theorem allocate (hs : s.Has B) (hb : back.Honest s.heap.chunks) {size : UInt64}
    (hsize : size.toNat ≤ 2 ^ 64 - 16) :
    ∃ p h', s.heap.allocate back size = some (p, h') ∧ ((p = 0 ∧ h' = s.heap) ∨ size ≠ 0 ∧
      ∃ blk free', Takes back (Heap.bytesFor size.toNat) B.free B.chunks blk free' h'.chunks ∧
        p = blk.hdr + 8 ∧ h'.Layout free' (blk :: B.used) ∧
        Heap.Keeps s.heap.mem h'.mem B.used) := by
  by_cases h0 : size = 0
  · exact ⟨0, s.heap, by rw [Heap.allocate, if_pos h0], .inl ⟨rfl, rfl⟩⟩
  · rw [← hs.chunks]
    obtain ⟨p, h', he, hr⟩ := Heap.allocate_spec hs.layout hb h0 hsize
    exact ⟨p, h', he, hr.imp_right fun hr ↦ ⟨h0, hr⟩⟩

private theorem keeps_of (hs : s.Has B) {c : Call} {p : Nat} {h : Heap} {m : Memory}
    (hk : Heap.Keeps s.heap.mem m B.used) (hc : ∀ q size align, c ≠ .realloc q size align)
    (hm : ∀ v ∈ s.live, ∀ x, v.p ≤ x → x < v.p + v.n → ¬c.Writes x → h.mem x = m x) :
    s.Keeps c p h where
  stays v hv _ x h1 h2 hx := (hm v hv x h1 h2 hx).trans (hs.keeps hk hv h1 h2)
  moves q size align he := absurd he (hc q size align)

/-- `alloc`. -/
theorem alloc (hs : s.Has B) {size : UInt64} {align : Nat} (hb : back.Honest s.heap.chunks)
    (hsize : size.toNat ≤ 2 ^ 64 - 16) :
    ∃ p h' B', s.heap.allocate back size = some (p, h') ∧
      B.Goes back (Heap.bytesFor size.toNat) (s.Asks (.alloc size align)) B' ∧
      State.Has ⟨h', s.after (.alloc size align) p⟩ B' ∧ s.Keeps (.alloc size align) p h' := by
  obtain ⟨p, h', he, ⟨rfl, rfl⟩ | ⟨ha, blk, free', ht, rfl, hl, hk⟩⟩ := hs.allocate hb hsize
  · refine ⟨0, s.heap, B, he, .frees .none, ?_,
      hs.keeps_of Heap.Keeps.refl (fun _ _ _ ↦ Call.noConfusion) fun _ _ _ _ _ _ ↦ rfl⟩
    rw [after, if_pos rfl]
    exact hs
  · refine ⟨_, h', _, he, .takes ha ht .none, ⟨hl, rfl, ?_⟩,
      hs.keeps_of hk (fun _ _ _ ↦ Call.noConfusion) fun _ _ _ _ _ _ ↦ rfl⟩
    rw [after, if_neg (Nat.succ_ne_zero _)]
    exact hs.owners.take hl ((Heap.bytesFor_ge _).trans ht.size_le) align

/-- `calloc`. -/
theorem calloc (hs : s.Has B) {nmemb size : UInt64} (hb : back.Honest s.heap.chunks)
    (hsize : nmemb.toNat * size.toNat ≤ 2 ^ 64 - 16) :
    ∃ p h' B', s.heap.calloc back nmemb size = some (p, h') ∧
      B.Goes back (Heap.bytesFor (nmemb.toNat * size.toNat)) (s.Asks (.calloc nmemb size)) B' ∧
      State.Has ⟨h', s.after (.calloc nmemb size) p⟩ B' ∧ s.Keeps (.calloc nmemb size) p h' := by
  have hmul : (nmemb * size).toNat = nmemb.toNat * size.toNat := by
    rw [UInt64.toNat_mul, Nat.mod_eq_of_lt (by omega)]
  have hnull : ∃ p h' B', (some (0, s.heap) : Option (Nat × Heap)) = some (p, h') ∧
      B.Goes back (Heap.bytesFor (nmemb.toNat * size.toNat)) (s.Asks (.calloc nmemb size)) B' ∧
      State.Has ⟨h', s.after (.calloc nmemb size) p⟩ B' ∧ s.Keeps (.calloc nmemb size) p h' := by
    refine ⟨0, s.heap, B, rfl, .frees .none, ?_,
      hs.keeps_of Heap.Keeps.refl (fun _ _ _ ↦ Call.noConfusion) fun _ _ _ _ _ _ ↦ rfl⟩
    rw [after, if_pos rfl]
    exact hs
  unfold Heap.calloc
  dsimp only
  split
  · exact hnull
  · obtain ⟨p, h', he, ⟨rfl, rfl⟩ | ⟨ha, blk, free', ht, rfl, hl, hk⟩⟩ :=
      hs.allocate hb (show (nmemb * size).toNat ≤ 2 ^ 64 - 16 by rw [hmul]; exact hsize)
    · rw [he]
      exact hnull
    · rw [hmul] at ht
      have hp0 : blk.hdr + 8 ≠ 0 := Nat.succ_ne_zero _
      have hge := (Heap.bytesFor_ge _).trans ht.size_le
      have hfin : blk.hdr + 8 + (zeros (nmemb.toNat * size.toNat)).length ≤ blk.stop := by
        rw [length_zeros]
        unfold Block.stop
        omega
      have hstore := hl.store (a := blk.hdr + 8) List.mem_cons_self (Nat.le_refl _) hfin
      have hkeep := hl.keeps_store (Nat.le_add_right ..) hfin
      rw [he]
      simp only [Option.bind_eq_bind, Option.bind_some, if_neg hp0, hmul]
      refine ⟨_, _, _, rfl, .takes ha ht .none, ⟨hstore, rfl, ?_⟩, ?_⟩
      · rw [after, if_neg hp0]
        exact hs.owners.take hl hge 8
      · have hk' := hk.trans (hkeep.mono fun b hb ↦ List.mem_append_right free' hb)
        exact hs.keeps_of hk' (fun _ _ _ ↦ Call.noConfusion) fun _ _ _ _ _ _ ↦ rfl

/-- A pointer that comes back. -/
theorem deallocate (hs : s.Has B) {q : Nat} (hq : q = 0 ∨ ∃ v ∈ s.live, v.p = q) :
    ∃ h' B', s.heap.deallocate q = some h' ∧ B.Frees B' ∧
      State.Has ⟨h', s.live.filter (·.p ≠ q)⟩ B' ∧
      ∀ v ∈ s.live, v.p ≠ q → ∀ x, v.p ≤ x → x < v.p + v.n → h'.mem x = s.heap.mem x := by
  have hp0 : ∀ v ∈ s.live, v.p ≠ 0 := by
    intro v hv
    obtain ⟨b, -, h1, -⟩ := hs.owners.block v hv
    omega
  by_cases h0 : q = 0
  · rw [h0, Heap.deallocate, if_pos rfl]
    refine ⟨s.heap, B, rfl, .none, ?_, fun _ _ _ _ _ _ ↦ rfl⟩
    have hall : s.live.filter (·.p ≠ 0) = s.live := by
      rw [List.filter_eq_self]
      exact fun v hv ↦ decide_eq_true (hp0 v hv)
    rw [hall]
    exact hs
  · obtain ⟨b, rest, hp, rfl⟩ := hs.block_of (hq.resolve_left h0)
    have hl := hs.layout.of_perm hp
    obtain ⟨h', free', he, hg, hl', hk, hch⟩ := Heap.deallocateInner_spec hl
    rw [Heap.deallocate, if_neg h0]
    refine ⟨h', ⟨free', rest, B.chunks⟩, he, .one hp hg, ⟨hl', hch.trans hs.chunks, ?_⟩, ?_⟩
    · exact hs.owners.give hs.layout hp
    · intro v hv hne x h1 h2
      obtain ⟨c, hc, h3, h4⟩ := hs.owners.block v hv
      rcases List.mem_cons.mp (hp.mem_iff.mp hc) with rfl | hc
      · exact absurd h3 hne
      · apply hk c hc x
        unfold Block.Has Block.stop
        omega

private theorem resize (hs : s.Has B) {q : Nat} (hq : ∃ v ∈ s.live, v.p = q) {n align : Nat}
    (hn : UInt64.ofNat n ≤ Heap.sizeOf s.heap.mem (q - 8) - 8) (hlt : n < 2 ^ 64) :
    State.Has ⟨s.heap, ⟨q, n, align⟩ :: s.live.filter (·.p ≠ q)⟩ B := by
  obtain ⟨b, rest, hp, rfl⟩ := hs.block_of hq
  have hl := hs.layout.of_perm hp
  have hb : b ∈ B.free ++ b :: rest := by simp
  have hsize := hl.header b hb
  have h32 := (hl.ok b hb).large
  have hfit := UInt64.le_iff_toNat_le.mp hn
  rw [Nat.add_sub_cancel, UInt64.toNat_ofNat', Nat.mod_eq_of_lt hlt,
    UInt64.toNat_sub_of_le _ _ (UInt64.le_iff_toNat_le.mpr (by
      rw [hsize, show (8 : UInt64).toNat = 8 from rfl]
      omega)), hsize, show (8 : UInt64).toNat = 8 from rfl] at hfit
  refine ⟨hs.layout, hs.chunks, ?_⟩
  have hm := (hs.owners.give hs.layout hp).take hl (n := n) (by omega) align
  exact hm.of_perm hp.symm

/-- `realloc`, which stays where it is if its block is large enough, and else moves. -/
theorem realloc (hs : s.Has B) {q : Nat} {size : UInt64} {align : Nat}
    (hb : back.Honest s.heap.chunks) (hsize : size.toNat ≤ 2 ^ 64 - 16)
    (hq : q = 0 ∨ ∃ v ∈ s.live, v.p = q) :
    ∃ p h' B', s.heap.realloc back q size = some (p, h') ∧
      B.Goes back (Heap.bytesFor size.toNat) (s.Asks (.realloc q size align)) B' ∧
      State.Has ⟨h', s.after (.realloc q size align) p⟩ B' ∧
      s.Keeps (.realloc q size align) p h' := by
  have hp0 : ∀ v ∈ s.live, v.p ≠ 0 := by
    intro v hv
    obtain ⟨b, -, h1, -⟩ := hs.owners.block v hv
    omega
  have hall : s.live.filter (·.p ≠ 0) = s.live := by
    rw [List.filter_eq_self]
    exact fun v hv ↦ decide_eq_true (hp0 v hv)
  unfold Heap.realloc
  split
  · next h0 =>
    -- as `alloc`
    subst h0
    obtain ⟨p, h', B', he, hg, hh, hk⟩ := @State.Has.alloc s B back hs size align hb hsize
    refine ⟨p, h', B', he, hg, ?_, ⟨fun v hv _ x h1 h2 _ ↦ ?_, ?_⟩⟩
    · dsimp only [after] at hh ⊢
      split at hh
      · next hp =>
        rw [if_pos hp, hall]
        rw [ite_self]
        exact hh
      · next hp =>
        rw [if_neg hp, hall]
        exact hh
    · apply hk.stays v hv _ x h1 h2
      · rintro ⟨w, hw⟩
        cases hw
      · rw [after]
        split
        · exact hv
        · exact List.mem_cons_of_mem _ hv
    · intro q' size' align' he' _ v hv hvq
      obtain ⟨rfl, -, -⟩ := Call.realloc.inj he'
      exact absurd hvq (hp0 v hv)
  · next h0 =>
    have hq := hq.resolve_left h0
    split
    · next hz =>
      -- as `free`
      subst hz
      obtain ⟨h', B', he, hg, hh, hk⟩ := hs.deallocate (.inr hq)
      rw [he]
      refine ⟨0, h', B', rfl, .frees hg, ?_,
        ⟨fun v hv hv' x h1 h2 _ ↦ ?_, fun _ _ _ _ hp ↦ absurd rfl hp⟩⟩
      · rw [after, if_pos rfl, if_pos rfl]
        exact hh
      · rw [after, if_pos rfl, if_pos rfl] at hv'
        exact hk v hv (of_decide_eq_true (List.mem_filter.mp hv').2) x h1 h2
    · next hz =>
      dsimp only [headerSize]
      split
      · next hfit =>
        -- it stays
        refine ⟨q, s.heap, B, rfl, .frees .none, ?_, ⟨fun _ _ _ _ _ _ _ ↦ rfl, ?_⟩⟩
        · rw [after, if_neg h0]
          apply hs.resize hq _ size.toNat_lt
          rw [UInt64.ofNat_toNat]
          exact hfit
        · intro q' size' align' he' _ v hv hvq k _ _
          obtain ⟨rfl, -, -⟩ := Call.realloc.inj he'
          rfl
      · next hbig =>
        -- it moves
        obtain ⟨b, rest, hp, hqb⟩ := hs.block_of hq
        have hb' : b ∈ B.used := hp.mem_iff.mpr List.mem_cons_self
        have hbm : b ∈ B.free ++ B.used := List.mem_append_right B.free hb'
        have h32 := (hs.layout.ok b hbm).large
        have hold : (Heap.sizeOf s.heap.mem (q - 8) - 8).toNat = b.size - 8 := by
          have hsz := hs.layout.header b hbm
          rw [hqb, Nat.add_sub_cancel, UInt64.toNat_sub_of_le _ _ (UInt64.le_iff_toNat_le.mpr (by
            rw [hsz, show (8 : UInt64).toNat = 8 from rfl]
            omega)), hsz]
          rfl
        have hlt := mt UInt64.le_iff_toNat_le.mpr hbig
        rw [hold] at hlt
        have hif : Heap.sizeOf s.heap.mem (q - 8) - 8 < size := by
          rw [UInt64.lt_iff_toNat_lt, hold]
          omega
        obtain ⟨p, h', he, ⟨rfl, rfl⟩ | ⟨-, blk, free', ht, rfl, hl, hk⟩⟩ := hs.allocate hb hsize
        · rw [he]
          refine ⟨0, s.heap, B, rfl, .frees .none, ?_,
            ⟨fun _ _ _ _ _ _ _ ↦ rfl, fun _ _ _ _ h ↦ absurd rfl h⟩⟩
          dsimp only [after]
          rw [if_pos rfl, if_neg hz]
          exact hs
        · have hn0 : blk.hdr + 8 ≠ 0 := Nat.succ_ne_zero _
          have hge := (Heap.bytesFor_ge _).trans ht.size_le
          have hfin : blk.hdr + 8 + (h'.mem.load q (b.size - 8)).length ≤ blk.stop := by
            rw [Memory.length_load]
            unfold Block.stop
            omega
          have hstore := hl.store (a := blk.hdr + 8) List.mem_cons_self (Nat.le_refl _) hfin
          have hkeep := hl.keeps_store (Nat.le_add_right ..) hfin
          let moved := h'.mem.store (blk.hdr + 8) (h'.mem.load q (b.size - 8))
          have hs' : State.Has ⟨{ h' with mem := moved },
              ⟨blk.hdr + 8, size.toNat, align⟩ :: s.live⟩ ⟨free', blk :: B.used, h'.chunks⟩ :=
            ⟨hstore, rfl, hs.owners.take hl hge align⟩
          obtain ⟨v₀, hv₀, hv₀q⟩ := hq
          obtain ⟨h'', B', he', hg, hh, hout⟩ :=
            hs'.deallocate (.inr ⟨v₀, List.mem_cons_of_mem _ hv₀, hv₀q⟩)
          -- the new block is not the old one
          have hne : blk.hdr + 8 ≠ q := by
            have hnd := hs'.owners.nodup
            rw [List.map_cons, List.nodup_cons] at hnd
            intro heq
            have hmem := List.mem_map_of_mem (f := Live.p) hv₀
            rw [hv₀q, ← heq] at hmem
            exact hnd.1 hmem
          rw [he]
          simp only [Option.bind_eq_bind, Option.bind_some, if_neg hn0, if_pos hif, hold]
          refine ⟨_, h'', B', congrArg (Option.bind · fun h ↦ pure (blk.hdr + 8, h)) he',
            .takes (by rw [Asks, if_neg h0]; exact hif) ht hg, ?_, ⟨fun v hv hv' x h1 h2 _ ↦ ?_, ?_⟩⟩
          · dsimp only [after]
            rw [if_neg hn0]
            rw [List.filter_cons, if_pos (decide_eq_true hne)] at hh
            exact hh
          · dsimp only [after] at hv'
            rw [if_neg hn0] at hv'
            have hvq : v.p ≠ q := by
              rcases List.mem_cons.mp hv' with rfl | hv'
              · exact hne
              · exact of_decide_eq_true (List.mem_filter.mp hv').2
            rw [hout v (List.mem_cons_of_mem _ hv) hvq x h1 h2]
            exact hs.keeps (hk.trans (hkeep.mono fun c hc ↦ List.mem_append_right free' hc)) hv h1 h2
          · intro q' size' align' hc _ v hv hvq k hk1 hk2
            obtain ⟨rfl, rfl, rfl⟩ := Call.realloc.inj hc
            obtain ⟨c, hc, h3, h4⟩ := hs.owners.block v hv
            have hcb : c = b := hs.layout.hdr_inj hc hb' (by omega)
            rw [hcb] at h4
            rw [hout _ List.mem_cons_self hne (blk.hdr + 8 + k) (by dsimp only; omega)
              (by dsimp only; omega)]
            have hlen : (h'.mem.load q (b.size - 8)).length = b.size - 8 := Memory.length_load
            change h'.mem.store (blk.hdr + 8) (h'.mem.load q (b.size - 8)) (blk.hdr + 8 + k) = _
            rw [Memory.store_in (by omega) (by omega), Nat.add_sub_cancel_left,
              Memory.getD_load (by omega)]
            apply hk b hb'
            unfold Block.Has Block.stop
            omega

/-- The owner writes in a block. -/
theorem write (hs : s.Has B) {a : Nat} (v : UInt8)
    (hw : ∃ w ∈ s.live, w.p ≤ a ∧ a < w.p + w.n) :
    State.Has ⟨{ s.heap with mem := Function.update s.heap.mem a v }, s.live⟩ B := by
  obtain ⟨w, hwl, h1, h2⟩ := hw
  obtain ⟨b, hb, hp, hn⟩ := hs.owners.block w hwl
  have hstore := hs.layout.store (a := a) (d := [v]) hb (by unfold headerSize; omega)
    (by rw [List.length_singleton]; unfold Block.stop; omega)
  have heq : s.heap.mem.store a [v] = Function.update s.heap.mem a v := by
    funext x
    by_cases hx : x = a
    · rw [hx, Function.update_self, Memory.store_in (Nat.le_refl a) (by simp), Nat.sub_self]
      rfl
    · rw [Function.update_of_ne hx, Memory.store_out (by rw [List.length_singleton]; omega)]
  rw [heq] at hstore
  exact ⟨hstore, hs.chunks, hs.owners⟩

/-- Every call returns, moves the blocks as it should, and leaves the bytes of the others alone. -/
theorem call (hs : s.Has B) {c : Call} (hl : s.Legal c back) (hc : c.Counted) :
    ∃ p h' B', c.exec back s.heap = some (p, h') ∧
      B.Goes back (Heap.bytesFor c.bytes) (s.Asks c) B' ∧
      State.Has ⟨h', s.after c p⟩ B' ∧ s.Keeps c p h' := by
  cases c with
  | alloc size align => exact hs.alloc hl.honest hc
  | calloc nmemb size => exact hs.calloc hl.honest hc
  | realloc q size align => exact hs.realloc hl.honest hc hl.gives
  | free q =>
    obtain ⟨h', B', he, hg, hh, hout⟩ := hs.deallocate (q := q) hl.gives
    refine ⟨0, h', B', by rw [Call.exec, he]; rfl, .frees hg, hh,
      ⟨fun v hv hv' x h1 h2 _ ↦ ?_, fun _ _ _ h ↦ Call.noConfusion h⟩⟩
    exact hout v hv (of_decide_eq_true (List.mem_filter.mp hv').2) x h1 h2
  | write a v =>
    refine ⟨0, _, B, rfl, .frees .none, hs.write v (hl.writes a ⟨v, rfl⟩),
      ⟨fun w _ _ x _ _ hx ↦ ?_, fun _ _ _ h ↦ Call.noConfusion h⟩⟩
    apply Function.update_of_ne
    rintro rfl
    exact hx ⟨v, rfl⟩

end State.Has

/-- A new heap has no blocks. -/
theorem State.has_new (m : Memory) : (State.new m).Has ⟨[], [], []⟩ where
  layout := by
    constructor
    · exact .nil
    all_goals simp
  chunks := rfl
  owners := by
    constructor
    all_goals simp [State.new]

end BmoX.Rt
