import BmoX.Rt.Sound

/-!
# No memory is lost

The blocks of the list and those that are out are all the bytes that the chunks have for blocks, each
byte in one of them. A block that is cut becomes the head of the list: where it was not the head, the
blocks before it are in no list any more.
-/

namespace BmoX.Rt

open BmoX.Base

/-- The block with its header at an address. -/
def blockAt (m : Memory) (hdr : Nat) : Block := ⟨hdr, (Heap.sizeOf m hdr).toNat⟩

namespace State

/-- The blocks of a list, and those that are out. -/
def blocks (s : State) (l : List Nat) : List Block :=
  l.map (blockAt s.heap.mem) ++ s.live.map fun v ↦ blockAt s.heap.mem (v.p - headerSize)

/-- The list of free blocks and the blocks that are out part the usable bytes among them. -/
def Conserves (s : State) : Prop :=
  ∃ l, Linked (Heap.readNextFree s.heap.mem) s.heap.freeHead l ∧
    (∀ b ∈ s.blocks l, 0 < b.size) ∧ (s.blocks l).Pairwise Block.Apart ∧
    ∀ x, (∃ b ∈ s.blocks l, b.Has x) ↔ Heap.Usable s.heap.chunks x

/-- The backend is not asked where a free block is large enough. -/
def Spares (s : State) : Prop :=
  ∀ (c : Call) l, c.Counted → ¬c.Large → Linked (Heap.readNextFree s.heap.mem) s.heap.freeHead l →
    (∃ a ∈ l, Heap.bytesFor c.bytes ≤ (Heap.sizeOf s.heap.mem a).toNat) →
    ∀ back back', c.exec back s.heap = c.exec back' s.heap

/-- A call that counts without wrapping, and cuts no block but the first of the list. -/
structure AtHead (s : State) (c : Call) (back : Backend) : Prop where
  counted : c.Counted
  head : s.Asks c → ¬c.Large → ∀ pre a post,
    Linked (Heap.readNextFree s.heap.mem) s.heap.freeHead (pre ++ a :: post) →
    (∀ x ∈ pre, (Heap.sizeOf s.heap.mem x).toNat < Heap.bytesFor c.bytes) →
    Heap.bytesFor c.bytes + 32 ≤ (Heap.sizeOf s.heap.mem a).toNat → pre = []

end State

/-! ### Each byte in a block -/

/-- Each usable byte is in a block. -/
def Blocks.Covers (B : Blocks) : Prop :=
  ∀ x, Heap.Usable B.chunks x → ∃ b ∈ B.free ++ B.used, b.Has x

namespace Blocks.Covers

variable {B B' : Blocks} {back : Backend} {n : Nat}

theorem recut (hB : B.Covers) {free used : List Block}
    (h : ∀ b ∈ B.free ++ B.used, ∀ x, b.Has x → ∃ d ∈ free ++ used, d.Has x) :
    Blocks.Covers ⟨free, used, B.chunks⟩ := by
  intro x hx
  obtain ⟨b, hb, hbx⟩ := hB x hx
  exact h b hb x hbx

/-- A new chunk that is all blocks. -/
theorem chunk (hB : B.Covers) {c : Chunk} {free used : List Block}
    (hold : ∀ b ∈ B.free ++ B.used, b ∈ free ++ used)
    (h : ∀ x, c.start ≤ x → x < c.stop → ∃ b ∈ free ++ used, b.Has x) :
    Blocks.Covers ⟨free, used, c :: B.chunks⟩ := by
  intro x hx
  obtain ⟨d, hd, h1, h2⟩ := hx
  rcases List.mem_cons.mp hd with rfl | hd'
  · exact h x h1 h2
  · obtain ⟨b, hb, hbx⟩ := hB x ⟨d, hd', h1, h2⟩
    exact ⟨b, hold b hb, hbx⟩

theorem frees (hB : B.Covers) (h : B.Frees B') : B'.Covers := by
  cases h with
  | none => exact hB
  | @one b free' rest hp hg =>
    apply hB.recut
    intro c hc x hx
    have hcases : c ∈ B.free ∨ c = b ∨ c ∈ rest := by
      have hmem : c ∈ B.used ↔ c ∈ b :: rest := hp.mem_iff
      rw [List.mem_append, hmem, List.mem_cons] at hc
      exact hc
    rcases hcases with hc | hc | hc
    · cases hg with
      | alone _ =>
        exact ⟨c, by simp [hc], hx⟩
      | @joined pre post d hf hd =>
        rw [hf, List.mem_append, List.mem_cons] at hc
        by_cases hcd : c = d
        · refine ⟨⟨b.hdr, b.size + d.size⟩, by simp, ?_⟩
          rw [hcd] at hx
          unfold Block.Has Block.stop at hx ⊢
          unfold Block.stop at hd
          dsimp only
          omega
        · refine ⟨c, ?_, hx⟩
          simp only [List.cons_append, List.mem_cons, List.mem_append]
          tauto
    · rw [hc] at hx
      cases hg with
      | alone _ => exact ⟨b, by simp, hx⟩
      | @joined pre post d hf hd =>
        refine ⟨⟨b.hdr, b.size + d.size⟩, by simp, ?_⟩
        unfold Block.Has Block.stop at hx ⊢
        dsimp only
        omega
    · exact ⟨c, List.mem_append_right _ hc, hx⟩

/-- A block goes out: a block that is cut is the first of the list. -/
theorem takes (hB : B.Covers) {blk : Block} {free : List Block} {chunks : List Chunk}
    (hhead : n < 524288 → ∀ pre b post, B.free = pre ++ b :: post → (∀ c ∈ pre, c.size < n) →
      n + 32 ≤ b.size → pre = [])
    (h : Takes back n B.free B.chunks blk free chunks) :
    Blocks.Covers ⟨free, blk :: B.used, chunks⟩ := by
  cases h with
  | @whole pre post b hf hpre h1 h2 hn =>
    apply hB.recut
    intro c hc x hx
    refine ⟨c, ?_, hx⟩
    rw [hf] at hc
    simp only [List.mem_append, List.mem_cons] at hc ⊢
    tauto
  | @cut pre post b hf hpre h1 hn =>
    have hnil := hhead hn pre b post hf hpre h1
    rw [hnil, List.nil_append] at hf
    apply hB.recut
    intro c hc x hx
    rw [hf, List.cons_append, List.mem_cons] at hc
    by_cases hcb : c = b
    · rw [hcb] at hx
      unfold Block.Has Block.stop at hx
      by_cases hxn : x < b.hdr + n
      · exact ⟨⟨b.hdr, n⟩, by simp, hx.1, hxn⟩
      · refine ⟨⟨b.hdr + n, b.size - n⟩, by simp, ?_⟩
        unfold Block.Has Block.stop
        dsimp only
        omega
    · refine ⟨c, ?_, hx⟩
      have hc := hc.resolve_left hcb
      simp only [List.cons_append, List.mem_append, List.mem_cons] at hc ⊢
      tauto
  | @arena c hno hg hc hs hn =>
    apply hB.chunk
    · intro b hb
      simp only [List.cons_append, List.mem_append, List.mem_cons] at hb ⊢
      tauto
    · intro x h1 h2
      have hstart : c.start = c.base + 24 := by simp [Chunk.start, hc, arenaHeaderSize]
      have hstop : c.stop = c.base + 1048600 := by rw [Chunk.stop, hs]
      by_cases hxn : x < c.start + n
      · exact ⟨⟨c.start, n⟩, List.mem_append_right _ List.mem_cons_self, h1, hxn⟩
      · refine ⟨⟨c.start + n, 1048576 - n⟩, List.mem_append_left _ List.mem_cons_self, ?_⟩
        unfold Block.Has Block.stop
        dsimp only
        omega
  | @large c hg hc hs hn =>
    apply hB.chunk
    · intro b hb
      simp only [List.mem_append, List.mem_cons] at hb ⊢
      tauto
    · intro x h1 h2
      have hstop : c.stop = c.start + n := by
        simp [Chunk.stop, Chunk.start, hc, hs]
      refine ⟨⟨c.start, n⟩, List.mem_append_right _ List.mem_cons_self, h1, ?_⟩
      rw [hstop] at h2
      exact h2

end Blocks.Covers

/-! ### Runs -/

namespace State

variable {s : State} {B : Blocks} {c : Call} {back : Backend}

private theorem Has.blockAt_eq (hB : s.Has B) {b : Block} (hb : b ∈ B.free ++ B.used) :
    blockAt s.heap.mem b.hdr = b := by
  apply Block.ext
  · rfl
  · exact hB.layout.header b hb

private theorem Has.map_free (hB : s.Has B) :
    (B.free.map Block.hdr).map (blockAt s.heap.mem) = B.free := by
  rw [List.map_map]
  conv_rhs => rw [← List.map_id B.free]
  apply List.map_congr_left
  intro b hb
  exact hB.blockAt_eq (List.mem_append_left _ hb)

private theorem Has.mem_blocks (hB : s.Has B) {b : Block} :
    b ∈ s.blocks (B.free.map Block.hdr) ↔ b ∈ B.free ++ B.used := by
  unfold blocks
  rw [hB.map_free, List.mem_append, List.mem_append, List.mem_map]
  apply or_congr Iff.rfl
  constructor
  · rintro ⟨v, hv, rfl⟩
    obtain ⟨c, hc, hp, -⟩ := hB.owners.block v hv
    rw [hp, headerSize, Nat.add_sub_cancel, hB.blockAt_eq (List.mem_append_right _ hc)]
    exact hc
  · intro hb
    obtain ⟨v, hv, hp⟩ := hB.owners.owner b hb
    refine ⟨v, hv, ?_⟩
    rw [hp, headerSize, Nat.add_sub_cancel, hB.blockAt_eq (List.mem_append_right _ hb)]

private theorem Has.pairwise_blocks (hB : s.Has B) :
    (s.blocks (B.free.map Block.hdr)).Pairwise Block.Apart := by
  have hap := List.pairwise_append.mp hB.layout.apart
  have hlive : ∀ v ∈ s.live, blockAt s.heap.mem (v.p - headerSize) ∈ B.used := by
    intro v hv
    obtain ⟨b, hb, hp, -⟩ := hB.owners.block v hv
    rw [hp, headerSize, Nat.add_sub_cancel, hB.blockAt_eq (List.mem_append_right _ hb)]
    exact hb
  unfold blocks
  rw [hB.map_free]
  apply List.pairwise_append.mpr
  refine ⟨hap.1, ?_, ?_⟩
  · rw [List.pairwise_map]
    apply hB.apart.imp
    intro v w hvw
    obtain ⟨b, hb, c, hc, hbc, hv, -, hw, -⟩ := hvw
    rw [hv, hw, headerSize, Nat.add_sub_cancel, Nat.add_sub_cancel,
      hB.blockAt_eq (List.mem_append_right _ hb), hB.blockAt_eq (List.mem_append_right _ hc)]
    exact hbc
  · intro b hb c hc
    obtain ⟨v, hv, rfl⟩ := List.mem_map.mp hc
    exact hap.2.2 b hb _ (hlive v hv)

private theorem Has.conserves (hB : s.Has B) (hcov : B.Covers) : s.Conserves := by
  refine ⟨B.free.map Block.hdr, hB.layout.list, ?_, hB.pairwise_blocks, fun x ↦ ⟨?_, ?_⟩⟩
  · intro b hb
    have h32 := (hB.layout.ok b (hB.mem_blocks.mp hb)).large
    omega
  · rintro ⟨b, hb, hx⟩
    exact hB.layout.usable b (hB.mem_blocks.mp hb) x hx
  · intro hx
    rw [hB.chunks] at hx
    obtain ⟨b, hb, hbx⟩ := hcov x hx
    exact ⟨b, hB.mem_blocks.mpr hb, hbx⟩

private theorem Has.spares (hB : s.Has B) : s.Spares := by
  intro c l hc hlarge hl hfit back back'
  obtain ⟨a, ha, hfit⟩ := hfit
  rw [hl.unique hB.layout.list] at ha
  obtain ⟨b, hb, rfl⟩ := List.mem_map.mp ha
  rw [hB.layout.header b (List.mem_append_left _ hb)] at hfit
  have halloc : ∀ size : UInt64, size.toNat = c.bytes →
      s.heap.allocate back size = s.heap.allocate back' size := by
    intro size hs
    unfold Call.Counted at hc
    unfold Call.Large Heap.bytesFor at hlarge
    rw [← hs] at hc hlarge hfit
    exact Heap.allocate_of_fits hB.layout back hc (by omega) hb hfit
  cases c with
  | alloc size align => exact halloc size rfl
  | calloc nmemb size =>
    have hc' : nmemb.toNat * size.toNat ≤ 2 ^ 64 - 16 := hc
    have hmul : (nmemb * size).toNat = nmemb.toNat * size.toNat := by
      rw [UInt64.toNat_mul, Nat.mod_eq_of_lt (by omega)]
    change s.heap.calloc back nmemb size = s.heap.calloc back' nmemb size
    unfold Heap.calloc
    dsimp only
    rw [halloc (nmemb * size) hmul]
  | realloc q size align =>
    change s.heap.realloc back q size = s.heap.realloc back' q size
    unfold Heap.realloc
    rw [halloc size rfl]
  | free q => rfl
  | write a v => rfl

/-- What every run keeps: the blocks have every usable byte. -/
def Full (s : State) : Prop := ∃ B, s.Has B ∧ B.Covers

private theorem full_new (m : Memory) : (new m).Full := by
  refine ⟨⟨[], [], []⟩, has_new m, ?_⟩
  intro x hx
  obtain ⟨c, hc, -⟩ := hx
  cases hc

/-- A call keeps it. -/
theorem Full.call (hs : s.Full) (hl : s.Legal c back) (hf : s.AtHead c back) :
    ∃ p h, c.exec back s.heap = some (p, h) ∧ Full ⟨h, s.after c p⟩ := by
  obtain ⟨B, hB, hcov⟩ := hs
  obtain ⟨p, h, B', he, hg, hB', -⟩ := hB.call hl hf.counted
  refine ⟨p, h, he, B', hB', ?_⟩
  cases hg with
  | frees hg => exact hcov.frees hg
  | takes ha ht hg =>
    refine Blocks.Covers.frees (hcov.takes (fun hn pre b post heq hpre hb ↦ ?_) ht) hg
    have hsize : ∀ d ∈ B.free, (Heap.sizeOf s.heap.mem d.hdr).toNat = d.size :=
      fun d hd ↦ hB.layout.header d (List.mem_append_left _ hd)
    have hlist := hB.layout.list
    rw [heq, List.map_append, List.map_cons] at hlist
    apply List.map_eq_nil_iff.mp
    apply hf.head ha (Nat.not_le_of_lt hn) _ _ _ hlist
    · intro x hx
      obtain ⟨d, hd, rfl⟩ := List.mem_map.mp hx
      rw [hsize d (by rw [heq]; exact List.mem_append_left _ hd)]
      exact hpre d hd
    · rw [hsize b (by simp [heq])]
      exact hb

private theorem full_of_runs (hr : Runs AtHead s) : s.Full := by
  induction hr with
  | new m => exact full_new m
  | call _ hl hf he ih =>
    obtain ⟨p, h, he', hg⟩ := ih.call hl hf
    rw [he] at he'
    obtain ⟨rfl, rfl⟩ := Prod.mk.inj (Option.some.inj he')
    exact hg

end State

/-- In every run of calls that cut no block but the first of the list, the list and the blocks that
are out have every usable byte once, and no arena is asked for while a free block is large enough. -/
theorem heap_conserves (s : State) (hr : Runs State.AtHead s) : s.Conserves ∧ s.Spares := by
  obtain ⟨B, hB, hcov⟩ := State.full_of_runs hr
  exact ⟨hB.conserves hcov, hB.spares⟩

theorem heap_conserves_malloc :
    (freed.step (.alloc 16 8) noChunk).live = [⟨4128, 16, 8⟩, ⟨4160, 24, 8⟩] ∧
    (freed.step (.alloc 16 8) noChunk).Conserves ∧ (freed.step (.alloc 16 8) noChunk).Spares := by
  refine ⟨by decide, heap_conserves _ (.step (freed_runs ?_ ?_ ?_)
    (State.legal_alloc (noChunk_honest _) 16 8) ?_)⟩
  · refine ⟨Nat.le_of_ble_eq_true rfl, fun _ _ pre a post hl _ _ ↦ ?_⟩
    -- the list is empty
    have hnil := hl.unique .nil
    simp at hnil
  · refine ⟨Nat.le_of_ble_eq_true rfl, fun _ _ pre a post hl _ _ ↦ ?_⟩
    -- the rest of the arena, and nothing before it
    have hlist : Linked (Heap.readNextFree
        (State.step (.new fun _ ↦ 0) (.alloc 24 8) oneArena).heap.mem) 4152 [4152] :=
      .cons (by decide) .nil
    have hone := hl.unique hlist
    cases pre with
    | nil => rfl
    | cons x pre => simp at hone
  · exact ⟨Nat.zero_le _, fun h ↦ h.elim⟩
  · refine ⟨Nat.le_of_ble_eq_true rfl, fun _ _ pre a post hl hpre _ ↦ ?_⟩
    -- the first block of the list is large enough
    cases pre with
    | nil => rfl
    | cons x pre =>
      have hx : x = 4120 := by
        cases hl
        decide
      have hlt := hpre x List.mem_cons_self
      rw [hx] at hlt
      exact absurd hlt (by decide)

/-- A block that is not the head of the list is cut. -/
def lost : State := freed.step (.alloc 100 8) noChunk

private theorem lost_runs : Runs (fun _ _ _ ↦ True) lost :=
  (freed_runs trivial trivial trivial).step (State.legal_alloc (noChunk_honest _) 100 8) trivial

/-- The block that came back is not the first that is large enough: cutting the one behind it makes
the rest of that one the head of the list. -/
theorem not_conserves : ¬∀ s, Runs (fun _ _ _ ↦ True) s → s.Conserves ∧ s.Spares := by
  intro hall
  obtain ⟨l, hl, -, -, hx⟩ := (hall lost lost_runs).1
  have hhead : lost.heap.freeHead = 4296 := by decide
  have hnext : Heap.readNextFree lost.heap.mem 4296 = 0 := by decide
  have hlist : Linked (Heap.readNextFree lost.heap.mem) lost.heap.freeHead [4296] := by
    rw [hhead]
    apply Linked.cons (by decide)
    rw [hnext]
    exact .nil
  have husable : Heap.Usable lost.heap.chunks 4120 := by
    have hch : lost.heap.chunks = [⟨4096, 1048600, true⟩] := by decide
    rw [hch]
    exact ⟨_, List.mem_cons_self, by decide, by decide⟩
  obtain ⟨b, hb, hbx⟩ := (hx 4120).mpr husable
  rw [hl.unique hlist] at hb
  have hblocks : lost.blocks [4296] = [⟨4296, 1048400⟩, ⟨4184, 112⟩, ⟨4152, 32⟩] := by
    decide
  rw [hblocks] at hb
  simp only [List.mem_cons, List.not_mem_nil, or_false] at hb
  unfold Block.Has Block.stop at hbx
  rcases hb with rfl | rfl | rfl <;> dsimp only at hbx <;> omega

end BmoX.Rt
