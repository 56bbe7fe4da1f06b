import BmoX.Rt.Runs

/-!
# Blocks apart, large enough and aligned

What the pointers that are out are worth in every run: each points to as many bytes as were asked for,
in one chunk, apart from the other ones and from what the heap keeps for itself, and nobody but its
owner changes them.
-/

namespace BmoX.Rt

open BmoX.Base

/-- The alignment that a call asks for. -/
def Call.align : Call → Nat
  | .alloc _ align | .realloc _ _ align => align
  | .calloc _ _ | .free _ | .write _ _ => 8

namespace State

/-- An address that the heap keeps for itself: the headers of the blocks that are out, the headers
and links of those in the list, and the headers of arenas. -/
def Metadata (s : State) (x : Nat) : Prop :=
  (∃ v ∈ s.live, v.p - headerSize ≤ x ∧ x < v.p) ∨
  (∃ l, Linked (Heap.readNextFree s.heap.mem) s.heap.freeHead l ∧
    ∃ a ∈ l, a ≤ x ∧ x < a + headerSize + 8) ∨
  ∃ c ∈ s.heap.chunks, c.arena = true ∧ c.base ≤ x ∧ x < c.base + arenaHeaderSize

/-- The pointers that are out are worth what was asked for. -/
structure Sound (s : State) : Prop where
  inside : ∀ v ∈ s.live, ∃ c ∈ s.heap.chunks, c.base ≤ v.p ∧ v.p + v.n ≤ c.stop
  aligned : ∀ v ∈ s.live, v.align ∣ v.p
  apart : s.live.Pairwise fun v w ↦ v.p + v.n ≤ w.p ∨ w.p + w.n ≤ v.p
  metadata : ∀ v ∈ s.live, ∀ x, v.p ≤ x → x < v.p + v.n → ¬s.Metadata x

/-- A call that counts without wrapping, asks for no more than the alignment of a word, and whose
backend puts no chunk so that a chunk ends where the blocks of another one begin. -/
structure Fair (s : State) (c : Call) (back : Backend) : Prop where
  counted : c.Counted
  align : c.align ∣ 8
  away : ∀ n, back n ≠ 0 → ∀ d ∈ s.heap.chunks,
    back n + n.toNat ≠ d.start ∧ (c.Large → d.stop ≠ back n)

end State

/-! ### Each block in one chunk -/

/-- The chunks are apart, none ends where the blocks of another one begin, and each block is in one
of them. -/
structure Blocks.Inside (B : Blocks) : Prop where
  apart : B.chunks.Pairwise Chunk.Apart
  wide : ∀ c ∈ B.chunks, c.start < c.stop
  away : ∀ c ∈ B.chunks, ∀ d ∈ B.chunks, c.stop ≠ d.start
  pos : ∀ b ∈ B.free ++ B.used, 0 < b.size
  block : ∀ b ∈ B.free ++ B.used, ∃ c ∈ B.chunks, c.start ≤ b.hdr ∧ b.stop ≤ c.stop

instance : Std.Symm Chunk.Apart := ⟨fun _ _ h ↦ Or.symm h⟩

namespace Blocks.Inside

variable {B B' : Blocks} {back : Backend} {n : Nat}

/-- Blocks that follow each other are in the same chunk. -/
theorem next (hB : B.Inside) {b c : Block} (hb : b ∈ B.free ++ B.used)
    (hc : c ∈ B.free ++ B.used) (h : c.hdr = b.stop) :
    ∃ d ∈ B.chunks, d.start ≤ b.hdr ∧ c.stop ≤ d.stop := by
  have hposb := hB.pos b hb
  have hposc := hB.pos c hc
  obtain ⟨d, hd, h1, h2⟩ := hB.block b hb
  obtain ⟨e, he, h3, h4⟩ := hB.block c hc
  by_cases hde : d = e
  · exact ⟨d, hd, h1, hde ▸ h4⟩
  · exfalso
    have hap := hB.apart.forall hd he hde
    have hne := hB.away d hd e he
    have hs : d.base ≤ d.start := Nat.le_add_right ..
    have hs' : e.base ≤ e.start := Nat.le_add_right ..
    unfold Chunk.Apart at hap
    unfold Block.stop at *
    omega

/-- A block comes back. -/
theorem frees (hB : B.Inside) (h : B.Frees B') : B'.Inside := by
  cases h with
  | none => exact hB
  | @one b free' rest hp hg =>
    have hb : b ∈ B.used := hp.mem_iff.mpr List.mem_cons_self
    have hbm := List.mem_append_right B.free hb
    have hrest : ∀ c ∈ rest, c ∈ B.free ++ B.used := fun c hc ↦
      List.mem_append_right _ (hp.mem_iff.mpr (List.mem_cons_of_mem b hc))
    have hcases : ∀ c ∈ free' ++ rest, c ∈ B.free ++ B.used ∨
        ∃ d ∈ B.free, d.hdr = b.stop ∧ c = ⟨b.hdr, b.size + d.size⟩ := by
      intro c hc
      rcases List.mem_append.mp hc with hc | hc
      · cases hg with
        | alone hno =>
          left
          rcases List.mem_cons.mp hc with rfl | hc
          · exact hbm
          · exact List.mem_append_left _ hc
        | @joined pre post d hf hd =>
          rcases List.mem_cons.mp hc with rfl | hc
          · right
            exact ⟨d, by simp [hf], hd, rfl⟩
          · left
            rw [hf]
            simp only [List.mem_append, List.mem_cons] at hc ⊢
            tauto
      · left
        exact hrest c hc
    refine ⟨hB.apart, hB.wide, hB.away, fun c hc ↦ ?_, fun c hc ↦ ?_⟩
    · rcases hcases c hc with hc | ⟨d, -, -, rfl⟩
      · exact hB.pos c hc
      · exact Nat.add_pos_left (hB.pos b hbm) d.size
    · rcases hcases c hc with hc | ⟨d, hd, hdb, rfl⟩
      · exact hB.block c hc
      · obtain ⟨e, he, h1, h2⟩ := hB.next hbm (List.mem_append_left _ hd) hdb
        refine ⟨e, he, h1, ?_⟩
        unfold Block.stop at *
        dsimp only
        omega

/-- A new chunk, with blocks in it. -/
theorem chunk (hB : B.Inside) {c : Chunk} (hap : ∀ d ∈ B.chunks, c.Apart d)
    (hw : c.start < c.stop) (haway : ∀ d ∈ B.chunks, c.stop ≠ d.start ∧ d.stop ≠ c.start)
    {bs : List Block} (hbs : ∀ b ∈ bs, 0 < b.size ∧ c.start ≤ b.hdr ∧ b.stop ≤ c.stop)
    {free used : List Block}
    (h : ∀ b ∈ free ++ used, b ∈ bs ∨ b ∈ B.free ++ B.used) :
    Blocks.Inside ⟨free, used, c :: B.chunks⟩ where
  apart := List.pairwise_cons.mpr ⟨hap, hB.apart⟩
  wide := List.forall_mem_cons.mpr ⟨hw, hB.wide⟩
  away := by
    intro d hd e he
    change d ∈ c :: B.chunks at hd
    change e ∈ c :: B.chunks at he
    rcases List.mem_cons.mp hd with rfl | hd'
    · rcases List.mem_cons.mp he with rfl | he'
      · exact Nat.ne_of_gt hw
      · exact (haway e he').1
    · rcases List.mem_cons.mp he with rfl | he'
      · exact (haway d hd').2
      · exact hB.away d hd' e he'
  pos b hb := by
    rcases h b hb with hb | hb
    · exact (hbs b hb).1
    · exact hB.pos b hb
  block b hb := by
    rcases h b hb with hb | hb
    · exact ⟨c, List.mem_cons_self, (hbs b hb).2⟩
    · obtain ⟨d, hd, h1⟩ := hB.block b hb
      exact ⟨d, List.mem_cons_of_mem c hd, h1⟩

/-- Other blocks of the same chunks. -/
theorem recut (hB : B.Inside) {free used : List Block}
    (h : ∀ b ∈ free ++ used,
      0 < b.size ∧ ∃ d ∈ B.free ++ B.used, d.hdr ≤ b.hdr ∧ b.stop ≤ d.stop) :
    Blocks.Inside ⟨free, used, B.chunks⟩ where
  apart := hB.apart
  wide := hB.wide
  away := hB.away
  pos b hb := (h b hb).1
  block b hb := by
    obtain ⟨-, d, hd, h1, h2⟩ := h b hb
    obtain ⟨c, hc, h3, h4⟩ := hB.block d hd
    exact ⟨c, hc, h3.trans h1, h2.trans h4⟩

/-- A block goes out. -/
theorem takes (hB : B.Inside) (hb : back.Honest B.chunks) {blk : Block} {free : List Block}
    {chunks : List Chunk} (hn0 : 0 < n)
    (haway : ∀ k, back k ≠ 0 → ∀ d ∈ B.chunks,
      back k + k.toNat ≠ d.start ∧ (524288 ≤ n → d.stop ≠ back k))
    (h : Takes back n B.free B.chunks blk free chunks) :
    Blocks.Inside ⟨free, blk :: B.used, chunks⟩ := by
  have hgave : ∀ c, back.Gave c → ∀ d ∈ B.chunks, c.Apart d ∧ c.stop ≠ d.start ∧
      (524288 ≤ n → d.stop ≠ c.base) := by
    intro c hc d hd
    obtain ⟨k, hk, h1, h2⟩ := hc
    have hd' := haway k hk d hd
    have hap := (hb k hk).2.2 d hd
    unfold Chunk.Apart
    unfold Chunk.stop at *
    rw [h1, h2]
    exact ⟨hap, hd'⟩
  cases h with
  | @whole pre post b hf hpre h1 h2 hn =>
    apply hB.recut
    intro c hc
    have hcm : c ∈ B.free ++ B.used := by
      rw [hf]
      simp only [List.mem_append, List.mem_cons] at hc ⊢
      tauto
    exact ⟨hB.pos c hcm, c, hcm, Nat.le_refl _, Nat.le_refl _⟩
  | @cut pre post b hf hpre h1 hn =>
    have hb : b ∈ B.free ++ B.used := by simp [hf]
    apply hB.recut
    intro c hc
    simp only [List.cons_append, List.mem_cons, List.mem_append] at hc
    rcases hc with rfl | hc | rfl | hc
    · refine ⟨by dsimp only; omega, b, hb, Nat.le_add_right .., ?_⟩
      simp only [Block.stop]
      omega
    · have hcm : c ∈ B.free ++ B.used := by simp [hf, hc]
      exact ⟨hB.pos c hcm, c, hcm, Nat.le_refl _, Nat.le_refl _⟩
    · refine ⟨hn0, b, hb, Nat.le_refl _, ?_⟩
      simp only [Block.stop]
      omega
    · have hcm := List.mem_append_right B.free hc
      exact ⟨hB.pos c hcm, c, hcm, Nat.le_refl _, Nat.le_refl _⟩
  | @arena c hno hg hc hs hn =>
    have hstart : c.start = c.base + 24 := by simp [Chunk.start, hc, arenaHeaderSize]
    have hstop : c.stop = c.base + 1048600 := by simp [Chunk.stop, hs]
    refine hB.chunk (fun d hd ↦ (hgave c hg d hd).1) (by omega) ?_
      (?_ : ∀ b ∈ ([⟨c.start, n⟩, ⟨c.start + n, 1048576 - n⟩] : List Block),
        0 < b.size ∧ c.start ≤ b.hdr ∧ b.stop ≤ c.stop) ?_
    · intro d hd
      obtain ⟨hap, hne, -⟩ := hgave c hg d hd
      have hd' : d.base ≤ d.stop := Nat.le_add_right ..
      unfold Chunk.Apart at hap
      exact ⟨hne, by omega⟩
    · simp only [List.forall_mem_cons, Block.stop]
      exact ⟨⟨hn0, Nat.le_refl _, by omega⟩, ⟨by omega, by omega, by omega⟩, by simp⟩
    · intro b hb
      simp only [List.cons_append, List.mem_cons, List.mem_append, List.not_mem_nil] at hb ⊢
      tauto
  | @large c hg hc hs hn =>
    have hstart : c.start = c.base := by simp [Chunk.start, hc]
    have hstop : c.stop = c.base + n := by simp [Chunk.stop, hs]
    refine hB.chunk (fun d hd ↦ (hgave c hg d hd).1) (by omega) ?_
      (?_ : ∀ b ∈ ([⟨c.start, n⟩] : List Block),
        0 < b.size ∧ c.start ≤ b.hdr ∧ b.stop ≤ c.stop) ?_
    · intro d hd
      obtain ⟨-, hne, hne'⟩ := hgave c hg d hd
      exact ⟨hne, hstart ▸ hne' hn⟩
    · simp only [List.forall_mem_cons, Block.stop]
      exact ⟨⟨hn0, Nat.le_refl _, by omega⟩, by simp⟩
    · intro b hb
      simp only [List.mem_cons, List.mem_append, List.not_mem_nil] at hb ⊢
      tauto

theorem goes (hB : B.Inside) (hb : back.Honest B.chunks) (hn : 0 < n)
    (haway : ∀ k, back k ≠ 0 → ∀ d ∈ B.chunks,
      back k + k.toNat ≠ d.start ∧ (524288 ≤ n → d.stop ≠ back k))
    {asks : Prop} (h : B.Goes back n asks B') : B'.Inside := by
  cases h with
  | frees h => exact hB.frees h
  | takes _ h h' => exact (hB.takes hb hn haway h).frees h'

end Blocks.Inside

/-! ### Runs -/

namespace State

variable {s : State} {B : Blocks} {c : Call} {back : Backend}

/-- What every run keeps: each block in a chunk, and no alignment above a word. -/
def Good (s : State) : Prop := ∃ B, s.Has B ∧ B.Inside ∧ ∀ v ∈ s.live, v.align ∣ 8

/-- The pointers that are out after a call were out before, or are for its alignment. -/
theorem align_after {p : Nat} {v : Live} (hv : v ∈ s.after c p) :
    v ∈ s.live ∨ v.align = c.align := by
  cases c with
  | alloc size align =>
    dsimp only [after] at hv
    split at hv
    · exact .inl hv
    · rcases List.mem_cons.mp hv with rfl | hv
      · exact .inr rfl
      · exact .inl hv
  | calloc nmemb size =>
    dsimp only [after] at hv
    split at hv
    · exact .inl hv
    · rcases List.mem_cons.mp hv with rfl | hv
      · exact .inr rfl
      · exact .inl hv
  | realloc q size align =>
    dsimp only [after] at hv
    split at hv
    · split at hv
      · exact .inl (List.mem_filter.mp hv).1
      · exact .inl hv
    · rcases List.mem_cons.mp hv with rfl | hv
      · exact .inr rfl
      · exact .inl (List.mem_filter.mp hv).1
  | free q => exact .inl (List.mem_filter.mp hv).1
  | write a v => exact .inl hv

private theorem good_new (m : Memory) : (new m).Good := by
  refine ⟨⟨[], [], []⟩, has_new m, ?_, by simp [new]⟩
  constructor
  all_goals simp

/-- A call returns, and keeps it. -/
theorem Good.call (hs : s.Good) (hl : s.Legal c back) (hf : s.Fair c back) :
    ∃ p h, c.exec back s.heap = some (p, h) ∧ s.Keeps c p h ∧ Good ⟨h, s.after c p⟩ := by
  obtain ⟨B, hB, hin, hal⟩ := hs
  obtain ⟨p, h, B', he, hg, hB', hk⟩ := hB.call hl hf.counted
  have hpos : 0 < Heap.bytesFor c.bytes := by
    have := Heap.bytesFor_ge c.bytes
    omega
  have hhonest := hl.honest
  have haway := hf.away
  rw [hB.chunks] at hhonest haway
  refine ⟨p, h, he, hk, B', hB', hin.goes hhonest hpos haway hg, fun v hv ↦ ?_⟩
  rcases align_after hv with hv | hv
  · exact hal v hv
  · rw [hv]
    exact hf.align

/-- The pointers that are out in two places are those of blocks apart. -/
theorem Has.apart (hB : s.Has B) : s.live.Pairwise fun v w ↦
    ∃ b ∈ B.used, ∃ c ∈ B.used, b.Apart c ∧ v.p = b.hdr + 8 ∧ v.n + 8 ≤ b.size ∧
      w.p = c.hdr + 8 ∧ w.n + 8 ≤ c.size := by
  have hne := List.pairwise_map.mp (List.nodup_iff_pairwise_ne.mp hB.owners.nodup)
  apply hne.imp_of_mem
  intro v w hv hw hvw
  obtain ⟨b, hb, h1, h2⟩ := hB.owners.block v hv
  obtain ⟨c, hc, h3, h4⟩ := hB.owners.block w hw
  refine ⟨b, hb, c, hc, ?_, h1, h2, h3, h4⟩
  apply hB.layout.apart_of_ne (List.mem_append_right _ hb) (List.mem_append_right _ hc)
  rintro rfl
  exact hvw (h1.trans h3.symm)

/-- No pointer that is out points into what the heap keeps for itself. -/
theorem Has.metadata (hB : s.Has B) (hin : B.Inside) {v : Live} (hv : v ∈ s.live) {x : Nat}
    (h1 : v.p ≤ x) (h2 : x < v.p + v.n) : ¬s.Metadata x := by
  obtain ⟨b, hb, hp, hn⟩ := hB.owners.block v hv
  have hbm := List.mem_append_right B.free hb
  rintro (⟨w, hw, h3, h4⟩ | ⟨l, hl, a, ha, h3, h4⟩ | ⟨c, hc, harena, h3, h4⟩)
  · -- the header of another block
    obtain ⟨c, hc, hpw, -⟩ := hB.owners.block w hw
    have hcm := List.mem_append_right B.free hc
    have h32 := (hB.layout.ok c hcm).large
    have hne : b ≠ c := by
      rintro rfl
      omega
    have hap := hB.layout.apart_of_ne hbm hcm hne
    unfold headerSize at h3
    unfold Block.Apart Block.stop at hap
    omega
  · -- a block of the list
    rw [hl.unique hB.layout.list] at ha
    obtain ⟨c, hc, rfl⟩ := List.mem_map.mp ha
    have h32 := (hB.layout.ok c (List.mem_append_left _ hc)).large
    have hap := (List.pairwise_append.mp hB.layout.apart).2.2 c hc b hb
    unfold headerSize at h4
    unfold Block.Apart Block.stop at hap
    omega
  · -- the header of an arena
    obtain ⟨d, hd, h5, h6⟩ := hin.block b hbm
    rw [hB.chunks] at hc
    have hstart : c.start = c.base + arenaHeaderSize := by simp [Chunk.start, harena]
    have hds : d.base ≤ d.start := Nat.le_add_right ..
    unfold Block.stop at h6
    by_cases hcd : c = d
    · subst hcd
      omega
    · have hap := hin.apart.forall hc hd hcd
      have hw := hin.wide c hc
      unfold Chunk.Apart at hap
      omega

theorem Good.sound (hs : s.Good) : s.Sound := by
  obtain ⟨B, hB, hin, hal⟩ := hs
  constructor
  · intro v hv
    obtain ⟨b, hb, hp, hn⟩ := hB.owners.block v hv
    obtain ⟨c, hc, h1, h2⟩ := hin.block b (List.mem_append_right B.free hb)
    have hs : c.base ≤ c.start := Nat.le_add_right ..
    rw [hB.chunks]
    refine ⟨c, hc, by omega, ?_⟩
    unfold Block.stop at h2
    omega
  · intro v hv
    obtain ⟨b, hb, hp, -⟩ := hB.owners.block v hv
    apply (hal v hv).trans
    apply Nat.dvd_of_mod_eq_zero
    have hword := (hB.layout.ok b (List.mem_append_right B.free hb)).word
    omega
  · apply hB.apart.imp
    intro v w hvw
    obtain ⟨b, hb, c, hc, hap, h1, h2, h3, h4⟩ := hvw
    unfold Block.Apart Block.stop at hap
    omega
  · intro v hv x h1 h2
    exact hB.metadata hin hv h1 h2

private theorem good_of_runs (hr : Runs Fair s) : s.Good := by
  induction hr with
  | new m => exact good_new m
  | call _ hl hf he ih =>
    obtain ⟨p, h, he', -, hg⟩ := ih.call hl hf
    rw [he] at he'
    obtain ⟨rfl, rfl⟩ := Prod.mk.inj (Option.some.inj he')
    exact hg

end State

/-- In every run of fair calls the pointers that are out are worth what was asked for, and the next
call returns, with the bytes of the others as they were. -/
theorem heap_sound (s : State) (hr : Runs State.Fair s) :
    s.Sound ∧ ∀ c back, s.Legal c back → s.Fair c back →
      ∃ p h, c.exec back s.heap = some (p, h) ∧ s.Keeps c p h := by
  have hg := State.good_of_runs hr
  refine ⟨hg.sound, fun c back hl hf ↦ ?_⟩
  obtain ⟨p, h, he, hk, -⟩ := hg.call hl hf
  exact ⟨p, h, he, hk⟩

/-- A backend with one arena, at 4096. -/
def oneArena : Backend := fun n ↦ if n = 1048600 then 4096 else 0

private theorem oneArena_honest : oneArena.Honest [] := by
  intro n hn
  have hn' : n = 1048600 := by
    by_contra hne
    exact hn (if_neg hne)
  subst hn'
  decide

/-- The state after a call, or the same one where it does not return. -/
def State.step (s : State) (c : Call) (back : Backend) : State :=
  match c.exec back s.heap with
  | some (p, h) => ⟨h, s.after c p⟩
  | none => s

theorem Runs.step {C : State → Call → Backend → Prop} {s : State} {c : Call} {back : Backend}
    (hs : Runs C s) (hl : s.Legal c back) (hc : C s c back) : Runs C (s.step c back) := by
  unfold State.step
  split
  · next he => exact .call hs hl hc he
  · exact hs

/-- No chunk at all. -/
def noChunk : Backend := fun _ ↦ 0

theorem noChunk_honest (chunks : List Chunk) : noChunk.Honest chunks :=
  fun _ h ↦ absurd rfl h

theorem State.legal_alloc {s : State} {back : Backend} (hb : back.Honest s.heap.chunks)
    (size : UInt64) (align : Nat) : s.Legal (.alloc size align) back := by
  refine ⟨hb, .inl rfl, fun x hx ↦ ?_⟩
  obtain ⟨v, hv⟩ := hx
  exact Call.noConfusion hv

private theorem State.legal_free {s : State} {back : Backend} {q : Nat}
    (hb : back.Honest s.heap.chunks) (hq : ∃ v ∈ s.live, v.p = q) : s.Legal (.free q) back := by
  refine ⟨hb, .inr hq, fun x hx ↦ ?_⟩
  obtain ⟨v, hv⟩ := hx
  exact Call.noConfusion hv

/-- `malloc(24)`, `malloc(24)`, which cuts the head of the list, and `free` of the first. -/
def freed : State :=
  State.step (.step (.step (.new fun _ ↦ 0) (.alloc 24 8) oneArena) (.alloc 24 8) noChunk)
    (.free 4128) noChunk

theorem freed_runs {C : State → Call → Backend → Prop}
    (h1 : C (.new fun _ ↦ 0) (.alloc 24 8) oneArena)
    (h2 : C (.step (.new fun _ ↦ 0) (.alloc 24 8) oneArena) (.alloc 24 8) noChunk)
    (h3 : C (.step (.step (.new fun _ ↦ 0) (.alloc 24 8) oneArena) (.alloc 24 8) noChunk)
      (.free 4128) noChunk) : Runs C freed :=
  (((Runs.new _).step (State.legal_alloc oneArena_honest 24 8) h1).step
    (State.legal_alloc (noChunk_honest _) 24 8) h2).step
    (State.legal_free (noChunk_honest _) (by decide)) h3

private theorem State.fair_noChunk {s : State} {c : Call} (hc : c.Counted) (ha : c.align ∣ 8) :
    s.Fair c noChunk := ⟨hc, ha, fun _ h ↦ absurd rfl h⟩

theorem heap_sound_malloc :
    (freed.step (.alloc 16 8) noChunk).live = [⟨4128, 16, 8⟩, ⟨4160, 24, 8⟩] ∧
    (freed.step (.alloc 16 8) noChunk).Sound ∧
    ∃ p h, (Call.free 4160).exec noChunk (freed.step (.alloc 16 8) noChunk).heap = some (p, h) ∧
      (freed.step (.alloc 16 8) noChunk).Keeps (.free 4160) p h := by
  have hr : Runs State.Fair (freed.step (.alloc 16 8) noChunk) := by
    refine .step (freed_runs ⟨Nat.le_of_ble_eq_true rfl, Nat.dvd_refl 8, ?_⟩ ?_ ?_)
      (State.legal_alloc (noChunk_honest _) 16 8) ?_
    · intro n _ d hd
      cases hd
    all_goals exact State.fair_noChunk (Nat.le_of_ble_eq_true rfl) (Nat.dvd_refl 8)
  have hl : (freed.step (.alloc 16 8) noChunk).live = [⟨4128, 16, 8⟩, ⟨4160, 24, 8⟩] := by decide
  refine ⟨hl, (heap_sound _ hr).1, (heap_sound _ hr).2 (.free 4160) noChunk ?_ ?_⟩
  · refine State.legal_free (noChunk_honest _) ⟨⟨4160, 24, 8⟩, ?_, rfl⟩
    simp [hl]
  · exact State.fair_noChunk (Nat.zero_le _) (Nat.dvd_refl 8)

set_option maxRecDepth 4096 in
/-- The size of a request wraps: `malloc` of all the bytes that can be counted gives 32. -/
theorem not_sound : ¬∀ s, Runs (fun _ _ _ ↦ True) s → s.Sound := by
  intro hall
  have he : ((Call.alloc (2 ^ 64 - 1) 8).exec oneArena (State.new fun _ ↦ 0).heap).map
      (fun r ↦ (r.1, r.2.chunks)) = some (4128, [⟨4096, 1048600, true⟩]) := by decide
  have hsize : (2 ^ 64 - 1 : UInt64).toNat = 18446744073709551615 := by decide +kernel
  generalize (2 ^ 64 - 1 : UInt64) = size at he hsize
  obtain ⟨⟨p, h⟩, he, hph⟩ := Option.map_eq_some_iff.mp he
  obtain ⟨rfl, hch⟩ := Prod.mk.inj hph
  have hr : Runs (fun _ _ _ ↦ True) ⟨h, [⟨4128, size.toNat, 8⟩]⟩ := by
    refine .call (.new fun _ ↦ 0) ⟨oneArena_honest, .inl rfl, ?_⟩ trivial he
    intro x hx
    obtain ⟨v, hv⟩ := hx
    exact Call.noConfusion hv
  obtain ⟨c, hc, -, h2⟩ := (hall _ hr).inside _ List.mem_cons_self
  dsimp only at hc hch
  rw [hch, List.mem_singleton] at hc
  simp only [hc, Chunk.stop, hsize] at h2
  omega

end BmoX.Rt
