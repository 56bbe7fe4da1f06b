import BmoX.Hash.Blake3
import BmoX.Base.Peaks

/-!
# The tree a hasher builds

The recursive definition of BLAKE3 over a whole message, and the hasher of
`platform/shared/bmo-hash/src/lib.rs:187–350` fed with it in pieces. After `n` bytes the hasher has
closed every full chunk but the last one begun: its stack holds one perfect tree for each set bit of
their number, and the chunk it fills holds the bytes after them.
-/

namespace BmoX.Blake3

open BmoX.Base

/-! ### The recursive definition -/

namespace Recursiva

/-- The blocks of a chunk from `b` on, chained to `cv`; the last one closes it. -/
def bloques (contador : UInt64) (esRaiz : Bool) (cv : Cv) (primero : Bool) (b : Bytes) : Cv :=
  let inicio := if primero then chunkStart else 0
  if blockLen < b.length then
    bloques contador esRaiz
      (cvOf (compress cv (wordsFromBytes (b.take blockLen)) contador (UInt32.ofNat blockLen) inicio))
      false (b.drop blockLen)
  else
    cvOf (compress cv (wordsFromBytes b) contador (UInt32.ofNat b.length)
      (inicio ||| chunkEnd ||| if esRaiz then root else 0))
termination_by b.length
decreasing_by
  rw [List.length_drop]
  simp only [blockLen] at *
  omega

/-- The chunk number `i` of a message. -/
def chunk (esRaiz : Bool) (i : Nat) (b : Bytes) : Cv := bloques (UInt64.ofNat i) esRaiz iv true b

/-- A parent over two chaining values. -/
def padre (esRaiz : Bool) (left right : Cv) : Cv :=
  cvOf (compress iv (left ++ right) 0 (UInt32.ofNat blockLen)
    (parent ||| if esRaiz then root else 0))

/-- The bytes of the left subtree: the largest power of two of chunks strictly smaller than `n`. -/
def izquierda (n : Nat) : Nat := chunkLen * 2 ^ Nat.log 2 ((n - 1) / chunkLen)

private theorem izquierda_lt {n : Nat} (h : chunkLen < n) : 0 < izquierda n ∧ izquierda n < n := by
  simp only [chunkLen] at h
  have hpos := Nat.two_pow_pos (Nat.log 2 ((n - 1) / 1024))
  have hle := Nat.pow_log_le_self 2 (x := (n - 1) / 1024) (by omega)
  simp only [izquierda, chunkLen]
  omega

/-- The subtree over `b`, whose first chunk has the number `i`. -/
def nodo (i : Nat) (b : Bytes) : Cv :=
  if chunkLen < b.length then
    padre false (nodo i (b.take (izquierda b.length)))
      (nodo (i + izquierda b.length / chunkLen) (b.drop (izquierda b.length)))
  else chunk false i b
termination_by b.length
decreasing_by
  all_goals
    have := izquierda_lt ‹_›
    simp only [List.length_take, List.length_drop]
    omega

/-- BLAKE3 of a message: `ROOT` only in the last compression. -/
def hash (b : Bytes) : Hash :=
  Hasher.cvToBytes <|
    if chunkLen < b.length then
      padre true (nodo 0 (b.take (izquierda b.length)))
        (nodo (izquierda b.length / chunkLen) (b.drop (izquierda b.length)))
    else chunk true 0 b

end Recursiva

open Recursiva

/-! ### The tree over the chunks of a message -/

/-- The chaining value of the chunk number `i` of `m`. -/
def hoja (m : Bytes) (i : Nat) : Cv := chunk false i (slice m (chunkLen * i) chunkLen)

/-- How many chunks `n` bytes take, the last one begun apart. -/
def cerrados (n : Nat) : Nat := (n - 1) / chunkLen

private theorem izquierda_eq (n : Nat) :
    izquierda n = chunkLen * Peaks.leftLeaves (cerrados n + 1) := by
  rw [izquierda, Peaks.leftLeaves, Nat.add_sub_cancel, cerrados]

/-- The recursion over bytes is the tree over their chunks. -/
theorem nodo_eq_tree (m : Bytes) {i n : Nat} (hn : 0 < n) (hm : chunkLen * i + n ≤ m.length)
    (hf : chunkLen ∣ n ∨ chunkLen * i + n = m.length) :
    nodo i (slice m (chunkLen * i) n) = Peaks.tree (hoja m) (padre false) i (cerrados n + 1) := by
  induction n using Nat.strong_induction_on generalizing i with
  | _ n ih =>
    have hlen : (slice m (chunkLen * i) n).length = n := by
      rw [length_slice]
      omega
    rw [nodo, hlen]
    split
    · next hlt =>
      have hc : 1 < cerrados n + 1 := by
        simp only [cerrados, chunkLen] at *
        omega
      have hpos := Peaks.leftLeaves_pos (cerrados n + 1)
      have hll := Peaks.leftLeaves_lt hc
      generalize hl : Peaks.leftLeaves (cerrados n + 1) = l at hpos hll
      have hiz : izquierda n = chunkLen * l := by
        rw [izquierda_eq, hl]
      have htake : (slice m (chunkLen * i) n).take (chunkLen * l) =
          slice m (chunkLen * i) (chunkLen * l) := by
        have hle : chunkLen * l ≤ n := by
          simp only [cerrados, chunkLen] at *
          omega
        rw [slice, slice, List.take_take, Nat.min_eq_left hle]
      have hdrop : (slice m (chunkLen * i) n).drop (chunkLen * l) =
          slice m (chunkLen * (i + l)) (n - chunkLen * l) := by
        rw [slice, slice, List.drop_take, List.drop_drop, Nat.mul_add]
      have hdiv : chunkLen * l / chunkLen = l := Nat.mul_div_cancel_left _ (by decide)
      have hl1 : cerrados (chunkLen * l) + 1 = l := by
        simp only [cerrados, chunkLen]
        omega
      have hr1 : cerrados (n - chunkLen * l) + 1 = cerrados n + 1 - l := by
        simp only [cerrados, chunkLen] at *
        omega
      rw [Peaks.tree, dif_pos hc, hl, hiz, htake, hdrop, hdiv]
      simp only [cerrados, chunkLen] at hlt hll hm
      rw [ih (chunkLen * l) (by simp only [chunkLen]; omega) (by simp only [chunkLen]; omega)
          (by simp only [chunkLen]; omega) (.inl ⟨l, rfl⟩),
        ih (n - chunkLen * l) (by simp only [chunkLen]; omega) (by simp only [chunkLen]; omega)
          (by simp only [chunkLen]; omega) ?_, hl1, hr1]
      simp only [chunkLen] at hf ⊢
      omega
    · next hle =>
      have hc : cerrados n = 0 := by
        simp only [cerrados, chunkLen] at *
        omega
      have hs : slice m (chunkLen * i) n = slice m (chunkLen * i) chunkLen := by
        rcases hf with hd | he
        · have hn' : n = chunkLen := by
            have := Nat.le_of_dvd hn hd
            omega
          rw [hn']
        · have hd : (m.drop (chunkLen * i)).length = n := by
            rw [List.length_drop]
            omega
          rw [slice, slice, List.take_of_length_le (by omega), List.take_of_length_le (by omega)]
      rw [hc, Peaks.tree_one, hoja, hs]

/-- The definition, over the tree of the chunks. -/
theorem hash_eq_tree (m : Bytes) :
    Recursiva.hash m = Hasher.cvToBytes (Peaks.rootTree (hoja m) (padre false)
      (fun i ↦ chunk true i m) (padre true) (cerrados m.length + 1)) := by
  rw [Recursiva.hash, Peaks.rootTree]
  congr 1
  split
  · next hlt =>
    have hc : 1 < cerrados m.length + 1 := by
      simp only [cerrados, chunkLen] at *
      omega
    have hpos := Peaks.leftLeaves_pos (cerrados m.length + 1)
    have hll := Peaks.leftLeaves_lt hc
    generalize hl : Peaks.leftLeaves (cerrados m.length + 1) = l at hpos hll
    have hiz : izquierda m.length = chunkLen * l := by
      rw [izquierda_eq, hl]
    have htake : m.take (chunkLen * l) = slice m (chunkLen * 0) (chunkLen * l) := rfl
    have hdrop : m.drop (chunkLen * l) =
        slice m (chunkLen * l) (m.length - chunkLen * l) := by
      rw [slice, ← List.length_drop, List.take_length]
    have hdiv : chunkLen * l / chunkLen = l := Nat.mul_div_cancel_left _ (by decide)
    have hl1 : cerrados (chunkLen * l) + 1 = l := by
      simp only [cerrados, chunkLen]
      omega
    have hr1 : cerrados (m.length - chunkLen * l) + 1 = cerrados m.length + 1 - l := by
      simp only [cerrados, chunkLen] at *
      omega
    simp only [cerrados, chunkLen] at hlt hll
    rw [if_pos hc, hiz, hdiv, htake, hdrop,
      nodo_eq_tree m (by simp only [chunkLen]; omega) (by simp only [chunkLen]; omega)
        (.inl ⟨l, rfl⟩),
      nodo_eq_tree m (by simp only [chunkLen]; omega) (by simp only [chunkLen]; omega)
        (.inr (by simp only [chunkLen]; omega)), hl1, hr1]
  · next hle =>
    have hc : ¬ 1 < cerrados m.length + 1 := by
      simp only [cerrados, chunkLen] at *
      omega
    rw [if_neg hc]

/-! ### Filling a chunk -/

namespace ChunkState

/-- The value the chunk closes with when the bytes `x` are still to come. -/
def resto (c : ChunkState) (esRaiz : Bool) (x : Bytes) : Cv :=
  bloques c.chunkCounter esRaiz c.chaining (c.blocksCompressed == 0) (c.block ++ x)

/-- A chunk of the plain hash, its buffer within its block. -/
structure Bueno (c : ChunkState) : Prop where
  flags : c.flags = 0
  block : c.block.length ≤ blockLen

private theorem startFlag_eq (c : ChunkState) :
    c.startFlag = if c.blocksCompressed == 0 then chunkStart else 0 := by
  simp only [startFlag, beq_iff_eq]

private theorem zero_or' (x : UInt32) : 0 ||| x = x := UInt32.zero_or

private theorem output_eq {c : ChunkState} (h : c.Bueno) (esRaiz : Bool) :
    c.output esRaiz = c.resto esRaiz [] := by
  rw [resto, List.append_nil, bloques, if_neg (by have := h.block; omega), output, startFlag_eq,
    h.flags, zero_or']

private theorem comprimir_resto {c : ChunkState} (h : c.Bueno) (hb : c.block.length = blockLen)
    {x : Bytes} (hx : x ≠ []) (esRaiz : Bool) :
    c.comprimir.resto esRaiz x = c.resto esRaiz x := by
  have hlt : blockLen < (c.block ++ x).length := by
    have := List.length_pos_iff.mpr hx
    rw [List.length_append]
    omega
  have hone : (c.blocksCompressed + 1 == 0) = false := rfl
  simp only [resto, comprimir, List.nil_append, hone]
  rw [bloques.eq_1 c.chunkCounter esRaiz c.chaining, if_pos hlt, List.take_left' hb,
    List.drop_left' hb, startFlag_eq, h.flags, zero_or']

private theorem comprimir_bueno {c : ChunkState} (h : c.Bueno) : c.comprimir.Bueno :=
  ⟨h.flags, Nat.zero_le _⟩

/-- What an update of a chunk does: the bytes are taken off what is to come. -/
structure Toma (c c' : ChunkState) (input : Bytes) : Prop where
  bueno : c'.Bueno
  counter : c'.chunkCounter = c.chunkCounter
  len : c'.len = c.len + input.length
  resto : ∀ esRaiz x, c'.resto esRaiz x = c.resto esRaiz (input ++ x)

private theorem toma_copia {c : ChunkState} (h : c.Bueno) {input : Bytes}
    (hi : c.block.length + input.length ≤ blockLen) :
    Toma c { c with block := c.block ++ input } input where
  bueno := ⟨h.flags, by rw [List.length_append]; exact hi⟩
  counter := rfl
  len := by
    simp only [ChunkState.len, List.length_append]
    omega
  resto _ _ := by
    simp only [ChunkState.resto, List.append_assoc]

private theorem Toma.trans {c c' c'' : ChunkState} {x y : Bytes} (h : Toma c c' x)
    (h' : Toma c' c'' y) : Toma c c'' (x ++ y) where
  bueno := h'.bueno
  counter := h'.counter.trans h.counter
  len := by
    rw [h'.len, h.len, List.length_append]
    omega
  resto _ _ := by
    rw [h'.resto, h.resto, List.append_assoc]

private theorem toma_comprimir {c : ChunkState} (h : c.Bueno) (hb : c.block.length = blockLen)
    {c' : ChunkState} {x : Bytes} (hx : x ≠ []) (ht : Toma c.comprimir c' x) : Toma c c' x where
  bueno := ht.bueno
  counter := ht.counter
  len := by
    rw [ht.len, len, len, hb]
    simp only [comprimir, List.length_nil, Nat.succ_mul]
    omega
  resto _ _ := by
    rw [ht.resto, comprimir_resto h hb (fun hn ↦ hx (List.append_eq_nil_iff.mp hn).1)]

/-- The loop of `update` takes the whole input. -/
theorem updateLoop_toma {n : Nat} {c : ChunkState} (h : c.Bueno) {input : Bytes}
    (hn : input.length ≤ n) : Toma c (updateLoop n c input) input := by
  induction n generalizing c input with
  | zero =>
    have he : input = [] := List.eq_nil_of_length_eq_zero (by omega)
    rw [he, updateLoop]
    exact ⟨h, rfl, rfl, fun _ _ ↦ rfl⟩
  | succ n ih =>
    rw [updateLoop]
    split
    · next he =>
      rw [he]
      exact ⟨h, rfl, rfl, fun _ _ ↦ rfl⟩
    · next he =>
      -- a turn with room in the buffer copies what fits and leaves less to do
      have turno : ∀ {d : ChunkState}, d.Bueno → d.block.length < blockLen →
          Toma d (updateLoop n
            { d with block := d.block ++ input.take (min (blockLen - d.block.length) input.length) }
            (input.drop (min (blockLen - d.block.length) input.length))) input := by
        intro d hd hroom
        have hpos := List.length_pos_iff.mpr he
        have hcopia := @toma_copia d hd
          (input.take (min (blockLen - d.block.length) input.length))
          (by rw [List.length_take]; omega)
        have := hcopia.trans (@ih _ hcopia.bueno
          (input.drop (min (blockLen - d.block.length) input.length))
          (by rw [List.length_drop]; omega))
        rwa [List.take_append_drop] at this
      by_cases hb : c.block.length = blockLen
      · simp only [if_pos hb]
        exact toma_comprimir h hb he (turno (comprimir_bueno h) (Nat.zero_lt_succ 63))
      · simp only [if_neg hb]
        exact turno h (Nat.lt_of_le_of_ne h.block hb)

theorem update_toma {c : ChunkState} (h : c.Bueno) (input : Bytes) : Toma c (c.update input) input :=
  updateLoop_toma h le_rfl

end ChunkState

/-! ### Feeding the hasher -/

private theorem and_one_eq_zero_iff {c : Nat} (hc : c < 2 ^ 64) :
    UInt64.ofNat c &&& 1 = 0 ↔ c % 2 = 0 := by
  rw [← UInt64.toNat_inj, UInt64.toNat_and, UInt64.toNat_ofNat_of_lt' hc]
  simp [Nat.and_one_is_mod]

private theorem shiftRight_one {c : Nat} (hc : c < 2 ^ 64) :
    UInt64.ofNat c >>> 1 = UInt64.ofNat (c / 2) := by
  have hd : c / 2 < UInt64.size := lt_of_le_of_lt (Nat.div_le_self c 2) hc
  rw [← UInt64.toNat_inj, UInt64.toNat_shiftRight, UInt64.toNat_ofNat_of_lt' hc,
    UInt64.toNat_ofNat_of_lt' hd, Nat.shiftRight_eq_div_pow]
  simp

private theorem parentCv_eq (left right : Cv) (esRaiz : Bool) :
    parentCv left right iv 0 esRaiz = padre esRaiz left right := by
  rw [parentCv, padre, UInt32.zero_or]

private theorem pushCv_peaks (m : Bytes) {n k c : Nat} (hn : c + 1 < 2 ^ n)
    (hmax : c + 1 < 2 ^ cvStackMax) :
    Hasher.pushCv n (Peaks.peaks (hoja m) (padre false) k c)
        (Peaks.tree (hoja m) (padre false) (c * 2 ^ k) (2 ^ k)) (UInt64.ofNat (c + 1)) =
      some (Peaks.peaks (hoja m) (padre false) k (c + 1)) := by
  induction n generalizing k c with
  | zero => omega
  | succ n ih =>
    have heven := and_one_eq_zero_iff (hmax.trans (by decide))
    unfold Hasher.pushCv
    rcases Nat.even_or_odd' c with ⟨b, rfl | rfl⟩
    · have hlen := Peaks.length_peaks_le (hoja m) (padre false) (k := k) hmax
      rw [Peaks.peaks_odd, List.length_cons] at hlen
      rw [if_neg (heven.not.mpr (by omega)), Peaks.peaks_even, if_pos (by omega), Peaks.peaks_odd]
    · have hhalf : (2 * b + 1 + 1) / 2 = b + 1 := by omega
      have hdouble : 2 * b + 1 + 1 = 2 * (b + 1) := by omega
      rw [Nat.pow_succ] at hn
      rw [if_pos (heven.mpr (by omega)), Peaks.peaks_odd]
      dsimp only
      rw [parentCv_eq, Peaks.join_odd (hoja m) (padre false), shiftRight_one (hmax.trans (by decide)), hhalf,
        ih (by omega) (by omega), hdouble, Peaks.peaks_even]

/-- The hasher after `n` bytes of `m`, of which `c` chunks are closed. -/
structure Alimentado (m : Bytes) (c n : Nat) (h : Hasher) : Prop where
  stack : h.cvStack = Peaks.peaks (hoja m) (padre false) 0 c
  counter : h.chunk.chunkCounter = UInt64.ofNat c
  bueno : h.chunk.Bueno
  len : h.chunk.len + chunkLen * c = n
  le : n ≤ chunkLen * (c + 1)
  resto : ∀ esRaiz x, h.chunk.resto esRaiz x =
    chunk esRaiz c (slice m (chunkLen * c) (n - chunkLen * c) ++ x)

namespace Alimentado

theorem new (m : Bytes) : Alimentado m (cerrados 0) 0 Hasher.new where
  stack := (Peaks.peaks_zero ..).symm
  counter := rfl
  bueno := ⟨rfl, Nat.zero_le _⟩
  len := rfl
  le := Nat.zero_le _
  resto _ _ := rfl

private theorem length_stack {m : Bytes} {c n : Nat} {h : Hasher} (ha : Alimentado m c n h)
    (hc : c < 2 ^ cvStackMax) : h.cvStack.length ≤ cvStackMax := by
  rw [ha.stack]
  exact Peaks.length_peaks_le _ _ hc

/-- Bytes that fit in the chunk are copied to it. -/
theorem copia {m : Bytes} {c n : Nat} {h : Hasher} (ha : Alimentado m c n h) {input : Bytes}
    (hi : input = slice m n input.length) (hle : n + input.length ≤ chunkLen * (c + 1)) :
    Alimentado m c (n + input.length) { h with chunk := h.chunk.update input } := by
  have ht := ChunkState.update_toma ha.bueno input
  have hn := ha.len
  refine ⟨ha.stack, ht.counter.trans ha.counter, ht.bueno, ?_, hle, fun esRaiz x ↦ ?_⟩
  · rw [ht.len]
    omega
  · have happ : slice m (chunkLen * c) (n - chunkLen * c) ++ input =
        slice m (chunkLen * c) (n + input.length - chunkLen * c) := by
      have hd : n + input.length - chunkLen * c = n - chunkLen * c + input.length := by omega
      have hs : chunkLen * c + (n - chunkLen * c) = n := by omega
      rw [slice, slice, hd, List.take_add, List.drop_drop, hs]
      exact congrArg _ hi
    rw [ht.resto, ha.resto, ← List.append_assoc, happ]

/-- A full chunk is closed and the next one opened. -/
theorem cierra {m : Bytes} {c : Nat} {h : Hasher} (ha : Alimentado m c (chunkLen * (c + 1)) h)
    (hc : c + 1 < 2 ^ cvStackMax) :
    ∃ h', h.cerrarChunk = some h' ∧ Alimentado m (c + 1) (chunkLen * (c + 1)) h' := by
  have hlen : chunkLen * (c + 1) - chunkLen * c = chunkLen := by
    rw [Nat.mul_succ, Nat.add_sub_cancel_left]
  have hcv : h.chunk.output false =
      Peaks.tree (hoja m) (padre false) (c * 2 ^ 0) (2 ^ 0) := by
    rw [Nat.pow_zero, Nat.mul_one, Peaks.tree_one, hoja, ChunkState.output_eq ha.bueno, ha.resto,
      hlen, List.append_nil]
  have hcont : h.chunk.chunkCounter + 1 = UInt64.ofNat (c + 1) := by
    rw [ha.counter, UInt64.ofNat_add]
    rfl
  refine ⟨⟨ChunkState.new iv (UInt64.ofNat (c + 1)) 0,
    Peaks.peaks (hoja m) (padre false) 0 (c + 1)⟩, ?_, rfl, rfl, ⟨rfl, Nat.zero_le _⟩, ?_, ?_, ?_⟩
  · simp only [Hasher.cerrarChunk, hcv, hcont, ha.stack,
      pushCv_peaks m (hc.trans (by decide : 2 ^ cvStackMax < 2 ^ 64)) hc, Option.bind_eq_bind,
      Option.bind_some, Option.pure_def]
  · exact Nat.zero_add _
  · exact Nat.mul_le_mul_left _ (Nat.le_succ _)
  · intro esRaiz x
    rw [Nat.sub_self, slice, List.take_zero, List.nil_append]
    rfl

/-- The loop of `update` takes the whole input. -/
theorem updateLoop {m : Bytes} (hm : m.length ≤ chunkLen * 2 ^ cvStackMax) {k n : Nat} {h : Hasher}
    (ha : Alimentado m (cerrados n) n h) {input : Bytes} (hk : input.length ≤ k)
    (hi : input = slice m n input.length) (hn : n + input.length ≤ m.length) :
    ∃ h', Hasher.updateLoop k h input = some h' ∧
      Alimentado m (cerrados (n + input.length)) (n + input.length) h' := by
  induction k generalizing n h input with
  | zero =>
    have he : input = [] := List.eq_nil_of_length_eq_zero (by omega)
    rw [he]
    exact ⟨h, rfl, ha⟩
  | succ k ih =>
    rw [Hasher.updateLoop]
    split
    · next he =>
      rw [he]
      exact ⟨h, rfl, ha⟩
    · next he =>
      have hpos := List.length_pos_iff.mpr he
      -- a turn of the loop, from a chunk with room left
      have turno : ∀ {c : Nat} {d : Hasher}, Alimentado m c n d → n < chunkLen * (c + 1) →
          ∃ h', Hasher.updateLoop k
              { d with chunk := d.chunk.update (input.take (min (chunkLen - d.chunk.len) input.length)) }
              (input.drop (min (chunkLen - d.chunk.len) input.length)) = some h' ∧
            Alimentado m (cerrados (n + input.length)) (n + input.length) h' := by
        intro c d hd hroom
        have hlen := hd.len
        have hmul : chunkLen * (c + 1) = chunkLen * c + chunkLen := Nat.mul_succ ..
        generalize ht : min (chunkLen - d.chunk.len) input.length = t
        have htake : (input.take t).length = t := by
          rw [List.length_take]
          omega
        have hcop := @copia _ _ _ _ hd (input.take t) ?_ ?_
        · have hc : cerrados (n + t) = c := by
            simp only [cerrados, chunkLen] at *
            omega
          rw [htake, ← hc] at hcop
          have hdrop : input.drop t = slice m (n + t) (input.drop t).length := by
            rw [List.length_drop]
            conv_lhs => rw [hi]
            rw [slice, slice, List.drop_take, List.drop_drop]
          obtain ⟨h', hrun, hfin⟩ := ih hcop (by rw [List.length_drop]; omega) hdrop
            (by rw [List.length_drop]; omega)
          rw [List.length_drop, Nat.add_assoc, Nat.add_sub_cancel' (by omega)] at hfin
          exact ⟨h', hrun, hfin⟩
        · rw [htake]
          conv_lhs => rw [hi]
          rw [slice, slice, List.take_take, Nat.min_eq_left (by omega)]
        · rw [htake]
          omega
      have hlen := ha.len
      by_cases hfull : h.chunk.len = chunkLen
      · have hn' : chunkLen * (cerrados n + 1) = n := by
          rw [Nat.mul_succ]
          omega
        have hc : cerrados n + 1 < 2 ^ cvStackMax := by
          simp only [chunkLen] at *
          omega
        have hcierra : Alimentado m (cerrados n) (chunkLen * (cerrados n + 1)) h := by
          rwa [hn']
        obtain ⟨h', hcierra, hfin⟩ := hcierra.cierra hc
        rw [hn'] at hfin
        rw [if_pos hfull, hcierra]
        refine turno hfin ?_
        rw [Nat.mul_succ, hn']
        exact Nat.lt_add_of_pos_right (Nat.succ_pos 1023)
      · rw [if_neg hfull]
        refine turno ha (Nat.lt_of_le_of_ne ha.le fun he ↦ hfull ?_)
        rw [Nat.mul_succ] at he
        omega

theorem update {m : Bytes} (hm : m.length ≤ chunkLen * 2 ^ cvStackMax) {n : Nat} {h : Hasher}
    (ha : Alimentado m (cerrados n) n h) {input : Bytes} (hi : input = slice m n input.length)
    (hn : n + input.length ≤ m.length) :
    ∃ h', h.update input = some h' ∧
      Alimentado m (cerrados (n + input.length)) (n + input.length) h' :=
  ha.updateLoop hm le_rfl hi hn

/-- Feeding the pieces of a message one after the other. -/
theorem foldlM {m : Bytes} (hm : m.length ≤ chunkLen * 2 ^ cvStackMax) {n : Nat} {h : Hasher}
    (ha : Alimentado m (cerrados n) n h) {partes : List Bytes} (hn : n ≤ m.length)
    (hp : m.drop n = partes.flatten) :
    ∃ h', partes.foldlM Hasher.update h = some h' ∧
      Alimentado m (cerrados (n + partes.flatten.length)) (n + partes.flatten.length) h' := by
  induction partes generalizing n h with
  | nil => exact ⟨h, rfl, ha⟩
  | cons p partes ih =>
    have hlen := congrArg List.length hp
    rw [List.flatten_cons, List.length_append, List.length_drop] at hlen
    have hi : p = slice m n p.length := by
      rw [slice, hp, List.flatten_cons, List.take_left]
    obtain ⟨h₁, hrun, ha₁⟩ := ha.update hm hi (by omega)
    have hp' : m.drop (n + p.length) = partes.flatten := by
      rw [← List.drop_drop, hp, List.flatten_cons, List.drop_left]
    obtain ⟨h', hrest, ha'⟩ := ih ha₁ (by omega) hp'
    refine ⟨h', ?_, ?_⟩
    · rw [List.foldlM_cons, hrun]
      exact hrest
    · rw [List.flatten_cons, List.length_append, ← Nat.add_assoc]
      exact ha'

private theorem vaciar_eq (pila : List Cv) (cv : Cv) :
    Hasher.vaciar pila cv = if pila = [] then cv else Peaks.close (padre false) (padre true) pila cv := by
  induction pila generalizing cv with
  | nil => rfl
  | cons left resto ih =>
    rw [Hasher.vaciar, ih, parentCv_eq, if_neg (List.cons_ne_nil _ _)]
    cases resto with
    | nil => rfl
    | cons x xs =>
      rw [if_neg (List.cons_ne_nil _ _), Peaks.close_cons _ _ _ _ (List.cons_ne_nil x xs)]
      rfl

/-- When the whole message is in, closing the stack gives its hash. -/
theorem finalize {m : Bytes} {h : Hasher} (ha : Alimentado m (cerrados m.length) m.length h) :
    h.finalize = Recursiva.hash m := by
  have hend : ∀ esRaiz, h.chunk.output esRaiz = chunk esRaiz (cerrados m.length)
      (slice m (chunkLen * cerrados m.length) chunkLen) := by
    intro esRaiz
    have hle := ha.le
    have hs : slice m (chunkLen * cerrados m.length) (m.length - chunkLen * cerrados m.length) =
        slice m (chunkLen * cerrados m.length) chunkLen := by
      have hd : (m.drop (chunkLen * cerrados m.length)).length ≤ chunkLen := by
        rw [List.length_drop]
        rw [Nat.mul_succ] at hle
        omega
      rw [slice, ← List.length_drop, List.take_length, slice, List.take_of_length_le hd]
    rw [ChunkState.output_eq ha.bueno, ha.resto, List.append_nil, hs]
  rw [Hasher.finalize, hash_eq_tree, vaciar_eq]
  split
  · next he =>
    have hc : cerrados m.length = 0 := by
      rwa [ha.stack, Peaks.peaks_eq_nil_iff] at he
    have hle := ha.le
    rw [hc] at hle
    rw [hend, hc, Peaks.rootTree, if_neg (Nat.lt_irrefl 1), Nat.mul_zero, slice_self (by omega)]
  · next he =>
    have hc : 0 < cerrados m.length := by
      rw [ha.stack, Peaks.peaks_eq_nil_iff] at he
      omega
    have hclose := Peaks.close_peaks (hoja m) (padre false) (fun i ↦ chunk true i m) (padre true)
      (k := 0) hc Nat.one_pos le_rfl
    rw [Nat.pow_zero, Nat.mul_one, Peaks.tree_one] at hclose
    rw [ha.stack, hend, ← hclose, hoja]

end Alimentado

private theorem alimentado_de {partes : List Bytes}
    (h : partes.flatten.length ≤ chunkLen * 2 ^ cvStackMax) :
    ∃ s, partes.foldlM Hasher.update Hasher.new = some s ∧
      Alimentado partes.flatten (cerrados partes.flatten.length) partes.flatten.length s := by
  have := (Alimentado.new partes.flatten).foldlM h (Nat.zero_le _) (List.drop_zero)
  rwa [Nat.zero_add] at this

/-- The hash of a message is that of its pieces. -/
theorem finalize_partes {partes : List Bytes}
    (h : partes.flatten.length ≤ chunkLen * 2 ^ cvStackMax) :
    ∃ s, partes.foldlM Hasher.update Hasher.new = some s ∧
      s.finalize = blake3 partes.flatten := by
  obtain ⟨s, hrun, ha⟩ := alimentado_de h
  -- the whole string is one piece
  obtain ⟨t, ht, hta⟩ := @Alimentado.update _ h _ _ (Alimentado.new partes.flatten)
    partes.flatten (List.take_length.symm) (Nat.zero_add _).le
  rw [Nat.zero_add] at hta
  refine ⟨s, hrun, ?_⟩
  rw [blake3, hash, ht, ha.finalize, ← hta.finalize]
  rfl

/-- BLAKE3 fed in pieces is the recursive BLAKE3 of the whole, whatever the pieces; the stack of
chaining values never underflows (that would be `none`) and holds at most its 54 entries. -/
theorem a_trozos_eq_recursiva (partes : List Bytes)
    (h : partes.flatten.length ≤ chunkLen * 2 ^ 54) :
    (∃ s, partes.foldlM Hasher.update Hasher.new = some s ∧
      s.finalize = Recursiva.hash partes.flatten ∧ hash partes.flatten = some s.finalize) ∧
    ∀ n, ∃ s, (partes.take n).foldlM Hasher.update Hasher.new = some s ∧
      s.cvStack.length ≤ cvStackMax := by
  constructor
  · obtain ⟨s, hrun, ha⟩ := alimentado_de h
    -- the whole string is one piece
    obtain ⟨t, ht, hta⟩ := @Alimentado.update _ h _ _ (Alimentado.new partes.flatten)
      partes.flatten (List.take_length.symm) (Nat.zero_add _).le
    rw [Nat.zero_add] at hta
    refine ⟨s, hrun, ha.finalize, ?_⟩
    rw [hash, ht, ha.finalize, ← hta.finalize]
    rfl
  · intro n
    have hle : (partes.take n).flatten.length ≤ partes.flatten.length := by
      have := congrArg (fun l ↦ l.flatten.length) (List.take_append_drop n partes)
      simp only [List.flatten_append, List.length_append] at this
      omega
    obtain ⟨s, hrun, ha⟩ := alimentado_de (hle.trans h)
    refine ⟨s, hrun, ha.length_stack ?_⟩
    simp only [cerrados, chunkLen, cvStackMax] at *
    omega

/-- A message of three chunks in four pieces, one of them empty and one over two chunks. -/
theorem a_trozos_con_vacio :
    (∃ s, [zeros 700, [], zeros 1500, [1]].foldlM Hasher.update Hasher.new = some s ∧
      s.finalize = Recursiva.hash (zeros 700 ++ zeros 1500 ++ [1]) ∧
      hash (zeros 700 ++ zeros 1500 ++ [1]) = some s.finalize) ∧
    ∀ n, ∃ s, ([zeros 700, [], zeros 1500, [1]].take n).foldlM Hasher.update Hasher.new = some s ∧
      s.cvStack.length ≤ cvStackMax := by
  have hall : [zeros 700, [], zeros 1500, [1]].flatten = zeros 700 ++ zeros 1500 ++ [1] := by
    simp only [List.flatten_cons, List.flatten_nil, List.nil_append, List.append_nil,
      List.append_assoc]
  have h := a_trozos_eq_recursiva [zeros 700, [], zeros 1500, [1]] (by simp [hall, chunkLen])
  rwa [hall] at h

end BmoX.Blake3
