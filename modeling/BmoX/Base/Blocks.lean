import BmoX.Base.Bytes
import Mathlib.Algebra.Order.Group.Nat

/-!
# Files kept in blocks of one size, and buffers filled a part at a time

A file is a chain of blocks, each with at most one block after it, and its length says where it ends
within the last one. A reader goes along the chain and puts what it finds in a buffer; it may stop
before the end, and what it counted until then is right.
-/

namespace BmoX.Base

theorem slice_add (b : Bytes) (o n m : Nat) :
    slice b o (n + m) = slice b o n ++ slice b (o + n) m := by
  rw [slice, slice, slice, List.take_add, List.drop_drop]

theorem slice_zero (b : Bytes) (n : Nat) : slice b 0 n = b.take n := by
  rw [slice, List.drop_zero]

/-- A window of whole records in a table of numbered ones. -/
theorem slice_flatMap_range {f : Nat → Bytes} {k i n m : Nat} (hf : ∀ j, (f j).length = k)
    (h : i + n ≤ m) :
    slice ((List.range m).flatMap f) (k * i) (k * n) = (List.range n).flatMap fun j ↦ f (i + j) :=
      by
  obtain ⟨r, rfl⟩ := Nat.exists_eq_add_of_le h
  have hi : ((List.range i).flatMap f).length = k * i := by
    rw [length_flatMap_const hf, List.length_range]
  have hn : (((List.range n).map (i + ·)).flatMap f).length = k * n := by
    rw [length_flatMap_const hf, List.length_map, List.length_range]
  rw [List.range_add, List.range_add, List.flatMap_append, List.flatMap_append, List.append_assoc,
    slice_append_right hi.le, hi, Nat.sub_self, slice_append_self hn.symm, List.flatMap_map]

/-! ### Chains of blocks -/

namespace Blocks

variable {α : Type*} (next : α → Option α) (block : α → Bytes)

/-- The blocks from `a` on, at most `n`. -/
def chain : Nat → α → List α
  | 0, _ => []
  | n + 1, a => a :: (next a).elim [] (chain n)

/-- The blocks of the chain one after the other, cut to `s` bytes: no more than `s` blocks are
needed. -/
def content (a : α) (s : Nat) : Bytes := ((chain next s a).flatMap block).take s

/-- What follows the first block, of size `k`. -/
def rest (k : Nat) (a : α) (s : Nat) : Bytes :=
  (next a).elim [] fun b ↦ content next block b (s - k)

/-- `b` is the block number `i` of the chain of `a`. -/
inductive At (a : α) : Nat → α → Prop
  | head : At a 0 a
  | next {i : Nat} {b c : α} (h : At a i b) (hn : next b = some c) : At a (i + 1) c

theorem content_zero (a : α) : content next block a 0 = [] := by
  rw [content, List.take_zero]

theorem length_content_le (a : α) (s : Nat) : (content next block a s).length ≤ s := by
  rw [content, List.length_take]
  omega

variable {next} in
theorem At.eq_of_none {a b : α} {i : Nat} (h : At next a i b) (ha : next a = none) : b = a := by
  induction h with
  | head => rfl
  | next _ hn ih =>
    rw [ih, ha] at hn
    cases hn

variable {next block} {k : Nat} (hk : 0 < k) (hb : ∀ a, (block a).length = k)
include hk hb

/-- One more block than bytes are asked for gives nothing new. -/
theorem take_chain_succ {n s : Nat} (a : α) (h : s ≤ n) :
    ((chain next (n + 1) a).flatMap block).take s = ((chain next n a).flatMap block).take s := by
  induction n generalizing a s with
  | zero =>
    obtain rfl : s = 0 := by omega
    rw [List.take_zero, List.take_zero]
  | succ n ih =>
    rw [chain, chain, List.flatMap_cons, List.flatMap_cons, List.take_append, List.take_append, hb]
    congr 1
    cases next a with
    | none => rfl
    | some b => exact ih b (by omega)

theorem take_chain {n s : Nat} (a : α) (h : s ≤ n) :
    ((chain next n a).flatMap block).take s = content next block a s := by
  induction n, h using Nat.le_induction with
  | base => rw [content]
  | succ n hn ih => rw [take_chain_succ hk hb a hn, ih]

theorem take_content {s t : Nat} (a : α) (h : t ≤ s) :
    (content next block a s).take t = content next block a t := by
  rw [content, List.take_take, Nat.min_eq_left h, take_chain hk hb a h]

/-- The first block, and what follows it. -/
theorem content_eq (a : α) (s : Nat) :
    content next block a s = (block a).take s ++ rest next block k a s := by
  cases s with
  | zero =>
    rw [content_zero, List.take_zero, List.nil_append, rest]
    cases next a with
    | none => rfl
    | some b => rw [Option.elim_some, Nat.zero_sub, content_zero]
  | succ s =>
    rw [content, chain, List.flatMap_cons, List.take_append, hb, rest]
    congr 1
    cases next a with
    | none => rw [Option.elim_none, Option.elim_none, List.flatMap_nil, List.take_nil]
    | some b => exact take_chain hk hb b (by omega)

/-- What follows the first block is what is left when it is dropped. -/
theorem drop_content (a : α) (s : Nat) :
    (content next block a s).drop k = rest next block k a s := by
  rw [content_eq hk hb]
  rcases Nat.lt_or_ge s k with hlt | hge
  · -- the file ends in the first block
    have hr : rest next block k a s = [] := by
      rw [rest, Nat.sub_eq_zero_of_le hlt.le]
      cases next a with
      | none => rfl
      | some b => rw [Option.elim_some, content_zero]
    rw [hr, List.append_nil, List.drop_of_length_le]
    rw [List.length_take]
    omega
  · rw [List.take_of_length_le (by rw [hb]; exact hge), List.drop_append_of_le_length (hb a).ge,
      List.drop_of_length_le (hb a).le, List.nil_append]

/-- From a block of the chain on, the file is the one that starts in that block. -/
theorem drop_content_at {a b : α} {i : Nat} (h : At next a i b) (s : Nat) :
    (content next block a s).drop (i * k) = content next block b (s - i * k) := by
  induction h with
  | head => rw [Nat.zero_mul, List.drop_zero, Nat.sub_zero]
  | next h hn ih =>
    rw [Nat.succ_mul, ← List.drop_drop, ih, drop_content hk hb, rest, hn, Option.elim_some,
      Nat.sub_sub]

theorem slice_content_at {a b : α} {i d m s : Nat} (h : At next a i b) (hd : d + m ≤ k)
    (hs : i * k + d + m ≤ s) :
    slice (content next block a s) (i * k + d) m = slice (block b) d m := by
  rw [slice, ← List.drop_drop, drop_content_at hk hb h, content_eq hk hb, ← slice,
    slice_append_left (by rw [List.length_take, hb]; omega), slice_take (by omega)]

end Blocks

/-! ### Filling a buffer -/

theorem length_splice {b r : Bytes} {d : Nat} (h : d + r.length ≤ b.length) :
    (splice b d r).length = b.length := by
  rw [splice, List.length_append, List.length_append, List.length_take, List.length_drop]
  omega

theorem splice_nil {b : Bytes} {d : Nat} : splice b d [] = b := by
  rw [splice, List.append_nil, List.length_nil, Nat.add_zero, List.take_append_drop]

/-- What stands before the part written stays. -/
theorem take_splice {b r : Bytes} {d : Nat} (h : d ≤ b.length) :
    (splice b d r).take d = b.take d := by
  have hl : (b.take d).length = d := by
    rw [List.length_take]
    omega
  rw [splice, List.append_assoc, List.take_append_of_le_length hl.ge,
    List.take_of_length_le hl.le]

/-- The part written is there. -/
theorem slice_splice {b r : Bytes} {d : Nat} (h : d ≤ b.length) :
    slice (splice b d r) d r.length = r := by
  have hl : (b.take d).length = d := by
    rw [List.length_take]
    omega
  rw [splice, List.append_assoc, slice_append_right hl.le, hl, Nat.sub_self,
    slice_append_self rfl]

/-- What stands apart from the part written stays. -/
theorem slice_splice_of_disjoint {b r : Bytes} {d o n : Nat} (hd : d + r.length ≤ b.length)
    (h : o + n ≤ d ∨ d + r.length ≤ o) : slice (splice b d r) o n = slice b o n := by
  have hl : (b.take d).length = d := by
    rw [List.length_take]
    omega
  obtain h | h := h
  · rw [← slice_take h, take_splice (by omega), slice_take h]
  · have hlr : (b.take d ++ r).length ≤ o := by
      rw [List.length_append, hl]
      exact h
    rw [splice, slice_append_right hlr, slice, slice, List.drop_drop, List.length_append, hl,
      Nat.add_sub_cancel' h]

/-- Two parts one after the other are one part. -/
theorem splice_splice {b r r' : Bytes} {d : Nat} (h : d + r.length ≤ b.length) :
    splice (splice b d r) (d + r.length) r' = splice b d (r ++ r') := by
  have hl : (b.take d ++ r).length = d + r.length := by
    rw [List.length_append, List.length_take]
    omega
  rw [splice, splice, splice, List.take_append_of_le_length hl.ge, List.take_of_length_le hl.le,
    List.length_append, List.drop_append, hl, List.drop_of_length_le (by rw [hl]; omega),
    List.nil_append, List.drop_drop, List.append_assoc (b.take d) r r']
  congr 2
  omega

/-- The first `n` bytes of `w` went to position `d` of the buffer `b`, which is now `b'`; what
stands before is untouched. -/
structure Filled (w : Bytes) (d : Nat) (b b' : Bytes) (n : Nat) : Prop where
  length_eq : b'.length = b.length
  before : b'.take d = b.take d
  le : n ≤ w.length
  window : slice b' d n = w.take n

namespace Filled

variable {w w' b b' : Bytes} {d n : Nat}

theorem zero (hl : b'.length = b.length) (ht : b'.take d = b.take d) : Filled w d b b' 0 :=
  ⟨hl, ht, Nat.zero_le _, by rw [slice, List.take_zero, List.take_zero]⟩

theorem refl : Filled w d b b 0 := zero rfl rfl

theorem of_splice (h : d + w.length ≤ b.length) : Filled w d b (splice b d w) w.length :=
  ⟨length_splice h, take_splice (by omega), le_rfl,
    by rw [slice_splice (by omega), List.take_length]⟩

/-- A part that went whole, and then some of what follows. -/
theorem append (h : d + w.length ≤ b.length)
    (hf : Filled w' (d + w.length) (splice b d w) b' n) :
    Filled (w ++ w') d b b' (w.length + n) := by
  have hs : slice b' d w.length = w := by
    have ht := congrArg (List.drop d) hf.before
    rw [List.drop_take, List.drop_take, Nat.add_sub_cancel_left] at ht
    exact ht.trans (slice_splice (by omega))
  constructor
  · rw [hf.length_eq, length_splice h]
  · have ht := congrArg (List.take d) hf.before
    rw [List.take_take, List.take_take, Nat.min_eq_left (by omega), take_splice (by omega)] at ht
    exact ht
  · rw [List.length_append]
    exact Nat.add_le_add_left hf.le _
  · rw [slice_add, hs, hf.window, List.take_length_add_append]

end Filled

/-- A reader that may stop before the end, and that brings everything when `ok`. -/
structure Served (ok : Prop) (w : Bytes) (d : Nat) (b b' : Bytes) (n : Nat) : Prop
    extends Filled w d b b' n where
  whole : ok → n = w.length ∧ b' = splice b d w

namespace Served

variable {ok ok' : Prop} {w w' b b' : Bytes} {d n : Nat}

theorem nil : Served ok [] d b b 0 := ⟨Filled.refl, fun _ ↦ ⟨rfl, splice_nil.symm⟩⟩

theorem stop (hl : b'.length = b.length) (ht : b'.take d = b.take d) (h : ¬ok) :
    Served ok w d b b' 0 := ⟨Filled.zero hl ht, fun hok ↦ absurd hok h⟩

theorem of_splice (h : d + w.length ≤ b.length) : Served ok w d b (splice b d w) w.length :=
  ⟨Filled.of_splice h, fun _ ↦ ⟨rfl, rfl⟩⟩

theorem append (h : d + w.length ≤ b.length)
    (hs : Served ok w' (d + w.length) (splice b d w) b' n) :
    Served ok (w ++ w') d b b' (w.length + n) := by
  constructor
  · exact Filled.append h hs.toFilled
  · intro hok
    obtain ⟨rfl, rfl⟩ := hs.whole hok
    exact ⟨List.length_append.symm, splice_splice h⟩

theorem mono (h : ok' → ok) (hs : Served ok w d b b' n) : Served ok' w d b b' n :=
  ⟨hs.toFilled, fun hok ↦ hs.whole (h hok)⟩

end Served

end BmoX.Base
