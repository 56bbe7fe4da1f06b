import Mathlib.Algebra.BigOperators.Group.List.Basic
import Mathlib.Algebra.Order.Ring.Int
import Mathlib.Data.List.Basic
import Mathlib.Data.List.GetD
import Mathlib.Data.Vector.Defs
import Mathlib.Tactic.Common

/-!
# Byte strings: windows, little-endian words and zero-padded arrays

A serialised record is the concatenation of its fields, and a parser reads windows of it.
The laws below let a window that falls inside one field be read back as that field. Memories hold
such strings, and words of 64 bits.
-/

namespace BmoX.Base

/-- A byte string; the length of a slice is the length of the list. -/
abbrev Bytes := List UInt8

/-- A byte array of fixed length. -/
abbrev Arr (n : Nat) := List.Vector UInt8 n

/-! ### Windows -/

/-- The `n` bytes from position `o`, fewer where the string ends before. -/
def slice (b : Bytes) (o n : Nat) : Bytes := (b.drop o).take n

@[simp] theorem length_slice (b : Bytes) (o n : Nat) :
    (slice b o n).length = min n (b.length - o) := by
  rw [slice, List.length_take, List.length_drop]

theorem slice_append_right {a b : Bytes} {o n : Nat} (h : a.length ≤ o) :
    slice (a ++ b) o n = slice b (o - a.length) n := by
  rw [slice, slice, List.drop_append, List.drop_of_length_le h, List.nil_append]

theorem slice_append_left {a b : Bytes} {o n : Nat} (h : o + n ≤ a.length) :
    slice (a ++ b) o n = slice a o n := by
  rw [slice, slice, List.drop_append_of_le_length (by omega),
    List.take_append_of_le_length (by rw [List.length_drop]; omega)]

theorem slice_self {a : Bytes} {n : Nat} (h : a.length ≤ n) : slice a 0 n = a := by
  rw [slice, List.drop_zero, List.take_of_length_le h]

theorem slice_append_self {a b : Bytes} {n : Nat} (h : n = a.length) :
    slice (a ++ b) 0 n = a := by
  rw [slice_append_left (by omega), slice_self (by omega)]

theorem slice_slice {b : Bytes} {o n p m : Nat} (h : p + m ≤ n) :
    slice (slice b o n) p m = slice b (o + p) m := by
  rw [slice, slice, slice, List.drop_take, List.take_take, List.drop_drop,
    Nat.min_eq_left (by omega)]

theorem slice_take {b : Bytes} {o n m : Nat} (h : o + n ≤ m) :
    slice (b.take m) o n = slice b o n := by
  rw [slice, slice, List.drop_take, List.take_take, Nat.min_eq_left (by omega)]

/-! ### Records of one size -/

/-- The whole records of `k` bytes in a string; a shorter tail is dropped. -/
def records (k : Nat) (b : Bytes) : List Bytes :=
  (List.range (b.length / k)).map fun i ↦ slice b (k * i) k

/-- Records of one size take a multiple of it. -/
theorem length_flatMap_const {α : Type*} {f : α → Bytes} {k : Nat}
    (hf : ∀ x, (f x).length = k) (l : List α) : (l.flatMap f).length = k * l.length := by
  induction l with
  | nil => simp
  | cons x l ih =>
    rw [List.flatMap_cons, List.length_append, hf, ih, List.length_cons, Nat.mul_succ, Nat.add_comm]

/-- The window of the `i`-th record holds that record. -/
theorem slice_flatMap {α : Type*} {f : α → Bytes} {k : Nat} (hf : ∀ x, (f x).length = k)
    (l : List α) (r : Bytes) {i : Nat} (hi : i < l.length) :
    slice (l.flatMap f ++ r) (k * i) k = f l[i] := by
  induction l generalizing i with
  | nil => cases hi
  | cons x l ih =>
    rw [List.flatMap_cons, List.append_assoc]
    cases i with
    | zero => exact slice_append_self (hf x).symm
    | succ i =>
      have hk : k * (i + 1) - (f x).length = k * i := by
        rw [hf, Nat.mul_succ, Nat.add_sub_cancel]
      rw [slice_append_right (by rw [hf]; exact Nat.le_mul_of_pos_right k i.succ_pos), hk,
        ih (by simpa using hi), List.getElem_cons_succ]

/-- Splitting the concatenation of records of one size gives the records back. -/
theorem records_flatMap {α : Type*} {f : α → Bytes} {k : Nat} (hk : 0 < k)
    (hf : ∀ x, (f x).length = k) (l : List α) : records k (l.flatMap f) = l.map f := by
  have hl : (l.flatMap f).length / k = l.length := by
    rw [length_flatMap_const hf, Nat.mul_div_cancel_left _ hk]
  refine List.ext_getElem (by simp only [records, hl, List.length_map, List.length_range]) fun i h1 h2 ↦ ?_
  have hi : i < l.length := by simpa using h2
  have := slice_flatMap hf l [] hi
  rw [List.append_nil] at this
  simp [records, this]

/-- Overwrite the bytes from position `o`. -/
def splice (b : Bytes) (o : Nat) (r : Bytes) : Bytes := b.take o ++ r ++ b.drop (o + r.length)

theorem splice_length {b r : Bytes} {o : Nat} (h : o = b.length) : splice b o r = b ++ r := by
  rw [splice, h, List.take_length, List.drop_of_length_le (Nat.le_add_right ..), List.append_nil]

/-- Overwriting the window of the `i`-th record replaces that record. -/
theorem splice_flatMap {α : Type*} {f : α → Bytes} {k : Nat} (hf : ∀ x, (f x).length = k)
    (l : List α) (x : α) {i : Nat} (hi : i < l.length) :
    splice (l.flatMap f) (k * i) (f x) = (l.set i x).flatMap f := by
  induction l generalizing i with
  | nil => cases hi
  | cons y l ih =>
    cases i with
    | zero =>
      have hd : (f x).length = (f y).length := by
        rw [hf, hf]
      rw [splice, Nat.mul_zero, List.take_zero, List.nil_append, Nat.zero_add, hd,
        List.flatMap_cons, List.drop_left, List.set_cons_zero, List.flatMap_cons]
    | succ i =>
      have hi' : i < l.length := by simpa using hi
      have hk : k * (i + 1) = (f y).length + k * i := by
        rw [hf, Nat.mul_succ, Nat.add_comm]
      rw [List.set_cons_succ, List.flatMap_cons, List.flatMap_cons, ← ih hi', splice, splice, hk,
        List.take_length_add_append, Nat.add_assoc, List.drop_length_add_append]
      simp only [List.append_assoc]

/-! ### Little-endian words -/

/-- The low `w` bytes of `v`, least significant first. -/
def leBytes : Nat → Nat → Bytes
  | 0, _ => []
  | w + 1, v => UInt8.ofNat v :: leBytes w (v / 256)

/-- The number that little-endian bytes spell. -/
def leNat : Bytes → Nat
  | [] => 0
  | b :: bs => b.toNat + 256 * leNat bs

@[simp] theorem length_leBytes (w v : Nat) : (leBytes w v).length = w := by
  induction w generalizing v with
  | zero => rfl
  | succ w ih => rw [leBytes, List.length_cons, ih]

/-- Decoding an encoding keeps the number modulo the width. -/
theorem leNat_leBytes (w v : Nat) : leNat (leBytes w v) = v % 256 ^ w := by
  induction w generalizing v with
  | zero => rw [leBytes, leNat, Nat.pow_zero, Nat.mod_one]
  | succ w ih =>
    have hb : (UInt8.ofNat v).toNat = v % 256 := by simp
    rw [leBytes, leNat, ih, hb, Nat.pow_succ', Nat.mod_mul]

/-- The bytes of a number are those of what is left of it in so many bytes. -/
theorem leBytes_mod (w v : Nat) : leBytes w (v % 256 ^ w) = leBytes w v := by
  induction w generalizing v with
  | zero => rfl
  | succ w ih =>
    have hb : UInt8.ofNat (v % 256 ^ (w + 1)) = UInt8.ofNat v := by
      rw [← UInt8.toNat_inj, UInt8.toNat_ofNat', UInt8.toNat_ofNat', Nat.pow_succ']
      exact Nat.mod_mod_of_dvd v (Nat.dvd_mul_right 256 _)
    have hd : v % 256 ^ (w + 1) / 256 = v / 256 % 256 ^ w := by
      rw [Nat.pow_succ', Nat.mod_mul_right_div_self]
    rw [leBytes, hb, hd, ih, leBytes]

/-- `u64::to_le_bytes`. -/
def u64Le (x : UInt64) : Bytes := leBytes 8 x.toNat

/-- `u64::from_le_bytes`. -/
def u64De (b : Bytes) : UInt64 := UInt64.ofNat (leNat b)

/-- `u32::to_le_bytes`. -/
def u32Le (x : UInt32) : Bytes := leBytes 4 x.toNat

/-- `u32::from_le_bytes`. -/
def u32De (b : Bytes) : UInt32 := UInt32.ofNat (leNat b)

/-- `u16::to_le_bytes`. -/
def u16Le (x : UInt16) : Bytes := leBytes 2 x.toNat

/-- `u16::from_le_bytes`. -/
def u16De (b : Bytes) : UInt16 := UInt16.ofNat (leNat b)

@[simp] theorem length_u16Le (x : UInt16) : (u16Le x).length = 2 := length_leBytes ..

@[simp] theorem length_u64Le (x : UInt64) : (u64Le x).length = 8 := length_leBytes ..

@[simp] theorem length_u32Le (x : UInt32) : (u32Le x).length = 4 := length_leBytes ..

@[simp] theorem u64De_u64Le (x : UInt64) : u64De (u64Le x) = x := by
  have hx : x.toNat % 256 ^ 8 = x.toNat := Nat.mod_eq_of_lt x.toNat_lt
  rw [u64De, u64Le, leNat_leBytes, hx, UInt64.ofNat_toNat]

@[simp] theorem u32De_u32Le (x : UInt32) : u32De (u32Le x) = x := by
  have hx : x.toNat % 256 ^ 4 = x.toNat := Nat.mod_eq_of_lt x.toNat_lt
  rw [u32De, u32Le, leNat_leBytes, hx, UInt32.ofNat_toNat]

/-! ### Zero-padded arrays -/

/-- A run of zero bytes. -/
def zeros (n : Nat) : Bytes := List.replicate n 0

@[simp] theorem length_zeros (n : Nat) : (zeros n).length = n := List.length_replicate

/-- The array that starts with the given bytes and is zero after them. -/
def Arr.pad (n : Nat) (b : Bytes) : Arr n :=
  ⟨(b ++ zeros (n - b.length)).take n, by
    rw [List.length_take, List.length_append, length_zeros]
    omega⟩

@[simp] theorem Arr.length_val {n : Nat} (a : Arr n) : a.1.length = n := a.2

theorem Arr.val_pad {n : Nat} {b : Bytes} (h : b.length ≤ n) :
    (Arr.pad n b).1 = b ++ zeros (n - b.length) := by
  refine List.take_of_length_le ?_
  rw [List.length_append, length_zeros]
  omega

theorem Arr.val_pad_self {n : Nat} {b : Bytes} (h : b.length = n) : (Arr.pad n b).1 = b := by
  rw [Arr.val_pad (Nat.le_of_eq h), h, Nat.sub_self]
  exact List.append_nil b

@[simp] theorem Arr.pad_val {n : Nat} (a : Arr n) : Arr.pad n a.1 = a :=
  Subtype.ext (Arr.val_pad_self a.2)

theorem Arr.take_pad {n : Nat} {b : Bytes} (h : b.length ≤ n) :
    (Arr.pad n b).1.take b.length = b := by
  rw [Arr.val_pad h, List.take_left]

theorem Arr.slice_pad {n o m : Nat} {b : Bytes} (h : b.length ≤ n) (hm : o + m ≤ b.length) :
    slice (Arr.pad n b).1 o m = slice b o m := by
  rw [Arr.val_pad h, slice_append_left hm]

/-! ### Text -/

/-- `str::as_bytes`. -/
def utf8 (s : String) : Bytes := s.toByteArray.data.toList

/-- `str::from_utf8(b).unwrap_or("")`. -/
def utf8D (b : Bytes) : String := (String.fromUTF8? ⟨b.toArray⟩).getD ""

/-- `str::from_utf8(b).ok()`. -/
def deUtf8? (b : Bytes) : Option String := String.fromUTF8? ⟨b.toArray⟩

@[simp] theorem utf8D_utf8 (s : String) : utf8D (utf8 s) = s := by
  have hb : (⟨(utf8 s).toArray⟩ : ByteArray) = s.toByteArray := by simp [utf8]
  rw [utf8D, hb, String.fromUTF8?, dif_pos s.isValidUTF8]
  rfl

theorem utf8_inj {s t : String} : utf8 s = utf8 t ↔ s = t :=
  ⟨fun h ↦ by rw [← utf8D_utf8 s, h, utf8D_utf8], congrArg utf8⟩

theorem utf8_eq_nil {s : String} : utf8 s = [] ↔ s = "" := by
  rw [show ([] : Bytes) = utf8 "" by decide, utf8_inj]

/-! ### Byte memory -/

/-- A byte for each address. -/
abbrev Memory := Nat → UInt8

namespace Memory

variable {m m' : Memory} {a b n : Nat} {d : Bytes}

/-- The `n` bytes from `a` on. -/
def load (m : Memory) (a n : Nat) : Bytes := (List.range n).map fun i ↦ m (a + i)

/-- Write bytes from `a` on. -/
def store (m : Memory) (a : Nat) (d : Bytes) : Memory :=
  fun x ↦ if a ≤ x ∧ x < a + d.length then d.getD (x - a) 0 else m x

@[simp] theorem length_load : (m.load a n).length = n := by
  simp [load]

theorem getD_load {i : Nat} (h : i < n) : (m.load a n).getD i 0 = m (a + i) := by
  simp [load, List.getD_eq_getElem?_getD, h]

theorem load_congr (h : ∀ x, a ≤ x → x < a + n → m' x = m x) : m'.load a n = m.load a n := by
  unfold load
  apply List.map_congr_left
  intro i hi
  rw [List.mem_range] at hi
  exact h (a + i) (by omega) (by omega)

theorem store_in {x : Nat} (h : a ≤ x) (h' : x < a + d.length) : m.store a d x = d.getD (x - a) 0 :=
  if_pos ⟨h, h'⟩

theorem store_out {x : Nat} (h : x < a ∨ a + d.length ≤ x) : m.store a d x = m x := by
  apply if_neg
  omega

theorem load_add (k : Nat) : m.load a (n + k) = m.load a n ++ m.load (a + n) k := by
  simp [load, List.range_add, Nat.add_assoc]

theorem load_store_self : (m.store a d).load a d.length = d := by
  apply List.ext_getElem
  · simp
  · intro i h1 h2
    simp only [load, List.getElem_map, List.getElem_range]
    rw [store_in (by omega) (by omega), Nat.add_sub_cancel_left, List.getD_eq_getElem _ _ h2]

theorem load_store_of_disjoint (h : b + n ≤ a ∨ a + d.length ≤ b) :
    (m.store a d).load b n = m.load b n := by
  apply load_congr
  intro x h1 h2
  exact store_out (by omega)

/-! ### Words -/

/-- The word at an address. -/
def read64 (m : Memory) (a : Nat) : UInt64 := u64De (m.load a 8)

/-- Write a word. -/
def write64 (m : Memory) (a : Nat) (v : UInt64) : Memory := m.store a (u64Le v)

theorem read64_congr (h : ∀ x, a ≤ x → x < a + 8 → m' x = m x) : m'.read64 a = m.read64 a := by
  unfold read64
  rw [load_congr h]

theorem write64_out {x : Nat} {v : UInt64} (h : x < a ∨ a + 8 ≤ x) : m.write64 a v x = m x := by
  apply store_out
  rwa [length_u64Le]

@[simp] theorem read64_write64_self (v : UInt64) : (m.write64 a v).read64 a = v := by
  have h := @load_store_self m a (u64Le v)
  rw [length_u64Le] at h
  unfold read64 write64
  rw [h, u64De_u64Le]

theorem read64_write64_of_disjoint {v : UInt64} (h : b + 8 ≤ a ∨ a + 8 ≤ b) :
    (m.write64 a v).read64 b = m.read64 b := by
  apply read64_congr
  intro x h1 h2
  exact write64_out (by omega)

end Memory

end BmoX.Base
