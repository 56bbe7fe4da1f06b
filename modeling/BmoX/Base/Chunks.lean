import BmoX.Base.Bytes
import Mathlib.Algebra.Order.Group.Nat
import Mathlib.Data.Nat.Bitwise

/-!
# Byte strings cut in pieces of one size

`slice::chunks`: every piece has the size but the last, which may be shorter. A string padded to a
multiple of the size is cut in the same pieces, each padded.
-/

namespace BmoX.Base

/-- `slice::chunks`. -/
def chunks (n : Nat) (b : Bytes) : List Bytes :=
  if _h : b = [] ∨ n = 0 then [] else b.take n :: chunks n (b.drop n)
termination_by b.length
decreasing_by
  have := List.length_pos_iff.mpr (not_or.mp _h).1
  rw [List.length_drop]
  omega

@[simp] theorem chunks_nil (n : Nat) : chunks n [] = [] := by
  rw [chunks, dif_pos (.inl rfl)]

theorem chunks_cons {n : Nat} (hn : 0 < n) {b : Bytes} (hb : b ≠ []) :
    chunks n b = b.take n :: chunks n (b.drop n) := by
  rw [chunks, dif_neg (not_or.mpr ⟨hb, hn.ne'⟩)]

/-- The pieces make the string. -/
theorem flatten_chunks {n : Nat} (hn : 0 < n) (b : Bytes) : (chunks n b).flatten = b := by
  induction h : b.length using Nat.strong_induction_on generalizing b with
  | _ k ih =>
    rcases eq_or_ne b [] with rfl | hb
    · rw [chunks_nil, List.flatten_nil]
    · have hpos := List.length_pos_iff.mpr hb
      rw [chunks_cons hn hb, List.flatten_cons,
        ih (b.drop n).length (by rw [List.length_drop]; omega) _ rfl, List.take_append_drop]

/-- No piece is longer than the size. -/
theorem length_le_of_mem_chunks {n : Nat} {b c : Bytes} (h : c ∈ chunks n b) : c.length ≤ n := by
  induction hl : b.length using Nat.strong_induction_on generalizing b with
  | _ k ih =>
    rw [chunks] at h
    split at h
    · cases h
    · next hb =>
      have hpos := List.length_pos_iff.mpr (not_or.mp hb).1
      rcases List.mem_cons.mp h with rfl | h
      · exact List.length_take_le n b
      · exact ih (b.drop n).length (by rw [List.length_drop]; omega) h rfl

/-- How many pieces: the length over the size, rounded up. -/
theorem length_chunks {n : Nat} (hn : 0 < n) (b : Bytes) :
    (chunks n b).length = (b.length + n - 1) / n := by
  induction h : b.length using Nat.strong_induction_on generalizing b with
  | _ k ih =>
    rcases eq_or_ne b [] with rfl | hb
    · rw [chunks_nil, ← h]
      exact (Nat.div_eq_of_lt (by simp only [List.length_nil]; omega)).symm
    · have hpos := List.length_pos_iff.mpr hb
      rw [chunks_cons hn hb, List.length_cons,
        ih (b.drop n).length (by rw [List.length_drop]; omega) _ rfl, List.length_drop, h]
      rcases Nat.lt_or_ge k n with hlt | hge
      · have h0 : k - n = 0 := by omega
        rw [h0, Nat.zero_add, Nat.div_eq_of_lt (by omega)]
        exact (Nat.div_eq_of_lt_le (by omega) (by omega)).symm
      · have hk : k + n - 1 = k - n + n - 1 + n := by omega
        rw [hk, Nat.add_div_right _ hn]

/-- A first part of whole pieces is cut on its own. -/
theorem chunks_append {n : Nat} (hn : 0 < n) {a : Bytes} (ha : n ∣ a.length) (b : Bytes) :
    chunks n (a ++ b) = chunks n a ++ chunks n b := by
  induction h : a.length using Nat.strong_induction_on generalizing a with
  | _ k ih =>
    rcases eq_or_ne a [] with rfl | hne
    · rw [chunks_nil, List.nil_append, List.nil_append]
    · have hpos := List.length_pos_iff.mpr hne
      have hle := Nat.le_of_dvd hpos ha
      have hdrop : n ∣ (a.drop n).length := by
        rw [List.length_drop]
        exact Nat.dvd_sub ha (Nat.dvd_refl n)
      rw [chunks_cons hn (List.append_ne_nil_of_left_ne_nil hne b), chunks_cons hn hne,
        List.take_append_of_le_length hle, List.drop_append_of_le_length hle,
        ih (a.drop n).length (by rw [List.length_drop]; omega) hdrop rfl, List.cons_append]

/-- Zeros up to a multiple of the size. -/
def padTo (n : Nat) (b : Bytes) : Bytes := b ++ zeros ((n - b.length % n) % n)

theorem dvd_length_padTo {n : Nat} (hn : 0 < n) (b : Bytes) : n ∣ (padTo n b).length := by
  rw [padTo, List.length_append, length_zeros]
  have hlt := Nat.mod_lt b.length hn
  rcases Nat.eq_zero_or_pos (b.length % n) with h0 | hpos
  · rw [h0, Nat.sub_zero, Nat.mod_self, Nat.add_zero]
    exact Nat.dvd_of_mod_eq_zero h0
  · have hd := Nat.div_add_mod b.length n
    rw [Nat.mod_eq_of_lt (a := n - b.length % n) (by omega)]
    refine ⟨b.length / n + 1, ?_⟩
    rw [Nat.mul_succ]
    omega

/-- The pieces of a padded string are the pieces, padded. -/
theorem chunks_padTo {n : Nat} (hn : 0 < n) (b : Bytes) :
    chunks n (padTo n b) = (chunks n b).map fun t ↦ t ++ zeros (n - t.length) := by
  induction h : b.length using Nat.strong_induction_on generalizing b with
  | _ k ih =>
    rcases eq_or_ne b [] with rfl | hb
    · have hz : padTo n [] = [] := by
        rw [padTo, List.length_nil, Nat.zero_mod, Nat.sub_zero, Nat.mod_self]
        rfl
      rw [hz, chunks_nil, List.map_nil]
    · have hpos := List.length_pos_iff.mpr hb
      have hne : padTo n b ≠ [] := List.append_ne_nil_of_left_ne_nil hb _
      rw [chunks_cons hn hne, chunks_cons hn hb, List.map_cons]
      rcases Nat.lt_or_ge n b.length with hlt | hge
      · -- a whole piece, and the same padding for the rest
        have hmod : (b.drop n).length % n = b.length % n := by
          rw [List.length_drop, ← Nat.mod_eq_sub_mod hlt.le]
        have hdrop : (padTo n b).drop n = padTo n (b.drop n) := by
          rw [padTo, padTo, hmod, List.drop_append_of_le_length hlt.le]
        have htake : (b.take n).length = n := by
          rw [List.length_take]
          omega
        rw [hdrop, ih (b.drop n).length (by rw [List.length_drop]; omega) _ rfl, htake,
          Nat.sub_self, padTo, List.take_append_of_le_length hlt.le, zeros, List.replicate_zero,
          List.append_nil]
      · have htot : padTo n b = b ++ zeros (n - b.length) := by
          rw [padTo]
          rcases Nat.lt_or_ge b.length n with hlt | hle
          · rw [Nat.mod_eq_of_lt hlt, Nat.mod_eq_of_lt (by omega)]
          · have he : b.length = n := by omega
            rw [he, Nat.mod_self, Nat.sub_zero, Nat.mod_self, Nat.sub_self]
        have hlen : (b ++ zeros (n - b.length)).length ≤ n := by
          rw [List.length_append, length_zeros]
          omega
        rw [htot, List.take_of_length_le hlen, List.drop_of_length_le hlen, chunks_nil,
          List.take_of_length_le hge, List.drop_of_length_le hge, chunks_nil, List.map_nil]

/-- A bit of the number that bytes spell is a bit of one of them. -/
theorem testBit_leNat (b : Bytes) (i : Nat) :
    (leNat b).testBit i = (b.getD (i / 8) 0).toNat.testBit (i % 8) := by
  induction b generalizing i with
  | nil => simp [leNat]
  | cons x xs ih =>
    have hx : x.toNat < 2 ^ 8 := x.toNat_lt
    rw [leNat, Nat.add_comm, show 256 = 2 ^ 8 from rfl, Nat.testBit_two_pow_mul_add _ hx]
    split
    · next h => rw [Nat.div_eq_of_lt h, Nat.mod_eq_of_lt h, List.getD_cons_zero]
    · next h =>
      have hdiv : i / 8 = (i - 8) / 8 + 1 := by omega
      have hmod : i % 8 = (i - 8) % 8 := by omega
      rw [ih, hdiv, hmod, List.getD_cons_succ]

/-- One bit of a byte, shifted down and masked. -/
theorem toNat_shift_and_one (b : UInt8) {j : Nat} (hj : j < 8) :
    ((b >>> UInt8.ofNat j) &&& 1).toNat = (b.toNat.testBit j).toNat := by
  have hsh : (b >>> UInt8.ofNat j).toNat = b.toNat / 2 ^ j := by
    rw [UInt8.toNat_shiftRight, UInt8.toNat_ofNat', Nat.mod_eq_of_lt (a := j) (by omega),
      Nat.mod_eq_of_lt hj, Nat.shiftRight_eq_div_pow]
  rw [UInt8.toNat_and, hsh, Nat.toNat_testBit]
  exact Nat.and_one_is_mod _

/-! ### The number that bytes spell -/

theorem leNat_lt (b : Bytes) : leNat b < 256 ^ b.length := by
  induction b with
  | nil => simp [leNat]
  | cons x xs ih =>
    have hx : x.toNat < 256 := x.toNat_lt
    rw [leNat, List.length_cons, Nat.pow_succ]
    omega

theorem leNat_append (a b : Bytes) : leNat (a ++ b) = leNat a + 256 ^ a.length * leNat b := by
  induction a with
  | nil => simp [leNat]
  | cons x xs ih =>
    rw [List.cons_append, leNat, leNat, ih, List.length_cons, Nat.pow_succ', Nat.mul_add,
      Nat.mul_assoc, Nat.add_assoc]

/-- The first bytes are the remainder. -/
theorem leNat_take (b : Bytes) (n : Nat) : leNat (b.take n) = leNat b % 256 ^ n := by
  rcases Nat.le_total n b.length with h | h
  · have hlt := leNat_lt (b.take n)
    have happ := leNat_append (b.take n) (b.drop n)
    rw [List.take_append_drop] at happ
    rw [List.length_take_of_le h] at hlt happ
    rw [happ, Nat.add_mul_mod_self_left, Nat.mod_eq_of_lt hlt]
  · have hle : 256 ^ b.length ≤ 256 ^ n := Nat.pow_le_pow_right (by decide) h
    rw [List.take_of_length_le h, Nat.mod_eq_of_lt (Nat.lt_of_lt_of_le (leNat_lt b) hle)]

/-- The bytes after the first are the quotient. -/
theorem leNat_drop (b : Bytes) (n : Nat) : leNat (b.drop n) = leNat b / 256 ^ n := by
  rcases Nat.le_total n b.length with h | h
  · have hlt := leNat_lt (b.take n)
    have happ := leNat_append (b.take n) (b.drop n)
    rw [List.take_append_drop] at happ
    rw [List.length_take_of_le h] at hlt happ
    rw [happ, Nat.add_mul_div_left _ _ (Nat.pow_pos (by decide)), Nat.div_eq_of_lt hlt, Nat.zero_add]
  · have hle : 256 ^ b.length ≤ 256 ^ n := Nat.pow_le_pow_right (by decide) h
    rw [List.drop_of_length_le h, Nat.div_eq_of_lt (Nat.lt_of_lt_of_le (leNat_lt b) hle)]
    rfl

/-- One byte of the number. -/
theorem toNat_getD_leNat (b : Bytes) (i : Nat) : (b.getD i 0).toNat = leNat b / 256 ^ i % 256 := by
  induction b generalizing i with
  | nil => simp [leNat]
  | cons x xs ih =>
    have hx : x.toNat < 256 := x.toNat_lt
    rw [leNat]
    cases i with
    | zero =>
      rw [List.getD_cons_zero, Nat.pow_zero, Nat.div_one]
      omega
    | succ i =>
      rw [List.getD_cons_succ, ih, Nat.pow_succ', ← Nat.div_div_eq_div_mul,
        Nat.add_mul_div_left _ _ (by decide), Nat.div_eq_of_lt hx, Nat.zero_add]

/-- Writing one byte exchanges it in the number. -/
theorem leNat_set (b : Bytes) (i : Nat) (x : UInt8) (h : i < b.length) :
    leNat (b.set i x) + 256 ^ i * (b.getD i 0).toNat = leNat b + 256 ^ i * x.toNat := by
  induction b generalizing i with
  | nil => exact absurd h (Nat.not_lt_zero i)
  | cons y ys ih =>
    cases i with
    | zero =>
      rw [List.set_cons_zero, List.getD_cons_zero, leNat, leNat, Nat.pow_zero]
      omega
    | succ i =>
      have hi := ih i (Nat.lt_of_succ_lt_succ h)
      rw [List.set_cons_succ, List.getD_cons_succ, leNat, leNat, Nat.pow_succ', Nat.mul_assoc,
        Nat.mul_assoc, Nat.add_assoc, ← Nat.mul_add, hi, Nat.mul_add, ← Nat.add_assoc]

/-- Bytes are what the number they spell is encoded as. -/
theorem leBytes_leNat (b : Bytes) : leBytes b.length (leNat b) = b := by
  induction b with
  | nil => rfl
  | cons x xs ih =>
    have hx : x.toNat < 256 := x.toNat_lt
    rw [List.length_cons, leBytes, leNat, Nat.add_mul_div_left _ _ (by decide),
      Nat.div_eq_of_lt hx, Nat.zero_add, ih]
    congr 1
    apply UInt8.toNat_inj.mp
    rw [UInt8.toNat_ofNat']
    omega

theorem leNat_inj {a b : Bytes} (hl : a.length = b.length) (h : leNat a = leNat b) : a = b := by
  rw [← leBytes_leNat a, ← leBytes_leNat b, hl, h]

theorem u64Le_u64De {b : Bytes} (h : b.length = 8) : u64Le (u64De b) = b := by
  have hlt := leNat_lt b
  rw [h] at hlt
  rw [u64Le, u64De, UInt64.toNat_ofNat_of_lt' hlt, ← h, leBytes_leNat]

theorem u32Le_u32De {b : Bytes} (h : b.length = 4) : u32Le (u32De b) = b := by
  have hlt := leNat_lt b
  rw [h] at hlt
  rw [u32Le, u32De, UInt32.toNat_ofNat_of_lt' hlt, ← h, leBytes_leNat]

/-- Whole records laid end to end are the string they were cut from. -/
theorem flatten_records {k : Nat} {b : Bytes} (h : b.length % k = 0) :
    (records k b).flatten = b := by
  have hsplit : ∀ (m : Nat) (b : Bytes), b.length = k * m →
      ((List.range m).map fun i ↦ slice b (k * i) k).flatten = b := by
    intro m
    induction m with
    | zero =>
      intro b hb
      rw [List.range_zero, List.map_nil, List.flatten_nil, List.eq_nil_of_length_eq_zero hb]
    | succ m ih =>
      intro b hb
      have hdrop : (b.drop k).length = k * m := by
        rw [List.length_drop, hb, Nat.mul_succ, Nat.add_sub_cancel]
      have hresto : (List.range m).map ((fun i ↦ slice b (k * i) k) ∘ Nat.succ) =
          (List.range m).map fun i ↦ slice (b.drop k) (k * i) k := by
        refine List.map_congr_left fun i _ ↦ ?_
        simp only [Function.comp_apply, slice, List.drop_drop, Nat.mul_succ, Nat.add_comm]
      rw [List.range_succ_eq_map, List.map_cons, List.map_map, List.flatten_cons, hresto,
        ih _ hdrop]
      exact List.take_append_drop k b
  exact hsplit _ b (Nat.mul_div_cancel' (Nat.dvd_of_mod_eq_zero h)).symm

end BmoX.Base
