import Mathlib.Algebra.BigOperators.Group.List.Basic
import Mathlib.Algebra.Order.Ring.Int
import Mathlib.Data.List.Basic
import Mathlib.Data.Nat.ModEq
import Mathlib.Tactic.Common

/-!
# Circular buffers

A queue kept in a fixed block of slots: the entries are the `count` slots from `head` on, around
the end. `toList` is the queue the buffer stands for.
-/

namespace BmoX.Base

/-- A circular buffer of `cap` slots. -/
structure Ring (α : Type) (cap : Nat) where
  slots : Fin cap → α
  head : Nat
  count : Nat
  count_le : count ≤ cap

namespace Ring

variable {α : Type} {cap : Nat} [NeZero cap]

/-- The empty buffer, every slot filled with `x`. -/
def empty (x : α) : Ring α cap := ⟨fun _ ↦ x, 0, 0, Nat.zero_le _⟩

/-- The slot of the `k`-th entry. -/
def slot (r : Ring α cap) (k : Nat) : Fin cap := Fin.ofNat cap (r.head + k)

/-- The entries, oldest first. -/
def toList (r : Ring α cap) : List α := (List.range r.count).map fun k ↦ r.slots (r.slot k)

/-- Append an entry to a buffer that is not full. -/
def push (r : Ring α cap) (x : α) (h : r.count < cap) : Ring α cap :=
  ⟨Function.update r.slots (r.slot r.count) x, r.head, r.count + 1, h⟩

/-- The oldest entry. -/
def front (r : Ring α cap) : α := r.slots (r.slot 0)

/-- Drop the oldest entry, leaving `x` in its slot. -/
def pop (r : Ring α cap) (x : α) : Ring α cap :=
  ⟨Function.update r.slots (r.slot 0) x, (r.head + 1) % cap, r.count - 1,
    (Nat.sub_le _ _).trans r.count_le⟩

theorem length_toList (r : Ring α cap) : r.toList.length = r.count := by
  rw [toList, List.length_map, List.length_range]

/-- Entries less than a whole turn apart lie in different slots. -/
theorem slot_ne (r : Ring α cap) {j k : Nat} (hjk : j < k) (hk : k < j + cap) :
    r.slot j ≠ r.slot k := by
  intro h
  have hmod : (r.head + j) % cap = (r.head + k) % cap := Fin.mk.inj h
  have hjk' : j ≡ k [MOD cap] := Nat.ModEq.add_left_cancel' r.head hmod
  have hdvd := (Nat.modEq_iff_dvd' hjk.le).mp hjk'
  have := Nat.le_of_dvd (by omega) hdvd
  omega

/-- The queue is in the slots of its entries. -/
theorem toList_congr {r r' : Ring α cap} (hh : r'.head = r.head) (hc : r'.count = r.count)
    (h : ∀ k < r.count, r'.slots (r.slot k) = r.slots (r.slot k)) : r'.toList = r.toList := by
  rw [toList, toList, hc]
  apply List.map_congr_left
  intro k hk
  rw [slot, hh]
  exact h k (List.mem_range.mp hk)

/-- One more entry is the one in the next slot. -/
theorem toList_succ {r r' : Ring α cap} (hs : r'.slots = r.slots) (hh : r'.head = r.head)
    (hc : r'.count = r.count + 1) : r'.toList = r.toList ++ [r.slots (r.slot r.count)] := by
  rw [toList, hc, List.range_succ, List.map_append, List.map_singleton, slot, hs, hh]
  congr 1
  apply List.map_congr_left
  intro k _
  rw [slot, hh, slot]

/-- Entries dropped from the front. -/
theorem toList_drop {r r' : Ring α cap} {n : Nat} (hs : r'.slots = r.slots)
    (hh : r'.head = (r.head + n) % cap) (hc : r'.count = r.count - n) :
    r'.toList = r.toList.drop n := by
  apply List.ext_getElem
  · rw [List.length_drop, length_toList, length_toList, hc]
  · intro i h1 h2
    have hslot : r'.slot i = r.slot (n + i) := by
      apply Fin.ext
      simp only [slot, Fin.val_ofNat]
      rw [hh, Nat.mod_add_mod, Nat.add_assoc]
    simp only [toList, List.getElem_map, List.getElem_range, List.getElem_drop]
    rw [hs, hslot]

@[simp] theorem toList_empty (x : α) : (empty x : Ring α cap).toList = [] := rfl

theorem toList_eq_nil {r : Ring α cap} : r.toList = [] ↔ r.count = 0 := by
  rw [← List.length_eq_zero_iff, length_toList]

/-- `push` appends at the end of the queue. -/
theorem toList_push (r : Ring α cap) (x : α) (h : r.count < cap) :
    (r.push x h).toList = r.toList ++ [x] := by
  simp only [toList, push, List.range_succ, List.map_append, List.map_cons, List.map_nil]
  congr 1
  · apply List.map_congr_left
    intro k hk
    have hk := List.mem_range.mp hk
    exact Function.update_of_ne (r.slot_ne hk (by omega)) _ _
  · exact congrArg (fun y ↦ [y]) (Function.update_self ..)

/-- `front` and `pop` take the queue apart at its start. -/
theorem toList_pop (r : Ring α cap) (x : α) (h : 0 < r.count) :
    r.toList = r.front :: (r.pop x).toList := by
  obtain ⟨n, hn⟩ := Nat.exists_eq_succ_of_ne_zero h.ne'
  have hle := r.count_le
  simp only [toList, hn, pop, Nat.succ_eq_add_one, Nat.add_sub_cancel, List.range_succ_eq_map,
    List.map_cons, List.map_map, front]
  congr 1
  apply List.map_congr_left
  intro k hk
  have hk := List.mem_range.mp hk
  have hslot : Fin.ofNat cap ((r.head + 1) % cap + k) = r.slot (k + 1) := by
    apply Fin.ext
    simp only [slot, Fin.val_ofNat]
    rw [Nat.mod_add_mod]
    congr 1
    omega
  simp only [Function.comp_apply, slot] at hslot ⊢
  rw [hslot, Function.update_of_ne]
  exact fun he ↦ r.slot_ne (j := 0) (k := k + 1) (by omega) (by omega) he.symm

end Ring

end BmoX.Base
