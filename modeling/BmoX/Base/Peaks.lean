import Mathlib.Algebra.Ring.Parity
import Mathlib.Data.Nat.Log
import Mathlib.Tactic.Common

/-!
# Binary trees built from left to right

A tree over `n` leaves whose left half is the largest power of two below `n`. Built online, what is
finished after `c` leaves is one perfect tree for each set bit of `c`; a new leaf is merged with
those of the bits a carry clears. The list of them stands smallest first.
-/

namespace BmoX.Base.Peaks

variable {α : Type*} (leaf : Nat → α) (node : α → α → α)

/-- How many of `n` leaves go to the left: the largest power of two below `n`. -/
def leftLeaves (n : Nat) : Nat := 2 ^ Nat.log 2 (n - 1)

theorem leftLeaves_lt {n : Nat} (hn : 1 < n) : leftLeaves n < n := by
  have := Nat.pow_log_le_self 2 (x := n - 1) (by omega)
  rw [leftLeaves]
  omega

theorem leftLeaves_pos (n : Nat) : 0 < leftLeaves n := Nat.two_pow_pos _

/-- Between a power of two and the next, the lower one goes to the left. -/
theorem leftLeaves_add {k r : Nat} (hr : 0 < r) (hk : r ≤ 2 ^ k) : leftLeaves (2 ^ k + r) = 2 ^ k := by
  have hlog : Nat.log 2 (2 ^ k + r - 1) = k := by
    refine (Nat.log_eq_iff (.inr ⟨Nat.one_lt_two, ?_⟩)).mpr ⟨?_, ?_⟩
    · have := Nat.two_pow_pos k
      omega
    · omega
    · rw [Nat.pow_succ]
      omega
  rw [leftLeaves, hlog]

/-- The tree over the `n` leaves from `start`. -/
def tree (start n : Nat) : α :=
  if _h : 1 < n then
    node (tree start (leftLeaves n)) (tree (start + leftLeaves n) (n - leftLeaves n))
  else leaf start
termination_by n
decreasing_by
  · exact leftLeaves_lt ‹_›
  · have := leftLeaves_pos n
    omega

/-- The tree over all `n` leaves, closed by operations of its own. -/
def rootTree (leafRoot : Nat → α) (nodeRoot : α → α → α) (n : Nat) : α :=
  if 1 < n then
    nodeRoot (tree leaf node 0 (leftLeaves n)) (tree leaf node (leftLeaves n) (n - leftLeaves n))
  else leafRoot 0

@[simp] theorem tree_one (start : Nat) : tree leaf node start 1 = leaf start := by
  rw [tree, dif_neg (Nat.lt_irrefl 1)]

/-- A tree of more than `2 ^ k` and at most twice as many leaves splits there. -/
theorem tree_add {k r : Nat} (start : Nat) (hr : 0 < r) (hk : r ≤ 2 ^ k) :
    tree leaf node start (2 ^ k + r) =
      node (tree leaf node start (2 ^ k)) (tree leaf node (start + 2 ^ k) r) := by
  have hlt : 1 < 2 ^ k + r := by
    have := Nat.two_pow_pos k
    omega
  rw [tree, dif_pos hlt, leftLeaves_add hr hk, Nat.add_sub_cancel_left]

theorem tree_double (start k : Nat) :
    tree leaf node start (2 ^ (k + 1)) =
      node (tree leaf node start (2 ^ k)) (tree leaf node (start + 2 ^ k) (2 ^ k)) := by
  rw [← tree_add leaf node start (Nat.two_pow_pos k) le_rfl, Nat.pow_succ, Nat.mul_two]

/-- The finished trees after `c` blocks of `2 ^ k` leaves, the last one first. -/
def peaks (k c : Nat) : List α :=
  if c = 0 then []
  else if c % 2 = 1 then tree leaf node ((c - 1) * 2 ^ k) (2 ^ k) :: peaks (k + 1) (c / 2)
  else peaks (k + 1) (c / 2)
termination_by c
decreasing_by all_goals omega

@[simp] theorem peaks_zero (k : Nat) : peaks leaf node k 0 = [] := by
  rw [peaks, if_pos rfl]

theorem peaks_odd (k c : Nat) :
    peaks leaf node k (2 * c + 1) =
      tree leaf node (2 * c * 2 ^ k) (2 ^ k) :: peaks leaf node (k + 1) c := by
  have hc : (2 * c + 1) / 2 = c := by omega
  rw [peaks, if_neg (Nat.succ_ne_zero _), if_pos (by omega), hc, Nat.add_sub_cancel]

theorem peaks_even (k c : Nat) : peaks leaf node k (2 * c) = peaks leaf node (k + 1) c := by
  rcases Nat.eq_zero_or_pos c with rfl | hc
  · rw [Nat.mul_zero, peaks_zero, peaks_zero]
  · have hd : 2 * c / 2 = c := by omega
    rw [peaks, if_neg (by omega), if_neg (by omega), hd]

/-- One tree for each set bit: as many as bits at most. -/
theorem length_peaks_le {k c m : Nat} (hc : c < 2 ^ m) : (peaks leaf node k c).length ≤ m := by
  induction m generalizing k c with
  | zero =>
    have hc0 : c = 0 := by omega
    rw [hc0, peaks_zero]
    exact le_rfl
  | succ m ih =>
    rw [Nat.pow_succ] at hc
    rcases Nat.even_or_odd' c with ⟨b, rfl | rfl⟩
    · rw [peaks_even]
      exact (ih (by omega)).trans (Nat.le_succ m)
    · rw [peaks_odd, List.length_cons]
      exact Nat.succ_le_succ (ih (by omega))

/-- Nothing is finished exactly while there is no block. -/
theorem peaks_eq_nil_iff (k c : Nat) : peaks leaf node k c = [] ↔ c = 0 := by
  induction c using Nat.strong_induction_on generalizing k with
  | _ c ih =>
    rcases Nat.even_or_odd' c with ⟨b, rfl | rfl⟩
    · rcases Nat.eq_zero_or_pos b with rfl | hb
      · rw [Nat.mul_zero, peaks_zero]
        exact iff_of_true rfl rfl
      · rw [peaks_even, ih b (by omega)]
        omega
    · rw [peaks_odd]
      exact iff_of_false (List.cons_ne_nil _ _) (Nat.succ_ne_zero _)

private theorem two_mul_block (k c : Nat) : 2 * c * 2 ^ k = c * 2 ^ (k + 1) := by
  rw [Nat.pow_succ, Nat.mul_comm 2 c, Nat.mul_assoc, Nat.mul_comm 2]

private theorem succ_mul_block (k c : Nat) : (2 * c + 1) * 2 ^ k = 2 * c * 2 ^ k + 2 ^ k := by
  rw [Nat.add_mul, Nat.one_mul]

theorem join_odd (k c : Nat) :
    node (tree leaf node (2 * c * 2 ^ k) (2 ^ k)) (tree leaf node ((2 * c + 1) * 2 ^ k) (2 ^ k)) =
      tree leaf node (c * 2 ^ (k + 1)) (2 ^ (k + 1)) := by
  rw [succ_mul_block, ← two_mul_block, tree_double]

/-- Close the trees of a stack over the last one, from the smallest to the largest. -/
def close (nodeRoot : α → α → α) : List α → α → α
  | [], x => x
  | [left], x => nodeRoot left x
  | left :: rest, x => close nodeRoot rest (node left x)

theorem close_cons (nodeRoot : α → α → α) (left : α) {rest : List α} (x : α) (h : rest ≠ []) :
    close node nodeRoot (left :: rest) x = close node nodeRoot rest (node left x) := by
  cases rest with
  | nil => exact absurd rfl h
  | cons y ys => rfl

/-- Closing the stack of `c` blocks over a last tree, at most as large as a block, gives the tree
over them all. -/
theorem close_peaks (leafRoot : Nat → α) (nodeRoot : α → α → α) {k c r : Nat} (hc : 0 < c)
    (hr : 0 < r) (hk : r ≤ 2 ^ k) :
    close node nodeRoot (peaks leaf node k c) (tree leaf node (c * 2 ^ k) r) =
      rootTree leaf node leafRoot nodeRoot (c * 2 ^ k + r) := by
  induction c using Nat.strong_induction_on generalizing k r with
  | _ c ih =>
    rcases Nat.even_or_odd' c with ⟨b, rfl | rfl⟩
    · rw [peaks_even, two_mul_block]
      refine ih b (by omega) (by omega) hr ?_
      rw [Nat.pow_succ]
      omega
    · have hp := Nat.two_pow_pos k
      rw [peaks_odd]
      rcases Nat.eq_zero_or_pos b with rfl | hb
      · have hlt : 1 < 2 ^ k + r := by omega
        rw [peaks_zero, close, rootTree]
        simp only [Nat.mul_zero, Nat.zero_add, Nat.one_mul, Nat.zero_mul]
        rw [if_pos hlt, leftLeaves_add hr hk, Nat.add_sub_cancel_left]
      · -- the last block takes the tree after it, and the pair is a tree of the next size
        rw [close_cons _ _ _ _ ((peaks_eq_nil_iff leaf node (k + 1) b).not.mpr (by omega)),
          succ_mul_block, ← tree_add leaf node _ hr hk, Nat.add_assoc, two_mul_block]
        refine ih b (by omega) hb (by omega) ?_
        rw [Nat.pow_succ]
        omega

end BmoX.Base.Peaks
