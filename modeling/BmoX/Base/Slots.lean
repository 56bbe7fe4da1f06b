import Mathlib.Data.Fintype.Card
import Mathlib.Data.List.FinRange
import Mathlib.Data.List.Perm.Subperm
import Mathlib.Logic.Function.Basic
import Mathlib.Tactic.Common

/-!
# Tables of slots

A table with a slot for each index, some of them in use, each of those under a key. Slots are freed,
taken again for other keys, and found by their key.
-/

namespace BmoX.Base

variable {ι α κ : Type*} {used : α → Prop} {key : α → κ} {f g : ι → α}

/-- No two slots in use have the same key. -/
def UniqueKeys (used : α → Prop) (key : α → κ) (f : ι → α) : Prop :=
  ∀ i j, used (f i) → used (f j) → key (f i) = key (f j) → i = j

namespace UniqueKeys

/-- Freeing slots keeps the keys apart. -/
theorem mono (h : UniqueKeys used key f) (hg : ∀ i, used (g i) → used (f i) ∧ key (g i) = key (f i)) :
    UniqueKeys used key g := by
  intro i j hi hj heq
  obtain ⟨hi', hki⟩ := hg i hi
  obtain ⟨hj', hkj⟩ := hg j hj
  exact h i j hi' hj' (hki.symm.trans (heq.trans hkj))

/-- So does taking a slot for a key that no other has. -/
theorem update [DecidableEq ι] (h : UniqueKeys used key f) {i : ι} {a : α}
    (ha : ∀ j ≠ i, used (f j) → key (f j) ≠ key a) :
    UniqueKeys used key (Function.update f i a) := by
  intro j k hj hk heq
  by_cases hji : j = i <;> by_cases hki : k = i
  · rw [hji, hki]
  · subst hji
    rw [Function.update_self, Function.update_of_ne hki] at heq
    rw [Function.update_of_ne hki] at hk
    exact absurd heq.symm (ha k hki hk)
  · subst hki
    rw [Function.update_self, Function.update_of_ne hji] at heq
    rw [Function.update_of_ne hji] at hj
    exact absurd heq (ha j hji hj)
  · rw [Function.update_of_ne hji] at hj heq
    rw [Function.update_of_ne hki] at hk heq
    exact h j k hj hk heq

theorem ne (h : UniqueKeys used key f) {i j : ι} (hi : used (f i)) (hj : used (f j)) (hij : j ≠ i) :
    key (f j) ≠ key (f i) := fun heq ↦ hij (h j i hj hi heq)

end UniqueKeys

/-- There are no more keys in use than slots. -/
theorem length_keys_le [Fintype ι] [DecidableEq κ] (used : α → Prop) (key : α → κ) (f : ι → α)
    {ks : List κ} (hks : ks.Nodup) (h : ∀ k ∈ ks, ∃ i, used (f i) ∧ key (f i) = k) :
    ks.length ≤ Fintype.card ι := by
  have hsub : ks.toFinset ⊆ Finset.univ.image fun i ↦ key (f i) := by
    intro k hk
    obtain ⟨i, -, rfl⟩ := h k (List.mem_toFinset.mp hk)
    exact Finset.mem_image_of_mem _ (Finset.mem_univ i)
  calc ks.length = ks.toFinset.card := (List.toFinset_card_of_nodup hks).symm
    _ ≤ (Finset.univ.image fun i ↦ key (f i)).card := Finset.card_le_card hsub
    _ ≤ Fintype.card ι := Finset.card_image_le

end BmoX.Base
