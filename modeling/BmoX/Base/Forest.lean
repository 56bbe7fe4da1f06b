import Mathlib.Logic.Function.Basic

/-!
# Trees laid out in a memory

Tables of entries in a memory, where some entries link one table to another. An owner names the
place in its tree that each table has. As long as links and owners agree, a table hangs in one place
only, and work on one tree leaves the others alone.
-/

namespace BmoX.Base

variable {A I E P : Type*}

/-- The links of the owned tables are those of the trees: `next` reads a link, and `child` says
which place an entry is for, if it is for one. -/
structure Forest (next : E → Option A) (child : P → I → Option P) (mem : A → I → E)
    (owner : A → Option P) : Prop where
  inj : ∀ {a b p}, owner a = some p → owner b = some p → a = b
  link : ∀ {a p i q}, owner a = some p → child p i = some q →
    ∀ b, next (mem a i) = some b ↔ owner b = some q
  parent : ∀ {b p i q}, owner b = some q → child p i = some q → ∃ a, owner a = some p

namespace Forest

variable {next : E → Option A} {child : P → I → Option P} {mem mem' : A → I → E}
  {owner : A → Option P}

/-- Entries that link nothing may change. -/
theorem frame (h : Forest next child mem owner)
    (hmem : ∀ {a p i q}, owner a = some p → child p i = some q → mem' a i = mem a i) :
    Forest next child mem' owner where
  inj := h.inj
  link ha hc b := by
    rw [hmem ha hc]
    exact h.link ha hc b
  parent := h.parent

theorem absent (h : Forest next child mem owner) {a : A} {p q : P} {i : I} (ha : owner a = some p)
    (hc : child p i = some q) (hnone : next (mem a i) = none) (b : A) : owner b ≠ some q := by
  intro hb
  rw [(h.link ha hc b).mpr hb] at hnone
  cases hnone

variable [DecidableEq A]

/-- The owner of the new table, and those of the others. -/
theorem owner_update {f : A} {q : P} (hf : owner f = none) {b : A} {p : P} :
    Function.update owner f (some q) b = some p ↔ b = f ∧ p = q ∨ owner b = some p := by
  rw [Function.update_apply]
  split
  · next hb =>
    rw [hb, hf, Option.some.injEq]
    constructor
    · exact fun h ↦ .inl ⟨rfl, h.symm⟩
    · rintro (⟨-, h⟩ | h)
      · exact h.symm
      · cases h
  · next hb =>
    constructor
    · exact .inr
    · rintro (⟨h, -⟩ | h)
      · exact absurd h hb
      · exact h

/-- A fresh table without links is linked at a place that has none. -/
theorem grow (h : Forest next child mem owner)
    (hinj : ∀ {p i p' i' q}, child p i = some q → child p' i' = some q → p = p' ∧ i = i')
    {t f : A} {p q : P} {i : I} (ht : owner t = some p) (hc : child p i = some q)
    (hnone : next (mem t i) = none) (hf : owner f = none) (hlink : next (mem' t i) = some f)
    (hnew : ∀ {j q'}, child q j = some q' → next (mem' f j) = none)
    (hmem : ∀ {a p' j q'}, owner a = some p' → child p' j = some q' → q' ≠ q →
      mem' a j = mem a j) :
    Forest next child mem' (Function.update owner f (some q)) := by
  have habs := h.absent ht hc hnone
  constructor
  · intro a b x ha hb
    rw [owner_update hf] at ha hb
    rcases ha with ⟨rfl, rfl⟩ | ha
    · rcases hb with ⟨rfl, -⟩ | hb
      · rfl
      · exact absurd hb (habs b)
    · rcases hb with ⟨rfl, rfl⟩ | hb
      · exact absurd ha (habs a)
      · exact h.inj ha hb
  · intro a x j y ha hxy b
    rw [owner_update hf] at ha ⊢
    rcases ha with ⟨rfl, rfl⟩ | ha
    · -- the new table has no links, and its places had no tables
      rw [hnew hxy]
      refine iff_of_false (by rintro ⟨⟩) ?_
      rintro (⟨-, rfl⟩ | hb)
      · obtain ⟨rfl, rfl⟩ := hinj hxy hc
        exact habs t ht
      · obtain ⟨a', ha'⟩ := h.parent hb hxy
        exact habs a' ha'
    · by_cases hq : y = q
      · rw [hq] at hxy ⊢
        obtain ⟨rfl, rfl⟩ := hinj hxy hc
        rw [h.inj ha ht, hlink, Option.some.injEq]
        constructor
        · exact fun hb ↦ .inl ⟨hb.symm, rfl⟩
        · rintro (⟨hb, -⟩ | hb)
          · exact hb.symm
          · exact absurd hb (habs b)
      · rw [hmem ha hxy hq, h.link ha hxy b]
        constructor
        · exact .inr
        · rintro (⟨-, hb⟩ | hb)
          · exact absurd hb hq
          · exact hb
  · intro b x j y hb hxy
    rw [owner_update hf] at hb
    rcases hb with ⟨rfl, rfl⟩ | hb
    · obtain ⟨rfl, rfl⟩ := hinj hxy hc
      exact ⟨t, (owner_update hf).mpr (.inr ht)⟩
    · obtain ⟨a, ha⟩ := h.parent hb hxy
      exact ⟨a, (owner_update hf).mpr (.inr ha)⟩

/-- A fresh table without links is the root of a new tree. -/
theorem plant (h : Forest next child mem owner) {r : A} {q : P} (hr : owner r = none)
    (hroot : ∀ p i, child p i ≠ some q) (habs : ∀ a, owner a ≠ some q)
    (hnew : ∀ {j q'}, child q j = some q' → next (mem' r j) = none)
    (hmem : ∀ {a p i q'}, owner a = some p → child p i = some q' → mem' a i = mem a i) :
    Forest next child mem' (Function.update owner r (some q)) := by
  constructor
  · intro a b x ha hb
    rw [owner_update hr] at ha hb
    rcases ha with ⟨rfl, rfl⟩ | ha
    · rcases hb with ⟨rfl, -⟩ | hb
      · rfl
      · exact absurd hb (habs b)
    · rcases hb with ⟨rfl, rfl⟩ | hb
      · exact absurd ha (habs a)
      · exact h.inj ha hb
  · intro a x j y ha hxy b
    rw [owner_update hr] at ha ⊢
    rcases ha with ⟨rfl, rfl⟩ | ha
    · rw [hnew hxy]
      refine iff_of_false (by rintro ⟨⟩) ?_
      rintro (⟨-, rfl⟩ | hb)
      · exact hroot _ j hxy
      · obtain ⟨a', ha'⟩ := h.parent hb hxy
        exact habs a' ha'
    · rw [hmem ha hxy, h.link ha hxy b]
      constructor
      · exact .inr
      · rintro (⟨-, rfl⟩ | hb)
        · exact absurd hxy (hroot x j)
        · exact hb
  · intro b x j y hb hxy
    rw [owner_update hr] at hb
    rcases hb with ⟨-, rfl⟩ | hb
    · exact absurd hxy (hroot x j)
    · obtain ⟨a, ha⟩ := h.parent hb hxy
      exact ⟨a, (owner_update hr).mpr (.inr ha)⟩

end Forest

end BmoX.Base
