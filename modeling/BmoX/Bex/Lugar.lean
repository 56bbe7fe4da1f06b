import BmoX.Base.Bits
import BmoX.Bex.Admitir

/-!
# Where the sections go

The first pass of the loader against the layout that it means, in natural numbers: it is that layout
while the image ends below the stack, and the first section that does not end there runs over it.
-/

namespace BmoX.Bex

open BmoX.Base BmoX.Mm

/-! ### The layout -/

/-- The first multiple of `a` from `x` on. -/
def alza (a x : Nat) : Nat := (x + a - 1) / a * a

theorem le_alza {a : Nat} (ha : 0 < a) (x : Nat) : x ≤ alza a x := by
  have h := Nat.lt_div_mul_add (a := x + a - 1) ha
  unfold alza
  omega

private theorem dvd_alza (a x : Nat) : a ∣ alza a x := Nat.dvd_mul_left ..

private theorem alza_le {a x t : Nat} (ha : 0 < a) (hd : a ∣ t) (h : x ≤ t) : alza a x ≤ t := by
  obtain ⟨k, rfl⟩ := hd
  have hlt : (x + a - 1) / a < k + 1 := by
    rw [Nat.div_lt_iff_lt_mul ha, Nat.add_mul, Nat.mul_comm k a]
    omega
  unfold alza
  rw [Nat.mul_comm a k]
  exact Nat.mul_le_mul_right a (Nat.le_of_lt_succ hlt)

private theorem alza_of_dvd {a x : Nat} (ha : 0 < a) (hd : a ∣ x) : alza a x = x :=
  Nat.le_antisymm (alza_le ha hd (Nat.le_refl x)) (le_alza ha x)

/-- Sections one after the other from the cursor on, each at its alignment and on pages of its
own. -/
def lugares : Nat → List BexMapping → List Nat
  | _, [] => []
  | cursor, s :: ss =>
    let va := alza s.alignment.toNat cursor
    va :: lugares (va + alza 4096 s.memSize.toNat) ss

/-- Where a section goes. -/
def BexLoadPlan.lugar (plan : BexLoadPlan) (i : Nat) : Nat :=
  (lugares userImageBase.toNat plan.sections).getD i 0

/-! ### The arithmetic of the first pass -/

/-- An alignment that passes the gate is a power of two. -/
theorem pow_of_esPotencia {a : UInt16} (h : esPotencia a = true) : ∃ k < 16, a.toNat = 2 ^ k := by
  have h' : a ≠ 0 ∧ a &&& (a - 1) = 0 := of_decide_eq_true h
  have h0 : a.toNat ≠ 0 := fun e ↦ h'.1 (UInt16.toNat_inj.mp e)
  have hlt := a.toNat_lt
  have hsub : (a - 1).toNat = a.toNat - 1 := by
    rw [UInt16.toNat_sub_of_le _ _ (UInt16.le_iff_toNat_le.mpr (by rw [UInt16.toNat_one]; omega)),
      UInt16.toNat_one]
  have hand : a.toNat &&& a.toNat - 1 = 0 := by
    rw [← hsub, ← UInt16.toNat_and, h'.2]
    rfl
  obtain ⟨k, hk⟩ := (Nat.and_sub_one_eq_zero_iff_isPowerOfTwo h0).mp hand
  refine ⟨k, ?_, hk⟩
  by_contra hge
  have := Nat.pow_le_pow_right (n := 2) (by decide) (Nat.not_lt.mp hge)
  omega

private theorem toNat_alinear {x : UInt64} {a : UInt16} (h : esPotencia a = true)
    (hx : x.toNat + 65536 ≤ 2 ^ 64) :
    ((x + a.toUInt64 - 1) &&& ~~~(a.toUInt64 - 1)).toNat = alza a.toNat x.toNat := by
  obtain ⟨k, hk, ha⟩ := pow_of_esPotencia h
  have hpos : 0 < 2 ^ k := Nat.two_pow_pos k
  have hlt := a.toNat_lt
  have h64 : a.toUInt64.toNat = a.toNat := UInt16.toNat_toUInt64 a
  have hone : (1 : UInt64).toNat = 1 := rfl
  have hmask : (a.toUInt64 - 1).toNat = 2 ^ k - 1 := by
    rw [UInt64.toNat_sub_of_le _ _ (UInt64.le_iff_toNat_le.mpr (by omega)), h64, hone, ha]
  have hsum : (x + a.toUInt64).toNat = x.toNat + a.toNat := by
    rw [UInt64.toNat_add, h64, Nat.mod_eq_of_lt (by omega)]
  rw [toNat_and_not_mask _ hmask,
    UInt64.toNat_sub_of_le _ _ (UInt64.le_iff_toNat_le.mpr (by omega)), hsum, hone, ← ha]
  rfl

/-- The pages of a section that does not wrap. -/
theorem toNat_paginas {s : BexMapping} (h : s.memSize.toNat + 4096 < 2 ^ 64) :
    s.paginas.toNat * 4096 = alza 4096 s.memSize.toNat := by
  have hp : page.toNat = 4096 := rfl
  have hone : (1 : UInt64).toNat = 1 := rfl
  have hsum : (s.memSize + page).toNat = s.memSize.toNat + 4096 := by
    rw [UInt64.toNat_add, hp, Nat.mod_eq_of_lt h]
  unfold BexMapping.paginas alza
  rw [UInt64.toNat_div, UInt64.toNat_sub_of_le _ _ (UInt64.le_iff_toNat_le.mpr (by omega)), hsum,
    hp, hone]

/-! ### The first pass is the layout, or runs over the stack -/

/-- Where the sections have to end. -/
abbrev techo : Nat := 0x7FFF0000

/-- The sections that take memory end below the stack. -/
def Caben (cursor : Nat) (ss : List BexMapping) : Prop :=
  ∀ i s, ss[i]? = some s → s.memSize ≠ 0 → (lugares cursor ss).getD i 0 + s.memSize.toNat ≤ techo

/-- A section that takes memory has a place that the first pass gives it, and runs over the
bottom of the stack there. -/
def Pisa (cursor : UInt64) (ss : List BexMapping) : Prop :=
  ∃ i s, ss[i]? = some s ∧ s.memSize ≠ 0 ∧
    ((colocar cursor ss).getD i 0).toNat = (lugares cursor.toNat ss).getD i 0 ∧
    (lugares cursor.toNat ss).getD i 0 ≤ techo ∧
    techo < (lugares cursor.toNat ss).getD i 0 + s.memSize.toNat

private theorem colocar_cons (cursor : UInt64) (s : BexMapping) (ss : List BexMapping) :
    colocar cursor (s :: ss) =
      let va := (cursor + s.alignment.toUInt64 - 1) &&& ~~~(s.alignment.toUInt64 - 1)
      va :: colocar (va + s.paginas * page) ss := rfl

private theorem lugares_cons (cursor : Nat) (s : BexMapping) (ss : List BexMapping) :
    lugares cursor (s :: ss) =
      let va := alza s.alignment.toNat cursor
      va :: lugares (va + alza 4096 s.memSize.toNat) ss := rfl

private theorem alza_cursor {a : UInt16} (h : esPotencia a = true) {x : Nat} (hx : 4096 ∣ x)
    (hle : x ≤ techo) : 4096 ∣ alza a.toNat x ∧ alza a.toNat x ≤ techo := by
  obtain ⟨k, hk, ha⟩ := pow_of_esPotencia h
  have hpos : 0 < 2 ^ k := Nat.two_pow_pos k
  rw [ha]
  have htecho : 2 ^ k ∣ techo :=
    (Nat.pow_dvd_pow 2 (Nat.le_of_lt hk)).trans (by decide)
  refine ⟨?_, alza_le hpos htecho hle⟩
  by_cases h12 : k ≤ 12
  · rwa [alza_of_dvd hpos ((Nat.pow_dvd_pow 2 h12).trans hx)]
  · exact (Nat.pow_dvd_pow 2 (Nat.le_of_not_le h12)).trans (dvd_alza _ _)

theorem colocar_cases {ss : List BexMapping} (ha : ∀ s ∈ ss, esPotencia s.alignment = true)
    {cursor : UInt64} (hd : 4096 ∣ cursor.toNat) (hle : cursor.toNat ≤ techo) :
    (Caben cursor.toNat ss ∧ (colocar cursor ss).map UInt64.toNat = lugares cursor.toNat ss ∧
      ∀ x ∈ lugares cursor.toNat ss, x ≤ techo) ∨ Pisa cursor ss := by
  induction ss generalizing cursor with
  | nil =>
    refine .inl ⟨fun i s h ↦ ?_, rfl, fun x h ↦ (by cases h)⟩
    rw [List.getElem?_nil] at h
    cases h
  | cons s ss ih =>
    obtain ⟨hs, ha⟩ := List.forall_mem_cons.mp ha
    obtain ⟨hd', hle'⟩ := alza_cursor hs hd hle
    have htecho : techo = 2147418112 := rfl
    have hva := toNat_alinear hs (x := cursor) (by omega)
    by_cases hm : s.memSize ≠ 0 ∧ techo < alza s.alignment.toNat cursor.toNat + s.memSize.toNat
    · exact .inr ⟨0, s, rfl, hm.1, hva, hle', hm.2⟩
    · -- the section fits, and the next ones start at a page below the stack
      have hend : alza s.alignment.toNat cursor.toNat + alza 4096 s.memSize.toNat ≤ techo := by
        by_cases h0 : s.memSize = 0
        · rw [h0]
          exact hle'
        · have hfit : s.memSize.toNat ≤ techo - alza s.alignment.toNat cursor.toNat := by
            have := not_and.mp hm h0
            omega
          have := alza_le (by decide : 0 < 4096) (Nat.dvd_sub (by decide) hd') hfit
          omega
      have hsm := le_alza (by decide : 0 < 4096) s.memSize.toNat
      have hpag := toNat_paginas (s := s) (by omega)
      have hmul : (s.paginas * page).toNat = alza 4096 s.memSize.toNat := by
        have hp : page.toNat = 4096 := rfl
        rw [UInt64.toNat_mul, hp, hpag, Nat.mod_eq_of_lt (by omega)]
      have hnext : ((cursor + s.alignment.toUInt64 - 1 &&& ~~~(s.alignment.toUInt64 - 1)) +
          s.paginas * page).toNat =
            alza s.alignment.toNat cursor.toNat + alza 4096 s.memSize.toNat := by
        rw [UInt64.toNat_add, hva, hmul, Nat.mod_eq_of_lt (by omega)]
      have hrec := @ih ha ((cursor + s.alignment.toUInt64 - 1 &&&
        ~~~(s.alignment.toUInt64 - 1)) + s.paginas * page)
        (by rw [hnext]; exact Nat.dvd_add hd' (dvd_alza _ _)) (by rw [hnext]; exact hend)
      unfold Pisa at hrec
      rw [hnext] at hrec
      rcases hrec with ⟨h1, h2, h3⟩ | ⟨i, t, h1, h2, h3, h4, h5⟩
      · refine .inl ⟨fun i t hi ht ↦ ?_, ?_, ?_⟩
        · cases i with
          | zero =>
            obtain rfl := Option.some.inj hi
            exact Nat.not_lt.mp fun hl ↦ hm ⟨ht, hl⟩
          | succ i => exact h1 i t hi ht
        · rw [colocar_cons, lugares_cons]
          dsimp only
          rw [List.map_cons, hva, h2]
        · rw [lugares_cons]
          exact List.forall_mem_cons.mpr ⟨hle', h3⟩
      · exact .inr ⟨i + 1, t, h1, h2, h3, h4, h5⟩

private theorem le_lugares {ss : List BexMapping} (ha : ∀ s ∈ ss, esPotencia s.alignment = true)
    {cursor : Nat} : ∀ x ∈ lugares cursor ss, cursor ≤ x := by
  induction ss generalizing cursor with
  | nil =>
    intro x hx
    cases hx
  | cons s ss ih =>
    obtain ⟨hs, ha⟩ := List.forall_mem_cons.mp ha
    obtain ⟨k, -, hk⟩ := pow_of_esPotencia hs
    have h0 : cursor ≤ alza s.alignment.toNat cursor :=
      le_alza (by rw [hk]; exact Nat.two_pow_pos k) cursor
    rw [lugares_cons]
    refine List.forall_mem_cons.mpr ⟨h0, fun x hx ↦ ?_⟩
    exact (h0.trans (Nat.le_add_right _ _)).trans (ih ha x hx)

@[simp] theorem length_lugares (cursor : Nat) (ss : List BexMapping) :
    (lugares cursor ss).length = ss.length := by
  induction ss generalizing cursor with
  | nil => rfl
  | cons s ss ih => rw [lugares_cons, List.length_cons, List.length_cons, ih]

theorem lugares_sigue {ss : List BexMapping} (ha : ∀ s ∈ ss, esPotencia s.alignment = true)
    {cursor i j : Nat} {s : BexMapping} (hij : i < j) (hi : ss[i]? = some s) (hj : j < ss.length) :
    (lugares cursor ss).getD i 0 + alza 4096 s.memSize.toNat ≤ (lugares cursor ss).getD j 0 := by
  induction ss generalizing cursor i j with
  | nil => cases hj
  | cons t ss ih =>
    obtain ⟨ht, ha⟩ := List.forall_mem_cons.mp ha
    rw [lugares_cons]
    cases j with
    | zero => cases hij
    | succ j =>
      rw [List.length_cons] at hj
      cases i with
      | zero =>
        obtain rfl := Option.some.inj hi
        have hlen : j < (lugares (alza t.alignment.toNat cursor + alza 4096 t.memSize.toNat)
            ss).length := by
          rw [length_lugares]
          exact Nat.lt_of_succ_lt_succ hj
        refine le_lugares ha _ ?_
        rw [List.getD_cons_succ, List.getD_eq_getElem _ _ hlen]
        exact List.getElem_mem _
      | succ i => exact ih ha (Nat.lt_of_succ_lt_succ hij) hi (Nat.lt_of_succ_lt_succ hj)

end BmoX.Bex
