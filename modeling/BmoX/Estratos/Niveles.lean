import BmoX.Estratos.FlujoEscrito
import Mathlib.Data.List.Find

/-!
# Two counts of the levels of a stream

`platform/drivers/storage/estratos/src/flujo.rs:66–91` goes up from the blocks, and
`objects.rs:243–256` multiplies what a level holds. Here the words of the first are checked, and
those of the second saturate.
-/

namespace BmoX.Estratos

/-! ### Words -/

/-- A result on `u64`, if it is one. -/
def u64 (n : Nat) : Option Nat := if n < 2 ^ 64 then some n else none

/-- `u64::div_ceil`. -/
def divCeil (a b : Nat) : Option Nat := if a % b > 0 then u64 (a / b + 1) else some (a / b)

/-- `u64::saturating_mul`. -/
def saturatingMul (a b : Nat) : Nat := min (a * b) (2 ^ 64 - 1)

/-- `objects.rs:243–247`. -/
def capacity : Nat → Nat
  | 0 => bloque
  | levels + 1 => saturatingMul (capacity levels) ptrsPorBloque

/-- `objects.rs:251–256`. -/
def nivelesPara (size : UInt64) : Option Nat :=
  (List.range (nivelesMax + 1)).find? fun l ↦ size.toNat ≤ capacity l

/-- The loop of `plan_de` on words; `flujo.rs:82–91`. -/
def subirU64 : Nat → Nat → (Nat → Nat) → Nat → Option (Option (Nat × (Nat → Nat)))
  | quedan, niveles, porNivel, n =>
    if n > 1 then do
      let n ← divCeil n ptrsPorBloque
      match quedan with
      | 0 => some none
      | quedan + 1 => subirU64 quedan (niveles + 1) (Function.update porNivel (niveles + 1) n) n
    else some (some (niveles, porNivel))

/-- `plan_de` on words: its levels, its rows and its total; `flujo.rs:71–97`. -/
def planDeU64 (size : UInt64) : Option (Option (Nat × (Nat → Nat) × Nat)) :=
  if size = 0 then some none
  else do
    let datos ← divCeil size.toNat bloque
    match ← subirU64 nivelesMax 0 (Function.update (fun _ ↦ 0) 0 datos) datos with
    | none => some none
    | some (niveles, porNivel) => do
      let total ← ((List.range filas).map porNivel).foldlM (fun total v ↦ u64 (total + v)) 0
      some (some (niveles, porNivel, total))

/-! ### No word overflows -/

private theorem divCeil_eq {a b : Nat} (hb : 1 < b) (ha : a < 2 ^ 64) :
    divCeil a b = some ((a + (b - 1)) / b) := by
  have hdiv := Nat.div_add_mod a b
  have hmod := Nat.mod_lt a (Nat.zero_lt_of_lt hb)
  unfold divCeil
  split
  · next h =>
    have hq : (a + (b - 1)) / b = a / b + 1 := by
      rw [Nat.div_eq_iff (by omega)]
      constructor
      · rw [Nat.add_mul, Nat.mul_comm]
        omega
      · rw [Nat.add_mul, Nat.mul_comm]
        omega
    have hlt : a / b + 1 < 2 ^ 64 := by
      have := Nat.div_lt_self (n := a) (k := b) (by omega) hb
      omega
    rw [u64, if_pos hlt, hq]
  · next h =>
    have hq : (a + (b - 1)) / b = a / b := by
      rw [Nat.div_eq_iff (by omega)]
      constructor
      · rw [Nat.mul_comm]
        omega
      · rw [Nat.mul_comm]
        omega
    rw [hq]

/-- The checked loop is the loop. -/
theorem subirU64_eq (quedan niveles : Nat) (porNivel : Nat → Nat) {n : Nat} (hn : n < 2 ^ 64) :
    subirU64 quedan niveles porNivel n = some (subir quedan niveles porNivel n) := by
  have hdiv : divCeil n ptrsPorBloque = some ((n + (ptrsPorBloque - 1)) / ptrsPorBloque) :=
    divCeil_eq (by decide) hn
  have hle : (n + (ptrsPorBloque - 1)) / ptrsPorBloque < 2 ^ 64 := by
    simp only [ptrsPorBloque, bloque, ptrLen]
    omega
  induction quedan generalizing niveles porNivel n with
  | zero =>
    rw [subirU64, subir]
    split
    · rw [hdiv]
      rfl
    · rfl
  | succ quedan ih =>
    rw [subirU64, subir]
    split
    · rw [hdiv]
      refine ih _ _ hle (divCeil_eq (by decide) hle) ?_
      simp only [ptrsPorBloque, bloque, ptrLen]
      omega
    · rfl

private theorem foldlM_u64 {vs : List Nat} {t : Nat} (h : t + vs.sum < 2 ^ 64) :
    vs.foldlM (fun total v ↦ u64 (total + v)) t = some (t + vs.sum) := by
  induction vs generalizing t with
  | nil => rfl
  | cons v vs ih =>
    rw [List.sum_cons, ← Nat.add_assoc] at h ⊢
    have hv : u64 (t + v) = some (t + v) := if_pos (by omega)
    rw [List.foldlM_cons, hv]
    exact ih h

/-- **No word of `plan_de` overflows.** -/
theorem planDeU64_eq (size : UInt64) :
    planDeU64 size = some ((planDe size).map fun p ↦ (p.niveles, p.porNivel, p.total)) := by
  by_cases h0 : size = 0
  · rw [planDeU64, planDe, if_pos h0, if_pos h0]
    rfl
  have hlt := size.toNat_lt
  have hdatos : (size.toNat + (bloque - 1)) / bloque < 2 ^ 64 := by
    simp only [bloque]
    omega
  have hmatch (niveles : Nat) (porNivel : Nat → Nat)
      (h : subir nivelesMax 0 (Function.update (fun _ ↦ 0) 0
        ((size.toNat + (bloque - 1)) / bloque)) ((size.toNat + (bloque - 1)) / bloque) =
          some (niveles, porNivel)) :
      ((List.range filas).map porNivel).foldlM (fun total v ↦ u64 (total + v)) 0 =
        some ((List.range filas).map porNivel).sum := by
    have hplan : planDe size = some ⟨niveles, porNivel, ((List.range filas).map porNivel).sum,
        (subir_niveles_le h).trans (Nat.zero_add _).le⟩ := by
      rw [planDe, if_neg h0]
      dsimp only
      split
      · next hno => cases h.symm.trans hno
      · next niveles' porNivel' h' =>
        cases h.symm.trans h'
        rfl
    have htotal := (Plan.regular_planDe hplan).1.total_lt
    dsimp only at htotal
    rw [foldlM_u64 (by omega), Nat.zero_add]
  rw [planDeU64, planDe, if_neg h0, if_neg h0, divCeil_eq (by decide) hlt]
  simp only [Option.bind_eq_bind, Option.bind_some, subirU64_eq _ _ _ hdatos]
  split
  · next h =>
    split
    · rfl
    · next h' => cases h.symm.trans h'
  · next niveles porNivel h =>
    split
    · next h' => cases h.symm.trans h'
    · next niveles' porNivel' h' =>
      cases h.symm.trans h'
      rw [hmatch niveles porNivel h]
      rfl

/-! ### Levels -/

theorem capacity_eq {l : Nat} (h : l ≤ nivelesMax) : capacity l = bloque * ptrsPorBloque ^ l := by
  have hl : l = 0 ∨ l = 1 ∨ l = 2 ∨ l = 3 ∨ l = 4 := by
    unfold nivelesMax at h
    omega
  rcases hl with rfl | rfl | rfl | rfl | rfl <;> decide

/-- Rows of blocks that name others: a row is named by one block `l` levels up if `85 ^ l` are
enough. -/
theorem divCeil_le_pow {n l : Nat} :
    (n + (ptrsPorBloque - 1)) / ptrsPorBloque ≤ ptrsPorBloque ^ l ↔ n ≤ ptrsPorBloque ^ (l + 1) :=
      by
  rw [Nat.pow_succ]
  simp only [ptrsPorBloque, bloque, ptrLen]
  omega

/-- The loop goes up the levels that one block at the top needs. -/
theorem subir_niveles (quedan niveles : Nat) (porNivel : Nat → Nat) (n : Nat) :
    (subir quedan niveles porNivel n).map Prod.fst =
      ((List.range (quedan + 1)).find? fun l ↦ n ≤ ptrsPorBloque ^ l).map (niveles + ·) := by
  induction quedan generalizing niveles porNivel n with
  | zero =>
    rw [subir]
    split
    · next hn =>
      have hno : ¬n ≤ ptrsPorBloque ^ 0 := Nat.not_le.mpr hn
      rw [List.range_one, List.find?_cons_of_neg (by simpa using hno)]
      rfl
    · next hn =>
      have huno : n ≤ ptrsPorBloque ^ 0 := Nat.not_lt.mp hn
      rw [List.range_one, List.find?_cons_of_pos (by simpa using huno)]
      rfl
  | succ quedan ih =>
    rw [subir, List.range_succ_eq_map]
    split
    · next hn =>
      have hno : ¬n ≤ ptrsPorBloque ^ 0 := Nat.not_le.mpr hn
      rw [List.find?_cons_of_neg (by simpa using hno), List.find?_map, Option.map_map]
      dsimp only
      rw [ih]
      have hpred : (fun l ↦ decide ((n + (ptrsPorBloque - 1)) / ptrsPorBloque ≤ ptrsPorBloque ^ l))
        =
          (fun l ↦ decide (n ≤ ptrsPorBloque ^ l)) ∘ Nat.succ := by
        funext l
        exact decide_eq_decide.mpr divCeil_le_pow
      rw [hpred]
      congr 1
      funext l
      exact Nat.add_right_comm niveles 1 l
    · next hn =>
      have huno : n ≤ ptrsPorBloque ^ 0 := Nat.not_lt.mp hn
      rw [List.find?_cons_of_pos (by simpa using huno)]
      rfl

/-- The two counts. -/
theorem niveles_planDe {size : UInt64} (h : 0 < size) :
    (planDe size).map Plan.niveles = nivelesPara size := by
  have h0 : size ≠ 0 := by
    rintro rfl
    exact absurd h (by decide)
  have hsubir : (planDe size).map Plan.niveles =
      (subir nivelesMax 0 (Function.update (fun _ ↦ 0) 0 ((size.toNat + (bloque - 1)) / bloque))
        ((size.toNat + (bloque - 1)) / bloque)).map Prod.fst := by
    rw [planDe, if_neg h0]
    dsimp only
    split
    · next hs => exact (congrArg (Option.map Prod.fst) hs).symm
    · next niveles porNivel hs => exact (congrArg (Option.map Prod.fst) hs).symm
  have hcabe : ∀ l ∈ List.range (nivelesMax + 1), decide (size.toNat ≤ capacity l) =
      decide ((size.toNat + (bloque - 1)) / bloque ≤ ptrsPorBloque ^ l) := by
    intro l hl
    have hle : l ≤ nivelesMax := Nat.lt_succ_iff.mp (List.mem_range.mp hl)
    rw [capacity_eq hle]
    generalize ptrsPorBloque ^ l = m
    refine decide_eq_decide.mpr ?_
    simp only [bloque]
    omega
  rw [hsubir, subir_niveles, nivelesPara, List.find?_congr hcabe]
  simp only [Nat.zero_add, Option.map_id']

/-- **Two counts of one tree agree**: `plan_de` has the levels of `niveles_para`, each row is the
least that names the one below, the last is one block, no word overflows, and no capacity saturates.
-/
theorem dos_cuentas {size : UInt64} (h : 0 < size) :
    (planDe size).map Plan.niveles = nivelesPara size ∧
    (∀ plan, planDe size = some plan →
      (∀ k < plan.niveles,
        IsLeast {m | plan.porNivel k ≤ ptrsPorBloque * m} (plan.porNivel (k + 1))) ∧
      plan.porNivel plan.niveles = 1) ∧
    planDeU64 size = some ((planDe size).map fun p ↦ (p.niveles, p.porNivel, p.total)) ∧
    ∀ l ≤ nivelesMax, capacity l = bloque * ptrsPorBloque ^ l := by
  refine ⟨niveles_planDe h, fun plan hplan ↦ ?_, planDeU64_eq size, fun l hl ↦ capacity_eq hl⟩
  obtain ⟨hreg, -⟩ := Plan.regular_planDe hplan
  refine ⟨fun k hk ↦ ?_, hreg.cima⟩
  rw [hreg.succ k hk]
  simp only [ptrsPorBloque, bloque, ptrLen]
  constructor
  · change plan.porNivel k ≤ 4096 / 48 * ((plan.porNivel k + 84) / 85)
    omega
  · intro m hm
    change plan.porNivel k ≤ 4096 / 48 * m at hm
    omega

theorem dos_cuentas_cien_mil :
    (planDe 100000).map Plan.niveles = nivelesPara 100000 ∧ nivelesPara 100000 = some 1 :=
  ⟨(@dos_cuentas 100000 (by decide)).1, by decide⟩

end BmoX.Estratos
