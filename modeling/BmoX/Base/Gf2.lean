import Mathlib.Algebra.CharP.Algebra
import Mathlib.Algebra.Field.ZMod
import Mathlib.RingTheory.AdjoinRoot

/-!
# Words of bits as polynomials over two elements

In a commutative ring of characteristic two with a chosen element `ξ`, a word of `n` bits stands for
the sum of the powers of `ξ` whose bits are set. Where the ring is the quotient by a monic
polynomial of degree `n`, every element is one word exactly.
-/

namespace BmoX.Base.Gf2

open Polynomial

section Ring

variable {R : Type*} [CommRing R] (ξ : R)

/-- The polynomial of the first `n` bits, the bit `i` the coefficient of `ξ ^ i`. -/
def ofBits (n : Nat) (b : Nat → Bool) : R := ∑ i ∈ Finset.range n, if b i then ξ ^ i else 0

@[simp] theorem ofBits_zero (b : Nat → Bool) : ofBits ξ 0 b = 0 := Finset.sum_range_zero _

theorem ofBits_succ (n : Nat) (b : Nat → Bool) :
    ofBits ξ (n + 1) b = ofBits ξ n b + if b n then ξ ^ n else 0 := Finset.sum_range_succ _ _

theorem ofBits_congr {n : Nat} {b c : Nat → Bool} (h : ∀ i < n, b i = c i) :
    ofBits ξ n b = ofBits ξ n c := by
  refine Finset.sum_congr rfl fun i hi ↦ ?_
  rw [h i (Finset.mem_range.mp hi)]

@[simp] theorem ofBits_false (n : Nat) : ofBits ξ n (fun _ ↦ false) = 0 := by
  simp [ofBits]

/-- Multiplying by `ξ` shifts the bits up; the one that falls out counts as `ξ ^ n`. -/
theorem mul_ofBits (n : Nat) (b : Nat → Bool) :
    ξ * ofBits ξ (n + 1) b =
      ofBits ξ (n + 1) (fun i ↦ i != 0 && b (i - 1)) + if b n then ξ ^ (n + 1) else 0 := by
  have hs : ofBits ξ (n + 1) (fun i ↦ i != 0 && b (i - 1)) = ξ * ofBits ξ n b := by
    rw [ofBits, Finset.sum_range_succ', ofBits, Finset.mul_sum]
    simp [pow_succ', mul_ite]
  rw [hs, ofBits_succ, mul_add]
  congr 1
  split
  · rw [pow_succ']
  · rw [mul_zero]

/-- A product by shifts: `v` is multiplied by `ξ` at each bit, and added where the bit is set. -/
theorem shift_add (b : Nat → Bool) (h : R) (n : Nat) :
    ∑ i ∈ Finset.range n, (if b i then ξ ^ i * h else 0) = ofBits ξ n b * h := by
  rw [ofBits, Finset.sum_mul]
  refine Finset.sum_congr rfl fun i _ ↦ ?_
  split
  · rfl
  · rw [zero_mul]

variable [CharP R 2]

theorem ofBits_xor (n : Nat) (b c : Nat → Bool) :
    ofBits ξ n (fun i ↦ b i ^^ c i) = ofBits ξ n b + ofBits ξ n c := by
  rw [ofBits, ofBits, ofBits, ← Finset.sum_add_distrib]
  refine Finset.sum_congr rfl fun i _ ↦ ?_
  cases b i <;> cases c i <;> simp [CharTwo.add_self_eq_zero]

end Ring

section Quotient

variable {p : (ZMod 2)[X]}

theorem charP_two (hp : p.Monic) (hd : 0 < p.natDegree) : CharP (AdjoinRoot p) 2 := by
  have hd' : p.degree ≠ 0 := by
    rw [degree_eq_natDegree hp.ne_zero]
    exact_mod_cast hd.ne'
  exact charP_of_injective_algebraMap (AdjoinRoot.of.injective_of_degree_ne_zero hd') 2

theorem root_pow [CharP (AdjoinRoot p) 2] {q : (ZMod 2)[X]} {n : Nat} (h : p = X ^ n + q) :
    AdjoinRoot.root p ^ n = AdjoinRoot.mk p q := by
  have hmk := congrArg (AdjoinRoot.mk p) h
  rw [AdjoinRoot.mk_self, map_add, map_pow, AdjoinRoot.mk_X] at hmk
  exact (CharTwo.add_eq_zero.mp hmk.symm)

private theorem ofBits_eq_repr (hp : p.Monic) (b : Nat → Bool) :
    ofBits (AdjoinRoot.root p) p.natDegree b =
      (AdjoinRoot.powerBasis' hp).basis.equivFun.symm fun i ↦ if b i then 1 else 0 := by
  rw [Module.Basis.equivFun_symm_apply, ofBits, Finset.sum_range]
  refine Finset.sum_congr rfl fun i _ ↦ ?_
  rw [PowerBasis.coe_basis, AdjoinRoot.powerBasis'_gen]
  split
  · exact (one_smul _ _).symm
  · exact (zero_smul _ _).symm

/-- Two words are the same element only when they are the same. -/
theorem ofBits_inj (hp : p.Monic) {b c : Nat → Bool}
    (h : ofBits (AdjoinRoot.root p) p.natDegree b = ofBits (AdjoinRoot.root p) p.natDegree c)
    {i : Nat} (hi : i < p.natDegree) : b i = c i := by
  rw [ofBits_eq_repr hp, ofBits_eq_repr hp] at h
  have hbit := congrFun (LinearEquiv.injective _ h) ⟨i, hi⟩
  clear h
  by_contra hne
  cases hb : b i <;> cases hc : c i <;> simp_all

/-- Every element is a word. -/
theorem exists_ofBits (hp : p.Monic) (x : AdjoinRoot p) :
    ∃ b : Nat → Bool, ofBits (AdjoinRoot.root p) p.natDegree b = x := by
  let f := (AdjoinRoot.powerBasis' hp).basis.equivFun x
  refine ⟨fun i ↦ if h : i < p.natDegree then f ⟨i, h⟩ = 1 else false, ?_⟩
  rw [ofBits_eq_repr hp, LinearEquiv.symm_apply_eq]
  funext i
  have hi : (i : Nat) < p.natDegree := i.isLt
  have hcases : ∀ a : ZMod 2, (if a = 1 then (1 : ZMod 2) else 0) = a := by decide
  simp only [hi, dif_pos, decide_eq_true_eq]
  exact hcases (f i)

end Quotient

end BmoX.Base.Gf2
