import Mathlib.Data.List.Prime
import Mathlib.FieldTheory.Finite.Basic
import Mathlib.NumberTheory.LucasPrimality

/-!
# Prime numbers with a certificate

A certificate of `p` is a primitive root and the primes of `p - 1`, repeated as often as they
divide it; each of those is the subject of an earlier certificate. The check runs on numbers, so
that a prime of two hundred and fifty bits is a matter of some thousand products.
-/

namespace BmoX.Base.Pratt

/-- The power `a ^ e` modulo `n`, by squaring; `fuel` bounds the bits of `e`. -/
def powMod (n : Nat) : Nat → Nat → Nat → Nat
  | 0, _, _ => 1 % n
  | fuel + 1, a, e =>
    if e % 2 = 0 then powMod n fuel (a * a % n) (e / 2)
    else a * powMod n fuel (a * a % n) (e / 2) % n

theorem powMod_eq (n : Nat) {fuel a e : Nat} (h : e < 2 ^ fuel) :
    powMod n fuel a e = a ^ e % n := by
  induction fuel generalizing a e with
  | zero =>
    obtain rfl : e = 0 := by simpa using h
    simp [powMod]
  | succ fuel ih =>
    have hlt : e / 2 < 2 ^ fuel := by rw [pow_succ] at h; omega
    have hsq : (a * a % n) ^ (e / 2) % n = a ^ (2 * (e / 2)) % n := by
      rw [← Nat.pow_mod, pow_mul, pow_two]
    rw [powMod, ih hlt, hsq]
    split
    · rw [show 2 * (e / 2) = e by omega]
    · rw [Nat.mul_mod_mod, ← pow_succ', show 2 * (e / 2) + 1 = e by omega]

theorem cast_pow_of_powMod {n fuel a e r : Nat} (he : e < 2 ^ fuel) (h : powMod n fuel a e = r) :
    (a : ZMod n) ^ e = r := by
  rw [← h, powMod_eq n he, ZMod.natCast_mod, Nat.cast_pow]

/-- A number whose power to half of `p - 1` is minus one is no square modulo `p`. -/
theorem sq_ne_of_powMod {p a : Nat} [Fact p.Prime] (hp : 2 < p) (hlt : p < 2 ^ 256)
    (h : powMod p 256 a ((p - 1) / 2) = p - 1) (t : ZMod p) : t ^ 2 ≠ a := by
  intro ht
  have hpow := cast_pow_of_powMod (by omega) h
  have hodd : 2 * ((p - 1) / 2) = p - 1 := by
    have := (Fact.out : p.Prime).eq_two_or_odd
    omega
  have hminus : ((p - 1 : Nat) : ZMod p) = -1 := by
    rw [Nat.cast_sub (by omega), ZMod.natCast_self, Nat.cast_one, zero_sub]
  rw [hminus, ← ht, ← pow_mul, hodd] at hpow
  rcases eq_or_ne t 0 with rfl | hne
  · rw [zero_pow (by omega)] at hpow
    exact one_ne_zero (neg_eq_zero.mp hpow.symm)
  · rw [ZMod.pow_card_sub_one_eq_one hne] at hpow
    have h2 : ((2 : Nat) : ZMod p) = 0 := by
      rw [Nat.cast_two, ← one_add_one_eq_two]
      exact eq_neg_iff_add_eq_zero.mp hpow
    rw [ZMod.natCast_eq_zero_iff] at h2
    exact absurd (Nat.le_of_dvd (by decide) h2) (by omega)

/-- A number, a primitive root of it, and the primes whose product is its predecessor. -/
structure Certificate where
  p : Nat
  root : Nat
  factors : List Nat

namespace Certificate

/-- `root ^ e` is one modulo `p`. -/
def isOne (c : Certificate) (e : Nat) : Bool := powMod c.p (e.log2 + 1) c.root e == 1

/-- Lucas's test, the factors taken for primes. -/
def test (c : Certificate) : Bool :=
  1 < c.p && c.factors.prod == c.p - 1 && c.isOne (c.p - 1) &&
    c.factors.all fun q ↦ !c.isOne ((c.p - 1) / q)

theorem isOne_iff {c : Certificate} (hp : 1 < c.p) (e : Nat) :
    c.isOne e = true ↔ (c.root : ZMod c.p) ^ e = 1 := by
  have hcast := ZMod.natCast_eq_natCast_iff' (c.root ^ e) 1 c.p
  rw [Nat.cast_pow, Nat.cast_one, Nat.mod_eq_of_lt hp] at hcast
  rw [isOne, powMod_eq _ Nat.lt_log2_self, beq_iff_eq, hcast]

/-- A number that passes the test with true primes is prime. -/
theorem prime_of_test {c : Certificate} (h : c.test = true) (hf : ∀ q ∈ c.factors, q.Prime) :
    c.p.Prime := by
  simp only [test, Bool.and_eq_true, decide_eq_true_eq, beq_iff_eq, List.all_eq_true] at h
  obtain ⟨⟨⟨hp, hprod⟩, hone⟩, hall⟩ := h
  apply lucas_primality c.p (c.root : ZMod c.p) ((isOne_iff hp _).mp hone)
  intro q hq hdvd hroot
  rw [← hprod, hq.prime.dvd_prod_iff] at hdvd
  rcases hdvd with ⟨r, hr, hqr⟩
  have hqr' : q = r := (Nat.prime_dvd_prime_iff_eq hq (hf r hr)).mp hqr
  have hno := hall r hr
  rw [← hqr', (isOne_iff hp _).mpr hroot] at hno
  exact Bool.false_ne_true hno

end Certificate

/-- A list of certificates, each over the numbers before it. -/
def check : List Nat → List Certificate → Bool
  | _, [] => true
  | known, c :: cs => c.factors.all (known.contains ·) && c.test && check (c.p :: known) cs

/-- Every number of a list that checks is prime. -/
theorem prime_of_check {known : List Nat} {cs : List Certificate} (h : check known cs = true)
    (hk : ∀ q ∈ known, q.Prime) : ∀ c ∈ cs, c.p.Prime := by
  induction cs generalizing known with
  | nil => simp
  | cons c cs ih =>
    simp only [check, Bool.and_eq_true, List.all_eq_true, List.contains_iff_mem] at h
    have hc := Certificate.prime_of_test h.1.2 fun q hq ↦ hk q (h.1.1 q hq)
    have hcs := ih h.2 (List.forall_mem_cons.mpr ⟨hc, hk⟩)
    exact List.forall_mem_cons.mpr ⟨hc, hcs⟩

/-- The form in which a list is used: a number it certifies. -/
theorem prime_of_certified {cs : List Certificate} (h : check [2] cs = true) {n : Nat}
    (hn : (cs.map Certificate.p).contains n = true) : n.Prime := by
  rw [List.contains_iff_mem, List.mem_map] at hn
  rcases hn with ⟨c, hc, rfl⟩
  have htwo : ∀ q ∈ [2], q.Prime := by simp [Nat.prime_two]
  exact prime_of_check h htwo c hc

end BmoX.Base.Pratt
