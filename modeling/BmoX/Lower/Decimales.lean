import BmoX.Lower.Zonado
import Mathlib.Tactic.Positivity

/-!
# Decimals in fields

The two formats of `toolchain/forge/bmo-lower/src/packed.rs` and `zoned.rs` together: the emitted
writer, the emitted reader, and the reader of the host, which works with `i64` and stops where a
number does not fit.
-/

namespace BmoX.Lower

open BmoX.Base BmoX.Base.X86

/-! ### The readers of the host -/

/-- An `i64`, where the number is one. -/
def i64 (v : Int) : Option Int := if Fits v then some v else none

/-- One more digit. -/
def otraCifra (v : Int) (d : Nat) : Option Int := do i64 ((← i64 (v * 10)) + d)

/-- The nibbles of a byte. -/
def alto (b : UInt8) : Nat := (b >>> 4).toNat
@[inherit_doc alto] def bajo (b : UInt8) : Nat := (b &&& 0x0F).toNat

/-- The loop of `desempaquetar_en_rust`; `packed.rs:182–193`. -/
def desempaquetarDesde (v : Int) : Bytes → Option Int
  | [] => some v
  | b :: resto => do
    let v ← otraCifra v (alto b)
    if resto = [] then
      if bajo b = 0x0D ∨ bajo b = 0x0B then i64 (-v) else some v
    else
      let v ← otraCifra v (bajo b)
      desempaquetarDesde v resto

/-- `desempaquetar_en_rust`; `packed.rs:179–194`. -/
def desempaquetarEnRust (bruto : Bytes) : Option Int := desempaquetarDesde 0 bruto

/-- The loop of `leer_en_rust`; `zoned.rs:158–167`. -/
def leerDesde (v : Int) (negativo : Bool) : Bytes → Option Int
  | [] => if negativo then i64 (-v) else some v
  | b :: resto => do
    let v ← otraCifra v (bajo b)
    leerDesde v (if resto = [] then decide (b &&& 0xF0 = 0x70) else negativo) resto

/-- `leer_en_rust`; `zoned.rs:154–168`. -/
def leerEnRust (bruto : Bytes) : Option Int := leerDesde 0 false bruto

/-! ### Digits one after another -/

/-- The number of some digits after another number. -/
def sigue (v : Nat) (ds : List Nat) : Nat := ds.foldl (fun v d ↦ v * 10 + d) v

private theorem le_sigue (v : Nat) (ds : List Nat) : v ≤ sigue v ds := by
  induction ds generalizing v with
  | nil => exact Nat.le_refl v
  | cons d ds ih => exact le_trans (by omega) (ih (v * 10 + d))

private theorem i64_natCast (n : Nat) : i64 n = if n < 2 ^ 63 then some (n : Int) else none := by
  unfold i64
  by_cases h : n < 2 ^ 63
  · have hfits : Fits (n : Int) := by
      unfold Fits
      omega
    rw [if_pos h, if_pos hfits]
  · have hno : ¬Fits (n : Int) := by
      unfold Fits
      omega
    rw [if_neg h, if_neg hno]

private theorem otraCifra_eq (v d : Nat) :
    otraCifra v d = if v * 10 + d < 2 ^ 63 then some ((v * 10 + d : Nat) : Int) else none := by
  have hmul : (v : Int) * 10 = ((v * 10 : Nat) : Int) := by push_cast; rfl
  have hadd : ((v * 10 : Nat) : Int) + d = ((v * 10 + d : Nat) : Int) := by push_cast; rfl
  rw [otraCifra, hmul, i64_natCast]
  by_cases h10 : v * 10 < 2 ^ 63
  · rw [if_pos h10, Option.bind_eq_bind, Option.bind_some, hadd, i64_natCast]
  · rw [if_neg h10, if_neg (by omega)]
    rfl

private theorem foldlM_otraCifra {v : Nat} (hv : v < 2 ^ 63) (ds : List Nat) :
    ds.foldlM otraCifra (v : Int) =
      if sigue v ds < 2 ^ 63 then some ((sigue v ds : Nat) : Int) else none := by
  induction ds generalizing v with
  | nil => exact (if_pos hv).symm
  | cons d ds ih =>
    rw [List.foldlM_cons, otraCifra_eq]
    by_cases h : v * 10 + d < 2 ^ 63
    · rw [if_pos h]
      exact ih h
    · have hle := le_sigue (v * 10 + d) ds
      rw [if_neg h]
      exact (if_neg (by change ¬sigue (v * 10 + d) ds < _; omega)).symm

/-- The digits of packed bytes and of zoned ones. -/
def deEmpaquetado (d : Bytes) : List Nat := d.flatMap fun b ↦ [alto b, bajo b]
@[inherit_doc deEmpaquetado] def deZonado (d : Bytes) : List Nat := d.map bajo

private theorem desempaquetarDesde_eq (d : Bytes) (b : UInt8) (v : Int) :
    desempaquetarDesde v (d ++ [b]) =
      ((deEmpaquetado d ++ [alto b]).foldlM otraCifra v).bind fun v ↦
        if bajo b = 0x0D ∨ bajo b = 0x0B then i64 (-v) else some v := by
  induction d generalizing v with
  | nil =>
    rw [List.nil_append, desempaquetarDesde]
    simp [deEmpaquetado]
  | cons c d ih =>
    have hno : d ++ [b] ≠ [] := by simp
    rw [List.cons_append, desempaquetarDesde]
    simp only [if_neg hno, ih, deEmpaquetado, List.flatMap_cons, List.cons_append, List.nil_append,
      List.foldlM_cons, Option.bind_eq_bind, Option.bind_assoc]

private theorem leerDesde_eq (d : Bytes) (b : UInt8) (v : Int) (negativo : Bool) :
    leerDesde v negativo (d ++ [b]) =
      ((deZonado d ++ [bajo b]).foldlM otraCifra v).bind fun v ↦
        if decide (b &&& 0xF0 = 0x70) then i64 (-v) else some v := by
  induction d generalizing v negativo with
  | nil =>
    rw [List.nil_append, leerDesde]
    simp [deZonado, leerDesde]
  | cons c d ih =>
    have hno : d ++ [b] ≠ [] := by simp
    rw [List.cons_append, leerDesde]
    simp only [if_neg hno, ih, deZonado, List.map_cons, List.cons_append, List.foldlM_cons,
      Option.bind_eq_bind, Option.bind_assoc]

private theorem bind_signo (mag : Nat) (neg : Prop) [Decidable neg] :
    ((if mag < 2 ^ 63 then some (mag : Int) else none).bind fun v ↦
      if neg then i64 (-v) else some v) =
      if mag < 2 ^ 63 then some (if neg then -(mag : Int) else mag) else none := by
  by_cases h : mag < 2 ^ 63
  · rw [if_pos h, if_pos h]
    change (if neg then i64 (-(mag : Int)) else some (mag : Int)) = _
    by_cases hn : neg
    · rw [if_pos hn, if_pos hn, i64, if_pos (by unfold Fits; omega)]
    · rw [if_neg hn, if_neg hn]
  · rw [if_neg h, if_neg h]
    rfl

/-! ### A field and its two readers -/

/-- How a field is written. -/
inductive Formato
  | empaquetado
  | zonado
  deriving DecidableEq

namespace Formato

/-- The code that writes a field of `n` bytes. -/
def escribe : Formato → Nat → Bool → Codigo
  | empaquetado => empaquetar
  | zonado => Zonado.write

/-- The code that reads one. -/
def lee : Formato → Nat → Codigo
  | empaquetado => desempaquetar
  | zonado => Zonado.read

/-- The reader of the host. -/
def enRust : Formato → Bytes → Option Int
  | empaquetado => desempaquetarEnRust
  | zonado => leerEnRust

/-- How many digits `n` bytes have. -/
def posiciones : Formato → Nat → Nat
  | empaquetado, n => 2 * n - 1
  | zonado, n => n

/-- The digits of a field, as a number. -/
def magnitud (f : Formato) (d : Bytes) : Nat :=
  match f with
  | empaquetado => sigue 0 ((deEmpaquetado d).dropLast)
  | zonado => sigue 0 (deZonado d)

/-- What a field of `n` bytes keeps of a number. -/
def guarda (f : Formato) (n : Nat) (conSigno : Bool) (v : Int) : Int :=
  if conSigno then v.sign * (v.natAbs % 10 ^ f.posiciones n : Nat)
  else (v.natAbs % 10 ^ f.posiciones n : Nat)

/-- The bytes of a field of `n` bytes with a number. -/
def campo (f : Formato) (n : Nat) (conSigno : Bool) (v : Int) : Bytes :=
  (List.range n).map fun i ↦ UInt8.ofNat <|
    match f with
    | empaquetado => cifra v.natAbs (2 * (n - 1 - i)) * 16 +
        if i + 1 = n then nibbleSigno conSigno v else cifra v.natAbs (2 * (n - 1 - i) - 1)
    | zonado => (if i + 1 = n ∧ conSigno ∧ v < 0 then 0x70 else 0x30) + cifra v.natAbs (n - 1 - i)

/-- The writer writes the bytes of the field and no others, and the reader answers what the field
keeps of the number. -/
def IdaYVuelta (f : Formato) (n : Nat) (conSigno : Bool) (m : Machine) : Prop :=
  ∃ m1 m2, run (f.escribe n conSigno) none m = .next m1 ∧
    m1.mem.load (m.reg .rcx).toNat n = f.campo n conSigno (signed (m.reg .rax)) ∧
    (∀ x, ¬((m.reg .rcx).toNat ≤ x ∧ x < (m.reg .rcx).toNat + n) → m1.mem x = m.mem x) ∧
    run (f.lee n) none m1 = .next m2 ∧
    signed (m2.reg .rax) = f.guarda n conSigno (signed (m.reg .rax))

/-- The two readers do not fail, and answer the same of the bytes of a field. -/
def Acuerdo (f : Formato) (n : Nat) (m : Machine) : Prop :=
  ∃ m', run (f.lee n) none m = .next m' ∧
    f.enRust (m.mem.load (m.reg .rcx).toNat n) = some (signed (m'.reg .rax))

/-- The number of a field: its digits with its sign. -/
def valor (f : Formato) (mem : Memory) (a n : Nat) : Int :=
  match f with
  | empaquetado => BmoX.Lower.empaquetado mem a n
  | zonado => Zonado.zonado mem a n

/-! ### What the emitted code does -/

private theorem alto_eq (b : UInt8) : alto b = b.toNat / 16 := by
  rw [alto, UInt8.toNat_shiftRight]
  exact Nat.shiftRight_eq_div_pow ..

private theorem bajo_eq (b : UInt8) : bajo b = b.toNat % 16 := by
  rw [bajo, UInt8.toNat_and]
  exact Nat.and_two_pow_sub_one_eq_mod b.toNat 4

theorem sigue_append (v : Nat) (ds es : List Nat) : sigue v (ds ++ es) = sigue (sigue v ds) es :=
  List.foldl_append ..

private theorem load_succ (mem : Memory) (a n : Nat) :
    mem.load a (n + 1) = mem.load a n ++ [mem (a + n)] := by
  rw [Memory.load_add]
  simp [Memory.load]

private theorem sigue_deEmpaquetado (mem : Memory) (a n : Nat) :
    sigue 0 (deEmpaquetado (mem.load a n)) = cifras mem a n := by
  induction n with
  | zero => rfl
  | succ n ih =>
    have hdig : deEmpaquetado (mem.load a (n + 1)) =
        deEmpaquetado (mem.load a n) ++ [alto (mem (a + n)), bajo (mem (a + n))] := by
      rw [load_succ]
      simp [deEmpaquetado]
    rw [hdig, sigue_append, ih, cifras, alto_eq, bajo_eq]
    rfl

private theorem sigue_deZonado (mem : Memory) (a n : Nat) :
    sigue 0 (deZonado (mem.load a n)) = Zonado.cifras mem a n := by
  induction n with
  | zero => rfl
  | succ n ih =>
    have hdig : deZonado (mem.load a (n + 1)) =
        deZonado (mem.load a n) ++ [bajo (mem (a + n))] := by
      rw [load_succ]
      simp [deZonado]
    rw [hdig, sigue_append, ih, Zonado.cifras, bajo_eq]
    rfl

private theorem natAbs_valor (f : Formato) {n : Nat} (hn : 1 ≤ n) (mem : Memory) (a : Nat) :
    (f.valor mem a n).natAbs = f.magnitud (mem.load a n) := by
  obtain ⟨k, rfl⟩ : ∃ k, n = k + 1 := ⟨n - 1, by omega⟩
  cases f with
  | empaquetado =>
    have hdig : deEmpaquetado (mem.load a k ++ [mem (a + k)]) =
        deEmpaquetado (mem.load a k) ++ [alto (mem (a + k))] ++ [bajo (mem (a + k))] := by
      simp [deEmpaquetado]
    rw [magnitud, load_succ, hdig, List.dropLast_concat, sigue_append, sigue_deEmpaquetado, alto_eq,
      valor, BmoX.Lower.empaquetado, Nat.add_sub_cancel]
    split
    · rw [Int.natAbs_neg, Int.natAbs_natCast]
      rfl
    · rw [Int.natAbs_natCast]
      rfl
  | zonado =>
    rw [magnitud, sigue_deZonado, valor, Zonado.zonado]
    split
    · rw [Int.natAbs_neg, Int.natAbs_natCast]
    · rw [Int.natAbs_natCast]

private theorem run_lee (f : Formato) {n : Nat} {m : Machine} (hn : 1 ≤ n)
    (hm : (m.reg .rcx).toNat + n ≤ 2 ^ 64) :
    ∃ m', run (f.lee n) none m = .next m' ∧
      m'.reg .rax = ofSigned (f.valor m.mem (m.reg .rcx).toNat n) := by
  cases f with
  | empaquetado =>
    obtain ⟨m', hrun, -, hrax⟩ := run_desempaquetar hn rfl hm
    exact ⟨m', hrun, hrax⟩
  | zonado =>
    have hb : Zonado.bytesPara n = n := if_neg (by omega)
    obtain ⟨m', hrun, -, hrax⟩ := @Zonado.run_read m _ n rfl (hb.symm ▸ hm)
    rw [hb] at hrax
    exact ⟨m', hrun, hrax⟩

set_option maxRecDepth 4096 in
/-- The host reads the same number, where its magnitude fits. -/
theorem enRust_eq (f : Formato) {n : Nat} (hn : 1 ≤ n) (mem : Memory) (a : Nat) :
    f.enRust (mem.load a n) =
      if f.magnitud (mem.load a n) < 2 ^ 63 then some (f.valor mem a n) else none := by
  obtain ⟨k, rfl⟩ : ∃ k, n = k + 1 := ⟨n - 1, by omega⟩
  rw [load_succ]
  cases f with
  | empaquetado =>
    have hmag : magnitud .empaquetado (mem.load a k ++ [mem (a + k)]) =
        sigue 0 (deEmpaquetado (mem.load a k) ++ [alto (mem (a + k))]) := by
      have hdig : deEmpaquetado (mem.load a k ++ [mem (a + k)]) =
          deEmpaquetado (mem.load a k) ++ [alto (mem (a + k))] ++ [bajo (mem (a + k))] := by
        simp [deEmpaquetado]
      rw [magnitud, hdig, List.dropLast_concat]
    have hfold := foldlM_otraCifra (v := 0) (by decide)
      (deEmpaquetado (mem.load a k) ++ [alto (mem (a + k))])
    have hval : valor .empaquetado mem a (k + 1) =
        if bajo (mem (a + k)) = 0x0D ∨ bajo (mem (a + k)) = 0x0B then
          -((sigue 0 (deEmpaquetado (mem.load a k) ++ [alto (mem (a + k))]) : Nat) : Int)
        else (sigue 0 (deEmpaquetado (mem.load a k) ++ [alto (mem (a + k))]) : Nat) := by
      rw [sigue_append, sigue_deEmpaquetado, alto_eq, bajo_eq]
      rfl
    rw [hmag, hval]
    change desempaquetarDesde ((0 : Nat) : Int) _ = _
    rw [desempaquetarDesde_eq, hfold, bind_signo]
  | zonado =>
    have hmag : magnitud .zonado (mem.load a k ++ [mem (a + k)]) =
        sigue 0 (deZonado (mem.load a k) ++ [bajo (mem (a + k))]) := by
      rw [magnitud, deZonado, deZonado, List.map_append, List.map_singleton]
    have hfold := foldlM_otraCifra (v := 0) (by decide)
      (deZonado (mem.load a k) ++ [bajo (mem (a + k))])
    have hzona : (mem (a + k) &&& 0xF0 = 0x70) ↔ (mem (a + k)).toNat / 16 = 7 := by
      have h : ∀ n < 256, (UInt8.ofNat n &&& 0xF0 = 0x70 ↔ n / 16 = 7) := by decide
      have hb := h (mem (a + k)).toNat (mem (a + k)).toNat_lt
      rwa [UInt8.ofNat_toNat] at hb
    have hval : valor .zonado mem a (k + 1) =
        if decide (mem (a + k) &&& 0xF0 = 0x70) then
          -((sigue 0 (deZonado (mem.load a k) ++ [bajo (mem (a + k))]) : Nat) : Int)
        else (sigue 0 (deZonado (mem.load a k) ++ [bajo (mem (a + k))]) : Nat) := by
      rw [sigue_append, sigue_deZonado, bajo_eq]
      simp only [decide_eq_true_eq, hzona]
      rfl
    rw [hmag, hval]
    change leerDesde ((0 : Nat) : Int) false _ = _
    rw [leerDesde_eq, hfold, bind_signo]

private theorem tmod_eq_sign (v : Int) (k : Nat) : v.tmod k = v.sign * (v.natAbs % k : Nat) := by
  rcases le_or_gt 0 v with h | h
  · obtain ⟨n, rfl⟩ := Int.eq_ofNat_of_zero_le h
    rcases Nat.eq_zero_or_pos n with rfl | hn
    · simp
    · rw [Int.sign_natCast_of_ne_zero hn.ne', one_mul, Int.natAbs_natCast, Int.ofNat_tmod]
  · obtain ⟨n, hn⟩ := Int.eq_ofNat_of_zero_le (Int.neg_nonneg_of_nonpos h.le)
    have hv : v = -(n : Int) := by omega
    have hpos : n ≠ 0 := by omega
    rw [hv, Int.neg_tmod, Int.ofNat_tmod, Int.sign_neg, Int.sign_natCast_of_ne_zero hpos,
      Int.natAbs_neg, Int.natAbs_natCast, neg_one_mul]

/-- The code writes the bytes of the field and no others, and they say what the field keeps. -/
theorem run_escribe (f : Formato) {n : Nat} {m : Machine} (conSigno : Bool) (hn : 1 ≤ n)
    (hm : (m.reg .rcx).toNat + n ≤ 2 ^ 64) :
    ∃ m', run (f.escribe n conSigno) none m = .next m' ∧ m'.reg .rcx = m.reg .rcx ∧
      m'.mem.load (m.reg .rcx).toNat n = f.campo n conSigno (signed (m.reg .rax)) ∧
      (∀ x, ¬((m.reg .rcx).toNat ≤ x ∧ x < (m.reg .rcx).toNat + n) → m'.mem x = m.mem x) ∧
      f.valor m'.mem (m.reg .rcx).toNat n = f.guarda n conSigno (signed (m.reg .rax)) := by
  have hload : ∀ (mem : Memory) (a : Nat) (g : Nat → Nat), (∀ i < n, (mem (a + i)).toNat = g i) →
      mem.load a n = (List.range n).map fun i ↦ UInt8.ofNat (g i) := by
    intro mem a g h
    apply List.map_congr_left
    intro i hi
    rw [← h i (List.mem_range.mp hi), UInt8.ofNat_toNat]
  cases f with
  | empaquetado =>
    obtain ⟨m', hrun, honly, hmem⟩ := @run_empaquetar_bytes m _ n conSigno hn rfl hm
    obtain ⟨m'', hrun', -, hval⟩ := @run_empaquetar m _ n conSigno hn rfl hm
    obtain rfl : m' = m'' := Outcome.next.inj (hrun.symm.trans hrun')
    refine ⟨m', hrun, honly.reg _ (by decide), hload _ _ _ hmem, honly.mem, ?_⟩
    rw [valor, hval, recorta, guarda, posiciones, ← tmod_eq_sign]
    simp only [Nat.cast_pow, Nat.cast_ofNat]
  | zonado =>
    have hb : Zonado.bytesPara n = n := if_neg (by omega)
    obtain ⟨m', hrun, honly, hmem⟩ := @Zonado.run_write m _ n conSigno rfl (hb.symm ▸ hm)
    rw [hb] at honly hmem
    refine ⟨m', hrun, honly.reg _ (by decide), hload _ _ _ hmem, honly.mem, ?_⟩
    have hcifras : Zonado.cifras m'.mem (m.reg .rcx).toNat n =
        (signed (m.reg .rax)).natAbs % 10 ^ n := by
      apply Zonado.cifras_eq
      intro i hi
      have hlt : cifra (signed (m.reg .rax)).natAbs (n - 1 - i) < 10 := Nat.mod_lt _ (by decide)
      rw [hmem i hi]
      split <;> omega
    have hzona : (m'.mem ((m.reg .rcx).toNat + (n - 1))).toNat / 16 = 7 ↔
        conSigno ∧ signed (m.reg .rax) < 0 := by
      have hlt : cifra (signed (m.reg .rax)).natAbs (n - 1 - (n - 1)) < 10 :=
        Nat.mod_lt _ (by decide)
      have hultimo : n - 1 + 1 = n := by omega
      rw [hmem (n - 1) (by omega)]
      by_cases hneg : conSigno ∧ signed (m.reg .rax) < 0
      · rw [if_pos ⟨hultimo, hneg⟩]
        exact iff_of_true (by omega) hneg
      · rw [if_neg fun h ↦ hneg h.2]
        exact iff_of_false (by omega) hneg
    rw [valor, Zonado.zonado, guarda, posiciones, hcifras]
    simp only [hzona]
    generalize (signed (m.reg .rax)) = v
    generalize hk : v.natAbs % 10 ^ n = k
    cases conSigno with
    | false => simp
    | true =>
      simp only [true_and, if_true]
      rcases lt_trichotomy v 0 with h | rfl | h
      · rw [if_pos h, Int.sign_eq_neg_one_of_neg h, neg_one_mul]
      · have h0 : k = 0 := by rw [← hk]; simp
        rw [h0]
        rfl
      · rw [if_neg (by omega), Int.sign_eq_one_of_pos h, one_mul]

/-- What a field keeps of an `i64` is one, but for the least of them without its sign. -/
theorem fits_guarda (f : Formato) (n : Nat) (conSigno : Bool) {v : Int} (hv : Fits v) :
    Fits (f.guarda n conSigno v) ↔ conSigno = true ∨ v ≠ -2 ^ 63 ∨ f.posiciones n < 19 := by
  have hle : v.natAbs % 10 ^ f.posiciones n ≤ v.natAbs := Nat.mod_le ..
  have hlt : v.natAbs % 10 ^ f.posiciones n < 10 ^ f.posiciones n := Nat.mod_lt _ (by positivity)
  unfold guarda
  cases conSigno with
  | true =>
    refine iff_of_true ?_ (.inl rfl)
    rw [if_pos rfl]
    unfold Fits at *
    rcases lt_trichotomy v 0 with h | rfl | h
    · rw [Int.sign_eq_neg_one_of_neg h]
      omega
    · simp
    · rw [Int.sign_eq_one_of_pos h]
      omega
  | false =>
    rw [if_neg (by decide)]
    by_cases hmin : v = -2 ^ 63
    · have habs : v.natAbs = 2 ^ 63 := by omega
      by_cases hpos : f.posiciones n < 19
      · have hpow : 10 ^ f.posiciones n ≤ 10 ^ 18 :=
          Nat.pow_le_pow_right (by decide) (by omega)
        refine iff_of_true ?_ (.inr (.inr hpos))
        unfold Fits
        omega
      · have hpow : 10 ^ 19 ≤ 10 ^ f.posiciones n := Nat.pow_le_pow_right (by decide) (by omega)
        refine iff_of_false ?_ (by simp [hmin, hpos])
        rw [habs, Nat.mod_eq_of_lt (by omega)]
        unfold Fits
        omega
    · refine iff_of_true ?_ (.inr (.inl hmin))
      unfold Fits at *
      omega

/-- A number written and read comes back but for the least one in a field of nineteen digits or more
without a sign; and the host reads what the program reads exactly when the digits of the field are
an `i64`, whatever its bytes. -/
theorem decimales_iff (f : Formato) {n : Nat} {m : Machine} (conSigno : Bool) (hn : 1 ≤ n)
    (hm : (m.reg .rcx).toNat + n ≤ 2 ^ 64) :
    (f.IdaYVuelta n conSigno m ↔
      conSigno = true ∨ signed (m.reg .rax) ≠ -2 ^ 63 ∨ f.posiciones n < 19) ∧
    (f.Acuerdo n m ↔ f.magnitud (m.mem.load (m.reg .rcx).toNat n) < 2 ^ 63) := by
  constructor
  · obtain ⟨m1, hrun1, hrcx, hcampo, hfuera, hval⟩ := f.run_escribe conSigno hn hm
    obtain ⟨m2, hrun2, hrax⟩ := f.run_lee (m := m1) hn (by rw [hrcx]; exact hm)
    rw [hrcx, hval] at hrax
    rw [← f.fits_guarda n conSigno (fits_signed _)]
    constructor
    · rintro ⟨m1', m2', hrun1', -, -, hrun2', hrax'⟩
      rw [← hrax']
      exact fits_signed _
    · intro hfits
      refine ⟨m1, m2, hrun1, hcampo, hfuera, hrun2, ?_⟩
      rw [hrax, signed_ofSigned hfits]
  · obtain ⟨m', hrun, hrax⟩ := f.run_lee hn hm
    have hhost := f.enRust_eq hn m.mem (m.reg .rcx).toNat
    constructor
    · rintro ⟨m'', -, hacuerdo⟩
      by_contra hgrande
      rw [hhost, if_neg hgrande] at hacuerdo
      cases hacuerdo
    · intro hmag
      refine ⟨m', hrun, ?_⟩
      have hfits : Fits (f.valor m.mem (m.reg .rcx).toNat n) := by
        rw [← f.natAbs_valor hn] at hmag
        unfold Fits
        omega
      rw [hhost, if_pos hmag, hrax, signed_ofSigned hfits]

/-- A memory of nines. -/
def nueves : Machine := ⟨fun _ ↦ 0, none, [], fun _ ↦ 0x99⟩

/-- The number -12345, to be written over the nines. -/
def negativo : Machine := { nueves with reg := fun r ↦ if r = .rax then -12345 else 4096 }

/-- A field with a sign, a long one without, and two that are read as the host reads them. -/
theorem decimales_nueves :
    (IdaYVuelta .empaquetado 3 true negativo ∧ Acuerdo .empaquetado 3 negativo) ∧
      IdaYVuelta .zonado 20 false negativo ∧ Acuerdo .zonado 18 negativo := by
  have hcorto := decimales_iff .empaquetado (n := 3) (m := negativo) true (by decide) (by decide)
  have hlargo := decimales_iff .zonado (n := 20) (m := negativo) false (by decide) (by decide)
  have hleido := decimales_iff .zonado (n := 18) (m := negativo) false (by decide) (by decide)
  exact ⟨⟨hcorto.1.mpr (.inl rfl), hcorto.2.mpr (by decide)⟩,
    hlargo.1.mpr (.inr (.inl (by decide))), hleido.2.mpr (by decide)⟩

theorem acuerdo_nueves : ¬Acuerdo .empaquetado 10 nueves := by
  have hhost : enRust .empaquetado (nueves.mem.load (nueves.reg .rcx).toNat 10) = none := by decide
  rintro ⟨m', -, h⟩
  rw [hhost] at h
  cases h

end Formato

end BmoX.Lower
