import BmoX.Estratos.Flujo
import Mathlib.Algebra.BigOperators.Group.List.Basic
import Mathlib.Algebra.Order.Ring.Nat
import Mathlib.Data.List.Range
import Mathlib.Data.UInt
import Mathlib.Order.Monotone.Basic

/-!
# What building a tree leaves written

The block `i` of the row `k` of a plan has its place and its contents before anything is written:
`contenido` says which. The online construction of `flujo.rs` keeps to it, whatever writes the
blocks: `P ws s` says of the state `s` that exactly the writes `ws` were accepted, and `F s` what
a refused one leaves.
-/

namespace BmoX.Estratos

open BmoX.Base BmoX.Blake3

/-! ### Plans -/

namespace Plan

/-- How many blocks the rows below the row `k` take. -/
def inicio (plan : Plan) : Nat → Nat
  | 0 => 0
  | k + 1 => plan.inicio k + plan.porNivel k

/-- What `plan_de` decides: each row names the one below, 85 pointers a block, up to one block. -/
structure Regular (plan : Plan) : Prop where
  datos_pos : 0 < plan.porNivel 0
  succ : ∀ k < plan.niveles, plan.porNivel (k + 1) = (plan.porNivel k + 84) / 85
  varios : ∀ k < plan.niveles, 1 < plan.porNivel k
  cima : plan.porNivel plan.niveles = 1
  vacio : ∀ k, plan.niveles < k → plan.porNivel k = 0
  total : plan.total = plan.inicio (plan.niveles + 1)
  total_lt : plan.total < 2 ^ 64

private theorem inicio_mono (plan : Plan) : Monotone plan.inicio :=
  monotone_nat_of_le_succ fun _ ↦ Nat.le_add_right ..

private theorem inicio_eq_sum (plan : Plan) (n : Nat) :
    plan.inicio n = ((List.range n).map plan.porNivel).sum := by
  induction n with
  | zero => rfl
  | succ n ih => rw [inicio, ih, List.range_succ, List.map_append, List.sum_append]; simp

private theorem inicio_of_vacio {plan : Plan} {n m : Nat} (h : ∀ k, n ≤ k → plan.porNivel k = 0)
    (hm : n ≤ m) : plan.inicio m = plan.inicio n := by
  induction m, hm using Nat.le_induction with
  | base => rfl
  | succ m hm ih => rw [inicio, h m hm, ih, Nat.add_zero]

private theorem inicio_le {plan : Plan} (h : ∀ k, plan.porNivel k ≤ 2 ^ 52) (k : Nat) :
    plan.inicio k ≤ k * 2 ^ 52 := by
  induction k with
  | zero => exact Nat.zero_le _
  | succ k ih =>
    have := h k
    rw [inicio]
    omega

private theorem subir_spec {quedan niveles n : Nat} {f : Nat → Nat} {niveles' : Nat}
    {f' : Nat → Nat} (h : subir quedan niveles f n = some (niveles', f')) (hn : 0 < n)
    (hf : f niveles = n) :
    niveles ≤ niveles' ∧ (∀ k ≤ niveles, f' k = f k) ∧ (∀ k, niveles' < k → f' k = f k) ∧
      f' niveles' = 1 ∧
      ∀ k, niveles ≤ k → k < niveles' → f' (k + 1) = (f' k + 84) / 85 ∧ 1 < f' k := by
  induction quedan generalizing niveles n f with
  | zero =>
    rw [subir] at h
    split at h
    · cases h
    · cases h
      exact ⟨Nat.le_refl _, fun _ _ ↦ rfl, fun _ _ ↦ rfl, by omega,
        fun k h1 h2 ↦ absurd h2 (by omega)⟩
  | succ quedan ih =>
    rw [subir] at h
    split at h
    · next hn1 =>
      obtain ⟨hle, hlow, hhigh, htop, hmid⟩ :=
        ih h (by simp only [ptrsPorBloque, bloque, ptrLen]; omega) (Function.update_self ..)
      refine ⟨by omega, fun k hk ↦ ?_, fun k hk ↦ ?_, htop, fun k h1 h2 ↦ ?_⟩
      · rw [hlow k (by omega), Function.update_of_ne (by omega)]
      · rw [hhigh k hk, Function.update_of_ne (by omega)]
      · rcases Nat.eq_or_lt_of_le h1 with rfl | h1
        · have h0 : f' niveles = n := by
            rw [hlow _ (by omega), Function.update_of_ne (by omega), hf]
          rw [hlow _ (Nat.le_refl _), Function.update_self, h0]
          exact ⟨rfl, hn1⟩
        · exact hmid k h1 h2
    · next hn1 =>
      cases h
      exact ⟨Nat.le_refl _, fun _ _ ↦ rfl, fun _ _ ↦ rfl, by omega,
        fun k h1 h2 ↦ absurd h2 (by omega)⟩

/-- Every plan is regular, and its first row holds the stream. -/
theorem regular_planDe {size : UInt64} {plan : Plan} (h : planDe size = some plan) :
    plan.Regular ∧ plan.porNivel 0 = (size.toNat + 4095) / 4096 := by
  rw [planDe] at h
  split at h
  · cases h
  next h0 =>
  have hpos : 0 < size.toNat := Nat.pos_of_ne_zero fun h ↦ h0 (UInt64.toNat.inj h)
  have hlt := size.toNat_lt
  dsimp only at h
  split at h
  · cases h
  next niveles porNivel hs =>
  have hdatos : 0 < (size.toNat + (bloque - 1)) / bloque := by
    simp only [bloque]
    omega
  obtain ⟨-, hlow, hhigh, htop, hmid⟩ := subir_spec hs hdatos (Function.update_self ..)
  have hniv := subir_niveles_le hs
  simp only [Nat.zero_add, nivelesMax] at hniv
  have hprimera : porNivel 0 = (size.toNat + 4095) / 4096 := by
    rw [hlow 0 (Nat.le_refl _)]
    rfl
  have hvacio : ∀ k, niveles < k → porNivel k = 0 := fun k hk ↦ by
    rw [hhigh k hk, Function.update_of_ne (by omega)]
  have hle : ∀ k, porNivel k ≤ 2 ^ 52 := by
    intro k
    induction k with
    | zero => omega
    | succ k ih =>
      by_cases hk : k < niveles
      · have := (hmid k (Nat.zero_le _) hk).1
        omega
      · rw [hvacio _ (by omega)]
        exact Nat.zero_le _
  have htotal : plan.total = plan.inicio filas := by
    cases h
    rw [inicio_eq_sum]
  cases h
  refine ⟨⟨by dsimp only; omega, fun k hk ↦ (hmid k (Nat.zero_le _) hk).1,
    fun k hk ↦ (hmid k (Nat.zero_le _) hk).2, htop, hvacio,
    htotal.trans (inicio_of_vacio hvacio (Nat.succ_le_succ hniv)), ?_⟩, hprimera⟩
  rw [htotal]
  exact Nat.lt_of_le_of_lt (inicio_le hle filas) (by decide)

end Plan

/-! ### Where every block goes and what it holds -/

namespace Arbol

section Torre

variable (plan : Plan) (base : UInt64)

/-- The place of the block `i` of the row `k`. -/
def sitio (k i : Nat) : UInt64 := base + UInt64.ofNat (plan.inicio k + i)

/-- The blocks of the row `k` that the block `i` of the row above names. -/
def hijos (k i : Nat) : List Nat := List.range' (85 * i) (min 85 (plan.porNivel k - 85 * i))

/-- The bytes of the block `i` of the row `k`, over the pieces `t`. -/
def contenido (t : Nat → Bytes) : Nat → Nat → Bytes
  | 0, i => t i
  | k + 1, i => (hijos plan k i).flatMap fun j ↦
      (BlockPtr.nuevo (sitio plan base k j) 0 (contenido t k j)).encode

/-- The pointer to the block `i` of the row `k`. -/
def puntero (t : Nat → Bytes) (k i : Nat) : BlockPtr :=
  .nuevo (sitio plan base k i) 0 (contenido plan base t k i)

/-- The pointers a run of blocks of the row `k` is named by. -/
def punteros (t : Nat → Bytes) (k : Nat) (l : List Nat) : Bytes :=
  l.flatMap fun j ↦ (puntero plan base t k j).encode

/-- The writes done when `c k` blocks of each row `k` are written. -/
def hechos (t : Nat → Bytes) (c : Nat → Nat) : List (UInt64 × Bytes) :=
  (List.range (plan.niveles + 1)).flatMap fun k ↦
    (List.range (c k)).map fun i ↦ (sitio plan base k i, contenido plan base t k i)

/-- The tree `a` has written `c k` blocks of each row `k` and hung `h k` of them. -/
structure Estado (t : Nat → Bytes) (a : Arbol) (c h : Nat → Nat) : Prop where
  mismoPlan : a.plan = plan
  trozos : a.trozos = c 0
  cursor : ∀ k ≤ plan.niveles, a.cursor k = sitio plan base k (c k)
  lleno : ∀ k < plan.niveles, a.lleno (k + 1) = h k - 85 * c (k + 1)
  indice : ∀ k < plan.niveles, (a.indice k).1.take (a.lleno (k + 1) * ptrLen) =
    punteros plan base t k (List.range' (85 * c (k + 1)) (a.lleno (k + 1)))
  raiz : a.raiz = if h plan.niveles = 0 then none else some (puntero plan base t plan.niveles 0)

/-- From the row `m` on, every full index is closed and no other. -/
def AlDia (m : Nat) (c : Nat → Nat) : Prop :=
  ∀ k, m ≤ k → k < plan.niveles → c (k + 1) = c k / 85

end Torre

variable {plan : Plan} {base : UInt64} {t : Nat → Bytes}

private theorem cursorDe_eq (k : Nat) : cursorDe plan base k = sitio plan base k 0 := by
  induction k with
  | zero => simp [cursorDe, sitio, Plan.inicio]
  | succ k ih => simp [cursorDe, ih, sitio, Plan.inicio, UInt64.ofNat_add, UInt64.add_assoc]

private theorem sitio_succ (k i : Nat) : sitio plan base k i + 1 = sitio plan base k (i + 1) := by
  rw [sitio, sitio, ← Nat.add_assoc, UInt64.ofNat_add (plan.inicio k + i), ← UInt64.add_assoc]
  rfl

@[simp] theorem length_punteros (k : Nat) (l : List Nat) :
    (punteros plan base t k l).length = 48 * l.length :=
  length_flatMap_const (fun _ ↦ BlockPtr.length_encode _) l

theorem contenido_succ (k i : Nat) :
    contenido plan base t (k + 1) i = punteros plan base t k (hijos plan k i) := rfl

/-- No block is longer than a block. -/
theorem length_contenido_le {k i : Nat} (ht : k = 0 → (t i).length ≤ bloque) :
    (contenido plan base t k i).length ≤ bloque := by
  cases k with
  | zero => exact ht rfl
  | succ k =>
    rw [contenido_succ, length_punteros, hijos, List.length_range']
    simp only [bloque]
    omega

/-- A tree just started has written nothing. -/
theorem estado_nuevo {cuantos : Nat} {indice : Nat → Bloque} {a : Arbol}
    (h : nuevo plan base cuantos indice = .ok a) :
    Estado plan base t a (fun _ ↦ 0) fun _ ↦ 0 := by
  rw [nuevo] at h
  split at h
  · cases h
  · cases h
    exact ⟨rfl, rfl, fun k _ ↦ cursorDe_eq k, fun _ _ ↦ rfl, fun _ _ ↦ by simp [punteros], rfl⟩

private theorem flatMap_range_update {α : Type} {g g' : Nat → List α} {l : List α} {k n : Nat}
    (hk : k < n) (hg : g' k = g k ++ l) (hne : ∀ j, j ≠ k → g' j = g j) :
    ((List.range n).flatMap g').Perm ((List.range n).flatMap g ++ l) := by
  induction n with
  | zero => cases hk
  | succ n ih =>
    simp only [List.range_succ, List.flatMap_append, List.flatMap_singleton]
    by_cases hkn : k = n
    · subst hkn
      have hlow : (List.range k).flatMap g' = (List.range k).flatMap g :=
        List.flatMap_congr fun j hj ↦ hne j (Nat.ne_of_lt (List.mem_range.mp hj))
      rw [hlow, hg, List.append_assoc]
    · rw [hne n (Ne.symm hkn)]
      refine ((ih (by omega)).append_right _).trans ?_
      rw [List.append_assoc, List.append_assoc]
      exact List.perm_append_comm.append_left _

private theorem hechos_succ {c : Nat → Nat} {k : Nat} (hk : k ≤ plan.niveles) :
    (hechos plan base t (Function.update c k (c k + 1))).Perm
      (hechos plan base t c ++ [(sitio plan base k (c k), contenido plan base t k (c k))]) := by
  refine flatMap_range_update (k := k) (Nat.lt_succ_of_le hk) ?_ fun j hj ↦ ?_
  · rw [Function.update_self, List.range_succ, List.map_append]
    rfl
  · rw [Function.update_of_ne hj]

/-- Noting a pointer in its index hangs it. -/
theorem Estado.anotar {a : Arbol} {c h : Nat → Nat} {m : Nat} (he : Estado plan base t a c h)
    (hm : m < plan.niveles) (hle : 85 * c (m + 1) ≤ h m) (hlt : h m < 85 * c (m + 1) + 85) :
    Estado plan base t (a.anotar (m + 1) (puntero plan base t m (h m))) c
      (Function.update h m (h m + 1)) := by
  have hlleno := he.lleno m hm
  refine ⟨he.mismoPlan, he.trozos, he.cursor, fun k hk ↦ ?_, fun k hk ↦ ?_, ?_⟩
  · by_cases hkm : k = m
    · subst hkm
      simp only [Arbol.anotar, Function.update_self]
      omega
    · simp only [Arbol.anotar, Function.update_of_ne hkm,
        Function.update_of_ne (mt Nat.succ.inj hkm), he.lleno k hk]
  · by_cases hkm : k = m
    · subst hkm
      set o := a.lleno (k + 1) * ptrLen with ho
      have hlen : ((a.indice k).1.take o).length = o := by
        rw [List.length_take, Arr.length_val]
        simp only [bloque, ptrLen] at *
        omega
      have hs : (splice (a.indice k).1 o (puntero plan base t k (h k)).encode).length = bloque := by
        rw [splice, List.length_append, List.length_append, hlen, BlockPtr.length_encode,
          List.length_drop, Arr.length_val]
        simp only [bloque, ptrLen] at *
        omega
      simp only [Arbol.anotar, Function.update_self, Nat.add_sub_cancel, ← ho]
      rw [Arr.val_pad_self hs, splice, List.append_assoc, ← List.append_assoc, Nat.succ_mul, ← ho,
        List.take_left' (by rw [List.length_append, hlen, BlockPtr.length_encode]),
        he.indice k hk, punteros, punteros, List.range'_1_concat, List.flatMap_append,
        List.flatMap_singleton, hlleno, Nat.add_sub_cancel' hle]
    · simp only [Arbol.anotar, Nat.add_sub_cancel, Function.update_of_ne hkm,
        Function.update_of_ne (mt Nat.succ.inj hkm)]
      exact he.indice k hk
  · rw [Function.update_of_ne (Nat.ne_of_gt hm)]
    exact he.raiz

/-! ### Every write goes where it must -/

variable {I : Interface} {σ : Type} {E : Prog.Env I σ} {G : I.Op → σ → Prop} {poner : Poner I}
  {P : List (UInt64 × Bytes) → σ → Prop} {F : σ → Prop}

/-- What `poner` does with a block of the plan. -/
def Escribe (plan : Plan) (base : UInt64) (E : Prog.Env I σ) (G : I.Op → σ → Prop)
    (P : List (UInt64 × Bytes) → σ → Prop) (F : σ → Prop) (poner : Poner I) : Prop :=
  ∀ ws s k i datos, P ws s → k ≤ plan.niveles → i < plan.porNivel k → datos.length ≤ bloque →
    Prog.Safe E G (fun ok s' ↦ if ok then P (ws ++ [(sitio plan base k i, datos)]) s' else F s')
      (poner (sitio plan base k i) datos) s

/-- What a step of the construction answers: the state it leaves, or a refused write. -/
def Tras {α : Type} (F : σ → Prop) (Q : α → σ → Prop) : Except FormatError α → σ → Prop
  | .ok a, s => Q a s
  | .error e, s => e = .io ∧ F s

/-- After the writes that `c` counts. -/
def Escritos (plan : Plan) (base : UInt64) (t : Nat → Bytes)
    (P : List (UInt64 × Bytes) → σ → Prop) (c : Nat → Nat) (s : σ) : Prop :=
  ∃ ws, ws.Perm (hechos plan base t c) ∧ P ws s

private theorem Escribe.uno (hp : Escribe plan base E G P F poner) {c : Nat → Nat} {k : Nat} {s : σ}
    (hs : Escritos plan base t P c s) (hk : k ≤ plan.niveles) (hc : c k < plan.porNivel k)
    (hlen : (contenido plan base t k (c k)).length ≤ bloque) :
    Prog.Safe E G (fun ok s' ↦
        if ok then Escritos plan base t P (Function.update c k (c k + 1)) s' else F s')
      (poner (sitio plan base k (c k)) (contenido plan base t k (c k))) s := by
  obtain ⟨ws, hperm, hP⟩ := hs
  refine (hp ws s k (c k) _ hP hk hc hlen).post fun ok s' h ↦ ?_
  cases ok with
  | false => exact h
  | true => exact ⟨_, (hperm.append_right _).trans (hechos_succ hk).symm, h⟩

/-- Closing a level writes its next index block and answers its pointer. -/
theorem cerrarNivel_safe (hp : Escribe plan base E G P F poner) {a : Arbol} {c : Nat → Nat}
    {m : Nat} {s : σ} (he : Estado plan base t a c c) (hs : Escritos plan base t P c s)
    (hm : m < plan.niveles) (hc : c (m + 1) < plan.porNivel (m + 1))
    (hlleno : c m - 85 * c (m + 1) = min 85 (plan.porNivel m - 85 * c (m + 1)))
    (hle : c m ≤ 85 * (c (m + 1) + 1)) :
    Prog.Safe E G (Tras F fun r s' ↦
        r.1 = puntero plan base t (m + 1) (c (m + 1)) ∧
        Estado plan base t r.2 (Function.update c (m + 1) (c (m + 1) + 1)) c ∧
        Escritos plan base t P (Function.update c (m + 1) (c (m + 1) + 1)) s')
      (cerrarNivel poner a (m + 1)).run s := by
  have hlba : a.cursor (m + 1) = sitio plan base (m + 1) (c (m + 1)) := he.cursor _ hm
  have hdatos : (a.indice m).1.take (a.lleno (m + 1) * ptrLen) =
      contenido plan base t (m + 1) (c (m + 1)) := by
    rw [he.indice m hm, contenido_succ, hijos, he.lleno m hm, hlleno]
  have hlen : (contenido plan base t (m + 1) (c (m + 1))).length ≤ bloque := by
    rw [← hdatos, List.length_take, Arr.length_val]
    exact Nat.min_le_right ..
  simp only [cerrarNivel, Nat.add_sub_cancel, hlba, hdatos, Prog.safe_lift_bind]
  refine (hp.uno hs hm hc hlen).post fun ok s' h ↦ ?_
  cases ok with
  | false => exact ⟨rfl, h⟩
  | true =>
    refine ⟨rfl, ⟨he.mismoPlan, ?_, fun k hk ↦ ?_, fun k hk ↦ ?_, fun k hk ↦ ?_, he.raiz⟩, h⟩
    · rw [Function.update_of_ne (Nat.succ_ne_zero m).symm]
      exact he.trozos
    · by_cases hkm : k = m + 1
      · subst hkm
        simp only [Function.update_self, sitio_succ]
      · simp only [Function.update_of_ne hkm, he.cursor k hk]
    · by_cases hkm : k = m
      · subst hkm
        simp only [Function.update_self]
        omega
      · simp only [Function.update_of_ne (mt Nat.succ.inj hkm), he.lleno k hk]
    · by_cases hkm : k = m
      · subst hkm
        simp only [Function.update_self, Nat.zero_mul, List.take_zero, List.range'_zero, punteros,
          List.flatMap_nil]
      · simp only [Function.update_of_ne (mt Nat.succ.inj hkm), he.indice k hk]

/-- What a step leaves when the rows up to `m` end as in `c`. -/
def AlDiaDesde (plan : Plan) (base : UInt64) (t : Nat → Bytes)
    (P : List (UInt64 × Bytes) → σ → Prop) (m : Nat) (c : Nat → Nat) (a : Arbol) (s : σ) : Prop :=
  ∃ c', (∀ k ≤ m, c' k = c k) ∧ AlDia plan m c' ∧ Estado plan base t a c' c' ∧
    Escritos plan base t P c' s

/-- Hanging the last block of the row `m` closes every index it fills. By induction on the
levels above: a full index hangs its own block one row higher. -/
theorem colgar_safe (hreg : plan.Regular) (hp : Escribe plan base E G P F poner)
    {quedan m n : Nat} (hq : m + quedan = plan.niveles) {a : Arbol} {c : Nat → Nat} {s : σ}
    (he : Estado plan base t a c (Function.update c m n)) (hn : c m = n + 1)
    (hup : ∀ k, m ≤ k → k < plan.niveles → c (k + 1) = Function.update c m n k / 85)
    (hle : c m ≤ plan.porNivel m) (hs : Escritos plan base t P c s) :
    Prog.Safe E G (Tras F (AlDiaDesde plan base t P m c))
      (colgar poner quedan a (puntero plan base t m n)).run s := by
  induction quedan generalizing m n a c s with
  | zero =>
    obtain rfl : m = plan.niveles := hq
    have hn0 : n = 0 := by
      have := hreg.cima
      omega
    subst hn0
    refine ⟨c, fun _ _ ↦ rfl, fun k h1 h2 ↦ absurd h2 (Nat.not_lt.mpr h1),
      ⟨he.mismoPlan, he.trozos, he.cursor, fun k hk ↦ ?_, he.indice, ?_⟩, hs⟩
    · rw [← Function.update_of_ne (Nat.ne_of_lt hk) 0 c]
      exact he.lleno k hk
    · rw [if_neg (by omega)]
  | succ quedan ih =>
    have hm : m < plan.niveles := by omega
    have hnivel : a.plan.niveles - quedan = m + 1 := by
      rw [he.mismoPlan]
      omega
    have hcm : c (m + 1) = n / 85 := by
      rw [hup m (Nat.le_refl m) hm, Function.update_self]
    have hea : Estado plan base t (a.anotar (m + 1) (puntero plan base t m n)) c c := by
      have := he.anotar hm (by rw [Function.update_self]; omega)
        (by rw [Function.update_self]; omega)
      rwa [Function.update_self, Function.update_idem, ← hn, Function.update_eq_self] at this
    have hlleno := hea.lleno m hm
    simp only [colgar, hnivel]
    split
    · next hlt =>
      refine ⟨c, fun _ _ ↦ rfl, fun k h1 h2 ↦ ?_, hea, hs⟩
      rcases Nat.eq_or_lt_of_le h1 with rfl | h1
      · simp only [ptrsPorBloque, bloque, ptrLen] at hlt
        omega
      · rw [hup k (by omega) h2, Function.update_of_ne (by omega)]
    · next hge =>
      have hfull : c m = 85 * (c (m + 1) + 1) := by
        simp only [ptrsPorBloque, bloque, ptrLen] at hge
        omega
      have hsucc := hreg.succ m hm
      refine (cerrarNivel_safe hp hea hs hm (by omega) (by omega) hfull.le).tryBind ?_ ?_
      · rintro ⟨ptr, a'⟩ s' ⟨rfl, he', hs'⟩
        have hc' : c = Function.update
            (Function.update c (m + 1) (c (m + 1) + 1)) (m + 1) (c (m + 1)) := by
          rw [Function.update_idem, Function.update_eq_self]
        have hself : Function.update c (m + 1) (c (m + 1) + 1) (m + 1) = c (m + 1) + 1 :=
          Function.update_self ..
        refine (ih (by omega) (hc' ▸ he') hself (fun k h1 h2 ↦ ?_) (by omega) hs').post ?_
        · rw [Function.update_of_ne (by omega), ← hc', hup k (by omega) h2,
            Function.update_of_ne (by omega)]
        · intro r s'' hr
          cases r with
          | error e => exact hr
          | ok a'' =>
            obtain ⟨c', hlow, hal, he'', hs''⟩ := hr
            refine ⟨c', fun k hk ↦ ?_, fun k h1 h2 ↦ ?_, he'', hs''⟩
            · rw [hlow k (by omega), Function.update_of_ne (by omega)]
            · rcases Nat.eq_or_lt_of_le h1 with rfl | h1
              · rw [hlow _ (Nat.le_refl _), hlow _ (by omega), hself,
                  Function.update_of_ne (by omega)]
                omega
              · exact hal k h1 h2
      · exact fun e s' hr ↦ hr

/-- Pushing the next piece writes its block and brings the rows above up to date. -/
theorem empujar_safe (hreg : plan.Regular) (hp : Escribe plan base E G P F poner) {a : Arbol}
    {c : Nat → Nat} {s : σ} (he : Estado plan base t a c c) (hal : AlDia plan 0 c)
    (hs : Escritos plan base t P c s) (hc : c 0 < plan.porNivel 0) (ht : t (c 0) ≠ [])
    (hlen : (t (c 0)).length ≤ bloque) :
    Prog.Safe E G (Tras F (AlDiaDesde plan base t P 0 (Function.update c 0 (c 0 + 1))))
      (empujar poner a (t (c 0))).run s := by
  have hlba : a.cursor 0 = sitio plan base 0 (c 0) := he.cursor 0 (Nat.zero_le _)
  have hcabe : ¬ (t (c 0) = [] ∨ (t (c 0)).length > bloque) :=
    not_or.mpr ⟨ht, Nat.not_lt.mpr hlen⟩
  have hqueda : ¬ a.trozos ≥ a.plan.porNivel 0 := by
    rw [he.trozos, he.mismoPlan]
    exact Nat.not_le.mpr hc
  simp only [empujar, if_neg hcabe, if_neg hqueda, hlba, Prog.safe_lift_bind]
  refine (hp.uno hs (Nat.zero_le _) hc hlen).post fun ok s' h ↦ ?_
  cases ok with
  | false => exact ⟨rfl, h⟩
  | true =>
    have hc' : c = Function.update (Function.update c 0 (c 0 + 1)) 0 (c 0) := by
      rw [Function.update_idem, Function.update_eq_self]
    have hsig : Estado plan base t
        { a with cursor := Function.update a.cursor 0 (sitio plan base 0 (c 0) + 1),
                 trozos := a.trozos + 1 } (Function.update c 0 (c 0 + 1)) c := by
      refine ⟨he.mismoPlan, ?_, fun k hk ↦ ?_, fun k hk ↦ ?_, fun k hk ↦ ?_, he.raiz⟩
      · simp only [he.trozos, Function.update_self]
      · by_cases hk0 : k = 0
        · subst hk0
          simp only [Function.update_self, sitio_succ]
        · simp only [Function.update_of_ne hk0, he.cursor k hk]
      · rw [Function.update_of_ne (Nat.succ_ne_zero k)]
        exact he.lleno k hk
      · rw [Function.update_of_ne (Nat.succ_ne_zero k)]
        exact he.indice k hk
    refine colgar_safe hreg hp ?_ (hc' ▸ hsig) (Function.update_self ..) (fun k _ hk ↦ ?_) ?_ h
    · rw [he.mismoPlan, Nat.zero_add]
    · rw [← hc', Function.update_of_ne (Nat.succ_ne_zero k), hal k (Nat.zero_le k) hk]
    · rw [Function.update_self]
      exact hc

/-- Closing the half-full levels from the bottom completes every row. -/
theorem cerrarDesde_safe (hreg : plan.Regular) (hp : Escribe plan base E G P F poner)
    {quedan m : Nat} (hq : m + quedan = plan.niveles) {a : Arbol} {c : Nat → Nat} {s : σ}
    (he : Estado plan base t a c c) (hal : AlDia plan m c)
    (hlow : ∀ k ≤ m, c k = plan.porNivel k) (hs : Escritos plan base t P c s) :
    Prog.Safe E G (Tras F fun a' s' ↦ ∃ c', (∀ k ≤ plan.niveles, c' k = plan.porNivel k) ∧
        Estado plan base t a' c' c' ∧ Escritos plan base t P c' s')
      (cerrarDesde poner quedan a).run s := by
  induction quedan generalizing m a c s with
  | zero => exact ⟨c, fun k hk ↦ hlow k (by omega), he, hs⟩
  | succ quedan ih =>
    have hm : m < plan.niveles := by omega
    have hnivel : a.plan.niveles - quedan = m + 1 := by
      rw [he.mismoPlan]
      omega
    have hcm := hal m (Nat.le_refl m) hm
    have hN := hlow m (Nat.le_refl m)
    have hsucc := hreg.succ m hm
    have hlleno := he.lleno m hm
    simp only [cerrarDesde, hnivel]
    split
    · next hpos =>
      refine (cerrarNivel_safe hp he hs hm (by omega) (by omega) (by omega)).tryBind ?_ ?_
      · rintro ⟨ptr, a'⟩ s' ⟨rfl, he', hs'⟩
        have hc' : c = Function.update
            (Function.update c (m + 1) (c (m + 1) + 1)) (m + 1) (c (m + 1)) := by
          rw [Function.update_idem, Function.update_eq_self]
        have hself : Function.update c (m + 1) (c (m + 1) + 1) (m + 1) = c (m + 1) + 1 :=
          Function.update_self ..
        refine (colgar_safe hreg hp (by omega) (hc' ▸ he') hself (fun k h1 h2 ↦ ?_)
          (by omega) hs').tryBind ?_ ?_
        · rw [Function.update_of_ne (by omega), ← hc', hal k (by omega) h2]
        · rintro a'' s'' ⟨c', hsame, hal', he'', hs''⟩
          refine ih (by omega) he'' hal' (fun k hk ↦ ?_) hs''
          rw [hsame k hk]
          by_cases hkm : k = m + 1
          · subst hkm
            omega
          · rw [Function.update_of_ne hkm, hlow k (by omega)]
        · exact fun e s'' hr ↦ hr
      · exact fun e s' hr ↦ hr
    · next hcero =>
      refine ih (m := m + 1) (by omega) he (fun k h1 h2 ↦ hal k (by omega) h2) (fun k hk ↦ ?_) hs
      by_cases hkm : k = m + 1
      · subst hkm
        omega
      · exact hlow k (by omega)

private theorem hechos_congr {c c' : Nat → Nat} (h : ∀ k ≤ plan.niveles, c k = c' k) :
    hechos plan base t c = hechos plan base t c' :=
  List.flatMap_congr fun k hk ↦ by rw [h k (Nat.lt_succ_iff.mp (List.mem_range.mp hk))]

/-- Closing a tree that took all its pieces writes the rest of the plan and answers its root. -/
theorem cerrar_safe (hreg : plan.Regular) (hp : Escribe plan base E G P F poner) {a : Arbol}
    {c : Nat → Nat} {s : σ} (he : Estado plan base t a c c) (hal : AlDia plan 0 c)
    (hs : Escritos plan base t P c s) (hc : c 0 = plan.porNivel 0) :
    Prog.Safe E G (Tras F fun raiz s' ↦ raiz = puntero plan base t plan.niveles 0 ∧
        Escritos plan base t P plan.porNivel s') (cerrar poner a).run s := by
  have htodos : ¬ a.trozos ≠ a.plan.porNivel 0 := by
    rw [he.trozos, he.mismoPlan, hc]
    exact not_not.mpr rfl
  simp only [cerrar, if_neg htodos]
  refine (cerrarDesde_safe hreg hp (by rw [he.mismoPlan, Nat.zero_add]) he hal (fun k hk ↦ ?_)
    hs).tryBind ?_ ?_
  · obtain rfl := Nat.le_zero.mp hk
    exact hc
  · rintro a' s' ⟨c', hN, he', ws, hperm, hP⟩
    have hraiz := he'.raiz
    rw [hN _ (Nat.le_refl _), hreg.cima, if_neg Nat.one_ne_zero] at hraiz
    rw [hraiz]
    exact ⟨rfl, ws, hechos_congr hN ▸ hperm, hP⟩
  · exact fun e s' hr ↦ hr

/-- Pushing pieces one after another. -/
theorem empujarTodos_safe (hreg : plan.Regular) (hp : Escribe plan base E G P F poner)
    {trozos : List Bytes} {a : Arbol} {c : Nat → Nat} {s : σ} (he : Estado plan base t a c c)
    (hal : AlDia plan 0 c) (hs : Escritos plan base t P c s)
    (hc : c 0 + trozos.length ≤ plan.porNivel 0)
    (ht : ∀ i d, trozos[i]? = some d → t (c 0 + i) = d)
    (hlen : ∀ d ∈ trozos, d ≠ [] ∧ d.length ≤ bloque) :
    Prog.Safe E G (Tras F (AlDiaDesde plan base t P 0 fun _ ↦ c 0 + trozos.length))
      (trozos.foldlM (empujar poner) a).run s := by
  induction trozos generalizing a c s with
  | nil => exact ⟨c, fun k hk ↦ by rw [Nat.le_zero.mp hk]; rfl, hal, he, hs⟩
  | cons d trozos ih =>
    have hd := hlen d List.mem_cons_self
    have htd : t (c 0) = d := ht 0 d rfl
    rw [List.length_cons] at hc
    rw [List.foldlM_cons, ← htd]
    refine (empujar_safe hreg hp he hal hs (by omega) (htd ▸ hd.1) (htd ▸ hd.2)).tryBind ?_ ?_
    · rintro a' s' ⟨c', h0, hal', he', hs'⟩
      have hc' : c' 0 = c 0 + 1 := by
        rw [h0 0 (Nat.le_refl 0), Function.update_self]
      refine (ih he' hal' hs' (by omega) (fun i e hi ↦ ?_)
        fun e he ↦ hlen e (List.mem_cons_of_mem d he)).post ?_
      · rw [hc', Nat.add_assoc, Nat.add_comm 1]
        exact ht (i + 1) e hi
      · intro r s'' hr
        cases r with
        | error e => exact hr
        | ok a'' =>
          obtain ⟨c'', h0', hfin⟩ := hr
          refine ⟨c'', fun k hk ↦ ?_, hfin⟩
          rw [h0' k hk, hc', List.length_cons, Nat.add_assoc, Nat.add_comm 1]
    · exact fun e s' hr ↦ hr

/-! ### The blocks of a plan -/

/-- The writes of a whole plan are at its blocks, row after row. -/
theorem hechos_lbas (hreg : plan.Regular) :
    (hechos plan base t plan.porNivel).map Prod.fst =
      (List.range plan.total).map fun n ↦ base + UInt64.ofNat n := by
  have hfila : ∀ n, ((List.range n).flatMap fun k ↦
      (List.range (plan.porNivel k)).map fun i ↦ (sitio plan base k i, contenido plan base t k i)).map
        Prod.fst = (List.range (plan.inicio n)).map fun n ↦ base + UInt64.ofNat n := by
    intro n
    induction n with
    | zero => rfl
    | succ n ih =>
      rw [List.range_succ, List.flatMap_append, List.map_append, ih, List.flatMap_singleton,
        List.map_map, Plan.inicio, List.range_add, List.map_append, List.map_map]
      rfl
  rw [hreg.total]
  exact hfila _

theorem sitio_raiz (hreg : plan.Regular) :
    sitio plan base plan.niveles 0 = base + UInt64.ofNat (plan.total - 1) := by
  rw [sitio, hreg.total, Plan.inicio, hreg.cima]
  rfl

/-- Different blocks of a plan are in different places. -/
theorem sitio_inj (hreg : plan.Regular) {k i k' i' : Nat} (hk : k ≤ plan.niveles)
    (hk' : k' ≤ plan.niveles) (hi : i < plan.porNivel k) (hi' : i' < plan.porNivel k')
    (h : sitio plan base k i = sitio plan base k' i') : k = k' ∧ i = i' := by
  have htope : ∀ {k i}, k ≤ plan.niveles → i < plan.porNivel k → plan.inicio k + i < 2 ^ 64 := by
    intro k i hk hi
    have h1 : plan.inicio (k + 1) ≤ plan.inicio (plan.niveles + 1) :=
      plan.inicio_mono (Nat.succ_le_succ hk)
    have h2 := hreg.total_lt
    rw [hreg.total] at h2
    rw [Plan.inicio] at h1
    omega
  have hn : plan.inicio k + i = plan.inicio k' + i' := by
    have h' := congrArg UInt64.toNat (UInt64.add_right_inj base |>.mp h)
    rwa [UInt64.toNat_ofNat_of_lt' (htope hk hi), UInt64.toNat_ofNat_of_lt' (htope hk' hi')] at h'
  rcases Nat.lt_trichotomy k k' with hlt | rfl | hlt
  · have := plan.inicio_mono (Nat.succ_le_of_lt hlt)
    rw [Nat.succ_eq_add_one, Plan.inicio] at this
    omega
  · exact ⟨rfl, by omega⟩
  · have := plan.inicio_mono (Nat.succ_le_of_lt hlt)
    rw [Nat.succ_eq_add_one, Plan.inicio] at this
    omega

end Arbol

end BmoX.Estratos
