import BmoX.Base.Forest
import BmoX.Mm.Reparto
import BmoX.Mm.Vmm

/-!
# Spaces as partial maps

The tables of `kernel/src/ring0/mm/vmm/` over whole runs: each space is a partial map from pages to
frames, which a mapping changes at one page. The tables that a space makes for itself hang from it
alone, and the ones it shares with the kernel are never written.
-/

namespace BmoX.Mm

open BmoX.Base

/-! ### Addresses -/

/-- A user address: from 1 GiB to 512 GiB. -/
def Usuario (va : UInt64) : Prop := 0x40000000 ≤ va ∧ va < 0x8000000000

/-- Two addresses of the same page; the processor looks at 48 bits of them. -/
def MismaPagina (x y : UInt64) : Prop := x.toNat / 4096 % 2 ^ 36 = y.toNat / 4096 % 2 ^ 36

instance (x y : UInt64) : Decidable (MismaPagina x y) :=
  inferInstanceAs (Decidable (_ = _))

private theorem val_indice (va : UInt64) {k : UInt64} (hk : k.toNat < 64) :
    (Fin.ofNat casillas ((va >>> k) &&& 0x1FF).toNat : Nat) = va.toNat / 2 ^ k.toNat % 512 := by
  rw [Fin.val_ofNat, toNat_and_mask (w := 9) _ rfl, toNat_shiftRight va hk]
  exact Nat.mod_mod ..

private theorem val_i4 (va : UInt64) : (i4 va : Nat) = va.toNat / 2 ^ 39 % 512 :=
  val_indice va (k := 39) (by decide)

private theorem val_i3 (va : UInt64) : (i3 va : Nat) = va.toNat / 2 ^ 30 % 512 :=
  val_indice va (k := 30) (by decide)

private theorem val_i2 (va : UInt64) : (i2 va : Nat) = va.toNat / 2 ^ 21 % 512 :=
  val_indice va (k := 21) (by decide)

private theorem val_i1 (va : UInt64) : (i1 va : Nat) = va.toNat / 2 ^ 12 % 512 :=
  val_indice va (k := 12) (by decide)

private theorem mismaPagina_iff (x y : UInt64) :
    MismaPagina x y ↔ i4 x = i4 y ∧ i3 x = i3 y ∧ i2 x = i2 y ∧ i1 x = i1 y := by
  rw [MismaPagina, Fin.ext_iff, Fin.ext_iff, Fin.ext_iff, Fin.ext_iff, val_i4, val_i4, val_i3,
    val_i3, val_i2, val_i2, val_i1, val_i1]
  omega

private theorem indices_usuario {va : UInt64} (h : Usuario va) : i4 va = 0 ∧ i3 va ≠ 0 := by
  have hlo := UInt64.le_iff_toNat_le.mp h.1
  have hhi := UInt64.lt_iff_toNat_lt.mp h.2
  rw [show (0x40000000 : UInt64).toNat = 2 ^ 30 from rfl] at hlo
  rw [show (0x8000000000 : UInt64).toNat = 2 ^ 39 from rfl] at hhi
  constructor
  · apply Fin.ext
    rw [val_i4]
    show _ = 0
    omega
  · intro h0
    have hval := Fin.val_eq_of_eq h0
    rw [val_i3] at hval
    have hval : va.toNat / 2 ^ 30 % 512 = 0 := hval
    omega

/-! ### Entries -/

/-- The table that an entry links. -/
def sigue (e : UInt64) : Option UInt64 :=
  if e &&& ptePresent = 0 ∨ e &&& pteHuge ≠ 0 then none else some (e &&& addrMask)

private theorem addrMask_marco {f : UInt64} {k : Fin marcos} (h : indice f = some k) :
    f &&& addrMask = f := by
  have hk : (k : Nat) < 4194304 := k.isLt
  have hf := indice_eq_some.mp h
  apply UInt64.toNat_inj.mp
  rw [toNat_and_field (l := 12) (w := 40) _ rfl]
  omega

private theorem and_flag_marco {f m : UInt64} (h : f &&& addrMask = f) (hm : addrMask &&& m = 0) :
    f &&& m = 0 := by
  rw [← h, UInt64.and_assoc, hm, UInt64.and_zero]

/-- The flags of an entry that links a table. -/
def Medio (flags : UInt64) : Prop :=
  flags &&& ptePresent ≠ 0 ∧ flags &&& pteHuge = 0 ∧ flags &&& addrMask = 0

private theorem medio_mid (user : Bool) :
    Medio (ptePresent ||| pteWritable ||| (if user then pteUser else 0)) := by
  rw [Medio]
  cases user <;> decide

private theorem and_huge_enlace {f flags : UInt64} (h : f &&& addrMask = f) (hm : Medio flags) :
    (f ||| flags) &&& pteHuge = 0 := by
  rw [or_and_distrib, and_flag_marco h (by decide), hm.2.1, UInt64.zero_or]

private theorem sigue_enlace {f flags : UInt64} (h : f &&& addrMask = f) (hm : Medio flags) :
    sigue (f ||| flags) = some f := by
  rw [sigue, or_and_distrib, or_and_distrib, or_and_distrib, and_flag_marco h (by decide),
    and_flag_marco h (by decide), hm.2.2, hm.2.1, h, UInt64.zero_or, UInt64.zero_or,
    UInt64.or_zero, if_neg]
  rintro (h0 | h0)
  · exact hm.1 h0
  · exact h0 rfl

/-! ### The trees of the spaces -/

/-- The tables of a space, by the entries that lead to them. -/
inductive Nodo
  | raiz
  | pdpt
  | pd (i3 : Fin casillas)
  | pt (i3 i2 : Fin casillas)
  deriving DecidableEq

/-- The table that an entry is for: those of the kernel are for none. -/
def Nodo.hijo : Nodo → Fin casillas → Option Nodo
  | raiz, i => if i = 0 then some pdpt else none
  | pdpt, i => if i = 0 then none else some (pd i)
  | pd i3, i => some (pt i3 i)
  | pt _ _, _ => none

/-- The same, with the space. -/
def hijo (x : UInt64 × Nodo) (i : Fin casillas) : Option (UInt64 × Nodo) :=
  (x.2.hijo i).map fun n ↦ (x.1, n)

/-- A table of the kernel, as a walk from its top table finds it. -/
inductive Nucleo (mem : UInt64 → Fin casillas → UInt64) (k : UInt64) : UInt64 → Prop
  | pml4 : Nucleo mem k k
  | pdpt (a : Fin casillas) (h : mem k a &&& ptePresent ≠ 0) : Nucleo mem k (mem k a &&& addrMask)
  | pd {q : UInt64} (a b : Fin casillas) (h : mem k a &&& ptePresent ≠ 0)
      (hq : sigue (mem (mem k a &&& addrMask) b) = some q) : Nucleo mem k q
  | pt {q t : UInt64} (a b c : Fin casillas) (h : mem k a &&& ptePresent ≠ 0)
      (hq : sigue (mem (mem k a &&& addrMask) b) = some q)
      (ht : sigue (mem q c) = some t) : Nucleo mem k t

namespace Fisica

/-- The frame at an address is in use. -/
def Ocupado (s : Fisica) (f : UInt64) : Prop := ∃ k, indice f = some k ∧ s.bitmap.get k = true

/-- A frame in use that says it is a table. -/
def EsTabla (s : Fisica) (f : UInt64) : Prop :=
  f ≠ 0 ∧ s.Ocupado f ∧ s.titulares.titularDe f = .tabla

end Fisica

namespace Vmm

/-- What a state must be for spaces to be made in it: the tables of the kernel are frames in use,
the first gigabyte has one, and frame 0 is not given out. -/
structure Cimientos (s : Vmm) : Prop where
  nucleo : ∀ f, Nucleo s.mem s.kernelPml4 f → s.fisica.Ocupado f
  identidad : s.mem s.kernelPml4 0 &&& ptePresent ≠ 0
  cuenta : s.fisica.Cuenta
  cero : s.fisica.bitmap.get 0 = true

/-- The tables of the spaces `vivos`, each owned by one of them: their own ones form trees, and the
rest is shared with the kernel. -/
structure Inv (s : Vmm) (vivos : List UInt64) (dueno : UInt64 → Option (UInt64 × Nodo)) : Prop where
  cimientos : s.Cimientos
  bosque : Forest sigue hijo s.mem dueno
  raices : ∀ r ∈ vivos, dueno r = some (r, .raiz)
  vivo : ∀ f x, dueno f = some x → x.1 ∈ vivos
  pdpt : ∀ r ∈ vivos, ∃ p, dueno p = some (r, .pdpt)
  lisa : ∀ f x i y, dueno f = some x → hijo x i = some y → s.mem f i &&& pteHuge = 0
  tabla : ∀ f x, dueno f = some x → s.fisica.EsTabla f
  ajena : ∀ f, Nucleo s.mem s.kernelPml4 f → dueno f = none
  compartida : ∀ r ∈ vivos, ∀ i, i ≠ 0 →
    s.mem r i = if 256 ≤ (i : Nat) then s.mem s.kernelPml4 i else 0
  identidad : ∀ p r, dueno p = some (r, .pdpt) →
    s.mem p 0 = s.mem (s.mem s.kernelPml4 0 &&& addrMask) 0

/-! ### Walks -/

/-- The walk of `translate` from an entry of the second level on. -/
private def desde (mem : UInt64 → Fin casillas → UInt64) (e va : UInt64) : Option UInt64 :=
  if e &&& ptePresent = 0 then none
  else if e &&& pteHuge ≠ 0 then some ((e &&& 0x000FFFFFC0000000) + (va &&& 0x3FFFFFFF))
  else
    let e := mem (e &&& addrMask) (i2 va)
    if e &&& ptePresent = 0 then none
    else if e &&& pteHuge ≠ 0 then some ((e &&& 0x000FFFFFFFE00000) + (va &&& 0x1FFFFF))
    else
      let e := mem (e &&& addrMask) (i1 va)
      if e &&& ptePresent = 0 then none else some (e &&& addrMask)

private theorem translate_eq (s : Vmm) (r va : UInt64) : s.translate r va =
    if s.mem r (i4 va) &&& ptePresent = 0 then none
    else desde s.mem (s.mem (s.mem r (i4 va) &&& addrMask) (i3 va)) va := rfl

private theorem desde_congr {mem mem' : UInt64 → Fin casillas → UInt64} {k va : UInt64}
    (h : ∀ f, Nucleo mem k f → mem' f = mem f) {a b : Fin casillas}
    (ha : mem k a &&& ptePresent ≠ 0) :
    desde mem' (mem (mem k a &&& addrMask) b) va = desde mem (mem (mem k a &&& addrMask) b) va := by
  rw [desde, desde]
  split
  · rfl
  · next h1 =>
    split
    · rfl
    · next h2 =>
      have hq : sigue (mem (mem k a &&& addrMask) b) =
          some (mem (mem k a &&& addrMask) b &&& addrMask) :=
        if_neg (not_or.mpr ⟨h1, h2⟩)
      rw [h _ (.pd a b ha hq)]
      dsimp only
      split
      · rfl
      · next h3 =>
        split
        · rfl
        · next h4 =>
          rw [h _ (.pt a b (i2 va) ha hq (if_neg (not_or.mpr ⟨h3, h4⟩)))]

private theorem translate_congr {s s' : Vmm}
    (h : ∀ f, Nucleo s.mem s.kernelPml4 f → s'.mem f = s.mem f) (va : UInt64) :
    s'.translate s.kernelPml4 va = s.translate s.kernelPml4 va := by
  rw [translate_eq, translate_eq, h _ .pml4]
  split
  · rfl
  · next h4 =>
    rw [h _ (.pdpt (i4 va) h4)]
    exact desde_congr h h4

private theorem sigue_cases {e : UInt64} (h : e &&& pteHuge = 0) :
    (sigue e = none ∧ e &&& ptePresent = 0) ∨
      (sigue e = some (e &&& addrMask) ∧ e &&& ptePresent ≠ 0) := by
  by_cases hp : e &&& ptePresent = 0
  · exact .inl ⟨if_pos (.inl hp), hp⟩
  · refine .inr ⟨if_neg ?_, hp⟩
    rintro (h' | h')
    · exact hp h'
    · exact h' h

namespace Inv

variable {s : Vmm} {vivos : List UInt64} {dueno : UInt64 → Option (UInt64 × Nodo)}

private theorem segunda (hs : s.Inv vivos dueno) {r : UInt64} (hr : r ∈ vivos) :
    ∃ p, dueno p = some (r, .pdpt) ∧ s.mem r 0 &&& ptePresent ≠ 0 ∧
      s.mem r 0 &&& pteHuge = 0 ∧ s.mem r 0 &&& addrMask = p := by
  obtain ⟨p, hp⟩ := hs.pdpt r hr
  have hraiz := hs.raices r hr
  have hlisa := hs.lisa r (r, .raiz) 0 (r, .pdpt) hraiz rfl
  have hlink := (hs.bosque.link hraiz (i := 0) (q := (r, .pdpt)) rfl p).mpr hp
  rcases sigue_cases hlisa with ⟨hnone, -⟩ | ⟨hsome, hpres⟩
  · rw [hnone] at hlink
    cases hlink
  · rw [hsome, Option.some.injEq] at hlink
    exact ⟨p, hp, hpres, hlisa, hlink⟩

private theorem translate_ajena (hs : s.Inv vivos dueno) {r : UInt64} (hr : r ∈ vivos) {va : UInt64}
    (hva : i4 va = 0 → i3 va = 0) : s.translate r va =
      if i4 va = 0 ∨ 256 ≤ (i4 va : Nat) then s.translate s.kernelPml4 va else none := by
  by_cases h4 : i4 va = 0
  · obtain ⟨p, hp, hpres, -, haddr⟩ := hs.segunda hr
    rw [if_pos (.inl h4), translate_eq, translate_eq, h4, hva h4, if_neg hpres,
      if_neg hs.cimientos.identidad, haddr, hs.identidad p r hp]
  · rw [translate_eq, hs.compartida r hr _ h4]
    by_cases h256 : 256 ≤ (i4 va : Nat)
    · rw [if_pos h256, if_pos (show i4 va = 0 ∨ 256 ≤ (i4 va : Nat) from .inr h256)]
      rfl
    · rw [if_neg h256, if_neg (not_or.mpr ⟨h4, h256⟩), UInt64.zero_and, if_pos rfl]

/-- A user address: either its last table is there, and everything is decided by one entry, or
nothing is mapped. -/
private theorem camino (hs : s.Inv vivos dueno) {r : UInt64} (hr : r ∈ vivos) {va : UInt64}
    (h4 : i4 va = 0) (h3 : i3 va ≠ 0) :
    (∃ t, dueno t = some (r, .pt (i3 va) (i2 va)) ∧
      s.translate r va = (if s.mem t (i1 va) &&& ptePresent = 0 then none
        else some (s.mem t (i1 va) &&& addrMask)) ∧
      s.fisicaExacta r va = (if s.mem t (i1 va) &&& ptePresent = 0 then none
        else some ((s.mem t (i1 va) &&& addrMask) + (va &&& (page - 1)))) ∧
      s.unmapPage r va = (if s.mem t (i1 va) &&& ptePresent = 0 then (none, s)
        else (some (s.mem t (i1 va) &&& addrMask), s.pon t (i1 va) 0))) ∨
    ((∀ t, dueno t ≠ some (r, .pt (i3 va) (i2 va))) ∧ s.translate r va = none ∧
      s.fisicaExacta r va = none ∧ s.unmapPage r va = (none, s)) := by
  obtain ⟨p, hp, hpres, hlisa, haddr⟩ := hs.segunda hr
  have hhijo : hijo (r, .pdpt) (i3 va) = some (r, .pd (i3 va)) := by
    rw [hijo, Nodo.hijo, if_neg h3]
    rfl
  have hhijo' : hijo (r, .pd (i3 va)) (i2 va) = some (r, .pt (i3 va) (i2 va)) := rfl
  have hlisap := hs.lisa p _ _ _ hp hhijo
  rw [translate, fisicaExacta, unmapPage]
  dsimp only
  rw [h4, haddr, if_neg hpres, if_neg hpres, if_neg (not_or.mpr ⟨hpres, not_not.mpr hlisa⟩)]
  rcases sigue_cases hlisap with ⟨hnone, h0⟩ | ⟨hsome, h1⟩
  · refine .inr ⟨fun t ht ↦ ?_, if_pos h0, if_pos h0, if_pos (.inl h0)⟩
    obtain ⟨q, hq⟩ := hs.bosque.parent ht hhijo'
    exact hs.bosque.absent hp hhijo hnone q hq
  · rw [if_neg h1, if_neg h1, if_neg (not_or.mpr ⟨h1, not_not.mpr hlisap⟩),
      if_neg (not_not.mpr hlisap), if_neg (not_not.mpr hlisap)]
    have hq := (hs.bosque.link hp hhijo _).mp hsome
    have hlisaq := hs.lisa _ _ _ _ hq hhijo'
    generalize s.mem p (i3 va) &&& addrMask = q at hq hlisaq
    rcases sigue_cases hlisaq with ⟨hnone, h0⟩ | ⟨hsome, h2⟩
    · exact .inr ⟨hs.bosque.absent hq hhijo' hnone, if_pos h0, if_pos h0, if_pos (.inl h0)⟩
    · rw [if_neg h2, if_neg h2, if_neg (not_or.mpr ⟨h2, not_not.mpr hlisaq⟩),
        if_neg (not_not.mpr hlisaq), if_neg (not_not.mpr hlisaq)]
      exact .inl ⟨_, (hs.bosque.link hq hhijo' _).mp hsome, rfl, rfl, rfl⟩

/-- What is mapped at an address is the same in two states, where its last table and its entry
are. -/
theorem translate_mismo {s' : Vmm} {vivos' : List UInt64}
    {dueno' : UInt64 → Option (UInt64 × Nodo)} (hs : s.Inv vivos dueno) (hs' : s'.Inv vivos' dueno')
    {r : UInt64} (hr : r ∈ vivos) (hr' : r ∈ vivos') (hk : s'.kernelPml4 = s.kernelPml4)
    (hnucleo : ∀ f, Nucleo s.mem s.kernelPml4 f → s'.mem f = s.mem f) {va : UInt64}
    (h : ∀ t, dueno' t = some (r, .pt (i3 va) (i2 va)) →
      dueno t = some (r, .pt (i3 va) (i2 va)) ∧ s'.mem t (i1 va) = s.mem t (i1 va) ∨
      (∀ t', dueno t' ≠ some (r, .pt (i3 va) (i2 va))) ∧ s'.mem t (i1 va) = 0)
    (h' : ∀ t, dueno t = some (r, .pt (i3 va) (i2 va)) →
      dueno' t = some (r, .pt (i3 va) (i2 va))) :
    s'.translate r va = s.translate r va := by
  by_cases hva : i4 va = 0 → i3 va = 0
  · rw [hs.translate_ajena hr hva, hs'.translate_ajena hr' hva, hk, translate_congr hnucleo]
  · rw [Classical.not_imp] at hva
    rcases hs'.camino hr' hva.1 hva.2 with ⟨t, ht, htr, -, -⟩ | ⟨hno, htr, -, -⟩
    · rw [htr]
      rcases h t ht with ⟨hold, hmem⟩ | ⟨hno, hmem⟩
      · rcases hs.camino hr hva.1 hva.2 with ⟨t', ht', htr', -, -⟩ | ⟨hno, -⟩
        · rw [htr', hs.bosque.inj ht' hold, hmem]
        · exact absurd hold (hno t)
      · rcases hs.camino hr hva.1 hva.2 with ⟨t', ht', -⟩ | ⟨-, htr', -, -⟩
        · exact absurd ht' (hno t')
        · rw [htr', hmem, UInt64.zero_and, if_pos rfl]
    · rcases hs.camino hr hva.1 hva.2 with ⟨t', ht', -⟩ | ⟨-, htr', -, -⟩
      · exact absurd (h' t' ht') (hno t')
      · rw [htr, htr']

end Inv

/-- The kernel's tables stay while nobody writes them. -/
theorem Nucleo.congr {mem mem' : UInt64 → Fin casillas → UInt64} {k f : UInt64}
    (h : ∀ f, Nucleo mem k f → mem' f = mem f) (hf : Nucleo mem' k f) : Nucleo mem k f := by
  have hk : mem' k = mem k := h k .pml4
  have hd : ∀ {a}, mem k a &&& ptePresent ≠ 0 → mem' (mem k a &&& addrMask) =
      mem (mem k a &&& addrMask) := fun {a} ha ↦ h _ (.pdpt a ha)
  cases hf with
  | pml4 => exact .pml4
  | pdpt a ha =>
    rw [hk] at ha ⊢
    exact .pdpt a ha
  | pd a b ha hq =>
    rw [hk] at ha hq
    rw [hd ha] at hq
    exact .pd a b ha hq
  | pt a b c ha hq ht =>
    rw [hk] at ha hq
    rw [hd ha] at hq
    rw [h _ (.pd a b ha hq)] at ht
    exact .pt a b c ha hq ht

/-- What the tables of the kernel need is kept while they are not written and their frames stay in
use. -/
theorem Cimientos.retoca {s s' : Vmm} (hs : s.Cimientos)
    (hk : s'.kernelPml4 = s.kernelPml4)
    (hnucleo : ∀ f, Nucleo s.mem s.kernelPml4 f → s'.mem f = s.mem f)
    (hocupado : ∀ f, Nucleo s.mem s.kernelPml4 f → s'.fisica.Ocupado f)
    (hcuenta : s'.fisica.Cuenta) (hcero : s'.fisica.bitmap.get 0 = true) : s'.Cimientos where
  nucleo f hf := by
    rw [hk] at hf
    exact hocupado f (Nucleo.congr hnucleo hf)
  identidad := by
    rw [hk, hnucleo _ .pml4]
    exact hs.identidad
  cuenta := hcuenta
  cero := hcero

/-! ### A new table -/

private theorem hijo_inj {x x' y : UInt64 × Nodo} {i i' : Fin casillas} (h : hijo x i = some y)
    (h' : hijo x' i' = some y) : x = x' ∧ i = i' := by
  obtain ⟨r, n⟩ := x
  obtain ⟨r', n'⟩ := x'
  rw [hijo, Option.map_eq_some_iff] at h h'
  obtain ⟨m, hm, rfl⟩ := h
  obtain ⟨m', hm', heq⟩ := h'
  obtain ⟨rfl, rfl⟩ := Prod.mk.inj heq
  cases n <;> cases n' <;> simp only [Nodo.hijo] at hm hm' <;> grind

/-- A step of an operation of the space `r`: tables may be new, all of them frames taken from the
allocator for `r`. -/
structure Avance (vivos : List UInt64) (r : UInt64) (s : Vmm)
    (dueno : UInt64 → Option (UInt64 × Nodo)) (s' : Vmm)
    (dueno' : UInt64 → Option (UInt64 × Nodo)) : Prop where
  inv : s'.Inv vivos dueno'
  nx : s'.nx = s.nx
  kernel : s'.kernelPml4 = s.kernelPml4
  crece : ∀ a x, dueno a = some x → dueno' a = some x
  nuevas : ∀ a x, dueno' a = some x → dueno a = some x ∨
    x.1 = r ∧ ∃ f, indice a = some f ∧ s.fisica.bitmap.get f = false
  sube : ∀ f : Fin marcos, s.fisica.bitmap.get f = true → s'.fisica.bitmap.get f = true
  tomadas : ∀ f : Fin marcos, s'.fisica.bitmap.get f = true →
    s.fisica.bitmap.get f = true ∨ ∃ n, dueno' (direccion f) = some (r, n)
  nucleo : s'.translate s.kernelPml4 = s.translate s.kernelPml4

/-- The same, where every translation is as it was. -/
structure Avanza (vivos : List UInt64) (r : UInt64) (s : Vmm)
    (dueno : UInt64 → Option (UInt64 × Nodo)) (s' : Vmm)
    (dueno' : UInt64 → Option (UInt64 × Nodo)) : Prop extends
    Avance vivos r s dueno s' dueno' where
  igual : ∀ r' ∈ vivos, s'.translate r' = s.translate r'

variable {s s' s'' : Vmm} {vivos : List UInt64} {r : UInt64}
  {dueno dueno' dueno'' : UInt64 → Option (UInt64 × Nodo)}

theorem Avanza.refl (hs : s.Inv vivos dueno) : Avanza vivos r s dueno s dueno where
  inv := hs
  nx := rfl
  kernel := rfl
  crece _ _ h := h
  nuevas _ _ h := .inl h
  sube _ h := h
  tomadas _ h := .inl h
  nucleo := rfl
  igual _ _ := rfl

theorem Avance.trans (h : Avance vivos r s dueno s' dueno')
    (h' : Avance vivos r s' dueno' s'' dueno'') : Avance vivos r s dueno s'' dueno'' where
  inv := h'.inv
  nx := h'.nx.trans h.nx
  kernel := h'.kernel.trans h.kernel
  crece a x ha := h'.crece a x (h.crece a x ha)
  nuevas a x ha := by
    rcases h'.nuevas a x ha with ha | ⟨hr, f, hf, hfree⟩
    · exact h.nuevas a x ha
    · refine .inr ⟨hr, f, hf, ?_⟩
      cases hb : s.fisica.bitmap.get f with
      | false => rfl
      | true => exact absurd (hfree.symm.trans (h.sube f hb)) Bool.false_ne_true
  sube f hf := h'.sube f (h.sube f hf)
  tomadas f hf := by
    rcases h'.tomadas f hf with hf | hf
    · rcases h.tomadas f hf with hf | ⟨n, hn⟩
      · exact .inl hf
      · exact .inr ⟨n, h'.crece _ _ hn⟩
    · exact .inr hf
  nucleo := by
    rw [← h.nucleo, ← h.kernel]
    exact h'.nucleo

theorem Avanza.trans (h : Avanza vivos r s dueno s' dueno')
    (h' : Avanza vivos r s' dueno' s'' dueno'') : Avanza vivos r s dueno s'' dueno'' where
  toAvance := h.toAvance.trans h'.toAvance
  igual r' hr' := (h'.igual r' hr').trans (h.igual r' hr')

private theorem Inv.fresco (hs : s.Inv vivos dueno) {f : Fin marcos}
    (hlib : s.fisica.bitmap.get f = false) : dueno (direccion f) = none ∧ direccion f ≠ 0 ∧
      ¬ Nucleo s.mem s.kernelPml4 (direccion f) := by
  have hlibre : ¬ s.fisica.Ocupado (direccion f) := by
    rintro ⟨k, hk, hbit⟩
    rw [indice_direccion, Option.some.injEq] at hk
    rw [← hk, hlib] at hbit
    cases hbit
  refine ⟨?_, ?_, fun hn ↦ hlibre (hs.cimientos.nucleo _ hn)⟩
  · cases hd : dueno (direccion f) with
    | none => rfl
    | some x => exact absurd (hs.tabla _ _ hd).2.1 hlibre
  · intro h0
    have hf := congrArg UInt64.toNat h0
    rw [toNat_direccion] at hf
    have hf0 : (f : Nat) = 0 := by
      rw [show (0 : UInt64).toNat = 0 from rfl] at hf
      omega
    rw [hf0, hs.cimientos.cero] at hlib
    cases hlib

private theorem zeroFrame_direccion (s : Vmm) {f : Fin marcos} (h0 : direccion f ≠ 0) :
    s.zeroFrame (direccion f) =
      { s with mem := Function.update s.mem (direccion f) fun _ ↦ 0 } := by
  have hf : (f : Nat) < 4194304 := f.isLt
  have hmod : direccion f % page = 0 := by
    apply UInt64.toNat_inj.mp
    rw [UInt64.toNat_mod, toNat_direccion]
    exact Nat.mul_mod_left ..
  have hcam : caminable (direccion f) = true := by
    rw [caminable, decide_eq_true_eq]
    refine ⟨h0, UInt64.lt_iff_toNat_lt.mpr ?_⟩
    rw [toNat_direccion]
    show (f : Nat) * 4096 < 17179869184
    omega
  rw [zeroFrame, if_neg]
  rw [hmod, hcam]
  decide

private theorem esTabla_pedido {t : Fisica} {f : Fin marcos} {q : Titular} {a : UInt64}
    (hp : Fisica.Pedido s.fisica t f q) (ha : s.fisica.EsTabla a) : t.EsTabla a := by
  obtain ⟨h0, ⟨k, hk, hbit⟩, hq⟩ := ha
  have hne : k ≠ f := by
    rintro rfl
    rw [hp.libre] at hbit
    cases hbit
  refine ⟨h0, ⟨k, hk, ?_⟩, ?_⟩
  · rw [hp.bits, hbit, Bool.true_or]
  · rw [hp.ajenos, hq]
    rw [hk, ne_eq, Option.some.injEq]
    exact hne

theorem hijo_fst {x y : UInt64 × Nodo} {i : Fin casillas} (h : hijo x i = some y) : y.1 = x.1 := by
  rw [hijo, Option.map_eq_some_iff] at h
  obtain ⟨n, -, rfl⟩ := h
  rfl

/-- A new table at `f` is linked from the entry `i` of `t`, where there was none. -/
private structure Enlace (s s' : Vmm) (dueno : UInt64 → Option (UInt64 × Nodo))
    (x y : UInt64 × Nodo) (t f : UInt64) (i : Fin casillas) (flags : UInt64) : Prop where
  madre : dueno t = some x
  sitio : hijo x i = some y
  vacia : sigue (s.mem t i) = none
  libre : dueno f = none
  ajena : ¬Nucleo s.mem s.kernelPml4 f
  marco : f &&& addrMask = f
  medio : Medio flags
  kernel : s'.kernelPml4 = s.kernelPml4
  nueva : ∀ j, s'.mem f j = 0
  enlace : s'.mem t i = f ||| flags
  mem : ∀ a j, a ≠ f → (a = t → j ≠ i) → s'.mem a j = s.mem a j

namespace Enlace

variable {x y : UInt64 × Nodo} {t f : UInt64} {i : Fin casillas} {flags : UInt64}

private theorem vieja (h : Enlace s s' dueno x y t f i flags) {a : UInt64} {z : UInt64 × Nodo}
    (ha : dueno a = some z) : a ≠ f := by
  rintro rfl
  rw [h.libre] at ha
  cases ha

private theorem nucleo (h : Enlace s s' dueno x y t f i flags) (hs : s.Inv vivos dueno) (g : UInt64)
    (hg : Nucleo s.mem s.kernelPml4 g) : s'.mem g = s.mem g := by
  funext j
  refine h.mem g j (fun hgf ↦ h.ajena (hgf ▸ hg)) ?_
  rintro rfl
  have ht := h.madre
  rw [hs.ajena _ hg] at ht
  cases ht

private theorem bosque (h : Enlace s s' dueno x y t f i flags) (hs : s.Inv vivos dueno) :
    Forest sigue hijo s'.mem (Function.update dueno f (some y)) := by
  refine hs.bosque.grow hijo_inj h.madre h.sitio h.vacia h.libre ?_ (fun {j q'} _ ↦ ?_)
    fun {a p' j q'} ha hj hq ↦ ?_
  · rw [h.enlace]
    exact sigue_enlace h.marco h.medio
  · rw [h.nueva]
    rfl
  · refine h.mem a j (h.vieja ha) ?_
    rintro rfl rfl
    obtain rfl : p' = x := Option.some.inj (ha.symm.trans h.madre)
    exact hq (Option.some.inj (hj.symm.trans h.sitio))

private theorem lisa (h : Enlace s s' dueno x y t f i flags) (hs : s.Inv vivos dueno) {a : UInt64}
    {z w : UInt64 × Nodo} {j : Fin casillas} (ha : Function.update dueno f (some y) a = some z)
    (hw : hijo z j = some w) : s'.mem a j &&& pteHuge = 0 := by
  rcases (Forest.owner_update h.libre).mp ha with ⟨rfl, -⟩ | ha
  · rw [h.nueva, UInt64.zero_and]
  · by_cases hj : a = t ∧ j = i
    · rw [hj.1, hj.2, h.enlace]
      exact and_huge_enlace h.marco h.medio
    · rw [h.mem a j (h.vieja ha) fun hat hji ↦ hj ⟨hat, hji⟩]
      exact hs.lisa a z j w ha hw

private theorem compartida (h : Enlace s s' dueno x y t f i flags) (hs : s.Inv vivos dueno)
    {r' : UInt64} (hr' : r' ∈ vivos) {j : Fin casillas} (hj : j ≠ 0) :
    s'.mem r' j = if 256 ≤ (j : Nat) then s'.mem s'.kernelPml4 j else 0 := by
  have hraiz := hs.raices r' hr'
  rw [h.kernel, h.nucleo hs _ .pml4, h.mem r' j (h.vieja hraiz), hs.compartida r' hr' j hj]
  -- the entry of the new table is not one of these
  rintro rfl rfl
  obtain rfl : x = (r', .raiz) := Option.some.inj (h.madre.symm.trans hraiz)
  have hc := h.sitio
  rw [hijo, Nodo.hijo, if_neg hj] at hc
  cases hc

private theorem identidad (h : Enlace s s' dueno x y t f i flags) (hs : s.Inv vivos dueno)
    {p r' : UInt64} (hp : Function.update dueno f (some y) p = some (r', .pdpt)) :
    s'.mem p 0 = s'.mem (s'.mem s'.kernelPml4 0 &&& addrMask) 0 := by
  rw [h.kernel, h.nucleo hs _ .pml4, h.nucleo hs _ (.pdpt 0 hs.cimientos.identidad)]
  rcases (Forest.owner_update h.libre).mp hp with ⟨-, rfl⟩ | hp
  · -- every space has its second table already
    have hv := hs.vivo t x h.madre
    rw [← hijo_fst h.sitio] at hv
    obtain ⟨p', hp'⟩ := hs.pdpt r' hv
    exact absurd hp' (hs.bosque.absent h.madre h.sitio h.vacia p')
  · rw [h.mem p 0 (h.vieja hp), hs.identidad p r' hp]
    rintro rfl rfl
    have hc := h.sitio
    obtain rfl : x = (r', .pdpt) := Option.some.inj (h.madre.symm.trans hp)
    cases hc

private theorem inv (h : Enlace s s' dueno x y t f i flags) (hs : s.Inv vivos dueno)
    (hcuenta : s'.fisica.Cuenta)
    (hsube : ∀ g : Fin marcos, s.fisica.bitmap.get g = true → s'.fisica.bitmap.get g = true)
    (htabla : s'.fisica.EsTabla f) (htablas : ∀ a z, dueno a = some z → s'.fisica.EsTabla a) :
    s'.Inv vivos (Function.update dueno f (some y)) where
  cimientos := by
    refine hs.cimientos.retoca h.kernel (h.nucleo hs) (fun g hg ↦ ?_) hcuenta
      (hsube 0 hs.cimientos.cero)
    obtain ⟨k, hkg, hbit⟩ := hs.cimientos.nucleo g hg
    exact ⟨k, hkg, hsube k hbit⟩
  bosque := h.bosque hs
  raices r' hr' := (Forest.owner_update h.libre).mpr (.inr (hs.raices r' hr'))
  vivo a z ha := by
    rcases (Forest.owner_update h.libre).mp ha with ⟨-, rfl⟩ | ha
    · rw [hijo_fst h.sitio]
      exact hs.vivo t x h.madre
    · exact hs.vivo a z ha
  pdpt r' hr' := by
    obtain ⟨p, hp⟩ := hs.pdpt r' hr'
    exact ⟨p, (Forest.owner_update h.libre).mpr (.inr hp)⟩
  lisa _ _ _ _ ha hw := h.lisa hs ha hw
  tabla a z ha := by
    rcases (Forest.owner_update h.libre).mp ha with ⟨rfl, -⟩ | ha
    · exact htabla
    · exact htablas a z ha
  ajena g hg := by
    rw [h.kernel] at hg
    have hg := Nucleo.congr (h.nucleo hs) hg
    have hne : g ≠ f := by
      rintro rfl
      exact h.ajena hg
    rw [Function.update_of_ne hne]
    exact hs.ajena g hg
  compartida _ hr' _ hj := h.compartida hs hr' hj
  identidad _ _ hp := h.identidad hs hp

private theorem translate (h : Enlace s s' dueno x y t f i flags) (hs : s.Inv vivos dueno)
    (hs' : s'.Inv vivos (Function.update dueno f (some y))) {r' : UInt64} (hr' : r' ∈ vivos) :
    s'.translate r' = s.translate r' := by
  funext va
  refine hs.translate_mismo hs' hr' hr' h.kernel (h.nucleo hs) (fun a ha ↦ ?_)
    fun a ha ↦ (Forest.owner_update h.libre).mpr (.inr ha)
  rcases (Forest.owner_update h.libre).mp ha with ⟨rfl, rfl⟩ | ha
  · exact .inr ⟨hs.bosque.absent h.madre h.sitio h.vacia, h.nueva _⟩
  · refine .inl ⟨ha, h.mem a _ (h.vieja ha) ?_⟩
    have hc := h.sitio
    rintro rfl
    obtain rfl := Option.some.inj (h.madre.symm.trans ha)
    cases hc

end Enlace

private theorem Inv.enlace (hs : s.Inv vivos dueno) {t : UInt64} {x y : UInt64 × Nodo}
    {i : Fin casillas} (ht : dueno t = some x) (hc : hijo x i = some y)
    (hnone : s.mem t i &&& ptePresent = 0) {f : Fin marcos} {fisica : Fisica}
    (hp : Fisica.Pedido s.fisica fisica f .tabla) {flags : UInt64} (hm : Medio flags) :
    ∃ s', ({ s with fisica := fisica }.zeroFrame (direccion f)).pon t i
        ((direccion f &&& addrMask) ||| flags) = s' ∧
      Enlace s s' dueno x y t (direccion f) i flags ∧ s'.fisica = fisica ∧ s'.nx = s.nx := by
  obtain ⟨hfree, h0, hnuc⟩ := hs.fresco hp.libre
  have hmask := addrMask_marco (indice_direccion f)
  have htf : t ≠ direccion f := by
    rintro rfl
    rw [hfree] at ht
    cases ht
  rw [zeroFrame_direccion _ h0, hmask]
  refine ⟨_, rfl, ⟨ht, hc, if_pos (.inl hnone), hfree, hnuc, hmask, hm, rfl, fun j ↦ ?_, ?_,
    fun a j ha hj ↦ ?_⟩, rfl, rfl⟩
  · simp only [pon]
    rw [Function.update_of_ne htf.symm, Function.update_self]
  · simp only [pon]
    rw [Function.update_self, Function.update_self]
  · simp only [pon]
    by_cases hat : a = t
    · rw [hat, Function.update_self, Function.update_of_ne (hj hat), Function.update_of_ne htf]
    · rw [Function.update_of_ne hat, Function.update_of_ne ha]

private theorem Inv.crece (hs : s.Inv vivos dueno) {t : UInt64} {x y : UInt64 × Nodo}
    {i : Fin casillas} (ht : dueno t = some x) (hc : hijo x i = some y)
    (hnone : s.mem t i &&& ptePresent = 0) {f : Fin marcos} {fisica : Fisica}
    (hp : Fisica.Pedido s.fisica fisica f .tabla) {flags : UInt64} (hm : Medio flags) :
    Avanza vivos x.1 s dueno
      (({ s with fisica := fisica }.zeroFrame (direccion f)).pon t i
        ((direccion f &&& addrMask) ||| flags))
      (Function.update dueno (direccion f) (some y)) := by
  obtain ⟨s', hs', he, hfis, hnx⟩ := hs.enlace ht hc hnone hp hm
  rw [hs']
  have h0 := (hs.fresco hp.libre).2.1
  have hsube : ∀ g : Fin marcos, s.fisica.bitmap.get g = true → s'.fisica.bitmap.get g = true := by
    intro g hg
    rw [hfis, hp.bits, hg, Bool.true_or]
  have hinv : s'.Inv vivos (Function.update dueno (direccion f) (some y)) := by
    refine he.inv hs (hfis ▸ hp.cuenta) hsube ?_ fun a z ha ↦ ?_
    · rw [hfis]
      refine ⟨h0, ⟨f, indice_direccion f, ?_⟩, hp.suyo⟩
      rw [hp.bits, decide_eq_true rfl, Bool.or_true]
    · rw [hfis]
      exact esTabla_pedido hp (hs.tabla a z ha)
  refine ⟨⟨hinv, hnx, he.kernel, fun a z ha ↦ (Forest.owner_update he.libre).mpr (.inr ha),
    fun a z ha ↦ ?_, hsube, fun g hg ↦ ?_, ?_⟩, fun r' hr' ↦ he.translate hs hinv hr'⟩
  · rcases (Forest.owner_update he.libre).mp ha with ⟨rfl, rfl⟩ | ha
    · exact .inr ⟨hijo_fst hc, f, indice_direccion f, hp.libre⟩
    · exact .inl ha
  · rw [hfis, hp.bits, Bool.or_eq_true, decide_eq_true_eq] at hg
    rcases hg with hg | rfl
    · exact .inl hg
    · refine .inr ⟨y.2, ?_⟩
      rw [Function.update_self, ← hijo_fst hc]
  · funext va
    exact translate_congr (he.nucleo hs) va

/-- `get_or_create` at an entry that is for a table. -/
theorem Inv.getOrCreate (hs : s.Inv vivos dueno) {t : UInt64} {x y : UInt64 × Nodo}
    {i : Fin casillas} (ht : dueno t = some x) (hc : hijo x i = some y) {flags : UInt64}
    (hm : Medio flags) :
    ∃ dueno', Avanza vivos x.1 s dueno (s.getOrCreate t i flags).2 dueno' ∧
      ∀ f, (s.getOrCreate t i flags).1 = .ok f → dueno' f = some y := by
  have hlisa := hs.lisa t x i y ht hc
  rw [Vmm.getOrCreate]
  by_cases hp : s.mem t i &&& ptePresent = 0
  · rw [if_neg (not_not.mpr hp)]
    rcases Fisica.allocFrameDe_cases hs.cimientos.cuenta .tabla with ⟨heq, -⟩ | ⟨f, u, heq, hu⟩
    · rw [heq]
      refine ⟨dueno, Avanza.refl hs, fun f h ↦ ?_⟩
      cases h
    · rw [heq]
      refine ⟨_, hs.crece ht hc hp hu hm, fun g hg ↦ ?_⟩
      cases hg
      exact Function.update_self ..
  · rw [if_pos hp, if_neg (not_not.mpr hlisa)]
    refine ⟨dueno, Avanza.refl hs, fun f h ↦ ?_⟩
    cases h
    refine (hs.bosque.link ht hc _).mp (if_neg ?_)
    rintro (h | h)
    · exact hp h
    · exact h hlisa

/-! ### One entry of a last table -/

/-- Writing an entry of a last table keeps the invariant, and changes one page of one space. -/
theorem Inv.escribe (hs : s.Inv vivos dueno) {t : UInt64} {a b i : Fin casillas}
    (ht : dueno t = some (r, .pt a b)) (e : UInt64) :
    (s.pon t i e).Inv vivos dueno ∧
    (s.pon t i e).translate s.kernelPml4 = s.translate s.kernelPml4 ∧
    ∀ r' ∈ vivos, ∀ va, (i4 va = 0 → i3 va ≠ 0 → r' = r → i3 va = a → i2 va = b → i1 va ≠ i) →
      (s.pon t i e).translate r' va = s.translate r' va := by
  have hmem : ∀ g j, (g = t → j ≠ i) → (s.pon t i e).mem g j = s.mem g j := by
    intro g j hg
    rw [pon]
    dsimp only
    by_cases hgt : g = t
    · rw [hgt, Function.update_self, Function.update_of_ne (hg hgt)]
    · rw [Function.update_of_ne hgt]
  have hotra : ∀ {g x}, dueno g = some x → (∀ c d, x.2 ≠ .pt c d) → g ≠ t := by
    rintro g x hg hx rfl
    obtain rfl := Option.some.inj (hg.symm.trans ht)
    exact hx a b rfl
  have hnucleo : ∀ g, Nucleo s.mem s.kernelPml4 g → (s.pon t i e).mem g = s.mem g := by
    intro g hg
    funext j
    refine hmem g j ?_
    rintro rfl
    rw [hs.ajena _ hg] at ht
    cases ht
  have hhijo : ∀ {g x j y}, dueno g = some x → hijo x j = some y →
      (s.pon t i e).mem g j = s.mem g j := by
    intro g x j y hg hy
    refine hmem g j ?_
    rintro rfl
    obtain rfl := Option.some.inj (hg.symm.trans ht)
    cases hy
  have hinv : (s.pon t i e).Inv vivos dueno := by
    constructor
    · exact hs.cimientos.retoca rfl hnucleo hs.cimientos.nucleo hs.cimientos.cuenta
        hs.cimientos.cero
    · exact hs.bosque.frame hhijo
    · exact hs.raices
    · exact hs.vivo
    · exact hs.pdpt
    · intro g x j y hg hy
      rw [hhijo hg hy]
      exact hs.lisa g x j y hg hy
    · exact hs.tabla
    · exact fun g hg ↦ hs.ajena g (Nucleo.congr hnucleo hg)
    · intro r' hr' j hj
      show _ = if 256 ≤ (j : Nat) then (s.pon t i e).mem s.kernelPml4 j else 0
      rw [hnucleo _ .pml4, hmem r' j, hs.compartida r' hr' j hj]
      exact fun h ↦ absurd h (hotra (hs.raices r' hr') fun _ _ ↦ Nodo.noConfusion)
    · intro p r' hp
      show _ = (s.pon t i e).mem ((s.pon t i e).mem s.kernelPml4 0 &&& addrMask) 0
      rw [hnucleo _ .pml4, hnucleo _ (.pdpt 0 hs.cimientos.identidad), hmem p 0,
        hs.identidad p r' hp]
      exact fun h ↦ absurd h (hotra hp fun _ _ ↦ Nodo.noConfusion)
  refine ⟨hinv, funext fun va ↦ translate_congr hnucleo va, fun r' hr' va hva ↦ ?_⟩
  by_cases hus : i4 va = 0 → i3 va = 0
  · rw [hs.translate_ajena hr' hus, hinv.translate_ajena hr' hus]
    show (if _ then (s.pon t i e).translate s.kernelPml4 va else none) = _
    rw [translate_congr hnucleo]
  · rw [Classical.not_imp] at hus
    refine hs.translate_mismo hinv hr' hr' rfl hnucleo (fun g hg ↦ .inl ⟨hg, hmem g _ ?_⟩)
      fun g hg ↦ hg
    rintro rfl
    have heq := Option.some.inj (hg.symm.trans ht)
    simp only [Prod.mk.injEq, Nodo.pt.injEq] at heq
    exact hva hus.1 hus.2 heq.1 heq.2.1 heq.2.2

/-! ### Mapping a page -/

private theorem addr_entrada (s : Vmm) (pa : UInt64) (a : Acceso) :
    s.entrada pa a &&& addrMask = pa &&& addrMask ∧ s.entrada pa a &&& ptePresent ≠ 0 := by
  have hp : ptePresent &&& addrMask = 0 := by decide
  have hw : (if a.writable then pteWritable else 0) &&& addrMask = 0 := by split <;> decide
  have hu : (if a.user then pteUser else 0) &&& addrMask = 0 := by split <;> decide
  have hc : (if a.combinarEscrituras then ptePat4k else 0) &&& addrMask = 0 := by
    split <;> decide
  have hn : (if a.nuestra then pteNuestra else 0) &&& addrMask = 0 := by split <;> decide
  have hx : (if a.ejecutable = false ∧ s.nx = true then pteNx else 0) &&& addrMask = 0 := by
    split <;> decide
  constructor
  · simp only [entrada, or_and_distrib, hp, hw, hu, hc, hn, hx, UInt64.or_zero]
    rw [UInt64.and_assoc, UInt64.and_self]
  · intro h
    have hbit := (and_bitMask (s.entrada pa a) (b := 0) (by decide)).mp h
    have hpres : ptePresent.toNat.testBit 0 = true := rfl
    simp only [entrada, UInt64.toNat_or, Nat.testBit_or, hpres, Bool.or_true, Bool.true_or,
      Bool.true_eq_false] at hbit

/-- `map_page_tipo` at a user address: it fails and every translation stays, or its last write is
the entry of the page. -/
theorem Inv.mapPageTipo (hs : s.Inv vivos dueno) (hr : r ∈ vivos) {va : UInt64}
    (h4 : i4 va = 0) (h3 : i3 va ≠ 0) (pa : UInt64) (a : Acceso) :
    ∃ s' dueno', Avanza vivos r s dueno s' dueno' ∧
      (s.mapPageTipo r va pa a = (.error (), s') ∨
        ∃ t, dueno' t = some (r, .pt (i3 va) (i2 va)) ∧
          s.mapPageTipo r va pa a = (.ok (), s'.pon t (i1 va) (s'.entrada pa a))) := by
  rw [Vmm.mapPageTipo]
  split
  · exact ⟨s, dueno, Avanza.refl hs, .inl rfl⟩
  dsimp only
  have hm := medio_mid a.user
  generalize ptePresent ||| pteWritable ||| (if a.user then pteUser else 0) = mid at hm
  have hc4 : hijo (r, .raiz) (i4 va) = some (r, .pdpt) := by
    rw [h4]
    rfl
  have hc3 : hijo (r, .pdpt) (i3 va) = some (r, .pd (i3 va)) := by
    rw [hijo, Nodo.hijo, if_neg h3]
    rfl
  obtain ⟨d1, hav1, hok1⟩ := hs.getOrCreate (hs.raices r hr) hc4 hm
  generalize hg1 : s.getOrCreate r (i4 va) mid = g1 at hav1 hok1
  rcases g1 with ⟨⟨⟩ | p, s1⟩
  · exact ⟨s1, d1, hav1, .inl rfl⟩
  obtain ⟨d2, hav2, hok2⟩ := hav1.inv.getOrCreate (hok1 p rfl) hc3 hm
  dsimp only at hav1 hav2 hok2 ⊢
  generalize hg2 : s1.getOrCreate p (i3 va) mid = g2 at hav2 hok2
  rcases g2 with ⟨⟨⟩ | q, s2⟩
  · exact ⟨s2, d2, hav1.trans hav2, .inl rfl⟩
  obtain ⟨d3, hav3, hok3⟩ :=
    hav2.inv.getOrCreate (hok2 q rfl) (i := i2 va) (y := (r, .pt (i3 va) (i2 va))) rfl hm
  dsimp only at hav2 hav3 hok3 ⊢
  generalize hg3 : s2.getOrCreate q (i2 va) mid = g3 at hav3 hok3
  rcases g3 with ⟨⟨⟩ | t, s3⟩
  · exact ⟨s3, d3, (hav1.trans hav2).trans hav3, .inl rfl⟩
  · exact ⟨s3, d3, (hav1.trans hav2).trans hav3, .inr ⟨t, hok3 t rfl, rfl⟩⟩

/-! ### A new space -/

/-- The allocator changes; every table stays one. -/
theorem Inv.fisica (hs : s.Inv vivos dueno) {t : Fisica} (hc : t.Cuenta)
    (hbits : ∀ f : Fin marcos, s.fisica.bitmap.get f = true → t.bitmap.get f = true)
    (htabla : ∀ a x, dueno a = some x → t.EsTabla a) :
    ({ s with fisica := t } : Vmm).Inv vivos dueno where
  cimientos := hs.cimientos.retoca rfl (fun _ _ ↦ rfl)
    (fun f hf ↦ by
      obtain ⟨k, hk, hbit⟩ := hs.cimientos.nucleo f hf
      exact ⟨k, hk, hbits k hbit⟩) hc (hbits 0 hs.cimientos.cero)
  bosque := hs.bosque
  raices := hs.raices
  vivo := hs.vivo
  pdpt := hs.pdpt
  lisa := hs.lisa
  tabla := htabla
  ajena := hs.ajena
  compartida := hs.compartida
  identidad := hs.identidad

/-- The two tables of a new space, in the memory. -/
private structure Nuevo (s s' : Vmm) (pml4 pdpt : UInt64) : Prop where
  kernel : s'.kernelPml4 = s.kernelPml4
  nx : s'.nx = s.nx
  mem : ∀ a, a ≠ pml4 → a ≠ pdpt → s'.mem a = s.mem a
  pml4 : ∀ i, s'.mem pml4 i = if i = 0 then pdpt ||| ptePresent ||| pteWritable ||| pteUser
    else if 256 ≤ (i : Nat) then s.mem s.kernelPml4 i else 0
  pdpt : ∀ i, s'.mem pdpt i =
    if i = 0 then s.mem (s.mem s.kernelPml4 0 &&& addrMask) 0 else 0

private theorem hijo_ne_raiz (x : UInt64 × Nodo) (i : Fin casillas) (r : UInt64) :
    hijo x i ≠ some (r, .raiz) := by
  intro h
  rw [hijo, Option.map_eq_some_iff] at h
  obtain ⟨n, hn, heq⟩ := h
  obtain ⟨-, rfl⟩ := Prod.mk.inj heq
  cases hx : x.2 <;> simp only [hx, Nodo.hijo] at hn <;> grind

/-- The two tables of a new space, in frames that are in no tree. -/
private structure Frescos (s : Vmm) (dueno : UInt64 → Option (UInt64 × Nodo)) (a b : UInt64) :
    Prop where
  ne : a ≠ b
  raiz : dueno a = none
  pdpt : dueno b = none
  raizAjena : ¬Nucleo s.mem s.kernelPml4 a
  pdptAjena : ¬Nucleo s.mem s.kernelPml4 b
  marco : b &&& addrMask = b

/-- The owners with those of the two tables. -/
private def plantados (dueno : UInt64 → Option (UInt64 × Nodo)) (a b : UInt64) :
    UInt64 → Option (UInt64 × Nodo) :=
  Function.update (Function.update dueno a (some (a, .raiz))) b (some (a, .pdpt))

namespace Frescos

variable {a b : UInt64}

private theorem sinB (h : Frescos s dueno a b) :
    Function.update dueno a (some (a, Nodo.raiz)) b = none := by
  rw [Function.update_of_ne h.ne.symm, h.pdpt]

private theorem dueno_iff (h : Frescos s dueno a b) {c : UInt64} {x : UInt64 × Nodo} :
    plantados dueno a b c = some x ↔
      c = b ∧ x = (a, .pdpt) ∨ c = a ∧ x = (a, .raiz) ∨ dueno c = some x := by
  rw [plantados, Forest.owner_update h.sinB, Forest.owner_update h.raiz]

private theorem vieja (h : Frescos s dueno a b) {c : UInt64} {x : UInt64 × Nodo}
    (hc : dueno c = some x) : c ≠ a ∧ c ≠ b := by
  constructor
  · rintro rfl
    rw [h.raiz] at hc
    cases hc
  · rintro rfl
    rw [h.pdpt] at hc
    cases hc

private theorem nucleo (h : Frescos s dueno a b) (hn : Nuevo s s' a b) (c : UInt64)
    (hc : Nucleo s.mem s.kernelPml4 c) : s'.mem c = s.mem c := by
  apply hn.mem
  · rintro rfl
    exact h.raizAjena hc
  · rintro rfl
    exact h.pdptAjena hc

private theorem ajenos (h : Frescos s dueno a b) (hs : s.Inv vivos dueno) {c : UInt64}
    {x : UInt64 × Nodo} (hc : dueno c = some x) : x.1 ≠ a := by
  rintro rfl
  have hr := hs.raices _ (hs.vivo c x hc)
  rw [h.raiz] at hr
  cases hr

private theorem entrada (hn : Nuevo s s' a b) :
    s'.mem a 0 = b ||| (ptePresent ||| pteWritable ||| pteUser) := by
  rw [hn.pml4, if_pos rfl, UInt64.or_assoc, UInt64.or_assoc, ← UInt64.or_assoc ptePresent]

private theorem raiz_hijo {j : Fin casillas} {y : UInt64 × Nodo} (hj : hijo (a, .raiz) j = some y) :
    j = 0 := by
  by_contra h0
  rw [hijo, Nodo.hijo, if_neg h0] at hj
  cases hj

private theorem pdpt_hijo {j : Fin casillas} {y : UInt64 × Nodo} (hj : hijo (a, .pdpt) j = some y) :
    j ≠ 0 := by
  rintro rfl
  cases hj

private theorem bosque (h : Frescos s dueno a b) (hs : s.Inv vivos dueno) (hn : Nuevo s s' a b) :
    Forest sigue hijo s'.mem (plantados dueno a b) := by
  have hraiz : Forest sigue hijo (Function.update s.mem a fun _ ↦ 0)
      (Function.update dueno a (some (a, .raiz))) := by
    refine hs.bosque.plant h.raiz (fun x i ↦ hijo_ne_raiz x i a) (fun c hc ↦ h.ajenos hs hc rfl)
      (fun _ ↦ ?_) fun hc _ ↦ ?_
    · rw [Function.update_self]
      rfl
    · rw [Function.update_of_ne (h.vieja hc).1]
  refine hraiz.grow hijo_inj (Function.update_self ..) (i := 0) rfl ?_ h.sinB ?_
    (fun {j q} hj ↦ ?_) fun {c x j q} hc hj hq ↦ ?_
  · rw [Function.update_self]
    rfl
  · rw [entrada hn]
    exact sigue_enlace h.marco (medio_mid true)
  · rw [hn.pdpt, if_neg (pdpt_hijo hj)]
    rfl
  · rcases (Forest.owner_update h.raiz).mp hc with ⟨-, rfl⟩ | hc
    · rw [raiz_hijo hj] at hj
      exact absurd (Option.some.inj hj).symm hq
    · rw [hn.mem c (h.vieja hc).1 (h.vieja hc).2, Function.update_of_ne (h.vieja hc).1]

private theorem lisa (h : Frescos s dueno a b) (hs : s.Inv vivos dueno) (hn : Nuevo s s' a b)
    {c : UInt64} {x y : UInt64 × Nodo} {j : Fin casillas} (hc : plantados dueno a b c = some x)
    (hj : hijo x j = some y) : s'.mem c j &&& pteHuge = 0 := by
  rcases h.dueno_iff.mp hc with ⟨rfl, rfl⟩ | ⟨rfl, rfl⟩ | hc
  · rw [hn.pdpt, if_neg (pdpt_hijo hj), UInt64.zero_and]
  · rw [raiz_hijo hj, entrada hn]
    exact and_huge_enlace h.marco (medio_mid true)
  · rw [hn.mem c (h.vieja hc).1 (h.vieja hc).2]
    exact hs.lisa c x j y hc hj

private theorem compartida (h : Frescos s dueno a b) (hs : s.Inv vivos dueno) (hn : Nuevo s s' a b)
    {r' : UInt64} (hr' : r' ∈ a :: vivos) {j : Fin casillas} (hj : j ≠ 0) :
    s'.mem r' j = if 256 ≤ (j : Nat) then s'.mem s'.kernelPml4 j else 0 := by
  rw [hn.kernel, h.nucleo hn _ .pml4]
  rcases List.mem_cons.mp hr' with rfl | hr'
  · rw [hn.pml4, if_neg hj]
  · have hne := h.vieja (hs.raices r' hr')
    rw [hn.mem r' hne.1 hne.2]
    exact hs.compartida r' hr' j hj

private theorem identidad (h : Frescos s dueno a b) (hs : s.Inv vivos dueno) (hn : Nuevo s s' a b)
    {p r' : UInt64} (hp : plantados dueno a b p = some (r', .pdpt)) :
    s'.mem p 0 = s'.mem (s'.mem s'.kernelPml4 0 &&& addrMask) 0 := by
  rw [hn.kernel, h.nucleo hn _ .pml4, h.nucleo hn _ (.pdpt 0 hs.cimientos.identidad)]
  rcases h.dueno_iff.mp hp with ⟨rfl, -⟩ | ⟨-, heq⟩ | hp
  · rw [hn.pdpt, if_pos rfl]
  · cases heq
  · rw [hn.mem p (h.vieja hp).1 (h.vieja hp).2]
    exact hs.identidad p r' hp

private theorem inv (h : Frescos s dueno a b) (hs : s.Inv vivos dueno) (hn : Nuevo s s' a b)
    (hcuenta : s'.fisica.Cuenta)
    (hsube : ∀ k : Fin marcos, s.fisica.bitmap.get k = true → s'.fisica.bitmap.get k = true)
    (htablas : ∀ c x, plantados dueno a b c = some x → s'.fisica.EsTabla c) :
    s'.Inv (a :: vivos) (plantados dueno a b) where
  cimientos := by
    refine hs.cimientos.retoca hn.kernel (h.nucleo hn) (fun c hc ↦ ?_) hcuenta
      (hsube 0 hs.cimientos.cero)
    obtain ⟨k, hk, hbit⟩ := hs.cimientos.nucleo c hc
    exact ⟨k, hk, hsube k hbit⟩
  bosque := h.bosque hs hn
  raices r' hr' := by
    rcases List.mem_cons.mp hr' with rfl | hr'
    · exact h.dueno_iff.mpr (.inr (.inl ⟨rfl, rfl⟩))
    · exact h.dueno_iff.mpr (.inr (.inr (hs.raices r' hr')))
  vivo c x hc := by
    rcases h.dueno_iff.mp hc with ⟨-, rfl⟩ | ⟨-, rfl⟩ | hc
    · exact .head _
    · exact .head _
    · exact .tail _ (hs.vivo c x hc)
  pdpt r' hr' := by
    rcases List.mem_cons.mp hr' with rfl | hr'
    · exact ⟨b, h.dueno_iff.mpr (.inl ⟨rfl, rfl⟩)⟩
    · obtain ⟨p, hp⟩ := hs.pdpt r' hr'
      exact ⟨p, h.dueno_iff.mpr (.inr (.inr hp))⟩
  lisa _ _ _ _ hc hj := h.lisa hs hn hc hj
  tabla := htablas
  ajena c hc := by
    rw [hn.kernel] at hc
    have hc := Nucleo.congr (h.nucleo hn) hc
    refine Option.eq_none_iff_forall_ne_some.mpr fun x hx ↦ ?_
    rcases h.dueno_iff.mp hx with ⟨rfl, -⟩ | ⟨rfl, -⟩ | hx
    · exact h.pdptAjena hc
    · exact h.raizAjena hc
    · rw [hs.ajena c hc] at hx
      cases hx
  compartida _ hr' _ hj := h.compartida hs hn hr' hj
  identidad _ _ hp := h.identidad hs hn hp

private theorem translate (h : Frescos s dueno a b) (hs : s.Inv vivos dueno) (hn : Nuevo s s' a b)
    (hs' : s'.Inv (a :: vivos) (plantados dueno a b)) {r' : UInt64} (hr' : r' ∈ vivos) :
    s'.translate r' = s.translate r' := by
  funext va
  refine hs.translate_mismo hs' hr' (.tail _ hr') hn.kernel (h.nucleo hn) (fun c hc ↦ ?_)
    fun c hc ↦ h.dueno_iff.mpr (.inr (.inr hc))
  rcases h.dueno_iff.mp hc with ⟨-, heq⟩ | ⟨-, heq⟩ | hc
  · cases heq
  · cases heq
  · refine .inl ⟨hc, ?_⟩
    rw [hn.mem c (h.vieja hc).1 (h.vieja hc).2]

end Frescos

private theorem Inv.frescos (hs : s.Inv vivos dueno) {f g : Fin marcos}
    (hf : s.fisica.bitmap.get f = false) (hg : s.fisica.bitmap.get g = false) (hne : f ≠ g) :
    Frescos s dueno (direccion f) (direccion g) := by
  obtain ⟨hAd, -, hAn⟩ := hs.fresco hf
  obtain ⟨hBd, -, hBn⟩ := hs.fresco hg
  refine ⟨fun h ↦ ?_, hAd, hBd, hAn, hBn, addrMask_marco (indice_direccion g)⟩
  have hi := congrArg indice h
  rw [indice_direccion, indice_direccion, Option.some.injEq] at hi
  exact hne hi

private theorem Inv.nace (hs : s.Inv vivos dueno) {f g : Fin marcos} {t u : Fisica}
    (hf : Fisica.Pedido s.fisica t f .tabla) (hg : Fisica.Pedido t u g .tabla)
    (hn : Nuevo s s' (direccion f) (direccion g)) (hfis : s'.fisica = u) :
    ∃ dueno', Avance (direccion f :: vivos) (direccion f) s dueno s' dueno' ∧
      (∀ r ∈ vivos, s'.translate r = s.translate r) ∧
      (∀ a n, dueno' a = some (direccion f, n) → n = .raiz ∨ n = .pdpt) ∧
      direccion f ∉ vivos := by
  have hgl := hg.libre
  rw [hf.bits, Bool.or_eq_false_iff, decide_eq_false_iff_not] at hgl
  have h := hs.frescos hf.libre hgl.1 hgl.2
  have hbits : ∀ k : Fin marcos, s'.fisica.bitmap.get k =
      (s.fisica.bitmap.get k || (decide (f = k) || decide (g = k))) := by
    intro k
    rw [hfis, hg.bits, hf.bits, Bool.or_assoc]
  have hsube : ∀ k : Fin marcos, s.fisica.bitmap.get k = true → s'.fisica.bitmap.get k = true := by
    intro k hk
    rw [hbits, hk, Bool.true_or]
  have htablas : ∀ c x, plantados dueno (direccion f) (direccion g) c = some x →
      s'.fisica.EsTabla c := by
    intro c x hc
    rw [hfis]
    rcases h.dueno_iff.mp hc with ⟨rfl, -⟩ | ⟨rfl, -⟩ | hc
    · refine ⟨(hs.fresco hgl.1).2.1, ⟨g, indice_direccion g, ?_⟩, hg.suyo⟩
      rw [← hfis, hbits, decide_eq_true rfl, Bool.or_true, Bool.or_true]
    · refine esTabla_pedido (s := { s with fisica := t }) hg
        ⟨(hs.fresco hf.libre).2.1, ⟨f, indice_direccion f, ?_⟩, hf.suyo⟩
      rw [hf.bits, decide_eq_true rfl, Bool.or_true]
    · exact esTabla_pedido (s := { s with fisica := t }) hg (esTabla_pedido hf (hs.tabla c x hc))
  have hinv := h.inv hs hn (hfis ▸ hg.cuenta) hsube htablas
  refine ⟨_, ⟨hinv, hn.nx, hn.kernel, fun c x hc ↦ h.dueno_iff.mpr (.inr (.inr hc)),
    fun c x hc ↦ ?_, hsube, fun k hk ↦ ?_, ?_⟩, fun r' hr' ↦ h.translate hs hn hinv hr',
    fun c n hc ↦ ?_, fun hA ↦ h.ajenos hs (hs.raices _ hA) rfl⟩
  · rcases h.dueno_iff.mp hc with ⟨rfl, rfl⟩ | ⟨rfl, rfl⟩ | hc
    · exact .inr ⟨rfl, g, indice_direccion g, hgl.1⟩
    · exact .inr ⟨rfl, f, indice_direccion f, hf.libre⟩
    · exact .inl hc
  · rw [hbits, Bool.or_eq_true, Bool.or_eq_true, decide_eq_true_eq, decide_eq_true_eq] at hk
    rcases hk with hk | rfl | rfl
    · exact .inl hk
    · exact .inr ⟨.raiz, h.dueno_iff.mpr (.inr (.inl ⟨rfl, rfl⟩))⟩
    · exact .inr ⟨.pdpt, h.dueno_iff.mpr (.inl ⟨rfl, rfl⟩)⟩
  · funext va
    exact translate_congr (h.nucleo hn) va
  · rcases h.dueno_iff.mp hc with ⟨-, heq⟩ | ⟨-, heq⟩ | hc
    · exact .inr (Prod.mk.inj heq).2
    · exact .inl (Prod.mk.inj heq).2
    · exact absurd rfl (h.ajenos hs hc)

private theorem nuevo_newAddressSpace (hs : s.Inv vivos dueno) {f g : Fin marcos} {t u : Fisica}
    (hf : Fisica.Pedido s.fisica t f .tabla) (hg : Fisica.Pedido t u g .tabla)
    (h1 : s.fisica.allocFrameDe .tabla = (some (direccion f), t))
    (h2 : t.allocFrameDe .tabla = (some (direccion g), u)) :
    ∃ s', s.newAddressSpace = (some (direccion f), s') ∧
      Nuevo s s' (direccion f) (direccion g) ∧ s'.fisica = u := by
  have hgl := hg.libre
  rw [hf.bits, Bool.or_eq_false_iff, decide_eq_false_iff_not] at hgl
  obtain ⟨-, hA0, hAn⟩ := hs.fresco hf.libre
  obtain ⟨-, hB0, hBn⟩ := hs.fresco hgl.1
  have hAB : direccion f ≠ direccion g := by
    intro h
    have hi := congrArg indice h
    rw [indice_direccion, indice_direccion, Option.some.injEq] at hi
    exact hgl.2 hi
  rw [newAddressSpace, h1]
  dsimp only
  rw [h2]
  dsimp only
  rw [zeroFrame_direccion _ hA0, zeroFrame_direccion _ hB0]
  refine ⟨_, rfl, ?_, rfl⟩
  generalize direccion f = A at *
  generalize direccion g = B at *
  have hkA : s.kernelPml4 ≠ A := fun h ↦ hAn (h ▸ .pml4)
  have hkB : s.kernelPml4 ≠ B := fun h ↦ hBn (h ▸ .pml4)
  have htA : s.mem s.kernelPml4 0 &&& addrMask ≠ A := fun h ↦
    hAn (h ▸ .pdpt 0 hs.cimientos.identidad)
  have htB : s.mem s.kernelPml4 0 &&& addrMask ≠ B := fun h ↦
    hBn (h ▸ .pdpt 0 hs.cimientos.identidad)
  constructor
  · rfl
  · rfl
  · intro a haA haB
    simp only [pon, Function.update_of_ne haA, Function.update_of_ne haB]
  · intro i
    simp only [pon, Function.update_of_ne hAB, Function.update_of_ne hkA, Function.update_of_ne hkB,
      Function.update_self, Function.update_apply]
  · intro i
    simp only [pon, Function.update_of_ne hAB.symm, Function.update_of_ne hkA,
      Function.update_of_ne hkB, Function.update_of_ne htA, Function.update_of_ne htB,
      Function.update_self, Function.update_apply]

/-- `new_address_space`: there is no memory for it, and nothing has changed but labels of free
frames; or a space without pages is born. -/
theorem Inv.newAddressSpace (hs : s.Inv vivos dueno) :
    (∃ t, s.newAddressSpace = (none, { s with fisica := t }) ∧
      ({ s with fisica := t } : Vmm).Inv vivos dueno ∧
      ∀ k : Fin marcos, t.bitmap.get k = s.fisica.bitmap.get k) ∨
    ∃ f s' dueno', s.newAddressSpace = (some (direccion f), s') ∧ direccion f ∉ vivos ∧
      Avance (direccion f :: vivos) (direccion f) s dueno s' dueno' ∧
      (∀ r ∈ vivos, s'.translate r = s.translate r) ∧
      (∀ a n, dueno' a = some (direccion f, n) → n = .raiz ∨ n = .pdpt) := by
  rcases Fisica.allocFrameDe_cases hs.cimientos.cuenta .tabla with ⟨h1, -⟩ | ⟨f, t, h1, hf⟩
  · refine .inl ⟨s.fisica, ?_, hs, fun _ ↦ rfl⟩
    rw [Vmm.newAddressSpace, h1]
  rcases Fisica.allocFrameDe_cases hf.cuenta .tabla with ⟨h2, -⟩ | ⟨g, u, h2, hg⟩
  · have hbit : t.bitmap.get f = true := by
      rw [hf.bits, decide_eq_true rfl, Bool.or_true]
    have hdev := Fisica.devuelto_freeFrame hf.cuenta (indice_direccion f) hbit
    have hbits : ∀ k : Fin marcos,
        (t.freeFrame (direccion f)).bitmap.get k = s.fisica.bitmap.get k := by
      intro k
      rw [hdev.bits, hf.bits]
      by_cases hk : f = k
      · rw [← hk, hf.libre, decide_eq_true rfl]
        rfl
      · rw [decide_eq_false hk, Bool.or_false, Bool.not_false, Bool.and_true]
    refine .inl ⟨t.freeFrame (direccion f), ?_, ?_, hbits⟩
    · rw [Vmm.newAddressSpace, h1]
      dsimp only
      rw [h2]
      dsimp only
      rw [Fisica.freeFrameDe_tabla hf.suyo]
    · refine hs.fisica hdev.cuenta (fun k hk ↦ (hbits k).trans hk) fun a x ha ↦ ?_
      obtain ⟨h0, ⟨k, hk, hbitk⟩, hq⟩ := hs.tabla a x ha
      have hne : indice a ≠ some f := by
        rw [hk, ne_eq, Option.some.injEq]
        rintro rfl
        rw [hf.libre] at hbitk
        cases hbitk
      exact ⟨h0, ⟨k, hk, (hbits k).trans hbitk⟩,
        ((hdev.ajenos a hne).trans (hf.ajenos a hne)).trans hq⟩
  · obtain ⟨s', heq, hn, hfis⟩ := nuevo_newAddressSpace hs hf hg h1 h2
    obtain ⟨dueno', hav, higual, hsolo, hno⟩ := hs.nace hf hg hn hfis
    exact .inr ⟨f, s', dueno', heq, hno, hav, higual, hsolo⟩

end Vmm

/-! ### Runs -/

/-- What is done with spaces. -/
inductive Uso
  | nuevo
  | mapa (pml4 va pa : UInt64) (a : Vmm.Acceso)
  | quita (pml4 va : UInt64)

/-- The tables, and the spaces that have been made. -/
structure Espacios where
  vmm : Vmm
  vivos : List UInt64

namespace Espacios

/-- One operation. -/
def paso (c : Espacios) : Uso → Espacios
  | .nuevo => ⟨c.vmm.newAddressSpace.2, c.vmm.newAddressSpace.1.toList ++ c.vivos⟩
  | .mapa pml4 va pa a => ⟨(c.vmm.mapPageTipo pml4 va pa a).2, c.vivos⟩
  | .quita pml4 va => ⟨(c.vmm.unmapPage pml4 va).2, c.vivos⟩

/-- Pages are mapped and unmapped in spaces that there are, at user addresses. -/
def Usa (c : Espacios) : Uso → Prop
  | .nuevo => True
  | .mapa pml4 va _ _ | .quita pml4 va => pml4 ∈ c.vivos ∧ Usuario va

end Espacios

/-- The runs from a machine whose kernel has its tables, in which every operation satisfies `C`. -/
inductive Trabaja (C : Espacios → Uso → Prop) : Espacios → Prop
  | inicial (s : Vmm) (h : s.Cimientos) : Trabaja C ⟨s, []⟩
  | paso {c : Espacios} (o : Uso) (h : Trabaja C c) (hc : C c o) : Trabaja C (c.paso o)

/-! ### The spaces as maps -/

/-- A partial map from addresses for each space. -/
abbrev Mapas := UInt64 → UInt64 → Option UInt64

/-- One page of one space is set. -/
def Mapas.pone (m : Mapas) (r va : UInt64) (v : Option UInt64) : Mapas :=
  fun r' y ↦ if r' = r ∧ MismaPagina va y then v else m r' y

/-- What the operations do to the maps of the kernel and of the spaces there are. -/
structure Espacios.Refina (c : Espacios) : Prop where
  mapa : ∀ r ∈ c.vivos, ∀ va pa a s', Usuario va → c.vmm.mapPageTipo r va pa a = (.ok (), s') →
    (∀ r' ∈ c.vmm.kernelPml4 :: c.vivos,
      s'.translate r' = Mapas.pone c.vmm.translate r va (some (pa &&& addrMask)) r') ∧
    ∀ y, MismaPagina va y → s'.fisicaExacta r y = some ((pa &&& addrMask) + (y &&& (page - 1)))
  falla : ∀ r ∈ c.vivos, ∀ va pa a s', Usuario va →
    c.vmm.mapPageTipo r va pa a = (.error (), s') →
    ∀ r' ∈ c.vmm.kernelPml4 :: c.vivos, s'.translate r' = c.vmm.translate r'
  quita : ∀ r ∈ c.vivos, ∀ va v s', Usuario va → c.vmm.unmapPage r va = (v, s') →
    v = c.vmm.translate r va ∧ ∀ r' ∈ c.vmm.kernelPml4 :: c.vivos,
      s'.translate r' = Mapas.pone c.vmm.translate r va none r'
  sinSitio : ∀ s', c.vmm.newAddressSpace = (none, s') →
    ∀ r' ∈ c.vmm.kernelPml4 :: c.vivos, s'.translate r' = c.vmm.translate r'
  nuevo : ∀ r s', c.vmm.newAddressSpace = (some r, s') → r ∉ c.vmm.kernelPml4 :: c.vivos ∧
    (∀ r' ∈ c.vmm.kernelPml4 :: c.vivos, s'.translate r' = c.vmm.translate r') ∧
    ∀ y, s'.translate r y = if i4 y = 0 ∧ i3 y = 0 ∨ 256 ≤ (i4 y : Nat) then
      c.vmm.translate c.vmm.kernelPml4 y else none

namespace Vmm.Inv

variable {s : Vmm} {vivos : List UInt64} {dueno : UInt64 → Option (UInt64 × Nodo)}

private theorem kernel_not_mem (hs : s.Inv vivos dueno) {r : UInt64} (hr : r ∈ vivos) :
    s.kernelPml4 ≠ r := by
  intro h
  have hk := hs.ajena _ .pml4
  rw [h, hs.raices r hr] at hk
  cases hk

private theorem translate_pagina (hs : s.Inv vivos dueno) {r va y : UInt64} (hr : r ∈ vivos)
    (h4 : i4 va = 0) (h3 : i3 va ≠ 0) (hy : MismaPagina va y) :
    s.translate r y = s.translate r va := by
  obtain ⟨e4, e3, e2, e1⟩ := (mismaPagina_iff va y).mp hy
  rcases hs.camino hr h4 h3 with ⟨t, ht, htr, -⟩ | ⟨hno, htr, -⟩
  · rcases hs.camino hr (e4 ▸ h4) (e3 ▸ h3) with ⟨t', ht', htr', -⟩ | ⟨hno, -⟩
    · rw [← e3, ← e2] at ht'
      rw [htr, htr', hs.bosque.inj ht' ht, e1]
    · rw [← e3, ← e2] at hno
      exact absurd ht (hno t)
  · rcases hs.camino hr (e4 ▸ h4) (e3 ▸ h3) with ⟨t', ht', -⟩ | ⟨-, htr', -⟩
    · rw [← e3, ← e2] at ht'
      exact absurd ht' (hno t')
    · rw [htr, htr']

/-- One entry of the last table of a page decides what the page is mapped to. -/
theorem translate_pon (hs : s.Inv vivos dueno) {r va : UInt64} (hr : r ∈ vivos)
    (h4 : i4 va = 0) (h3 : i3 va ≠ 0) {t : UInt64}
    (ht : dueno t = some (r, .pt (i3 va) (i2 va))) (e : UInt64) :
    (s.pon t (i1 va) e).Inv vivos dueno ∧
    (∀ r' ∈ s.kernelPml4 :: vivos, (s.pon t (i1 va) e).translate r' =
      Mapas.pone s.translate r va
        (if e &&& ptePresent = 0 then none else some (e &&& addrMask)) r') ∧
    ∀ y, MismaPagina va y → e &&& ptePresent ≠ 0 →
      (s.pon t (i1 va) e).fisicaExacta r y = some ((e &&& addrMask) + (y &&& (page - 1))) := by
  obtain ⟨hinv, hker, hotra⟩ := hs.escribe (i := i1 va) ht e
  have hmem : (s.pon t (i1 va) e).mem t (i1 va) = e := by
    rw [pon]
    dsimp only
    rw [Function.update_self, Function.update_self]
  have hpag : ∀ y, MismaPagina va y → (s.pon t (i1 va) e).translate r y =
      (if e &&& ptePresent = 0 then none else some (e &&& addrMask)) ∧
      (e &&& ptePresent ≠ 0 →
        (s.pon t (i1 va) e).fisicaExacta r y = some ((e &&& addrMask) + (y &&& (page - 1)))) := by
    intro y hy
    obtain ⟨e4, e3, e2, e1⟩ := (mismaPagina_iff va y).mp hy
    rcases hinv.camino hr (e4 ▸ h4) (e3 ▸ h3) with ⟨t', ht', htr, hex, -⟩ | ⟨hno, -⟩
    · rw [← e3, ← e2] at ht'
      rw [hs.bosque.inj ht' ht, ← e1, hmem] at htr hex
      refine ⟨htr, fun he ↦ ?_⟩
      rw [hex, if_neg he]
    · rw [← e3, ← e2] at hno
      exact absurd ht (hno t)
  refine ⟨hinv, fun r' hr' ↦ ?_, fun y hy he ↦ (hpag y hy).2 he⟩
  funext y
  rw [Mapas.pone]
  rcases List.mem_cons.mp hr' with rfl | hr'
  · rw [if_neg fun h ↦ hs.kernel_not_mem hr h.1, hker]
  · split
    · next h =>
      rw [h.1]
      exact (hpag y h.2).1
    · next h =>
      refine hotra r' hr' y fun y4 _ hrr y3 y2 y1 ↦ h ⟨hrr, ?_⟩
      rw [mismaPagina_iff, h4, y4, y3, y2, y1]
      exact ⟨rfl, rfl, rfl, rfl⟩

/-- Under the invariant the operations do to the maps what they should. -/
theorem refina (hs : s.Inv vivos dueno) : Espacios.Refina ⟨s, vivos⟩ where
  mapa r hr va pa a s' hva h := by
    obtain ⟨h4, h3⟩ := indices_usuario hva
    obtain ⟨s1, d1, hav, herr | ⟨t, ht, hok⟩⟩ := hs.mapPageTipo hr h4 h3 pa a
    · rw [herr] at h
      cases h
    · rw [hok, Prod.mk.injEq] at h
      rw [← h.2]
      obtain ⟨haddr, hpres⟩ := addr_entrada s1 pa a
      obtain ⟨-, htr, hex⟩ := hav.inv.translate_pon hr h4 h3 ht (s1.entrada pa a)
      rw [if_neg hpres, haddr] at htr
      refine ⟨fun r' hr' ↦ ?_, fun y hy ↦ ?_⟩
      · dsimp only at hr'
        rw [htr r' (hav.kernel ▸ hr')]
        funext y
        rw [Mapas.pone, Mapas.pone]
        split
        · rfl
        · rcases List.mem_cons.mp hr' with rfl | hr'
          · exact congrFun hav.nucleo y
          · exact congrFun (hav.igual r' hr') y
      · rw [hex y hy hpres, haddr]
  falla r hr va pa a s' hva h := by
    obtain ⟨h4, h3⟩ := indices_usuario hva
    obtain ⟨s1, d1, hav, herr | ⟨t, ht, hok⟩⟩ := hs.mapPageTipo hr h4 h3 pa a
    · rw [herr, Prod.mk.injEq] at h
      rw [← h.2]
      intro r' hr'
      rcases List.mem_cons.mp hr' with rfl | hr'
      · exact hav.nucleo
      · exact hav.igual r' hr'
    · rw [hok] at h
      cases h
  quita r hr va v s' hva h := by
    obtain ⟨h4, h3⟩ := indices_usuario hva
    dsimp only at hr h ⊢
    have hnone : s.translate r va = none → ∀ r' ∈ s.kernelPml4 :: vivos,
        s.translate r' = Mapas.pone s.translate r va none r' := by
      intro htr r' hr'
      funext y
      rw [Mapas.pone]
      split
      · next hy => rw [hy.1, hs.translate_pagina hr h4 h3 hy.2, htr]
      · rfl
    rcases hs.camino hr h4 h3 with ⟨t, ht, htr, -, hun⟩ | ⟨-, htr, -, hun⟩
    · rw [hun] at h
      split at h
      · next h0 =>
        rw [if_pos h0] at htr
        cases h
        exact ⟨htr.symm, hnone htr⟩
      · next h0 =>
        rw [if_neg h0] at htr
        cases h
        refine ⟨htr.symm, ?_⟩
        obtain ⟨-, hpon, -⟩ := hs.translate_pon hr h4 h3 ht 0
        exact hpon
    · rw [hun] at h
      cases h
      exact ⟨htr.symm, hnone htr⟩
  sinSitio s' h := by
    rcases hs.newAddressSpace with ⟨t, heq, -⟩ | ⟨f, s1, d1, heq, -⟩
    · dsimp only at h
      rw [heq] at h
      cases h
      exact fun r' _ ↦ rfl
    · dsimp only at h
      rw [heq] at h
      cases h
  nuevo r s' h := by
    dsimp only at h
    rcases hs.newAddressSpace with ⟨t, heq, -⟩ | ⟨f, s1, d1, heq, hno, hav, higual, hsolo⟩
    · rw [heq] at h
      cases h
    · rw [heq, Prod.mk.injEq, Option.some.injEq] at h
      rw [← h.1, ← h.2]
      have hr : direccion f ∈ direccion f :: vivos := .head _
      refine ⟨?_, fun r' hr' ↦ ?_, fun y ↦ ?_⟩
      · rw [List.mem_cons, not_or]
        refine ⟨fun heq ↦ ?_, hno⟩
        exact hav.inv.kernel_not_mem hr (hav.kernel.trans heq.symm)
      · rcases List.mem_cons.mp hr' with rfl | hr'
        · exact hav.nucleo
        · exact higual r' hr'
      · by_cases hus : i4 y = 0 → i3 y = 0
        · rw [hav.inv.translate_ajena hr hus, hav.kernel, hav.nucleo]
          refine if_congr ?_ rfl rfl
          exact or_congr_left ⟨fun h ↦ ⟨h, hus h⟩, fun h ↦ h.1⟩
        · rw [Classical.not_imp] at hus
          rcases hav.inv.camino hr hus.1 hus.2 with ⟨t, ht, -⟩ | ⟨-, htr, -⟩
          · rcases hsolo t _ ht with h | h <;> cases h
          · rw [htr, if_neg]
            rintro (⟨-, h⟩ | h)
            · exact hus.2 h
            · rw [hus.1] at h
              exact absurd h (by decide)

end Vmm.Inv

/-! ### The theorem -/

private theorem Vmm.Inv.paso {s : Vmm} {vivos : List UInt64}
    {dueno : UInt64 → Option (UInt64 × Nodo)} (hs : s.Inv vivos dueno) {o : Uso}
    (ho : Espacios.Usa ⟨s, vivos⟩ o) :
    ∃ dueno', (Espacios.paso ⟨s, vivos⟩ o).vmm.Inv (Espacios.paso ⟨s, vivos⟩ o).vivos dueno' := by
  cases o with
  | nuevo =>
    rw [Espacios.paso]
    dsimp only
    rcases hs.newAddressSpace with ⟨t, heq, hinv, -⟩ | ⟨f, s1, d1, heq, -, hav, -⟩
    · rw [heq]
      exact ⟨dueno, hinv⟩
    · rw [heq]
      exact ⟨d1, hav.inv⟩
  | mapa r va pa a =>
    obtain ⟨h4, h3⟩ := indices_usuario ho.2
    obtain ⟨s1, d1, hav, herr | ⟨t, ht, hok⟩⟩ := hs.mapPageTipo ho.1 h4 h3 pa a
    · rw [Espacios.paso]
      dsimp only
      rw [herr]
      exact ⟨d1, hav.inv⟩
    · rw [Espacios.paso]
      dsimp only
      rw [hok]
      exact ⟨d1, (hav.inv.escribe ht _).1⟩
  | quita r va =>
    obtain ⟨h4, h3⟩ := indices_usuario ho.2
    rw [Espacios.paso]
    dsimp only
    rcases hs.camino ho.1 h4 h3 with ⟨t, ht, -, -, hun⟩ | ⟨-, -, -, hun⟩
    · rw [hun]
      split
      · exact ⟨dueno, hs⟩
      · exact ⟨dueno, (hs.escribe ht 0).1⟩
    · rw [hun]
      exact ⟨dueno, hs⟩

/-- Before any space is made. -/
theorem Vmm.Cimientos.inv {s : Vmm} (hs : s.Cimientos) : s.Inv [] fun _ ↦ none where
  cimientos := hs
  bosque := by
    constructor
    · intro a b p ha
      cases ha
    · intro a p i q ha
      cases ha
    · intro b p i q hb
      cases hb
  raices _ h := absurd h List.not_mem_nil
  vivo _ _ h := by cases h
  pdpt _ h := absurd h List.not_mem_nil
  lisa _ _ _ _ h := by cases h
  tabla _ _ h := by cases h
  ajena _ _ := rfl
  compartida _ h := absurd h List.not_mem_nil
  identidad _ _ h := by cases h

/-- In every run each space is a partial map from pages: a mapping sets one page of one space, an
unmapping clears it, what fails changes nothing, and a new space has no pages of its own. The kernel
half and the first gigabyte are always those of the kernel. -/
theorem refina_of_trabaja (c : Espacios) (h : Trabaja Espacios.Usa c) : c.Refina := by
  have hc : ∃ dueno, c.vmm.Inv c.vivos dueno := by
    induction h with
    | inicial s hs => exact ⟨_, hs.inv⟩
    | paso o _ ho ih =>
      obtain ⟨dueno, hd⟩ := ih
      exact hd.paso ho
  obtain ⟨dueno, hd⟩ := hc
  exact hd.refina

/-- An allocator with six frames, from the first megabyte on. -/
def Fisica.mini : Fisica :=
  [256, 257, 258, 259, 260, 261].foldl usaMarco
    { bitmap := fun _ ↦ ~~~0, totalFrames := 0, freeFrames := 0, hint := 0, titulares := .inicial }

/-- A kernel with a table at 0x1000 whose first entry and kernel half link one at 0x2000, which maps
the first gigabyte. -/
def Vmm.mini : Vmm where
  mem a i :=
    if a = 0x1000 ∧ (i = 0 ∨ i = 256) then 0x2003 else if a = 0x2000 ∧ i = 0 then 0x83 else 0
  fisica := .mini
  kernelPml4 := 0x1000
  nx := true

private theorem Fisica.mini_spec :
    Fisica.mini.Cuenta ∧ ∀ g < 256, Fisica.mini.bitmap.get g = true := by
  have hm : marcos = 4194304 := rfl
  have h : ∀ (l : List Nat) (s : Fisica), (∀ f ∈ l, 256 ≤ f ∧ f < marcos) → s.Cuenta →
      (∀ g < 256, s.bitmap.get g = true) → (l.foldl usaMarco s).Cuenta ∧
        ∀ g < 256, (l.foldl usaMarco s).bitmap.get g = true := by
    intro l
    induction l with
    | nil => exact fun s _ hc hg ↦ ⟨hc, hg⟩
    | cons f l ih =>
      intro s hl hc hg
      obtain ⟨hf, hl⟩ := List.forall_mem_cons.mp hl
      obtain ⟨hc', hg'⟩ := usaMarco_spec hc hf.2
      refine ih _ hl hc' fun g hlt ↦ ?_
      rw [hg' g (by omega), hg g hlt, decide_eq_false (by omega)]
      rfl
  refine h _ _ (by decide) ?_ fun g _ ↦ Arranque.get_full
  exact ((Bitmap.zeros_eq_zero _).mpr fun _ _ ↦ Arranque.get_full).symm

private theorem Vmm.nucleo_mini {f : UInt64} (h : Nucleo Vmm.mini.mem 0x1000 f) :
    f = 0x1000 ∨ f = 0x2000 := by
  have h1 : ∀ a, Vmm.mini.mem 0x1000 a &&& ptePresent ≠ 0 →
      Vmm.mini.mem 0x1000 a &&& addrMask = 0x2000 := by
    intro a ha
    by_cases ha' : a = 0 ∨ a = 256
    · rw [show Vmm.mini.mem 0x1000 a = 0x2003 from if_pos ⟨rfl, ha'⟩]
      rfl
    · have hm : Vmm.mini.mem 0x1000 a = 0 := by
        simp [Vmm.mini, ha']
      rw [hm] at ha
      exact absurd rfl ha
  have h2 : ∀ b, sigue (Vmm.mini.mem 0x2000 b) = none := by
    intro b
    by_cases hb : b = 0
    · rw [hb]
      decide
    · have hm : Vmm.mini.mem 0x2000 b = 0 := by
        simp [Vmm.mini, hb]
      rw [hm]
      decide
  cases h with
  | pml4 => exact .inl rfl
  | pdpt a ha => exact .inr (h1 a ha)
  | pd a b ha hq =>
    rw [h1 a ha, h2 b] at hq
    cases hq
  | pt a b c ha hq ht =>
    rw [h1 a ha, h2 b] at hq
    cases hq

private theorem Vmm.cimientos_mini : Vmm.mini.Cimientos where
  nucleo f hf := by
    rcases nucleo_mini hf with rfl | rfl
    · exact ⟨1, indice_eq_some.mpr rfl, Fisica.mini_spec.2 1 (by decide)⟩
    · exact ⟨2, indice_eq_some.mpr rfl, Fisica.mini_spec.2 2 (by decide)⟩
  identidad := by decide
  cuenta := Fisica.mini_spec.1
  cero := Fisica.mini_spec.2 0 (by decide)

/-- A space in that machine. -/
def Espacios.mini : Espacios := Espacios.paso ⟨.mini, []⟩ .nuevo

/-- A page of that space, mapped to a frame. -/
def Espacios.conPagina : Espacios :=
  Espacios.mini.paso (.mapa 0x100000 0x40000000 0x5000 ⟨true, true, false, false, false⟩)

/-- The page is that frame, and nothing once it is unmapped. -/
theorem refina_mini :
    (Espacios.conPagina.Refina ∧
      Espacios.conPagina.vmm.translate 0x100000 0x40000123 = some 0x5000) ∧
    (Espacios.conPagina.paso (.quita 0x100000 0x40000000)).Refina ∧
    (Espacios.conPagina.paso (.quita 0x100000 0x40000000)).vmm.translate 0x100000 0x40000123 =
      none := by
  have hnuevo : Trabaja Espacios.Usa Espacios.mini :=
    .paso .nuevo (.inicial .mini Vmm.cimientos_mini) trivial
  have husuario : Usuario 0x40000000 := by
    rw [Usuario]
    decide
  have hmapa : Trabaja Espacios.Usa Espacios.conPagina := .paso _ hnuevo ⟨by decide, husuario⟩
  have hquita := Trabaja.paso (.quita 0x100000 0x40000000) hmapa ⟨by decide, husuario⟩
  exact ⟨⟨refina_of_trabaja _ hmapa, by decide⟩, refina_of_trabaja _ hquita, by decide⟩

/-- `translate` answers the base of a page, not the address in it. -/
theorem translate_sin_desplazamiento :
    ¬ ∀ c, Trabaja Espacios.Usa c → ∀ r ∈ c.vivos, ∀ va pa a s', Usuario va →
      c.vmm.mapPageTipo r va pa a = (.ok (), s') →
      ∀ y, MismaPagina va y → s'.translate r y = some (pa + (y &&& (page - 1))) := by
  intro h
  have hr : (0x100000 : UInt64) ∈ Espacios.mini.vivos := by decide
  have hmini := h Espacios.mini (.paso .nuevo (.inicial .mini Vmm.cimientos_mini) trivial)
    0x100000 hr 0x40000000 0x5000 ⟨true, true, false, false, false⟩
  have hok : (Espacios.mini.vmm.mapPageTipo 0x100000 0x40000000 0x5000
      ⟨true, true, false, false, false⟩).1.isOk = true := by decide
  have htr : (Espacios.mini.vmm.mapPageTipo 0x100000 0x40000000 0x5000
      ⟨true, true, false, false, false⟩).2.translate 0x100000 0x40000001 = some 0x5000 := by
    decide
  rcases hg : Espacios.mini.vmm.mapPageTipo 0x100000 0x40000000 0x5000
      ⟨true, true, false, false, false⟩ with ⟨e | ⟨⟩, s'⟩
  · rw [hg] at hok
    cases hok
  · rw [hg] at htr
    have hbad := hmini s' (by rw [Usuario]; decide) hg 0x40000001 (by decide)
    rw [htr] at hbad
    exact absurd hbad (by decide)

end BmoX.Mm
