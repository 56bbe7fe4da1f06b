import BmoX.Mm.Titular

/-!
# The ledger of DMA in flight

What `en_vuelo`, `aterrizo`, `prestar_tramo` and `devolver_tramo` of
`kernel/src/ring0/mm/titular/roja.rs` keep true of the table and its counts, over whole runs. A
flight is one frame and ends when it lands; a loan is a stretch and ends whole.
-/

namespace BmoX.Mm

open BmoX.Base

/-- The byte has a device in its high nibble. -/
def Vuela (b : UInt8) : Prop := quienVuela b ≠ 0

instance : DecidablePred Vuela := fun b ↦ inferInstanceAs (Decidable (quienVuela b ≠ 0))

/-- The frame lies in the stretch. -/
def Prestamo.Cubre (p : Prestamo) (f : Fin marcos) : Prop :=
  p.base.toNat ≤ f * 4096 ∧ f * 4096 < p.base.toNat + p.paginas.toNat * 4096

namespace Titulares

/-! ### The pages of a stretch -/

private theorem toNat_pagina {base : UInt64} {k : Nat} (h : base.toNat + k * 4096 < 2 ^ 64) :
    (pagina base k).toNat = base.toNat + k * 4096 := by
  have hpage : page.toNat = 4096 := rfl
  rw [pagina, UInt64.toNat_add, UInt64.toNat_mul, UInt64.toNat_ofNat', hpage,
    Nat.mod_eq_of_lt (show k < 2 ^ 64 by omega),
    Nat.mod_eq_of_lt (show k * 4096 < 2 ^ 64 by omega), Nat.mod_eq_of_lt h]

/-- A stretch of frames: the first one, and where each page is. -/
structure Tramo (base : UInt64) (n b : Nat) : Prop where
  base : base.toNat = b * 4096
  cabe : b + n ≤ marcos

theorem Tramo.indice {base : UInt64} {n b : Nat} (h : Tramo base n b) {k : Nat}
    (hk : k < n) : ∃ i : Fin marcos, indice (pagina base k) = some i ∧ (i : Nat) = b + k := by
  have hcabe := h.cabe
  have hm : marcos = 4194304 := rfl
  have hnat : (pagina base k).toNat = (b + k) * 4096 := by
    rw [toNat_pagina (by rw [h.base]; omega), h.base]
    omega
  exact ⟨⟨b + k, by omega⟩, indice_eq_some.mpr hnat, rfl⟩

theorem Tramo.cubre {p : Prestamo} {b : Nat} (h : Tramo p.base p.paginas.toNat b)
    (f : Fin marcos) : p.Cubre f ↔ b ≤ f ∧ f < b + p.paginas.toNat := by
  rw [Prestamo.Cubre, h.base]
  omega

private theorem tramo_of_indice {base : UInt64} {n : Nat} (hn : 0 < n)
    (h : ∀ k < n, ∃ i, indice (pagina base k) = some i) : ∃ b, Tramo base n b := by
  have hnat : ∀ k < n, (pagina base k).toNat = base.toNat + k * 4096 ∧
      base.toNat + k * 4096 < 17179869184 := by
    intro k
    induction k with
    | zero =>
      intro hk
      obtain ⟨i, hi⟩ := h 0 hk
      have hlt : (i : Nat) < 4194304 := i.isLt
      have hbase := base.toNat_lt
      have h0 := @toNat_pagina base 0 (by omega)
      rw [indice_eq_some, h0] at hi
      exact ⟨h0, by omega⟩
    | succ k ih =>
      intro hk
      obtain ⟨-, hlt⟩ := ih (by omega)
      obtain ⟨i, hi⟩ := h (k + 1) hk
      have hlt' : (i : Nat) < 4194304 := i.isLt
      have hsucc : base.toNat + (k + 1) * 4096 = base.toNat + k * 4096 + 4096 := by
        rw [Nat.succ_mul, Nat.add_assoc]
      have h1 := @toNat_pagina base (k + 1) (by rw [hsucc]; omega)
      rw [indice_eq_some, h1] at hi
      refine ⟨h1, ?_⟩
      rw [hi]
      omega
  obtain ⟨i, hi⟩ := h 0 hn
  rw [indice_eq_some, (hnat 0 hn).1] at hi
  refine ⟨i, by omega, ?_⟩
  have hlast := (hnat (n - 1) (by omega)).2
  show (i : Nat) + n ≤ 4194304
  omega

private theorem revisa_eq_none {s : Titulares} {base : UInt64} {aparato : UInt8} {n k : Nat}
    (h : s.revisa base aparato n k = none) :
    ∀ j < n, ∃ i, indice (pagina base (k + j)) = some i ∧
      (quienVuela (s.tabla i) = 0 ∨ quienVuela (s.tabla i) = aparato) := by
  induction n generalizing k with
  | zero => exact fun j hj ↦ absurd hj (Nat.not_lt_zero j)
  | succ n ih =>
    rw [revisa] at h
    split at h
    · cases h
    · next i hi =>
      dsimp only at h
      split at h
      · cases h
      · next hq =>
        intro j hj
        cases j with
        | zero =>
          refine ⟨i, hi, ?_⟩
          by_contra hno
          exact hq (not_or.mp hno)
        | succ j =>
          obtain ⟨i', hi', hq'⟩ := ih h j (by omega)
          exact ⟨i', by rw [show k + (j + 1) = k + 1 + j by omega]; exact hi', hq'⟩

private theorem foldl_marcaPagina {base : UInt64} {n b : Nat} (ht : Tramo base n b) {a : UInt8}
    (ha : a ≠ 0) (ha' : a ≤ 15) (tabla : Fin marcos → UInt8) :
    let t := (List.range n).foldl (marcaPagina base a) (tabla, 0)
    (∀ f, t.1 f = if b ≤ f ∧ f < b + n then ponVuelo (tabla f) a else tabla f) ∧
      count Vuela t.1 = count Vuela tabla + t.2.toNat ∧ t.2.toNat ≤ n := by
  have hm : marcos = 4194304 := rfl
  induction n with
  | zero =>
    exact ⟨fun f ↦ (if_neg (by omega)).symm, (Nat.add_zero _).symm, le_refl _⟩
  | succ n ih =>
    have hcabe := ht.cabe
    obtain ⟨htab, hcnt, hle⟩ := ih ⟨ht.base, by omega⟩
    obtain ⟨i, hi, hib⟩ := ht.indice (k := n) (by omega)
    rw [List.range_succ, List.foldl_append, List.foldl_cons, List.foldl_nil]
    generalize (List.range n).foldl (marcaPagina base a) (tabla, 0) = t at htab hcnt hle ⊢
    simp only [marcaPagina, hi]
    have hti : t.1 i = tabla i := by rw [htab, if_neg (by omega)]
    have hvuela : Vuela (ponVuelo (t.1 i) a) := by
      rw [Vuela, quienVuela_ponVuelo _ ha']
      exact ha
    have hup := count_update (p := Vuela) t.1 i (ponVuelo (t.1 i) a)
    rw [if_pos hvuela] at hup
    refine ⟨fun f ↦ ?_, ?_, ?_⟩
    · by_cases hf : f = i
      · rw [hf, Function.update_self, if_pos (by omega), hti]
      · have hne : (f : Nat) ≠ i := Fin.val_ne_of_ne hf
        rw [Function.update_of_ne hf, htab]
        by_cases hr : b ≤ (f : Nat) ∧ f < b + n
        · rw [if_pos hr, if_pos (by omega)]
        · rw [if_neg hr, if_neg (by omega)]
    · by_cases hz : t.1 i &&& 0xF0 = 0
      · rw [if_pos hz, UInt64.toNat_add, UInt64.toNat_one, Nat.mod_eq_of_lt (by omega)]
        rw [if_neg (show ¬ Vuela (t.1 i) from not_not.mpr ((quienVuela_eq_zero _).mpr hz))] at hup
        omega
      · rw [if_neg hz]
        rw [if_pos (show Vuela (t.1 i) from fun h ↦ hz ((quienVuela_eq_zero _).mp h))] at hup
        omega
    · split
      · rw [UInt64.toNat_add, UInt64.toNat_one, Nat.mod_eq_of_lt (by omega)]
        omega
      · omega

private theorem foldl_sueltaPagina {base : UInt64} {n b : Nat} (ht : Tramo base n b) {a : UInt8}
    (ha : a ≠ 0) {tabla : Fin marcos → UInt8}
    (hsuya : ∀ f : Fin marcos, b ≤ f → f < b + n → quienVuela (tabla f) = a) :
    let t := (List.range n).foldl (sueltaPagina base a) (tabla, 0)
    (∀ f, t.1 f = if b ≤ f ∧ f < b + n then tabla f &&& 0x0F else tabla f) ∧
      count Vuela t.1 + t.2.toNat = count Vuela tabla ∧ t.2.toNat ≤ n := by
  have hm : marcos = 4194304 := rfl
  induction n with
  | zero => exact ⟨fun f ↦ (if_neg (by omega)).symm, Nat.add_zero _, le_refl _⟩
  | succ n ih =>
    have hcabe := ht.cabe
    obtain ⟨htab, hcnt, hle⟩ := ih ⟨ht.base, by omega⟩ fun f h h' ↦ hsuya f h (by omega)
    obtain ⟨i, hi, hib⟩ := ht.indice (k := n) (by omega)
    rw [List.range_succ, List.foldl_append, List.foldl_cons, List.foldl_nil]
    generalize (List.range n).foldl (sueltaPagina base a) (tabla, 0) = t at htab hcnt hle ⊢
    have hti : t.1 i = tabla i := by rw [htab, if_neg (by omega)]
    have hq : quienVuela (t.1 i) = a := by
      rw [hti]
      exact hsuya i (by omega) (by omega)
    simp only [sueltaPagina, hi, if_pos hq]
    have hup := count_update (p := Vuela) t.1 i (t.1 i &&& 0x0F)
    rw [if_pos (show Vuela (t.1 i) by rw [Vuela, hq]; exact ha),
      if_neg (show ¬ Vuela (t.1 i &&& 0x0F) from not_not.mpr (quienVuela_baja _))] at hup
    refine ⟨fun f ↦ ?_, ?_, ?_⟩
    · by_cases hf : f = i
      · rw [hf, Function.update_self, if_pos (by omega), hti]
      · have hne : (f : Nat) ≠ i := Fin.val_ne_of_ne hf
        rw [Function.update_of_ne hf, htab]
        by_cases hr : b ≤ (f : Nat) ∧ f < b + n
        · rw [if_pos hr, if_pos (by omega)]
        · rw [if_neg hr, if_neg (by omega)]
    · rw [UInt64.toNat_add, UInt64.toNat_one, Nat.mod_eq_of_lt (by omega)]
      omega
    · rw [UInt64.toNat_add, UInt64.toNat_one, Nat.mod_eq_of_lt (by omega)]
      omega

end Titulares

/-! ### The ledger -/

/-- The table with the ledger of the run that led to it: the flights not landed, and the loans not
returned. -/
structure Cuaderno where
  titulares : Titulares
  abiertos : List (Fin marcos × UInt8)
  vivos : List Prestamo

/-- The start: nothing in flight. -/
def Cuaderno.inicial : Cuaderno := ⟨.inicial, [], []⟩

/-- The calls of `titular`. -/
inductive Operacion
  | enVuelo (phys : UInt64) (aparato : UInt8) (cuando : UInt64)
  | aterrizo (phys : UInt64) (aparato : UInt8) (cuando : UInt64)
  | prestarTramo (base paginas : UInt64) (aparato : UInt8)
  | devolverTramo (base : UInt64) (aparato : UInt8)
  | marcar (phys : UInt64) (q : Titular)
  | caducados (ahora plazo : UInt64)

namespace Cuaderno

/-- Open a flight; one that is open already stays one. -/
def despega (v : Fin marcos × UInt8) (vuelos : List (Fin marcos × UInt8)) :
    List (Fin marcos × UInt8) :=
  if v ∈ vuelos then vuelos else v :: vuelos

/-- One call, entered in the ledger. -/
def paso (s : Cuaderno) : Operacion → Cuaderno
  | .enVuelo phys aparato cuando =>
    let r := s.titulares.enVuelo phys aparato cuando
    { s with
      titulares := r.2
      abiertos := if r.1 then (indice phys).elim s.abiertos fun f ↦ despega (f, aparato) s.abiertos
        else s.abiertos }
  | .aterrizo phys aparato cuando =>
    let r := s.titulares.aterrizo phys aparato cuando
    { s with
      titulares := r.2
      abiertos := if r.1 then (indice phys).elim s.abiertos fun f ↦ s.abiertos.erase (f, aparato)
        else s.abiertos }
  | .prestarTramo base paginas aparato =>
    match s.titulares.prestarTramo base paginas aparato with
    | (.ok (), t) => { s with titulares := t, vivos := ⟨base, paginas, aparato⟩ :: s.vivos }
    | (.error _, t) => { s with titulares := t }
  | .devolverTramo base aparato =>
    let r := s.titulares.devolverTramo base aparato
    { s with
      titulares := r.2
      vivos := if r.1 then s.vivos.eraseP fun p ↦ p.base = base ∧ p.aparato = aparato
        else s.vivos }
  | .marcar phys q => { s with titulares := s.titulares.marcar phys q }
  | .caducados ahora plazo => { s with titulares := (s.titulares.caducan ahora plazo).2 }

/-- No device takes off a frame that is lent to it, and none is lent a frame it already has. -/
def Limpia (s : Cuaderno) : Operacion → Prop
  | .enVuelo phys aparato _ => s.titulares.prestado phys = true → ∀ f, indice phys = some f →
      quienVuela (s.titulares.tabla f) ≠ aparato
  | .prestarTramo base paginas aparato => aparato ≠ 0 → ∀ k < paginas.toNat, ∀ f,
      indice (Titulares.pagina base k) = some f → quienVuela (s.titulares.tabla f) ≠ aparato
  | _ => True

/-- The device has no flight open and no loan. -/
def Libre (s : Cuaderno) (aparato : UInt8) : Prop :=
  (∀ f, (f, aparato) ∉ s.abiertos) ∧ ∀ p ∈ s.vivos, p.aparato ≠ aparato

end Cuaderno

/-- Two states of the table that differ in the clash counter at most. -/
def Titulares.SoloChoca (s s' : Titulares) : Prop := s' = s ∨ s' = s.choca

/-- The ledger is exact. -/
structure Cuaderno.Exacto (s : Cuaderno) : Prop where
  /-- A frame is marked with a device when it flies, or is lent, for that device. -/
  nibble : ∀ f a, a ≠ 0 → (quienVuela (s.titulares.tabla f) = a ↔
    (f, a) ∈ s.abiertos ∨ ∃ p ∈ s.vivos, p.aparato = a ∧ p.Cubre f)
  /-- `EN_VUELO_VIVOS` is the number of marked frames. -/
  enVueloVivos : s.titulares.enVueloVivos.toNat = count Vuela s.titulares.tabla
  /-- `VUELOS_DE` is the number of open flights of each device. -/
  vuelosDe : ∀ a : Fin aparatos, (s.titulares.vuelosDe a).toNat =
    s.abiertos.countP fun v ↦ decide (v.2.toNat = (a : Nat))
  /-- A device that landed and returned everything has no marks and no flights, and is never
  reported. -/
  libre : ∀ a : Fin aparatos, a ≠ 0 → s.Libre (UInt8.ofNat a) → s.titulares.vuelosDe a = 0 ∧
    (∀ f, quienVuela (s.titulares.tabla f) ≠ UInt8.ofNat a) ∧
    ∀ ahora plazo, (s.titulares.caducan ahora plazo).1.toNat.testBit a = false
  /-- Where no device has anything, no frame is marked. -/
  todos : (∀ a : Fin aparatos, s.Libre (UInt8.ofNat a)) → s.titulares.enVueloVivos = 0
  /-- A call that fails moves the clash counter at most. -/
  falla : ∀ phys aparato cuando, (s.titulares.enVuelo phys aparato cuando).1 = false →
    s.titulares.SoloChoca (s.titulares.enVuelo phys aparato cuando).2
  fallaFin : ∀ phys aparato cuando, (s.titulares.aterrizo phys aparato cuando).1 = false →
    s.titulares.SoloChoca (s.titulares.aterrizo phys aparato cuando).2
  fallaPrestar : ∀ base paginas aparato e,
    (s.titulares.prestarTramo base paginas aparato).1 = .error e →
      s.titulares.SoloChoca (s.titulares.prestarTramo base paginas aparato).2
  fallaDevolver : ∀ base aparato, (s.titulares.devolverTramo base aparato).1 = false →
    (s.titulares.devolverTramo base aparato).2 = s.titulares

/-- The runs in which every call satisfies `C`. -/
inductive Vuelo (C : Cuaderno → Operacion → Prop) : Cuaderno → Prop
  | inicial : Vuelo C .inicial
  | paso {s : Cuaderno} (o : Operacion) (h : Vuelo C s) (hc : C s o) : Vuelo C (s.paso o)

/-! ### What a call that fails does -/

namespace Titulares

private theorem enVuelo_falla {s : Titulares} {phys : UInt64} {aparato : UInt8} {cuando : UInt64}
    (h : (s.enVuelo phys aparato cuando).1 = false) :
    s.SoloChoca (s.enVuelo phys aparato cuando).2 := by
  rw [enVuelo] at h ⊢
  split
  · exact .inl rfl
  · next ha =>
    rw [if_neg ha] at h
    split
    · exact .inl rfl
    · next i hi =>
      simp only [hi] at h ⊢
      split
      · exact .inr rfl
      · next hq =>
        rw [if_neg hq] at h
        split at h <;> cases h

private theorem aterrizo_falla {s : Titulares} {phys : UInt64} {aparato : UInt8} {cuando : UInt64}
    (h : (s.aterrizo phys aparato cuando).1 = false) :
    s.SoloChoca (s.aterrizo phys aparato cuando).2 := by
  rw [aterrizo] at h ⊢
  split
  · exact .inl rfl
  · next i hi =>
    simp only [hi] at h ⊢
    split
    · exact .inl rfl
    · next hz =>
      rw [if_neg hz] at h
      split
      · exact .inr rfl
      · next hq =>
        rw [if_neg hq] at h
        split
        · exact .inr rfl
        · next hp =>
          rw [if_neg hp] at h
          cases h

theorem prestarTramo_falla {s : Titulares} {base paginas : UInt64} {aparato : UInt8} {e : NoPresta}
    (h : (s.prestarTramo base paginas aparato).1 = .error e) :
    s.SoloChoca (s.prestarTramo base paginas aparato).2 := by
  rw [prestarTramo] at h ⊢
  split
  · exact .inl rfl
  · next ha =>
    rw [if_neg ha] at h
    split
    · exact .inl rfl
    · next hueco hh =>
      simp only [hh] at h
      split
      · exact .inr rfl
      · exact .inl rfl
      · next hr =>
        simp only [hr] at h
        cases h

private theorem devolverTramo_falla {s : Titulares} {base : UInt64} {aparato : UInt8}
    (h : (s.devolverTramo base aparato).1 = false) : (s.devolverTramo base aparato).2 = s := by
  rw [devolverTramo] at h ⊢
  split
  · rfl
  · next hh =>
    simp only [hh] at h
    cases h

end Titulares

/-! ### The invariant -/

/-- What the table, its counts and the ledger say of each other. -/
structure Llevado (s : Cuaderno) : Prop where
  nibble : ∀ f a, a ≠ 0 → (quienVuela (s.titulares.tabla f) = a ↔
    (f, a) ∈ s.abiertos ∨ ∃ p ∈ s.vivos, p.aparato = a ∧ p.Cubre f)
  aparato : ∀ v ∈ s.abiertos, v.2 ≠ 0 ∧ v.2 ≤ 15
  abiertos : s.abiertos.Nodup
  separados : ∀ v ∈ s.abiertos, ∀ p ∈ s.vivos, ¬ p.Cubre v.1
  enVueloVivos : s.titulares.enVueloVivos.toNat = count Vuela s.titulares.tabla
  vuelosDe : ∀ a : Fin aparatos, (s.titulares.vuelosDe a).toNat =
    s.abiertos.countP fun v ↦ decide (v.2.toNat = (a : Nat))
  prestamos : ∀ p, p ∈ s.vivos ↔ p.paginas ≠ 0 ∧ ∃ h, s.titulares.prestamos h = p
  vivos : s.vivos.Nodup
  valen : ∀ p ∈ s.vivos, p.aparato ≠ 0 ∧ p.aparato ≤ 15 ∧
    ∃ b, Titulares.Tramo p.base p.paginas.toNat b
  huecos : ∀ h h' f, (s.titulares.prestamos h).paginas ≠ 0 →
    (s.titulares.prestamos h').paginas ≠ 0 → (s.titulares.prestamos h).Cubre f →
    (s.titulares.prestamos h').Cubre f → h = h'

namespace Llevado

variable {s : Cuaderno}

private theorem inicial : Llevado .inicial where
  nibble f a ha := by
    have hz : quienVuela 0 = 0 := by decide
    refine iff_of_false (fun h ↦ ha (h.symm.trans hz)) ?_
    rintro (h | ⟨p, h, -⟩)
    · cases h
    · cases h
  aparato _ h := by cases h
  abiertos := List.nodup_nil
  separados _ h := by cases h
  enVueloVivos := by
    have hz : quienVuela 0 = 0 := by decide
    exact (count_eq_zero.mpr fun _ h ↦ h hz).symm
  vuelosDe _ := rfl
  prestamos p := by
    refine iff_of_false List.not_mem_nil ?_
    rintro ⟨hp, h, rfl⟩
    exact hp rfl
  vivos := List.nodup_nil
  valen _ h := by cases h
  huecos _ _ _ h := absurd rfl h

private theorem igual (hs : Llevado s) {t : Titulares}
    (htab : ∀ f, quienVuela (t.tabla f) = quienVuela (s.titulares.tabla f))
    (hviv : t.enVueloVivos = s.titulares.enVueloVivos) (hvue : t.vuelosDe = s.titulares.vuelosDe)
    (hpre : t.prestamos = s.titulares.prestamos) : Llevado { s with titulares := t } where
  nibble f a ha := by
    rw [htab f]
    exact hs.nibble f a ha
  aparato := hs.aparato
  abiertos := hs.abiertos
  separados := hs.separados
  enVueloVivos := by
    rw [hviv, hs.enVueloVivos]
    exact count_congr fun f ↦ by rw [Vuela, Vuela, htab f]
  vuelosDe a := by
    rw [hvue]
    exact hs.vuelosDe a
  prestamos p := by
    rw [hpre]
    exact hs.prestamos p
  vivos := hs.vivos
  valen := hs.valen
  huecos h h' f := by
    rw [hpre]
    exact hs.huecos h h' f

private theorem soloChoca (hs : Llevado s) {t : Titulares} (h : s.titulares.SoloChoca t) :
    Llevado { s with titulares := t } := by
  rcases h with rfl | rfl
  · exact hs
  · exact hs.igual (fun _ ↦ rfl) rfl rfl rfl

private theorem prestado_iff (hs : Llevado s) {phys : UInt64} {f : Fin marcos}
    (hf : indice phys = some f) :
    s.titulares.prestado phys = true ↔ ∃ p ∈ s.vivos, p.Cubre f := by
  have hphys := indice_eq_some.mp hf
  have hpage : page.toNat = 4096 := rfl
  have hm : marcos = 4194304 := rfl
  have hcubre : ∀ p ∈ s.vivos, (phys ≥ p.base ∧ phys < p.base + p.paginas * page) ↔ p.Cubre f := by
    intro p hp
    obtain ⟨-, -, b, ht⟩ := hs.valen p hp
    have hcabe := ht.cabe
    have hbase := ht.base
    rw [ge_iff_le, UInt64.le_iff_toNat_le, UInt64.lt_iff_toNat_lt, UInt64.toNat_add,
      UInt64.toNat_mul, hpage, Prestamo.Cubre, hphys]
    have hmul : p.paginas.toNat * 4096 ≤ 4194304 * 4096 := by
      refine Nat.mul_le_mul_right _ ?_
      omega
    rw [Nat.mod_eq_of_lt (show p.paginas.toNat * 4096 < 2 ^ 64 by omega),
      Nat.mod_eq_of_lt (show p.base.toNat + p.paginas.toNat * 4096 < 2 ^ 64 by omega)]
  rw [Titulares.prestado, List.any_eq_true]
  simp only [List.mem_finRange, true_and, decide_eq_true_eq]
  constructor
  · rintro ⟨h, hp, hrango⟩
    have hmem := (hs.prestamos (s.titulares.prestamos h)).mpr ⟨hp, h, rfl⟩
    exact ⟨_, hmem, (hcubre _ hmem).mp hrango⟩
  · rintro ⟨p, hp, hc⟩
    obtain ⟨hne, h, rfl⟩ := (hs.prestamos p).mp hp
    exact ⟨h, hne, (hcubre _ hp).mpr hc⟩

private theorem length_abiertos (hs : Llevado s) : s.abiertos.length ≤ 4194304 := by
  have hnodup : (s.abiertos.map Prod.fst).Nodup := by
    refine hs.abiertos.map_on ?_
    rintro ⟨f, a⟩ hv ⟨f', a'⟩ hv' heq
    have heq : f = f' := heq
    subst heq
    have h := (hs.nibble f a (hs.aparato _ hv).1).mpr (.inl hv)
    have h' := (hs.nibble f a' (hs.aparato _ hv').1).mpr (.inl hv')
    rw [← h, ← h']
  have hlen := hnodup.length_le_card
  rw [List.length_map, Fintype.card_fin] at hlen
  exact hlen

/-! ### The calls -/

private theorem despega (hs : Llevado s) {i : Fin marcos} {a : UInt8} (ha : a ≠ 0) (ha' : a ≤ 15)
    (hq : quienVuela (s.titulares.tabla i) = 0) {t : Titulares}
    (htab : t.tabla = Function.update s.titulares.tabla i (ponVuelo (s.titulares.tabla i) a))
    (hviv : t.enVueloVivos = s.titulares.enVueloVivos + 1)
    (hvue : t.vuelosDe = Function.update s.titulares.vuelosDe (Fin.ofNat aparatos a.toNat)
      (s.titulares.vuelosDe (Fin.ofNat aparatos a.toNat) + 1))
    (hpre : t.prestamos = s.titulares.prestamos) :
    Llevado { s with titulares := t, abiertos := (i, a) :: s.abiertos } := by
  have ha15 : a.toNat ≤ 15 := ha'
  -- no flight is open on the frame, and no loan covers it
  have hnadie : ∀ b, (i, b) ∉ s.abiertos := by
    intro b hb
    have hne := (hs.aparato _ hb).1
    exact hne (((hs.nibble i b hne).mpr (.inl hb)).symm.trans hq)
  have hlibre : ∀ p ∈ s.vivos, ¬ p.Cubre i := by
    intro p hp hc
    obtain ⟨hne, -, -⟩ := hs.valen p hp
    exact hne (((hs.nibble i _ hne).mpr (.inr ⟨p, hp, rfl, hc⟩)).symm.trans hq)
  have hcuenta := count_update (p := Vuela) s.titulares.tabla i (ponVuelo (s.titulares.tabla i) a)
  have hpon : quienVuela (ponVuelo (s.titulares.tabla i) a) = a := quienVuela_ponVuelo _ ha'
  rw [if_neg (show ¬ Vuela (s.titulares.tabla i) from not_not.mpr hq),
    if_pos (show Vuela (ponVuelo (s.titulares.tabla i) a) by rw [Vuela, hpon]; exact ha)] at hcuenta
  refine
    { nibble := fun f b hb ↦ ?_, aparato := fun v hv ↦ ?_
      abiertos := List.nodup_cons.mpr ⟨hnadie a, hs.abiertos⟩, separados := fun v hv p hp ↦ ?_
      enVueloVivos := ?_, vuelosDe := fun b ↦ ?_, prestamos := fun p ↦ ?_, vivos := hs.vivos
      valen := hs.valen, huecos := fun h h' f ↦ ?_ }
  · simp only [htab, List.mem_cons, Prod.mk.injEq]
    by_cases hf : f = i
    · subst hf
      rw [Function.update_self, hpon]
      constructor
      · rintro rfl
        exact .inl (.inl ⟨rfl, rfl⟩)
      · rintro ((⟨-, rfl⟩ | hv) | ⟨p, hp, -, hc⟩)
        · rfl
        · exact absurd hv (hnadie b)
        · exact absurd hc (hlibre p hp)
    · rw [Function.update_of_ne hf, hs.nibble f b hb]
      simp only [hf, false_and, false_or]
  · rcases List.mem_cons.mp hv with rfl | hv
    · exact ⟨ha, ha'⟩
    · exact hs.aparato v hv
  · rcases List.mem_cons.mp hv with rfl | hv
    · exact hlibre p hp
    · exact hs.separados v hv p hp
  · have hle := count_le (p := Vuela) s.titulares.tabla
    rw [Fintype.card_fin] at hle
    simp only [hviv, htab]
    rw [UInt64.toNat_add, UInt64.toNat_one, hs.enVueloVivos, Nat.mod_eq_of_lt]
    · omega
    · have hm : marcos = 4194304 := rfl
      omega
  · have hlen := hs.length_abiertos
    have hcp := List.countP_le_length (p := fun v : Fin marcos × UInt8 ↦ decide (v.2.toNat = (b : Nat)))
      (l := s.abiertos)
    have hfin : (Fin.ofNat aparatos a.toNat : Nat) = a.toNat :=
      Nat.mod_eq_of_lt (show a.toNat < 16 by omega)
    simp only [hvue]
    rw [List.countP_cons]
    by_cases hb : b = Fin.ofNat aparatos a.toNat
    · subst hb
      rw [Function.update_self, UInt32.toNat_add, UInt32.toNat_one, hs.vuelosDe, hfin,
        if_pos (by simp), Nat.mod_eq_of_lt]
      rw [hfin] at hcp
      omega
    · rw [Function.update_of_ne hb, hs.vuelosDe, if_neg, Nat.add_zero]
      rw [decide_eq_true_eq]
      intro h
      exact hb (Fin.ext (by rw [hfin, h]))
  · rw [hpre]
    exact hs.prestamos p
  · rw [hpre]
    exact hs.huecos h h' f

private theorem enVuelo (hs : Llevado s) (phys : UInt64) (a : UInt8) (cuando : UInt64)
    (hl : s.Limpia (.enVuelo phys a cuando)) : Llevado (s.paso (.enVuelo phys a cuando)) := by
  simp only [Cuaderno.paso]
  cases hr : (s.titulares.enVuelo phys a cuando).1 with
  | false => exact hs.soloChoca (Titulares.enVuelo_falla hr)
  | true =>
    rw [Titulares.enVuelo] at hr ⊢
    by_cases ha : a = 0 ∨ a > 15
    · rw [if_pos ha] at hr
      cases hr
    · rw [if_neg ha] at hr ⊢
      obtain ⟨ha0, ha15⟩ := not_or.mp ha
      have ha15 : a ≤ 15 := UInt8.not_lt.mp ha15
      cases hi : indice phys with
      | none =>
        simp only [hi] at hr
        cases hr
      | some i =>
        simp only [hi] at hr ⊢
        by_cases hq : quienVuela (s.titulares.tabla i) ≠ 0 ∧ quienVuela (s.titulares.tabla i) ≠ a
        · rw [if_pos hq] at hr
          cases hr
        · rw [if_neg hq]
          by_cases hz : quienVuela (s.titulares.tabla i) = 0
          · rw [if_pos hz]
            have hno : (i, a) ∉ s.abiertos := fun h ↦
              ha0 (((hs.nibble i a ha0).mpr (.inl h)).symm.trans hz)
            simp only [if_true, Option.elim, Cuaderno.despega, if_neg hno]
            exact hs.despega ha0 ha15 hz rfl rfl rfl rfl
          · -- the device had the frame already: it is in flight, since it is not lent
            rw [if_neg hz]
            have hqa : quienVuela (s.titulares.tabla i) = a := by
              by_contra h
              exact hq ⟨hz, h⟩
            have habierto : (i, a) ∈ s.abiertos := by
              rcases (hs.nibble i a ha0).mp hqa with h | ⟨p, hp, -, hc⟩
              · exact h
              · exact absurd hqa (hl ((hs.prestado_iff hi).mpr ⟨p, hp, hc⟩) i hi)
            simp only [if_true, Option.elim, Cuaderno.despega, if_pos habierto]
            refine hs.igual (fun f ↦ ?_) rfl rfl rfl
            dsimp only
            by_cases hf : f = i
            · rw [hf, Function.update_self, quienVuela_ponVuelo _ ha15, hqa]
            · rw [Function.update_of_ne hf]

private theorem aterriza (hs : Llevado s) {i : Fin marcos} {a : UInt8} (habierto : (i, a) ∈ s.abiertos)
    {t : Titulares}
    (htab : t.tabla = Function.update s.titulares.tabla i (s.titulares.tabla i &&& 0x0F))
    (hviv : t.enVueloVivos = Titulares.saturatingSub s.titulares.enVueloVivos 1)
    (hvue : t.vuelosDe = Function.update s.titulares.vuelosDe (Fin.ofNat aparatos a.toNat)
      (if s.titulares.vuelosDe (Fin.ofNat aparatos a.toNat) < 1 then 0
        else s.titulares.vuelosDe (Fin.ofNat aparatos a.toNat) - 1))
    (hpre : t.prestamos = s.titulares.prestamos) :
    Llevado { s with titulares := t, abiertos := s.abiertos.erase (i, a) } := by
  obtain ⟨ha, ha'⟩ := hs.aparato _ habierto
  have ha15 : a.toNat ≤ 15 := ha'
  have hq : quienVuela (s.titulares.tabla i) = a := (hs.nibble i a ha).mpr (.inl habierto)
  have hbaja : quienVuela (s.titulares.tabla i &&& 0x0F) = 0 := quienVuela_baja _
  have hvuela : Vuela (s.titulares.tabla i) := by
    rw [Vuela, hq]
    exact ha
  have hcuenta := count_update (p := Vuela) s.titulares.tabla i (s.titulares.tabla i &&& 0x0F)
  rw [if_pos hvuela, if_neg (show ¬ Vuela (s.titulares.tabla i &&& 0x0F) from not_not.mpr hbaja)]
    at hcuenta
  have hpos := (count_pos (p := Vuela)).mpr ⟨i, hvuela⟩
  refine
    { nibble := fun f b hb ↦ ?_, aparato := fun v hv ↦ hs.aparato v (List.mem_of_mem_erase hv)
      abiertos := hs.abiertos.erase _
      separados := fun v hv ↦ hs.separados v (List.mem_of_mem_erase hv)
      enVueloVivos := ?_, vuelosDe := fun b ↦ ?_, prestamos := fun p ↦ ?_, vivos := hs.vivos
      valen := hs.valen, huecos := fun h h' f ↦ ?_ }
  · simp only [htab, hs.abiertos.mem_erase_iff, ne_eq, Prod.mk.injEq, not_and]
    by_cases hf : f = i
    · subst hf
      rw [Function.update_self, hbaja]
      refine iff_of_false (fun h ↦ hb h.symm) ?_
      rintro (⟨hne, hv⟩ | ⟨p, hp, -, hc⟩)
      · exact hne rfl (((hs.nibble f b hb).mpr (.inl hv)).symm.trans hq)
      · exact hs.separados _ habierto p hp hc
    · rw [Function.update_of_ne hf, hs.nibble f b hb]
      simp only [hf, false_implies, true_and]
  · simp only [hviv, htab]
    rw [Titulares.saturatingSub, if_neg, UInt64.toNat_sub_of_le, hs.enVueloVivos, UInt64.toNat_one]
    · omega
    · rw [UInt64.le_iff_toNat_le, hs.enVueloVivos]
      exact hpos
    · rw [UInt64.lt_iff_toNat_lt, hs.enVueloVivos]
      exact Nat.not_lt.mpr hpos
  · have hfin : (Fin.ofNat aparatos a.toNat : Nat) = a.toNat :=
      Nat.mod_eq_of_lt (show a.toNat < 16 by omega)
    simp only [hvue]
    rw [List.countP_erase]
    by_cases hb : b = Fin.ofNat aparatos a.toNat
    · subst hb
      have hvue' := hs.vuelosDe (Fin.ofNat aparatos a.toNat)
      have hpos' : 0 < s.abiertos.countP fun v ↦ decide (v.2.toNat = (Fin.ofNat aparatos a.toNat : Nat)) :=
        List.countP_pos_iff.mpr ⟨_, habierto, by rw [decide_eq_true_eq, hfin]⟩
      rw [Function.update_self, if_neg, UInt32.toNat_sub_of_le, hvue', UInt32.toNat_one, if_pos]
      · rw [decide_eq_true_eq, hfin]
        exact ⟨habierto, rfl⟩
      · rw [UInt32.le_iff_toNat_le, hvue']
        exact hpos'
      · rw [UInt32.lt_iff_toNat_lt, hvue']
        exact Nat.not_lt.mpr hpos'
    · rw [Function.update_of_ne hb, hs.vuelosDe, if_neg, Nat.sub_zero]
      rw [decide_eq_true_eq]
      rintro ⟨-, h⟩
      exact hb (Fin.ext (by rw [hfin, h]))
  · rw [hpre]
    exact hs.prestamos p
  · rw [hpre]
    exact hs.huecos h h' f

private theorem aterrizo (hs : Llevado s) (phys : UInt64) (a : UInt8) (cuando : UInt64) :
    Llevado (s.paso (.aterrizo phys a cuando)) := by
  simp only [Cuaderno.paso]
  cases hr : (s.titulares.aterrizo phys a cuando).1 with
  | false => exact hs.soloChoca (Titulares.aterrizo_falla hr)
  | true =>
    rw [Titulares.aterrizo] at hr ⊢
    cases hi : indice phys with
    | none =>
      simp only [hi] at hr
      cases hr
    | some i =>
      simp only [hi] at hr ⊢
      by_cases hz : quienVuela (s.titulares.tabla i) = 0
      · rw [if_pos hz] at hr
        cases hr
      · rw [if_neg hz] at hr ⊢
        by_cases hq : quienVuela (s.titulares.tabla i) ≠ a
        · rw [if_pos hq] at hr
          cases hr
        · rw [if_neg hq] at hr ⊢
          have hq := not_not.mp hq
          by_cases hp : s.titulares.prestado phys = true
          · rw [if_pos hp] at hr
            cases hr
          · -- the frame is not lent, so its mark is a flight
            rw [if_neg hp]
            have ha : a ≠ 0 := fun h ↦ hz (hq.trans h)
            have habierto : (i, a) ∈ s.abiertos := by
              rcases (hs.nibble i a ha).mp hq with h | ⟨p, hp', -, hc⟩
              · exact h
              · exact absurd ((hs.prestado_iff hi).mpr ⟨p, hp', hc⟩) hp
            simp only [if_true, Option.elim]
            exact hs.aterriza habierto rfl rfl rfl rfl

private theorem marcar (hs : Llevado s) (phys : UInt64) (q : Titular) :
    Llevado (s.paso (.marcar phys q)) := by
  simp only [Cuaderno.paso, Titulares.marcar]
  cases indice phys with
  | none => exact hs
  | some i =>
    refine hs.igual (fun f ↦ ?_) rfl rfl rfl
    dsimp only
    by_cases hf : f = i
    · rw [hf, Function.update_self, quienVuela_marca]
    · rw [Function.update_of_ne hf]

private theorem caducados (hs : Llevado s) (ahora plazo : UInt64) :
    Llevado (s.paso (.caducados ahora plazo)) := by
  simp only [Cuaderno.paso, Titulares.caducan]
  split
  · exact hs
  · exact hs.igual (fun _ ↦ rfl) rfl rfl rfl

private theorem presta (hs : Llevado s) {p : Prestamo} {b : Nat} (ha : p.aparato ≠ 0)
    (ha' : p.aparato ≤ 15) (hn : p.paginas ≠ 0) (ht : Titulares.Tramo p.base p.paginas.toNat b)
    (hnadie : ∀ f, p.Cubre f → quienVuela (s.titulares.tabla f) = 0) {hueco : Fin 4}
    (hh : (s.titulares.prestamos hueco).paginas = 0) {t : Titulares}
    (htab : ∀ f, t.tabla f = if b ≤ f ∧ f < b + p.paginas.toNat then
      ponVuelo (s.titulares.tabla f) p.aparato else s.titulares.tabla f)
    (hviv : t.enVueloVivos.toNat = count Vuela t.tabla)
    (hvue : t.vuelosDe = s.titulares.vuelosDe)
    (hpre : t.prestamos = Function.update s.titulares.prestamos hueco p) :
    Llevado { s with titulares := t, vivos := p :: s.vivos } := by
  -- what is covered was free
  have hlibre : ∀ f, p.Cubre f → (∀ a, (f, a) ∉ s.abiertos) ∧ ∀ q ∈ s.vivos, ¬ q.Cubre f := by
    intro f hc
    have hz := hnadie f hc
    refine ⟨fun a hv ↦ ?_, fun q hq hcq ↦ ?_⟩
    · have hne := (hs.aparato _ hv).1
      exact hne (((hs.nibble f a hne).mpr (.inl hv)).symm.trans hz)
    · have hne := (hs.valen q hq).1
      exact hne (((hs.nibble f _ hne).mpr (.inr ⟨q, hq, rfl, hcq⟩)).symm.trans hz)
  have hnpos : 0 < p.paginas.toNat :=
    Nat.pos_of_ne_zero fun h ↦ hn (UInt64.toNat_inj.mp h)
  have hnuevo : p ∉ s.vivos := by
    intro hmem
    have hcabe := ht.cabe
    have hm : marcos = 4194304 := rfl
    have hc := (ht.cubre ⟨b, by omega⟩).mpr ⟨le_refl b, Nat.lt_add_of_pos_right hnpos⟩
    exact (hlibre _ hc).2 p hmem hc
  have hotro : ∀ {h}, (s.titulares.prestamos h).paginas ≠ 0 → h ≠ hueco := by
    rintro h hne rfl
    exact hne hh
  refine
    { nibble := fun f a hb ↦ ?_, aparato := hs.aparato, abiertos := hs.abiertos
      separados := fun v hv q hq ↦ ?_, enVueloVivos := hviv, vuelosDe := fun a ↦ ?_
      prestamos := fun q ↦ ?_, vivos := List.nodup_cons.mpr ⟨hnuevo, hs.vivos⟩
      valen := fun q hq ↦ ?_, huecos := fun h h' f hne hne' hc hc' ↦ ?_ }
  · simp only [htab, List.exists_mem_cons_iff]
    by_cases hc : p.Cubre f
    · rw [if_pos ((ht.cubre f).mp hc), quienVuela_ponVuelo _ ha']
      constructor
      · rintro rfl
        exact .inr (.inl ⟨rfl, hc⟩)
      · rintro (hv | ⟨rfl, -⟩ | ⟨q, hq, -, hcq⟩)
        · exact absurd hv ((hlibre f hc).1 a)
        · rfl
        · exact absurd hcq ((hlibre f hc).2 q hq)
    · rw [if_neg fun h ↦ hc ((ht.cubre f).mpr h), hs.nibble f a hb]
      simp only [hc, and_false, false_or]
  · rcases List.mem_cons.mp hq with rfl | hq
    · exact fun hc ↦ (hlibre _ hc).1 v.2 hv
    · exact hs.separados v hv q hq
  · rw [hvue]
    exact hs.vuelosDe a
  · rw [List.mem_cons, hs.prestamos]
    constructor
    · rintro (rfl | ⟨hne, h, rfl⟩)
      · exact ⟨hn, hueco, by rw [hpre, Function.update_self]⟩
      · exact ⟨hne, h, by rw [hpre, Function.update_of_ne (hotro hne)]⟩
    · rintro ⟨hne, h, heq⟩
      rw [hpre] at heq
      by_cases hhu : h = hueco
      · subst hhu
        rw [Function.update_self] at heq
        exact .inl heq.symm
      · rw [Function.update_of_ne hhu] at heq
        exact .inr ⟨hne, h, heq⟩
  · rcases List.mem_cons.mp hq with rfl | hq
    · exact ⟨ha, ha', b, ht⟩
    · exact hs.valen q hq
  · have hviejo : ∀ {k}, k ≠ hueco → (t.prestamos k).paginas ≠ 0 → (t.prestamos k).Cubre f →
        ¬ p.Cubre f ∧ (s.titulares.prestamos k).paginas ≠ 0 ∧ (s.titulares.prestamos k).Cubre f := by
      intro k hk hkne hkc
      rw [hpre, Function.update_of_ne hk] at hkne hkc
      exact ⟨fun hp ↦ (hlibre f hp).2 _ ((hs.prestamos _).mpr ⟨hkne, k, rfl⟩) hkc, hkne, hkc⟩
    by_cases hk : h = hueco
    · by_cases hk' : h' = hueco
      · rw [hk, hk']
      · rw [hk] at hc
        simp only [hpre, Function.update_self] at hc
        exact absurd hc (hviejo hk' hne' hc').1
    · by_cases hk' : h' = hueco
      · rw [hk'] at hc'
        simp only [hpre, Function.update_self] at hc'
        exact absurd hc' (hviejo hk hne hc).1
      · obtain ⟨-, hne, hc⟩ := hviejo hk hne hc
        obtain ⟨-, hne', hc'⟩ := hviejo hk' hne' hc'
        exact hs.huecos h h' f hne hne' hc hc'

private theorem prestarTramo (hs : Llevado s) (base paginas : UInt64) (a : UInt8)
    (hl : s.Limpia (.prestarTramo base paginas a)) :
    Llevado (s.paso (.prestarTramo base paginas a)) := by
  simp only [Cuaderno.paso]
  rcases hr : s.titulares.prestarTramo base paginas a with ⟨e | ⟨⟩, t⟩
  · refine hs.soloChoca ?_
    have := Titulares.prestarTramo_falla (congrArg Prod.fst hr)
    rwa [hr] at this
  · rw [Titulares.prestarTramo] at hr
    split at hr
    · cases hr
    · next ha =>
      simp only [not_or] at ha
      obtain ⟨ha0, ha15, hn⟩ := ha
      have ha15 : a ≤ 15 := UInt8.not_lt.mp ha15
      split at hr
      · cases hr
      · next hueco hh =>
        have hhueco : (s.titulares.prestamos hueco).paginas = 0 := by
          simpa using List.find?_some hh
        split at hr
        · cases hr
        · cases hr
        · next hrev =>
          cases hr
          have hpags := Titulares.revisa_eq_none hrev
          simp only [Nat.zero_add] at hpags
          have hnpos : 0 < paginas.toNat :=
            Nat.pos_of_ne_zero fun h ↦ hn (UInt64.toNat_inj.mp h)
          obtain ⟨b, ht⟩ := Titulares.tramo_of_indice hnpos fun k hk ↦
            ⟨(hpags k hk).choose, (hpags k hk).choose_spec.1⟩
          obtain ⟨htab, hcnt, hle⟩ := Titulares.foldl_marcaPagina ht ha0 ha15 s.titulares.tabla
          have hnadie : ∀ f, Prestamo.Cubre ⟨base, paginas, a⟩ f →
              quienVuela (s.titulares.tabla f) = 0 := by
            intro f hc
            obtain ⟨hb, hlt⟩ := (Titulares.Tramo.cubre (p := ⟨base, paginas, a⟩) ht f).mp hc
            have hlt : (f : Nat) < b + paginas.toNat := hlt
            obtain ⟨i, hi, hib⟩ := ht.indice (k := f - b) (by omega)
            have hfi : f = i := Fin.ext (by omega)
            subst hfi
            obtain ⟨i', hi', hq⟩ := hpags (f - b) (by omega)
            rw [hi, Option.some.injEq] at hi'
            subst hi'
            exact hq.resolve_right (hl ha0 (f - b) (by omega) f hi)
          refine hs.presta (p := ⟨base, paginas, a⟩) ha0 ha15 hn ht hnadie hhueco htab ?_ rfl rfl
          have hcount := count_le (p := Vuela) s.titulares.tabla
          have hcabe := ht.cabe
          rw [Fintype.card_fin] at hcount
          have hm : marcos = 4194304 := rfl
          rw [hcnt, UInt64.toNat_add, hs.enVueloVivos, Nat.mod_eq_of_lt]
          omega

private theorem eraseP_vivos (hs : Llevado s) {h : Fin 4}
    (hn : (s.titulares.prestamos h).paginas ≠ 0) :
    let q := s.titulares.prestamos h
    (s.vivos.eraseP fun p ↦ p.base = q.base ∧ p.aparato = q.aparato).Nodup ∧
      ∀ p, p ∈ (s.vivos.eraseP fun p ↦ p.base = q.base ∧ p.aparato = q.aparato) ↔
        p ∈ s.vivos ∧ p ≠ q := by
  intro q
  have hm : marcos = 4194304 := rfl
  have hq : q ∈ s.vivos := (hs.prestamos q).mpr ⟨hn, h, rfl⟩
  -- both cover the frame they start from
  have hunico : ∀ p ∈ s.vivos, p.base = q.base → p = q := by
    intro p hp hbase
    obtain ⟨hne, h', rfl⟩ := (hs.prestamos p).mp hp
    obtain ⟨-, -, b, ht⟩ := hs.valen q hq
    have hcabe := ht.cabe
    have hpos : ∀ {r : Prestamo}, r.paginas ≠ 0 → 0 < r.paginas.toNat := fun hr ↦
      Nat.pos_of_ne_zero fun h ↦ hr (UInt64.toNat_inj.mp h)
    have hqpos : 0 < q.paginas.toNat := hpos hn
    have hppos := hpos hne
    have heq := hs.huecos h' h ⟨b, by omega⟩ hne hn
      ⟨by rw [hbase, ht.base],
        by rw [hbase, ht.base]; exact Nat.lt_add_of_pos_right (Nat.mul_pos hppos (by decide))⟩
      ⟨ht.base.le, by rw [ht.base]; exact Nat.lt_add_of_pos_right (Nat.mul_pos hqpos (by decide))⟩
    rw [heq]
  obtain ⟨x, l₁, l₂, -, hx, hl, herase⟩ := List.exists_of_eraseP
    (p := fun p ↦ decide (p.base = q.base ∧ p.aparato = q.aparato)) hq (by simp)
  have hxq : x = q := by
    rw [decide_eq_true_eq] at hx
    exact hunico x (by rw [hl]; simp) hx.1
  have hnodup := hs.vivos
  rw [hl, hxq, List.nodup_middle, List.nodup_cons] at hnodup
  rw [herase]
  refine ⟨hnodup.2, fun p ↦ ?_⟩
  rw [hl, hxq]
  simp only [List.mem_append, List.mem_cons]
  constructor
  · intro hp
    exact ⟨hp.imp_right .inr, fun heq ↦ hnodup.1 (List.mem_append.mpr (heq ▸ hp))⟩
  · rintro ⟨hp | hp | hp, hne⟩
    · exact .inl hp
    · exact absurd hp hne
    · exact .inr hp

private theorem devolverTramo (hs : Llevado s) (base : UInt64) (a : UInt8) :
    Llevado (s.paso (.devolverTramo base a)) := by
  simp only [Cuaderno.paso]
  cases hr : (s.titulares.devolverTramo base a).1 with
  | false =>
    rw [Titulares.devolverTramo_falla hr]
    exact hs
  | true =>
    rw [Titulares.devolverTramo] at hr ⊢
    split
    · next hh =>
      simp only [hh] at hr
      cases hr
    · next h hh =>
      have hsuyo : (s.titulares.prestamos h).paginas ≠ 0 ∧ (s.titulares.prestamos h).base = base ∧
          (s.titulares.prestamos h).aparato = a := by
        simpa using List.find?_some hh
      obtain ⟨hn, rfl, rfl⟩ := hsuyo
      generalize hq : s.titulares.prestamos h = q at hn ⊢
      have hmem : q ∈ s.vivos := (hs.prestamos q).mpr ⟨hn, h, hq⟩
      obtain ⟨ha, ha15, b, ht⟩ := hs.valen q hmem
      obtain ⟨hnodup, hvivos⟩ := hs.eraseP_vivos (h := h) (by rw [hq]; exact hn)
      rw [hq] at hnodup hvivos
      have hsuya : ∀ f, q.Cubre f → quienVuela (s.titulares.tabla f) = q.aparato := fun f hc ↦
        (hs.nibble f _ ha).mpr (.inr ⟨q, hmem, rfl, hc⟩)
      obtain ⟨htab, hcnt, hle⟩ := @Titulares.foldl_sueltaPagina _ _ _ ht _ ha s.titulares.tabla
        fun f hb hlt ↦ hsuya f ((ht.cubre f).mpr ⟨hb, hlt⟩)
      simp only [if_true]
      refine
        { nibble := fun f c hc0 ↦ ?_, aparato := hs.aparato, abiertos := hs.abiertos
          separados := fun v hv p hp ↦ hs.separados v hv p ((hvivos p).mp hp).1
          enVueloVivos := ?_, vuelosDe := hs.vuelosDe, prestamos := fun p ↦ ?_, vivos := hnodup
          valen := fun p hp ↦ hs.valen p ((hvivos p).mp hp).1
          huecos := fun k k' f hk hk' hc hc' ↦ ?_ }
      · simp only [htab]
        by_cases hc : q.Cubre f
        · rw [if_pos ((ht.cubre f).mp hc), quienVuela_baja]
          refine iff_of_false (fun h ↦ hc0 h.symm) ?_
          rintro (hv | ⟨p, hp, -, hcp⟩)
          · exact hs.separados _ hv q hmem hc
          · obtain ⟨hp, hne⟩ := (hvivos p).mp hp
            obtain ⟨hpn, k, rfl⟩ := (hs.prestamos p).mp hp
            have hk := hs.huecos k h f hpn (by rw [hq]; exact hn) hcp (by rw [hq]; exact hc)
            rw [hk, hq] at hne
            exact hne rfl
        · rw [if_neg fun h ↦ hc ((ht.cubre f).mpr h), hs.nibble f c hc0]
          refine or_congr_right ⟨?_, ?_⟩
          · rintro ⟨p, hp, hpa, hcp⟩
            exact ⟨p, (hvivos p).mpr ⟨hp, fun heq ↦ hc (heq ▸ hcp)⟩, hpa, hcp⟩
          · rintro ⟨p, hp, hpa, hcp⟩
            exact ⟨p, ((hvivos p).mp hp).1, hpa, hcp⟩
      · have hle' : ((List.range q.paginas.toNat).foldl (Titulares.sueltaPagina q.base q.aparato)
            (s.titulares.tabla, 0)).2 ≤ s.titulares.enVueloVivos := by
          rw [UInt64.le_iff_toNat_le, hs.enVueloVivos]
          omega
        dsimp only
        rw [Titulares.saturatingSub, if_neg (UInt64.not_lt.mpr hle'), UInt64.toNat_sub_of_le _ _ hle',
          hs.enVueloVivos]
        omega
      · rw [hvivos, hs.prestamos]
        constructor
        · rintro ⟨⟨hpn, k, rfl⟩, hne⟩
          refine ⟨hpn, k, Function.update_of_ne ?_ ..⟩
          rintro rfl
          exact hne hq
        · rintro ⟨hpn, k, heq⟩
          dsimp only at heq
          by_cases hk : k = h
          · subst hk
            rw [Function.update_self] at heq
            subst heq
            exact absurd rfl hpn
          · rw [Function.update_of_ne hk] at heq
            refine ⟨⟨hpn, k, heq⟩, ?_⟩
            rintro rfl
            -- two slots with one loan would overlap
            have hcabe := ht.cabe
            have hm : marcos = 4194304 := rfl
            have hpos : 0 < p.paginas.toNat :=
              Nat.pos_of_ne_zero fun h ↦ hn (UInt64.toNat_inj.mp h)
            have hc := (ht.cubre ⟨b, by omega⟩).mpr ⟨le_refl b, Nat.lt_add_of_pos_right hpos⟩
            refine hk (hs.huecos k h ⟨b, by omega⟩ ?_ ?_ ?_ ?_)
            · rw [heq]
              exact hn
            · rw [hq]
              exact hn
            · rw [heq]
              exact hc
            · rw [hq]
              exact hc
      · have hviejo : ∀ {j}, (Function.update s.titulares.prestamos h ⟨0, 0, 0⟩ j).paginas ≠ 0 →
            Function.update s.titulares.prestamos h ⟨0, 0, 0⟩ j = s.titulares.prestamos j := by
          intro j hj
          refine Function.update_of_ne ?_ ..
          rintro rfl
          rw [Function.update_self] at hj
          exact hj rfl
        simp only [hviejo hk] at hk hc
        simp only [hviejo hk'] at hk' hc'
        exact hs.huecos k k' f hk hk' hc hc'

/-- One call keeps the ledger. -/
theorem paso (hs : Llevado s) {o : Operacion} (hl : s.Limpia o) : Llevado (s.paso o) := by
  cases o with
  | enVuelo phys aparato cuando => exact hs.enVuelo phys aparato cuando hl
  | aterrizo phys aparato cuando => exact hs.aterrizo phys aparato cuando
  | prestarTramo base paginas aparato => exact hs.prestarTramo base paginas aparato hl
  | devolverTramo base aparato => exact hs.devolverTramo base aparato
  | marcar phys q => exact hs.marcar phys q
  | caducados ahora plazo => exact hs.caducados ahora plazo

end Llevado

/-! ### The theorem -/

private theorem Vuelo.llevado {s : Cuaderno} (h : Vuelo Cuaderno.Limpia s) : Llevado s := by
  induction h with
  | inicial => exact Llevado.inicial
  | paso o _ hc ih => exact ih.paso hc

private theorem testBit_uno (a : Fin aparatos) (b : Nat) :
    ((1 : UInt16) <<< UInt16.ofNat a).toNat.testBit b = decide ((a : Nat) = b) := by
  have ha : (a : Nat) < 16 := a.isLt
  have h1 : (1 : UInt16).toNat = 1 := rfl
  have hlt : 2 ^ (a : Nat) < 2 ^ 16 := Nat.pow_lt_pow_right (by decide) ha
  rw [UInt16.toNat_shiftLeft, UInt16.toNat_ofNat', h1,
    Nat.mod_eq_of_lt (show (a : Nat) < 2 ^ 16 by omega), Nat.mod_eq_of_lt ha, Nat.shiftLeft_eq,
    Nat.one_mul, Nat.mod_eq_of_lt hlt, Nat.testBit_two_pow]

private theorem testBit_mapa (l : List (Fin aparatos)) (m : UInt16) (b : Fin aparatos) :
    (l.foldl (fun (mapa : UInt16) (a : Fin aparatos) ↦ mapa ||| (1 : UInt16) <<< UInt16.ofNat a)
      m).toNat.testBit b = (m.toNat.testBit b || decide (b ∈ l)) := by
  induction l generalizing m with
  | nil => simp
  | cons a l ih =>
    rw [List.foldl_cons, ih, UInt16.toNat_or, Nat.testBit_or, testBit_uno, Bool.or_assoc]
    congr 1
    simp only [List.mem_cons, Fin.ext_iff, Bool.decide_or, eq_comm]

private theorem Titulares.testBit_caducan {s : Titulares} {a : Fin aparatos} (h : s.vuelosDe a = 0)
    (ahora plazo : UInt64) : (s.caducan ahora plazo).1.toNat.testBit a = false := by
  rw [caducan]
  split
  · exact Nat.zero_testBit a
  · have hno : a ∉ s.callados ahora plazo := by
      rw [callados, List.mem_filter, decide_eq_true_eq]
      exact fun hm ↦ hm.2.2.1 h
    rw [testBit_mapa, decide_eq_false hno, Bool.or_false]
    exact Nat.zero_testBit a

private theorem ofNat_val {a : UInt8} (ha : a ≤ 15) :
    ∃ b : Fin aparatos, UInt8.ofNat b = a := by
  have h15 : a.toNat ≤ 15 := ha
  refine ⟨⟨a.toNat, show a.toNat < 16 by omega⟩, ?_⟩
  exact UInt8.ofNat_toNat

namespace Llevado

variable {s : Cuaderno}

private theorem vuelosDe_libre (hs : Llevado s) {a : Fin aparatos} (h : s.Libre (UInt8.ofNat a)) :
    s.titulares.vuelosDe a = 0 := by
  have ha := a.isLt
  rw [← UInt32.toNat_inj, hs.vuelosDe]
  refine List.countP_eq_zero.mpr fun v hv heq ↦ ?_
  have hval : v.2 = UInt8.ofNat a := by
    rw [← of_decide_eq_true heq, UInt8.ofNat_toNat]
  exact h.1 v.1 (by rw [← hval]; exact hv)

private theorem nibble_libre (hs : Llevado s) {a : UInt8} (ha : a ≠ 0) (h : s.Libre a)
    (f : Fin marcos) : quienVuela (s.titulares.tabla f) ≠ a := by
  intro hq
  rcases (hs.nibble f a ha).mp hq with hv | ⟨p, hp, hpa, -⟩
  · exact h.1 f hv
  · exact h.2 p hp hpa

/-- What is kept is the exactness of the ledger. -/
theorem exacto (hs : Llevado s) : s.Exacto where
  nibble := hs.nibble
  enVueloVivos := hs.enVueloVivos
  vuelosDe := hs.vuelosDe
  libre a ha h := by
    have hz := hs.vuelosDe_libre h
    have ha8 : UInt8.ofNat a ≠ 0 := by
      intro h0
      have hval := congrArg UInt8.toNat h0
      have hlt : (a : Nat) < 16 := a.isLt
      rw [UInt8.toNat_ofNat', Nat.mod_eq_of_lt (by omega)] at hval
      exact ha (Fin.ext hval)
    exact ⟨hz, hs.nibble_libre ha8 h, Titulares.testBit_caducan hz⟩
  todos h := by
    rw [← UInt64.toNat_inj, hs.enVueloVivos]
    refine count_eq_zero.mpr fun f hf ↦ ?_
    obtain ⟨b, hb⟩ := ofNat_val (quienVuela_le (s.titulares.tabla f))
    exact hs.nibble_libre hf (hb ▸ h b) f rfl
  falla _ _ _ := Titulares.enVuelo_falla
  fallaFin _ _ _ := Titulares.aterrizo_falla
  fallaPrestar _ _ _ _ := Titulares.prestarTramo_falla
  fallaDevolver _ _ := Titulares.devolverTramo_falla

end Llevado

/-- The ledger is exact in every run where no device takes off a frame that is lent to it and no
stretch is lent over a frame the device already has. -/
theorem exacto_of_vuelo (s : Cuaderno) (h : Vuelo Cuaderno.Limpia s) : s.Exacto :=
  h.llevado.exacto

theorem exacto_of_vuelo_prestado :
    (Cuaderno.inicial.paso (.prestarTramo 4096 2 1)).Exacto := by
  refine exacto_of_vuelo _ (.paso _ .inicial ?_)
  intro ha k _ f hf hq
  have hz : quienVuela 0 = 0 := by decide
  exact ha (hq.symm.trans hz)

/-- A flight on a frame that is then lent to the same device is lost when the loan comes back. -/
theorem not_exacto_vuelo_prestado :
    ¬ ∀ s, Vuelo (fun _ _ ↦ True) s → s.Exacto := by
  intro h
  have hr := h _ (((Vuelo.inicial.paso (.enVuelo 4096 1 10) trivial).paso
    (.prestarTramo 4096 1 1) trivial).paso (.devolverTramo 4096 1) trivial)
  have hq := (hr.nibble 1 1 (by decide)).mpr (.inl (by decide))
  revert hq
  decide

end BmoX.Mm
