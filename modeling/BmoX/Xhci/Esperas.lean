import BmoX.Xhci.Lecturas

/-!
# Those who wait

What a wait for one event does to the others: it parks them, in their order, and with answers in
time it takes none but its own.
-/

namespace BmoX.Xhci.Correo

open BmoX.Base

/-! ### The order of those who are not waited for -/

/-- Events that nobody waits for: no completions and no Transfer Events of EP0. -/
def Nadie (p : Trb → Bool) : Prop :=
  ∀ ev, p ev = true → ev.tipo ≠ Tipo.completion ∧ ¬(ev.tipo = Tipo.transfer ∧ epDe ev = 1)

theorem nadie_deExtremo {slot ep : UInt8} (h : ep ≠ 1) : Nadie (deExtremo slot ep) := by
  intro ev hev
  simp only [deExtremo, Bool.and_eq_true, decide_eq_true_eq] at hev
  obtain ⟨⟨htipo, -⟩, hep⟩ := hev
  refine ⟨fun hc ↦ ?_, fun hc ↦ h (hep ▸ hc.2)⟩
  rw [htipo] at hc
  exact absurd hc (by decide)

theorem nadie_dePuerto : Nadie dePuerto := by
  intro ev hev
  simp only [dePuerto, Bool.and_eq_true, decide_eq_true_eq] at hev
  refine ⟨fun hc ↦ ?_, fun hc ↦ ?_⟩
  · rw [hev.1] at hc
    exact absurd hc (by decide)
  · rw [hev.1] at hc
    exact absurd hc.1 (by decide)

/-- What a wait is for: the last command sent, or the last control transfer begun. -/
def Ultima (m : Mundo) : Espera → Origen → Prop
  | .comando trb, .comando k => k + 1 = m.mandados.length ∧ m.mandados[k]? = some trb
  | .transferencia slot ep, .control k =>
    ep = 1 ∧ k + 1 = m.controles.length ∧ m.controles[k]? = some slot
  | _, _ => False

theorem Nadie.not_of_cuadra {p : Trb → Bool} (hp : Nadie p) {m : Mundo} {esp : Espera} {o : Origen}
    (hu : Ultima m esp o) {ev : Trb} (h : cuadra ev esp = true) : p ev = false := by
  rw [Bool.eq_false_iff]
  intro hev
  obtain ⟨h1, h2⟩ := hp ev hev
  cases esp with
  | comando trb =>
    simp only [cuadra, Bool.and_eq_true, decide_eq_true_eq] at h
    exact h1 h.1
  | transferencia slot ep =>
    simp only [cuadra, Bool.and_eq_true, decide_eq_true_eq] at h
    cases o with
    | control k => exact h2 ⟨h.1.1, h.2.trans hu.1⟩
    | _ => exact hu

section

variable {m m' : Mundo} {p : Trb → Bool} {log : List Nat}

/-- What was read stays in order while the controller posts. -/
theorem EnOrden.congr (h : EnOrden p log m) (hv : Vale m) (hpost : m.posteados <+: m'.posteados)
    (hl : m'.leidos = m.leidos) (ha : m'.aparcados = m.aparcados)
    (hp : m'.perdidos = m.perdidos) : EnOrden p log m' := by
  have hle := hv.leidos_le
  refine ⟨fun n hn ↦ hl ▸ h.leidos n hn, ?_⟩
  rw [filter_es_congr hpost fun n hn ↦ (h.leidos n hn).trans_le hle, ha, hl,
    filter_es_congr hpost ?_, h.todos, hp]
  · refine List.filter_congr fun n hn ↦ ?_
    rw [es_mono hpost ((List.mem_range.mp hn).trans_le hle)]
  · intro n hn
    obtain ⟨c, hc, rfl⟩ := List.mem_map.mp hn
    exact (hv.aparcados c hc).1.trans_le hle

/-- An event of another kind is read and thrown away. -/
theorem EnOrden.tira (h : EnOrden p log m) (hl : m'.leidos = m.leidos + 1)
    (hpost : m'.posteados = m.posteados) (ha : m'.aparcados = m.aparcados)
    (hp : m'.perdidos = m.perdidos) (hes : m.es p m.leidos = false) : EnOrden p log m' := by
  have hes' : m'.es p = m.es p := by
    funext n
    rw [Mundo.es, Mundo.es, hpost]
  refine ⟨fun n hn ↦ ?_, ?_⟩
  · rw [hl]
    exact Nat.lt_succ_of_lt (h.leidos n hn)
  · rw [hes', ha, hl, hp, h.todos, List.range_succ, List.filter_append, List.filter_singleton, hes,
      Bool.false_and, cond_false, List.append_nil]

/-- An event is read and parked, or lost where there is no room. -/
theorem EnOrden.aparca {c : Carta} (h : EnOrden p log m)
    (hl : m'.leidos = m.leidos + 1) (hc : c.num = m.leidos) (hpost : m'.posteados = m.posteados)
    (ha : m'.aparcados = m.aparcados) (hp : m'.perdidos = m.perdidos)
    (hperd : ∀ n ∈ m.perdidos, n < m.leidos) : EnOrden p log (m'.aparcar c) := by
  have hes : ∀ n, (m'.aparcar c).es p n = m.es p n := by
    intro n
    have hq : (m'.aparcar c).posteados = m'.posteados := by
      rw [Mundo.aparcar]
      split <;> rfl
    rw [Mundo.es, Mundo.es, hq, hpost]
  have hes' : (m'.aparcar c).es p = m.es p := funext hes
  have hleidos : (m'.aparcar c).leidos = m.leidos + 1 := by
    rw [← hl, Mundo.aparcar]
    split <;> rfl
  have hno : m.perdidos.contains m.leidos = false := by
    rw [Bool.eq_false_iff]
    intro hn
    exact Nat.lt_irrefl _ (hperd _ (List.contains_iff_mem.mp hn))
  refine ⟨fun n hn ↦ ?_, ?_⟩
  · rw [hleidos]
    exact Nat.lt_succ_of_lt (h.leidos n hn)
  rw [hes', hleidos, List.range_succ, List.filter_append, List.filter_singleton]
  by_cases hfull : m'.aparcados.length ≥ aparcadosMax
  · have h1 : (m'.aparcar c).aparcados = m.aparcados := by rw [Mundo.aparcar, if_pos hfull, ha]
    have h2 : (m'.aparcar c).perdidos = m.perdidos ++ [m.leidos] := by
      rw [Mundo.aparcar, if_pos hfull, hp, hc]
    have hsame : (List.range m.leidos).filter
        (fun n ↦ m.es p n && !(m.perdidos ++ [m.leidos]).contains n) =
        (List.range m.leidos).filter fun n ↦ m.es p n && !m.perdidos.contains n := by
      refine List.filter_congr fun n hn ↦ ?_
      have hne : n ≠ m.leidos := (List.mem_range.mp hn).ne
      simp [hne]
    rw [h1, h2, h.todos, hsame]
    simp
  · have h1 : (m'.aparcar c).aparcados = m.aparcados ++ [c] := by rw [Mundo.aparcar, if_neg hfull, ha]
    have h2 : (m'.aparcar c).perdidos = m.perdidos := by rw [Mundo.aparcar, if_neg hfull, hp]
    rw [h1, h2, hno, Bool.not_false, Bool.and_true, ← h.todos, List.map_append, List.filter_append,
      List.map_singleton, hc, List.filter_singleton, List.append_assoc]

private theorem EnOrden.desaparca {q : Carta → Bool} (h : EnOrden p log m)
    (hq : ∀ c ∈ m.aparcados, q c = true → m.es p c.num = false) :
    EnOrden p log { m with aparcados := m.aparcados.eraseP q } := by
  refine ⟨h.leidos, ?_⟩
  have hes : Mundo.es { m with aparcados := m.aparcados.eraseP q } p = m.es p := rfl
  have hfilter : ((m.aparcados.eraseP q).map Carta.num).filter (m.es p) =
      (m.aparcados.map Carta.num).filter (m.es p) := by
    rcases List.exists_or_eq_self_of_eraseP q m.aparcados with heq | ⟨c, l1, l2, -, hc, heq, her⟩
    · rw [heq]
    · have hno := hq c (by rw [heq]; simp) hc
      rw [her, heq]
      simp [hno]
  rw [hes]
  exact (congrArg (log.filter (m.es p) ++ ·) hfilter).trans h.todos

end

/-! ### A wait -/

/-- Of the events parked, unread and to come, those that match are the answer waited for. -/
def Mia (esp : Espera) (o : Origen) (m : Mundo) : Prop :=
  ∀ n ev o', (m.leidos ≤ n ∨ ∃ c ∈ m.aparcados, c.num = n) → m.posteados[n]? = some (ev, o') →
    cuadra ev esp = true → o' = o

/-- In the course of a wait for the answer `o` that began at `s`. -/
structure Aguarda (puntual : Prop) (esp : Espera) (o : Origen) (s m : Mundo) : Prop where
  vale : Vale m
  orden : ∀ p, Nadie p → ∀ log, EnOrden p log s → EnOrden p log m
  posteados : s.posteados <+: m.posteados
  anotados : m.anotados = s.anotados
  ultima : Ultima m esp o
  mia : puntual → Mia esp o m
  puertos : puntual → (∀ n ∈ s.perdidos, s.es dePuerto n = false) →
    ∀ n ∈ m.perdidos, m.es dePuerto n = false

section

variable {puntual : Prop} {esp : Espera} {o : Origen} {s m : Mundo} {D : Mundo × Unit → Prop}

theorem Ultima.congr {m' : Mundo} (h : Ultima m esp o) (h1 : m'.mandados = m.mandados)
    (h2 : m'.controles = m.controles) : Ultima m' esp o := by
  cases esp <;> cases o
  all_goals
    simp only [Ultima, h1, h2]
    exact h

theorem Causa.of_completion {ev : Trb} {o : Origen} (h : Causa m ev o)
    (ht : ev.tipo = Tipo.completion) :
    ∃ k < m.mandados.length, o = .comando k ∧ m.mandados[k]?.map trbEn = some ev.destino := by
  cases o with
  | comando k =>
    refine ⟨k, ?_, rfl, h.2⟩
    by_contra hge
    have hk := h.2
    rw [List.getElem?_eq_none (by omega)] at hk
    cases hk
  | control k => exact absurd (ht.symm.trans h.1) (by decide)
  | extremo => exact absurd (ht.symm.trans h.1) (by decide)
  | puerto => exact absurd (ht.symm.trans h) (by decide)
  | otro => exact absurd ht h.2.1

theorem Causa.of_transfer {ev : Trb} {o : Origen} (h : Causa m ev o) (ht : ev.tipo = Tipo.transfer)
    (hep : epDe ev = 1) :
    ∃ k < m.controles.length, o = .control k ∧ m.controles[k]? = some (slotDe ev) := by
  cases o with
  | comando k => exact absurd (ht.symm.trans h.1) (by decide)
  | control k =>
    refine ⟨k, ?_, rfl, h.2.2⟩
    by_contra hge
    have hk := h.2.2
    rw [List.getElem?_eq_none (by omega)] at hk
    cases hk
  | extremo => exact absurd hep h.2
  | puerto => exact absurd (ht.symm.trans h) (by decide)
  | otro => exact absurd ht h.1

/-- A matching event whose cause has no later one in its place is the answer to the last. -/
theorem Ultima.eq_of_vigente (h : Ultima m esp o) {ev : Trb} {o' : Origen}
    (hc : cuadra ev esp = true) (hcausa : Causa m ev o') (hv : Vigente m o') : o' = o := by
  cases esp with
  | comando trb =>
    simp only [cuadra, Bool.and_eq_true, decide_eq_true_eq] at hc
    cases o with
    | comando k =>
      obtain ⟨hk, hmio⟩ := h
      obtain ⟨j, hj, rfl, hdir⟩ := hcausa.of_completion hc.1
      by_cases hjk : j = k
      · rw [hjk]
      · have hne := hv k (by omega) (by omega)
        rw [hdir, hmio, hc.2] at hne
        exact absurd rfl hne
    | _ => exact h.elim
  | transferencia slot ep =>
    simp only [cuadra, Bool.and_eq_true, decide_eq_true_eq] at hc
    obtain ⟨⟨htipo, hslot⟩, hep⟩ := hc
    cases o with
    | control k =>
      obtain ⟨rfl, hk, hmio⟩ := h
      obtain ⟨j, hj, rfl, hranura⟩ := hcausa.of_transfer htipo hep
      by_cases hjk : j = k
      · rw [hjk]
      · have hne := hv k (by omega) (by omega)
        rw [hranura, hmio, hslot] at hne
        exact absurd rfl hne
    | _ => exact h.elim

private theorem Aguarda.mia_desde {t : Mundo} {k : Nat} (h : Aguarda puntual esp o s m)
    (ht : Desde puntual k m t) (hp : puntual) : Mia esp o t := by
  intro n ev o' hn hq hc
  by_cases hlt : n < m.posteados.length
  · have hmed := (List.prefix_iff_getElem?.mp ht.posteados) n hlt
    rw [hq] at hmed
    rw [ht.leidos, ht.aparcados] at hn
    exact h.mia hp n ev o' (hn.imp_left (Nat.le_of_add_right_le ·))
      (by rw [List.getElem?_eq_getElem hlt, ← hmed]) hc
  · have hv := ht.vigentes hp n ev o' (by omega) hq
    exact (h.ultima.congr ht.mandados ht.controles).eq_of_vigente hc (ht.vale.causas n ev o' hq)
      ((vigente_congr ht.mandados ht.controles o').mpr hv)

private theorem Aguarda.puertos_desde {t : Mundo} {k : Nat} (h : Aguarda puntual esp o s m)
    (ht : Desde puntual k m t) (hp : puntual) (hs : ∀ n ∈ s.perdidos, s.es dePuerto n = false) :
    ∀ n ∈ t.perdidos, t.es dePuerto n = false := by
  intro n hn
  rw [ht.perdidos] at hn
  have hlt := (h.vale.perdidos n hn).trans_le h.vale.leidos_le
  rw [es_mono ht.posteados hlt]
  exact h.puertos hp hs n hn

/-- Nothing of a wait is disturbed while events are only posted. -/
theorem Aguarda.desde {t : Mundo} (h : Aguarda puntual esp o s m) (ht : Desde puntual 0 m t) :
    Aguarda puntual esp o s t := by
  have hleidos : t.leidos = m.leidos := by rw [ht.leidos, Nat.add_zero]
  exact ⟨ht.vale, fun p hp log hs ↦ (h.orden p hp log hs).congr h.vale ht.posteados hleidos
    ht.aparcados ht.perdidos, h.posteados.trans ht.posteados, ht.anotados.trans h.anotados,
    h.ultima.congr ht.mandados ht.controles, h.mia_desde ht, h.puertos_desde ht⟩

theorem Aguarda.stable :
    (rolConductor puntual).Stable fun t ↦ Aguarda puntual esp o s t.1 :=
  fun _ _ hu h ↦ h.desde ((Desde.refl h.vale).controla hu)

private theorem Aguarda.desaparca (h : Aguarda puntual esp o s m) :
    Aguarda puntual esp o s (m.desaparcarQueCuadre esp).2 ∧
      ∀ c, (m.desaparcarQueCuadre esp).1 = some c →
        puntual → ∃ ev, m.posteados[c.num]? = some (ev, o) := by
  have hsub : ∀ c, c ∈ m.aparcados.eraseP (fun c ↦ cuadra c.ev esp) → c ∈ m.aparcados :=
    fun c hc ↦ List.mem_of_mem_eraseP hc
  refine ⟨⟨?_, fun p hp log hs ↦ ?_, h.posteados, h.anotados, h.ultima, ?_, h.puertos⟩, ?_⟩
  · exact ⟨h.vale.ring, h.vale.dequeue, h.vale.cycle, h.vale.causas,
      fun c hc ↦ h.vale.aparcados c (hsub c hc), h.vale.perdidos, h.vale.cuenta⟩
  · refine (h.orden p hp log hs).desaparca fun c hc hcu ↦ ?_
    obtain ⟨-, -, o', ho'⟩ := h.vale.aparcados c hc
    rw [es_of_some ho']
    exact hp.not_of_cuadra h.ultima hcu
  · intro hp n ev o' hn hq hc
    refine h.mia hp n ev o' (hn.imp_right ?_) hq hc
    rintro ⟨c, hc, rfl⟩
    exact ⟨c, hsub c hc, rfl⟩
  · intro c hc hp
    obtain ⟨-, -, o', ho'⟩ := h.vale.aparcados c (List.mem_of_find?_eq_some hc)
    have hcu := List.find?_some hc
    have heq := h.mia hp c.num c.ev o' (.inr ⟨c, List.mem_of_find?_eq_some hc, rfl⟩) ho' hcu
    exact ⟨c.ev, by rw [ho', heq]⟩

private theorem Aguarda.orden_leida {t : Mundo} {c : Carta} (h : Aguarda puntual esp o s m)
    (ht : Leida puntual m (some c) t) {p : Trb → Bool} (hp : Nadie p) {log : List Nat}
    (hs : EnOrden p log s) : EnOrden p log { m with posteados := t.posteados } :=
  (h.orden p hp log hs).congr h.vale ht.1.posteados rfl rfl rfl

/-- An event read that is of no kind that anybody waits for changes nothing else. -/
theorem Aguarda.deja {t : Mundo} {c : Carta} (h : Aguarda puntual esp o s m)
    (ht : Leida puntual m (some c) t) (hc : ∀ p, Nadie p → p c.ev = false) :
    Aguarda puntual esp o s t := by
  obtain ⟨hd, hnum, o', ho'⟩ := id ht
  refine ⟨hd.vale, fun p hp log hs ↦ ?_, h.posteados.trans hd.posteados,
    hd.anotados.trans h.anotados, h.ultima.congr hd.mandados hd.controles, h.mia_desde hd,
    h.puertos_desde hd⟩
  refine (h.orden_leida ht hp hs).tira hd.leidos rfl hd.aparcados hd.perdidos ?_
  have hq : ({ m with posteados := t.posteados } : Mundo).posteados[m.leidos]? = some (c.ev, o') := ho'
  rw [es_of_some hq]
  exact hc p hp

private theorem Aguarda.coge {t : Mundo} {c : Carta} (h : Aguarda puntual esp o s m)
    (ht : Leida puntual m (some c) t) (hc : cuadra c.ev esp = true) :
    Aguarda puntual esp o s t ∧ (puntual → ∃ ev, t.posteados[c.num]? = some (ev, o)) := by
  refine ⟨h.deja ht fun p hp ↦ hp.not_of_cuadra h.ultima hc, fun hp ↦ ?_⟩
  obtain ⟨hd, hnum, o', ho'⟩ := ht
  have heq : o' = o := by
    -- it was unread when the wait was last undisturbed, or came afterwards
    by_cases hlt : m.leidos < m.posteados.length
    · have hmed := (List.prefix_iff_getElem?.mp hd.posteados) m.leidos hlt
      rw [ho'] at hmed
      exact h.mia hp m.leidos c.ev o' (.inl le_rfl) (by rw [List.getElem?_eq_getElem hlt, ← hmed]) hc
    · have hv := hd.vigentes hp m.leidos c.ev o' (by omega) ho'
      exact (h.ultima.congr hd.mandados hd.controles).eq_of_vigente hc
        (hd.vale.causas _ _ _ ho') ((vigente_congr hd.mandados hd.controles o').mpr hv)
  exact ⟨c.ev, by rw [hnum, ho', heq]⟩

/-- The event read is nobody's. -/
theorem Aguarda.tira {t : Mundo} {c : Carta} (h : Aguarda puntual esp o s m)
    (ht : Leida puntual m (some c) t) (hc : c.ev.tipo = Tipo.completion) :
    Aguarda puntual esp o s { t with comandosTardios := t.comandosTardios + 1 } := by
  have hd := h.deja ht fun p hp ↦ by
    rw [Bool.eq_false_iff]
    exact fun hev ↦ (hp _ hev).1 hc
  exact ⟨⟨hd.vale.ring, hd.vale.dequeue, hd.vale.cycle, hd.vale.causas, hd.vale.aparcados,
    hd.vale.perdidos, hd.vale.cuenta⟩,
    fun p hp log hs ↦ ⟨(hd.orden p hp log hs).leidos, (hd.orden p hp log hs).todos⟩, hd.posteados,
    hd.anotados, hd.ultima, hd.mia, hd.puertos⟩

/-- The event read is for another. -/
theorem Aguarda.aparca {t : Mundo} {c : Carta} (h : Aguarda puntual esp o s m)
    (ht : Leida puntual m (some c) t) (hc : cuadra c.ev esp = false)
    (htipo : c.ev.tipo ≠ Tipo.completion) (ha : puntual → Puntual (.aparcar c) t) :
    Aguarda puntual esp o s (t.aparcar c) := by
  obtain ⟨hd, hnum, o', ho'⟩ := id ht
  have hrest : (t.aparcar c).posteados = t.posteados ∧ (t.aparcar c).anotados = t.anotados ∧
      (t.aparcar c).mandados = t.mandados ∧ (t.aparcar c).controles = t.controles ∧
      (t.aparcar c).leidos = t.leidos := by
    rw [Mundo.aparcar]
    split <;> exact ⟨rfl, rfl, rfl, rfl, rfl⟩
  obtain ⟨h1, h2, h3, h4, h5⟩ := hrest
  have hcaparc : ∀ c', c' ∈ (t.aparcar c).aparcados → c' ∈ t.aparcados ∨ c' = c := by
    intro c' hc'
    rw [Mundo.aparcar] at hc'
    split at hc'
    · exact .inl hc'
    · simpa using hc'
  have hperd : ∀ n, n ∈ (t.aparcar c).perdidos → n ∈ t.perdidos ∨
      (n = c.num ∧ t.aparcados.length ≥ aparcadosMax) := by
    intro n hn
    rw [Mundo.aparcar] at hn
    split at hn
    · next hfull => exact (List.mem_append.mp hn).imp_right fun hn ↦ ⟨List.mem_singleton.mp hn, hfull⟩
    · exact .inl hn
  have hv := hd.vale
  refine ⟨⟨?_, ?_, ?_, ?_, fun c' hc' ↦ ?_, fun n hn ↦ ?_, ?_⟩, fun p hp log hs ↦ ?_, ?_, ?_, ?_,
    fun hp n ev o'' hn hq hcu ↦ ?_, fun hp hs n hn ↦ ?_⟩
  · rw [h1, h5, Mundo.aparcar]
    split <;> exact hv.ring
  · rw [h5, Mundo.aparcar]
    split <;> exact hv.dequeue
  · rw [h5, Mundo.aparcar]
    split <;> exact hv.cycle
  · intro n ev o'' hq
    rw [h1] at hq
    exact (causa_congr h3 h4 ev o'').mpr (hv.causas n ev o'' hq)
  · rw [h1, h5]
    rcases hcaparc c' hc' with hc' | rfl
    · exact hv.aparcados c' hc'
    · refine ⟨by rw [hnum, hd.leidos]; omega, htipo, o', by rw [hnum]; exact ho'⟩
  · rw [h5]
    rcases hperd n hn with hn | ⟨rfl, -⟩
    · exact hv.perdidos n hn
    · rw [hnum, hd.leidos]
      omega
  · rw [Mundo.aparcar]
    split
    · simp [hv.cuenta]
    · exact hv.cuenta
  · exact (h.orden_leida ht hp hs).aparca hd.leidos hnum rfl hd.aparcados hd.perdidos h.vale.perdidos
  · rw [h1]
    exact h.posteados.trans hd.posteados
  · rw [h2]
    exact hd.anotados.trans h.anotados
  · exact (h.ultima.congr hd.mandados hd.controles).congr h3 h4
  · rw [h1] at hq
    rw [h5] at hn
    rcases hn with hn | ⟨c', hc', rfl⟩
    · exact h.mia_desde hd hp n ev o'' (.inl hn) hq hcu
    · rcases hcaparc c' hc' with hc' | rfl
      · exact h.mia_desde hd hp c'.num ev o'' (.inr ⟨c', hc', rfl⟩) hq hcu
      · rw [hnum, ho'] at hq
        cases hq
        rw [hc] at hcu
        cases hcu
  · have hes : (t.aparcar c).es dePuerto n = t.es dePuerto n := by rw [Mundo.es, Mundo.es, h1]
    rw [hes]
    rcases hperd n hn with hn | ⟨rfl, hfull⟩
    · exact h.puertos_desde hd hp hs n hn
    · rw [hnum, es_of_some ho', Bool.eq_false_iff]
      intro hpuerto
      simp only [dePuerto, Bool.and_eq_true, decide_eq_true_eq] at hpuerto
      exact absurd (ha hp hpuerto.1 hpuerto.2) (by omega)

theorem Leida.stable {c : Carta} :
    (rolConductor puntual).Stable fun t ↦ Leida puntual m (some c) t.1 := by
  rintro t u hu ⟨hd, hnum, o', ho'⟩
  exact ⟨hd.controla hu, hnum, o', some_mono hu.posteados ho'⟩

/-- What a wait ends with: if it took an event, the answer it was for. -/
def Espero (puntual : Prop) (esp : Espera) (o : Origen) (s : Mundo) (r : Option Carta)
    (t : Mundo × Unit) : Prop :=
  Aguarda puntual esp o s t.1 ∧
    ∀ c, r = some c → puntual → ∃ ev, t.1.posteados[c.num]? = some (ev, o)

/-- The loop of a wait, from any point of it. -/
theorem gira_keeps (hD : ∀ t : Mundo × Unit, s.posteados <+: t.1.posteados → D t)
    (n vacias respiros : Nat) (h : Aguarda puntual esp o s m) :
    (rolConductor puntual).Keeps D (Espero puntual esp o s) (gira esp n vacias respiros) (m, ()) := by
  have hDA : ∀ t : Mundo × Unit, Aguarda puntual esp o s t.1 → D t := fun t ht ↦ hD t ht.posteados
  have hnada : ∀ t : Mundo × Unit, Aguarda puntual esp o s t.1 →
      (rolConductor puntual).Keeps D (Espero puntual esp o s) (pure none) t :=
    fun t ht ↦ Role.Keeps.ret Aguarda.stable ht fun u hu ↦ ⟨hDA u hu, hu, fun c hc ↦ by cases hc⟩
  have halgo : ∀ (t : Mundo × Unit) (c : Carta), Aguarda puntual esp o s t.1 →
      (puntual → ∃ ev, t.1.posteados[c.num]? = some (ev, o)) →
      (rolConductor puntual).Keeps D (Espero puntual esp o s) (pure (some c)) t := by
    intro t c ht hc
    have hP : (rolConductor puntual).Stable fun u ↦ Aguarda puntual esp o s u.1 ∧
        (puntual → ∃ ev, u.1.posteados[c.num]? = some (ev, o)) := fun a b hab hk ↦
      ⟨Aguarda.stable a b hab hk.1, fun hp ↦ (hk.2 hp).imp fun ev hev ↦
        some_mono hab.posteados hev⟩
    refine Role.Keeps.ret hP ⟨ht, hc⟩ fun u hu ↦ ⟨hDA u hu.1, hu.1, ?_⟩
    rintro c' ⟨⟩
    exact hu.2
  induction n generalizing m vacias respiros with
  | zero => exact hnada (m, ()) h
  | succ n ih =>
    rw [gira]
    refine Role.Keeps.call Aguarda.stable h hDA fun t ht _ ↦ ⟨(), ?_⟩
    obtain ⟨hdes, hcarta⟩ := Aguarda.desaparca ht
    refine ⟨fun _ ↦ hdes.vale, ?_⟩
    cases hres : ((rolConductor puntual).handle (.desaparcarQueCuadre esp) t.1).1 with
    | some c => exact halgo _ c hdes (hcarta c hres)
    | none =>
      set t' := ((rolConductor puntual).handle (.desaparcarQueCuadre esp) t.1).2
      change Aguarda puntual esp o s t' at hdes
      have hDd : ∀ k u, k ≤ 1 → Desde puntual k t' u → D (u, ()) := fun k u _ hu ↦
        hD _ (hdes.posteados.trans hu.posteados)
      refine Role.Keeps.bind (evtRingPop_keeps hdes.vale hDd) fun r u hu ↦ ?_
      obtain ⟨u, ⟨⟩⟩ := u
      cases r with
      | none =>
        have hag := hdes.desde hu
        -- the ring is empty: the wait goes on, or gives up
        simp only
        split
        · refine Role.Keeps.call Aguarda.stable hag hDA fun w hw _ ↦ ⟨(), ?_⟩
          have hag' : Aguarda puntual esp o s { w.1 with veces := w.1.veces + 1 } := by
            obtain ⟨w, ⟨⟩⟩ := w
            exact ⟨⟨hw.vale.ring, hw.vale.dequeue, hw.vale.cycle, hw.vale.causas, hw.vale.aparcados,
              hw.vale.perdidos, hw.vale.cuenta⟩, fun p hp log hs ↦
                ⟨(hw.orden p hp log hs).leidos, (hw.orden p hp log hs).todos⟩, hw.posteados,
              hw.anotados, hw.ultima, hw.mia, hw.puertos⟩
          refine ⟨fun _ ↦ hag'.vale, ?_⟩
          split
          · split
            · exact hnada _ hag'
            · exact ih _ _ hag'
          · exact ih _ _ hag'
        · exact ih _ _ hag
      | some c =>
        have hDl : ∀ w : Mundo × Unit, Leida puntual t' (some c) w.1 → D w := fun w hw ↦
          hD w (hdes.posteados.trans hw.1.posteados)
        simp only
        split
        · next hcu =>
          obtain ⟨hag, hmio⟩ := hdes.coge hu hcu
          exact halgo _ c hag hmio
        · next hcu =>
          split
          · next htipo =>
            refine Role.Keeps.call Leida.stable hu hDl fun w hw _ ↦ ⟨(), ?_⟩
            have hag := hdes.tira hw htipo
            exact ⟨fun _ ↦ hag.vale, ih _ _ hag⟩
          · next htipo =>
            refine Role.Keeps.call Leida.stable hu hDl fun w hw ha ↦ ⟨(), ?_⟩
            have hag := hdes.aparca hw (Bool.eq_false_iff.mpr hcu) htipo fun hp ↦ ha.2 hp
            exact ⟨fun _ ↦ hag.vale, ih _ _ hag⟩

end

end BmoX.Xhci.Correo
