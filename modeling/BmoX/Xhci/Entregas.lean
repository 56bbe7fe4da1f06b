import BmoX.Xhci.Esperas

/-!
# Every event reaches the one it belongs to

The calls of the driver, each from a state in which every event read is accounted for to another,
and every run of them with the controller posting at any moment.
-/

namespace BmoX.Xhci.Correo

open BmoX.Base

/-! ### What is accounted for -/

/-- Every event read is accounted for, but for those in `mano`, neither parked nor handed on. -/
structure Llevado (puntual : Prop) (d : Conductor) (mano : List Nat) (s : Mundo × Unit) : Prop where
  vale : Vale s.1
  extremos : ∀ slot ep, ep ≠ 1 →
    EnOrden (deExtremo slot ep) (d.devueltos.map Prod.fst ++ mano) s.1
  devueltos : ∀ n slot ep cc, (n, slot, ep, cc) ∈ d.devueltos →
    ∃ ev o, s.1.posteados[n]? = some (ev, o) ∧ deExtremo slot ep ev = true ∧ cc = ccDe ev
  puertos : EnOrden dePuerto (s.1.anotados.map Prod.fst ++ mano) s.1
  anotados : ∀ n puerto ccs, (n, puerto, ccs) ∈ s.1.anotados →
    ∃ ev o, s.1.posteados[n]? = some (ev, o) ∧ dePuerto ev = true ∧ puerto = puertoDe ev
  respuestas : puntual → Contestan s.1 .comando d.respuestas
  transferencias : puntual → Contestan s.1 .control d.transferencias
  ninguno : puntual → ∀ n ∈ s.1.perdidos, s.1.es dePuerto n = false

/-- The driver between two calls. -/
abbrev Quieto (puntual : Prop) (d : Conductor) (s : Mundo × Unit) : Prop := Llevado puntual d [] s

/-- The driver with an event in hand. -/
def EnMano (puntual : Prop) (d : Conductor) (c : Carta) (s : Mundo × Unit) : Prop :=
  Llevado puntual d [c.num] s ∧ ∃ o, s.1.posteados[c.num]? = some (c.ev, o)

/-- The driver at a call. -/
def Ocupado (puntual : Prop) (d : Conductor) (s : Mundo × Unit) : Prop :=
  puntual → Contestan s.1 .comando d.respuestas ∧ Contestan s.1 .control d.transferencias

section

variable {puntual : Prop} {d : Conductor} {m t : Mundo} {p : Trb → Bool} {log mano : List Nat}

theorem Contestan.mono {o : Nat → Origen} {log : List (Nat × Nat)} (h : Contestan m o log)
    (hpost : m.posteados <+: t.posteados) : Contestan t o log := by
  intro k n hkn
  obtain ⟨ev, hev⟩ := h k n hkn
  exact ⟨ev, some_mono hpost hev⟩

theorem Ocupado.mono {s u : Mundo × Unit} (h : Ocupado puntual d s)
    (hpost : s.1.posteados <+: u.1.posteados) : Ocupado puntual d u :=
  fun hp ↦ ⟨(h hp).1.mono hpost, (h hp).2.mono hpost⟩

theorem Llevado.ocupado {s : Mundo × Unit} (h : Llevado puntual d mano s) : Ocupado puntual d s :=
  fun hp ↦ ⟨h.respuestas hp, h.transferencias hp⟩

/-- What is accounted for stays so as more events are posted, and those that come to hand are the
only others. -/
theorem Llevado.pasa {s : Mundo × Unit} (mas : List Nat) (h : Llevado puntual d mano s) (hv : Vale t)
    (hpre : s.1.posteados <+: t.posteados) (hn : t.anotados = s.1.anotados)
    (hord : ∀ p, Nadie p → ∀ log, EnOrden p log s.1 → EnOrden p (log ++ mas) t)
    (hnin : puntual → (∀ n ∈ s.1.perdidos, s.1.es dePuerto n = false) →
      ∀ n ∈ t.perdidos, t.es dePuerto n = false) :
    Llevado puntual d (mano ++ mas) (t, ()) := by
  refine ⟨hv, fun slot ep hep ↦ ?_, fun n slot ep cc hmem ↦ ?_, ?_, fun n puerto ccs hmem ↦ ?_,
    fun hpu ↦ (h.respuestas hpu).mono hpre, fun hpu ↦ (h.transferencias hpu).mono hpre,
    fun hpu ↦ hnin hpu (h.ninguno hpu)⟩
  · rw [← List.append_assoc]
    exact hord _ (nadie_deExtremo hep) _ (h.extremos slot ep hep)
  · obtain ⟨ev, o, hev, hrest⟩ := h.devueltos n slot ep cc hmem
    exact ⟨ev, o, some_mono hpre hev, hrest⟩
  · rw [hn, ← List.append_assoc]
    exact hord _ nadie_dePuerto _ h.puertos
  · rw [hn] at hmem
    obtain ⟨ev, o, hev, hrest⟩ := h.anotados n puerto ccs hmem
    exact ⟨ev, o, some_mono hpre hev, hrest⟩

private theorem Vale.ninguno_mono (hv : Vale m) (hpre : m.posteados <+: t.posteados)
    (hp : t.perdidos = m.perdidos) (h : ∀ n ∈ m.perdidos, m.es dePuerto n = false) :
    ∀ n ∈ t.perdidos, t.es dePuerto n = false := by
  intro n hn
  rw [hp] at hn
  rw [es_mono hpre ((hv.perdidos n hn).trans_le hv.leidos_le)]
  exact h n hn

theorem Llevado.desde {s : Mundo × Unit} (h : Llevado puntual d mano s)
    (ht : Desde puntual 0 s.1 t) : Llevado puntual d mano (t, ()) := by
  have hl : t.leidos = s.1.leidos := by rw [ht.leidos, Nat.add_zero]
  have hpasa : Llevado puntual d (mano ++ []) (t, ()) :=
    h.pasa [] ht.vale ht.posteados ht.anotados
      (fun p _ log hlog ↦ by
        rw [List.append_nil]
        exact hlog.congr h.vale ht.posteados hl ht.aparcados ht.perdidos)
      (fun _ ↦ h.vale.ninguno_mono ht.posteados ht.perdidos)
  rwa [List.append_nil] at hpasa

theorem Llevado.stable : (rolConductor puntual).Stable (Llevado puntual d mano) :=
  fun _ _ hu h ↦ h.desde ((Desde.refl h.vale).controla hu)

theorem EnMano.stable {c : Carta} : (rolConductor puntual).Stable (EnMano puntual d c) :=
  fun s u hu h ↦ ⟨Llevado.stable s u hu h.1, h.2.imp fun _ ho ↦ some_mono hu.posteados ho⟩

private theorem Llevado.aguarda {esp : Espera} {o : Origen} {s : Mundo × Unit} (m' : Mundo)
    (h : Llevado puntual d [] s) (hpost : m'.posteados = s.1.posteados) (hl : m'.leidos = s.1.leidos)
    (ha : m'.aparcados = s.1.aparcados) (hn : m'.anotados = s.1.anotados)
    (hp : m'.perdidos = s.1.perdidos) (hag : Aguarda puntual esp o m' t) :
    Quieto puntual d (t, ()) := by
  have hpre : s.1.posteados <+: m'.posteados := hpost ▸ List.prefix_refl _
  exact h.pasa [] hag.vale (hpre.trans hag.posteados) (hag.anotados.trans hn)
    (fun p hpn log hlog ↦ by
      rw [List.append_nil]
      exact hag.orden p hpn log (hlog.congr h.vale hpre hl ha hp))
    (fun hpu hs ↦ hag.puertos hpu (h.vale.ninguno_mono hpre hp hs))

/-! ### Commands and control transfers -/

/-- A command is sent. -/
theorem aguarda_mandar (hv : Vale m) (hp : puntual → Puntual .mandar m) :
    Aguarda puntual (.comando m.mandar.1.1) (.comando m.mandar.1.2) m.mandar.2 m.mandar.2 := by
  have hcausas : ∀ (n : Nat) ev o, m.posteados[n]? = some (ev, o) → Causa m.mandar.2 ev o := by
    intro n ev o hn
    have hc := hv.causas n ev o hn
    cases o with
    | comando k =>
      obtain ⟨htipo, hk⟩ := hc
      obtain ⟨dir, hdir, hdest⟩ := Option.map_eq_some_iff.mp hk
      refine ⟨htipo, ?_⟩
      have happ : m.mandar.2.mandados[k]? = some dir :=
        (List.prefix_iff_getElem?.mp (List.prefix_append m.mandados [m.mandar.1.1])) k
          (List.getElem?_eq_some_iff.mp hdir).1 |>.trans (by
            rw [(List.getElem?_eq_some_iff.mp hdir).2])
      rw [happ, Option.map_some, hdest]
    | control k => exact hc
    | extremo => exact hc
    | puerto => exact hc
    | otro => exact hc
  refine ⟨⟨hv.ring, hv.dequeue, hv.cycle, hcausas, hv.aparcados, hv.perdidos, hv.cuenta⟩,
    fun _ _ _ h ↦ h, List.prefix_refl _, rfl, ⟨?_, ?_⟩, fun hpu n ev o hn hq hcu ↦ ?_, fun _ h ↦ h⟩
  · simp [Mundo.mandar]
  · simp [Mundo.mandar]
  · -- no completion that is parked or unread names the TRB of the command
    simp only [cuadra, Bool.and_eq_true, decide_eq_true_eq] at hcu
    obtain ⟨htipo, hdest⟩ := hcu
    obtain ⟨j, hj, rfl, hdir⟩ := (hv.causas n ev o hq).of_completion htipo
    rcases hn with hn | ⟨c, hc, rfl⟩
    · have hmem : (ev, Origen.comando j) ∈ m.posteados.drop m.leidos := by
        have hn' : m.leidos ≤ n := hn
        refine List.mem_of_getElem? (i := n - m.leidos) ?_
        rw [List.getElem?_drop, Nat.add_sub_cancel' hn']
        exact hq
      refine absurd ?_ (hp hpu _ hmem)
      rw [Origen.mando, hdir, hdest]
      rfl
    · obtain ⟨-, hno, o', ho'⟩ := hv.aparcados c hc
      have hq' : m.posteados[c.num]? = some (ev, Origen.comando j) := hq
      rw [ho'] at hq'
      cases hq'
      exact absurd htipo hno

/-- A control transfer begins. -/
theorem aguarda_controlar (slot : UInt8) (hv : Vale m) (hp : puntual → Puntual (.controlar slot) m) :
    let m' : Mundo := { m with controles := m.controles ++ [slot] }
    Aguarda puntual (.transferencia slot 1) (.control m.controles.length) m' m' := by
  intro m'
  have hcausas : ∀ (n : Nat) ev o, m.posteados[n]? = some (ev, o) → Causa m' ev o := by
    intro n ev o hn
    have hc := hv.causas n ev o hn
    cases o with
    | control k =>
      obtain ⟨htipo, hep, hk⟩ := hc
      refine ⟨htipo, hep, ?_⟩
      have hlt := (List.getElem?_eq_some_iff.mp hk).1
      exact (List.getElem?_append_left hlt).trans hk
    | comando k => exact hc
    | extremo => exact hc
    | puerto => exact hc
    | otro => exact hc
  refine ⟨⟨hv.ring, hv.dequeue, hv.cycle, hcausas, hv.aparcados, hv.perdidos, hv.cuenta⟩,
    fun _ _ _ h ↦ h, List.prefix_refl _, rfl, ⟨rfl, ?_, ?_⟩, fun hpu n ev o hn hq hcu ↦ ?_, fun _ h ↦ h⟩
  · simp [m']
  · simp [m']
  · -- no Transfer Event that is parked or unread is of a control transfer of the slot
    simp only [cuadra, Bool.and_eq_true, decide_eq_true_eq] at hcu
    obtain ⟨⟨htipo, hslot⟩, hep⟩ := hcu
    obtain ⟨j, hj, rfl, hranura⟩ := (hv.causas n ev o hq).of_transfer htipo hep
    rw [hslot] at hranura
    rcases hn with hn | ⟨c, hc, rfl⟩
    · have hmem : (ev, Origen.control j) ∈ m.posteados.drop m.leidos := by
        have hn' : m.leidos ≤ n := hn
        refine List.mem_of_getElem? (i := n - m.leidos) ?_
        rw [List.getElem?_drop, Nat.add_sub_cancel' hn']
        exact hq
      exact absurd hranura ((hp hpu).1 _ hmem)
    · refine absurd ?_ ((hp hpu).2 c hc)
      have hq' : m.posteados[c.num]? = some (ev, Origen.control j) := hq
      rw [hq']
      exact hranura

theorem contestan_apunta {o : Nat → Origen} {log : List (Nat × Nat)} {k : Nat} {r : Option Carta}
    (h : Contestan m o log) (hr : ∀ c, r = some c → ∃ ev, m.posteados[c.num]? = some (ev, o k)) :
    Contestan m o (apunta log (k, r)) := by
  cases r with
  | none => exact h
  | some c =>
    intro j n hjn
    rcases List.mem_append.mp hjn with hjn | hjn
    · exact h j n hjn
    · cases List.mem_singleton.mp hjn
      exact hr c rfl

theorem comando_hace {s : Mundo × Unit} (h : Quieto puntual d s) :
    (rolConductor puntual).Keeps (Ocupado puntual d) (Quieto puntual) (d.hace .comando) s := by
  have hrw : d.hace .comando = pide .mandar >>= fun r ↦ evtPollBlock (.comando r.1) >>= fun c ↦
      pure { d with respuestas := apunta d.respuestas (r.2, c) } := by
    simp only [Conductor.hace, preguntar, bind_assoc, pure_bind]
  rw [hrw]
  refine Role.Keeps.call Llevado.stable h (fun _ hs ↦ hs.ocupado) fun t ht ha ↦ ⟨(), ?_⟩
  have hag := aguarda_mandar ht.vale fun hp ↦ ha.2 hp
  refine ⟨fun _ ↦ hag.vale, ?_⟩
  have hpre : t.1.posteados <+: t.1.mandar.2.posteados := List.prefix_refl _
  refine Role.Keeps.bind (gira_keeps (s := t.1.mandar.2)
    (fun u hu ↦ ht.ocupado.mono (hpre.trans hu)) _ _ _ hag) ?_
  rintro r ⟨u, ⟨⟩⟩ ⟨hu, hr⟩
  have hq := ht.aguarda t.1.mandar.2 rfl rfl rfl rfl rfl hu
  have hq' : Quieto puntual { d with respuestas := apunta d.respuestas (t.1.mandar.1.2, r) } (u, ()) :=
    ⟨hq.vale, hq.extremos, hq.devueltos, hq.puertos, hq.anotados,
      fun hp ↦ contestan_apunta (hq.respuestas hp) fun c hc ↦ hr c hc hp, hq.transferencias,
      hq.ninguno⟩
  exact Role.Keeps.ret (P := fun v ↦ Quieto puntual d v ∧
      Quieto puntual { d with respuestas := apunta d.respuestas (t.1.mandar.1.2, r) } v)
    (fun a b hab hk ↦ ⟨Llevado.stable a b hab hk.1, Llevado.stable a b hab hk.2⟩) ⟨hq, hq'⟩
    fun v hv ↦ ⟨hv.1.ocupado, hv.2⟩

theorem control_hace {slot : UInt8} {s : Mundo × Unit} (h : Quieto puntual d s) :
    (rolConductor puntual).Keeps (Ocupado puntual d) (Quieto puntual) (d.hace (.control slot)) s := by
  have hrw : d.hace (.control slot) = pide (.controlar slot) >>= fun k ↦
      evtPollBlock (.transferencia slot 1) >>= fun c ↦
        pure { d with transferencias := apunta d.transferencias (k, c) } := by
    simp only [Conductor.hace, controlTransfer, bind_assoc, pure_bind]
  rw [hrw]
  refine Role.Keeps.call Llevado.stable h (fun _ hs ↦ hs.ocupado) fun t ht ha ↦ ⟨(), ?_⟩
  have hag := aguarda_controlar slot ht.vale fun hp ↦ ha.2 hp
  refine ⟨fun _ ↦ hag.vale, ?_⟩
  refine Role.Keeps.bind (gira_keeps (s := { t.1 with controles := t.1.controles ++ [slot] })
    (fun u hu ↦ ht.ocupado.mono hu) _ _ _ hag) ?_
  rintro r ⟨u, ⟨⟩⟩ ⟨hu, hr⟩
  have hq := ht.aguarda { t.1 with controles := t.1.controles ++ [slot] } rfl rfl rfl rfl rfl hu
  have hq' : Quieto puntual
      { d with transferencias := apunta d.transferencias (t.1.controles.length, r) } (u, ()) :=
    ⟨hq.vale, hq.extremos, hq.devueltos, hq.puertos, hq.anotados, hq.respuestas,
      fun hp ↦ contestan_apunta (hq.transferencias hp) fun c hc ↦ hr c hc hp, hq.ninguno⟩
  exact Role.Keeps.ret (P := fun v ↦ Quieto puntual d v ∧ Quieto puntual
      { d with transferencias := apunta d.transferencias (t.1.controles.length, r) } v)
    (fun a b hab hk ↦ ⟨Llevado.stable a b hab hk.1, Llevado.stable a b hab hk.2⟩) ⟨hq, hq'⟩
    fun v hv ↦ ⟨hv.1.ocupado, hv.2⟩

/-! ### `poll_transfer_event` -/

/-- The oldest of the parked events is taken. -/
theorem EnOrden.cabeza {c : Carta} {l : List Carta} (h : EnOrden p log m)
    (hc : m.aparcados = c :: l) (hnum : c.num < m.leidos) :
    EnOrden p (log ++ [c.num]) { m with aparcados := l } := by
  refine ⟨fun n hn ↦ ?_, ?_⟩
  · rcases List.mem_append.mp hn with hn | hn
    · exact h.leidos n hn
    · rw [List.mem_singleton.mp hn]
      exact hnum
  · have ht := h.todos
    rw [hc, List.map_cons, List.filter_cons] at ht
    have hes : Mundo.es { m with aparcados := l } p = m.es p := rfl
    rw [hes, ← ht, List.filter_append, List.filter_singleton]
    cases m.es p c.num <;> simp

/-- With nothing parked, the next event of the ring is taken. -/
theorem EnOrden.lee (h : EnOrden p log m) (hl : t.leidos = m.leidos + 1)
    (hpost : t.posteados = m.posteados) (ha : m.aparcados = []) (ha' : t.aparcados = [])
    (hp : t.perdidos = m.perdidos) (hperd : ∀ n ∈ m.perdidos, n < m.leidos) :
    EnOrden p (log ++ [m.leidos]) t := by
  have hes : t.es p = m.es p := by
    funext n
    rw [Mundo.es, Mundo.es, hpost]
  have hno : m.perdidos.contains m.leidos = false := by
    rw [Bool.eq_false_iff]
    intro hn
    exact Nat.lt_irrefl _ (hperd _ (List.contains_iff_mem.mp hn))
  refine ⟨fun n hn ↦ ?_, ?_⟩
  · rw [hl]
    rcases List.mem_append.mp hn with hn | hn
    · exact Nat.lt_succ_of_lt (h.leidos n hn)
    · rw [List.mem_singleton.mp hn]
      exact Nat.lt_succ_self _
  · have ht := h.todos
    rw [ha, List.map_nil, List.filter_nil, List.append_nil] at ht
    rw [hes, ha', hl, hp, List.map_nil, List.filter_nil, List.append_nil, List.filter_append, ht,
      List.range_succ, List.filter_append, List.filter_singleton, List.filter_singleton, hno,
      Bool.not_false, Bool.and_true]

/-- A parked event comes to hand. -/
theorem Llevado.aMano {c : Carta} {l : List Carta} {s : Mundo × Unit} (h : Llevado puntual d [] s)
    (hc : s.1.aparcados = c :: l) : EnMano puntual d c ({ s.1 with aparcados := l }, ()) := by
  have hv := h.vale
  obtain ⟨hnum, -, ho⟩ := hv.aparcados c (by rw [hc]; exact List.mem_cons_self)
  have hvale : Vale { s.1 with aparcados := l } := by
    refine ⟨hv.ring, hv.dequeue, hv.cycle, hv.causas, fun c' hc' ↦ hv.aparcados c' ?_, hv.perdidos,
      hv.cuenta⟩
    rw [hc]
    exact List.mem_cons_of_mem _ hc'
  exact ⟨h.pasa [c.num] hvale (List.prefix_refl _) rfl (fun _ _ _ hlog ↦ hlog.cabeza hc hnum)
    (fun _ hs ↦ hs), ho⟩

private theorem Llevado.aManoDelAnillo {c : Carta} {s : Mundo × Unit} (h : Llevado puntual d [] s)
    (ha : s.1.aparcados = []) (ht : Leida puntual s.1 (some c) t) :
    EnMano puntual d c (t, ()) := by
  obtain ⟨hd, hnum, o, ho⟩ := ht
  refine ⟨h.pasa [c.num] hd.vale hd.posteados hd.anotados (fun p _ log hlog ↦ ?_)
    (fun _ ↦ h.vale.ninguno_mono hd.posteados hd.perdidos), o, by rw [hnum]; exact ho⟩
  have hcongr : EnOrden p log { s.1 with posteados := t.posteados } :=
    hlog.congr h.vale hd.posteados rfl rfl rfl
  rw [hnum]
  exact hcongr.lee hd.leidos rfl ha (hd.aparcados.trans ha) hd.perdidos h.vale.perdidos

/-- A Transfer Event is returned. -/
theorem EnMano.devuelve {c : Carta} {s : Mundo × Unit} (h : EnMano puntual d c s)
    (ht : c.ev.tipo = Tipo.transfer) :
    Quieto puntual { d with
      devueltos := d.devueltos ++ [(c.num, slotDe c.ev, epDe c.ev, ccDe c.ev)] } s := by
  obtain ⟨h, o, ho⟩ := h
  have hno : s.1.es dePuerto c.num = false := by
    rw [es_of_some ho]
    simp only [dePuerto, ht]
    rfl
  refine ⟨h.vale, fun slot ep hep ↦ ?_, fun n slot ep cc hmem ↦ ?_, ?_, h.anotados,
    h.respuestas, h.transferencias, h.ninguno⟩
  · rw [List.map_append, List.append_nil]
    exact h.extremos slot ep hep
  · rcases List.mem_append.mp hmem with hmem | hmem
    · exact h.devueltos n slot ep cc hmem
    · cases List.mem_singleton.mp hmem
      exact ⟨c.ev, o, ho, by simp [deExtremo, ht], rfl⟩
  · rw [List.append_nil]
    exact h.puertos.sin hno

/-- A change of port is handed to the queue. -/
theorem EnMano.atiende {c : Carta} {s : Mundo × Unit} (h : EnMano puntual d c s)
    (ht : c.ev.tipo = Tipo.portStatus) (hp : puertoDe c.ev ≥ 1) :
    Quieto puntual d (s.1.atender c.num (puertoDe c.ev), ()) := by
  obtain ⟨h, o, ho⟩ := h
  have hv := h.vale
  have hno : puertoDe c.ev ≠ 0 := by
    intro h0
    rw [h0] at hp
    exact absurd hp (by decide)
  refine ⟨⟨hv.ring, hv.dequeue, hv.cycle, hv.causas, hv.aparcados, hv.perdidos, hv.cuenta⟩,
    fun slot ep hep ↦ ?_, h.devueltos, ?_, fun n puerto ccs hmem ↦ ?_, h.respuestas,
    h.transferencias, h.ninguno⟩
  · have hsin := (h.extremos slot ep hep).sin (by
      rw [es_of_some ho]
      simp only [deExtremo, ht]
      rfl)
    rw [List.append_nil]
    exact ⟨hsin.leidos, hsin.todos⟩
  · have hmap : (s.1.atender c.num (puertoDe c.ev)).anotados.map Prod.fst =
        s.1.anotados.map Prod.fst ++ [c.num] := by
      simp [Mundo.atender]
    rw [hmap, List.append_nil]
    exact ⟨h.puertos.leidos, h.puertos.todos⟩
  · have hmem' : (n, puerto, ccs) ∈ s.1.anotados ++ [(c.num, puertoDe c.ev, _)] := hmem
    rcases List.mem_append.mp hmem' with hmem' | hmem'
    · exact h.anotados n puerto ccs hmem'
    · cases List.mem_singleton.mp hmem'
      exact ⟨c.ev, o, ho, by simp [dePuerto, ht, hno], rfl⟩

/-- Any other event goes. -/
theorem EnMano.deja {c : Carta} {s : Mundo × Unit} (h : EnMano puntual d c s)
    (ht : c.ev.tipo ≠ Tipo.transfer) (hp : dePuerto c.ev = false) : Quieto puntual d s := by
  obtain ⟨h, o, ho⟩ := h
  refine ⟨h.vale, fun slot ep hep ↦ ?_, h.devueltos, ?_, h.anotados, h.respuestas, h.transferencias,
    h.ninguno⟩
  · rw [List.append_nil]
    exact (h.extremos slot ep hep).sin (by
      rw [es_of_some ho]
      simp [deExtremo, ht])
  · rw [List.append_nil]
    exact h.puertos.sin (by rw [es_of_some ho]; exact hp)

/-- What `poll_transfer_event` has taken up. -/
def Tomado (puntual : Prop) (d : Conductor) : Option Carta → Mundo × Unit → Prop
  | none => Quieto puntual d
  | some c => EnMano puntual d c

private theorem siguienteCarta_keeps {s : Mundo × Unit} (h : Quieto puntual d s) :
    (rolConductor puntual).Keeps (Ocupado puntual d) (Tomado puntual d) siguienteCarta s := by
  refine Role.Keeps.call Llevado.stable h (fun _ hs ↦ hs.ocupado) fun t ht _ ↦ ⟨(), ?_⟩
  have hsaca : (rolConductor puntual).handle .desaparcarCualquiera t.1 =
    (t.1.aparcados.head?, { t.1 with aparcados := t.1.aparcados.tail }) := rfl
  rw [hsaca]
  cases hap : t.1.aparcados with
  | nil =>
    have hmismo : ({ t.1 with aparcados := [] } : Mundo) = t.1 := by rw [← hap]
    simp only [List.head?_nil, List.tail_nil, hmismo, evtPollNb_eq]
    refine ⟨id, ?_⟩
    refine (evtRingPop_keeps ht.vale fun k u _ hu ↦ ht.ocupado.mono hu.posteados).mono
      (fun _ hu ↦ hu) fun r u hu ↦ ?_
    cases r with
    | none => exact ht.desde hu
    | some c => exact ht.aManoDelAnillo hap hu
  | cons c l =>
    have hm := ht.aMano hap
    exact ⟨fun _ ↦ hm.1.vale,
      Role.Keeps.ret (Q := Tomado puntual d) EnMano.stable hm fun u hu ↦ ⟨hu.1.ocupado, hu⟩⟩

/-- `poll_transfer_event`, by the turns of its loop. -/
theorem pollTransferEvent_keeps (n : Nat) {s : Mundo × Unit} (h : Quieto puntual d s) :
    (rolConductor puntual).Keeps (Ocupado puntual d)
      (fun r ↦ Quieto puntual { d with devueltos := d.devueltos ++ r.toList })
      (pollTransferEvent n) s := by
  have hnada : ∀ s : Mundo × Unit, Quieto puntual d s →
      (rolConductor puntual).Keeps (Ocupado puntual d)
        (fun r ↦ Quieto puntual { d with devueltos := d.devueltos ++ r.toList }) (pure none) s :=
    fun s hs ↦ Role.Keeps.ret Llevado.stable hs fun u hu ↦ ⟨hu.ocupado, by
      rw [Option.toList_none, List.append_nil]
      exact hu⟩
  induction n generalizing s with
  | zero => exact hnada s h
  | succ n ih =>
    refine Role.Keeps.bind (siguienteCarta_keeps h) fun r u hu ↦ ?_
    cases r with
    | none => exact hnada u hu
    | some c =>
      have hmano : EnMano puntual d c u := hu
      simp only
      split
      · next htipo =>
        have hdev := hmano.devuelve htipo
        exact Role.Keeps.ret (P := fun v ↦ EnMano puntual d c v ∧ Quieto puntual _ v)
          (fun a b hab hk ↦ ⟨EnMano.stable a b hab hk.1, Llevado.stable a b hab hk.2⟩) ⟨hmano, hdev⟩
          fun v hv ↦ ⟨hv.1.1.ocupado, hv.2⟩
      · next htipo =>
        split
        · next hport =>
          split
          · next hid =>
            refine Role.Keeps.call EnMano.stable hmano (fun _ hv ↦ hv.1.ocupado) fun v hv _ ↦
              ⟨(), ?_⟩
            have hat := hv.atiende hport hid
            exact ⟨fun _ ↦ hat.vale, ih hat⟩
          · next hid =>
            have h0 : puertoDe c.ev = 0 := by
              by_contra hne
              exact hid (UInt8.le_iff_toNat_le.mpr (Nat.one_le_iff_ne_zero.mpr fun h0 ↦
                hne (UInt8.toNat_inj.mp h0)))
            exact ih (hmano.deja htipo (by simp [dePuerto, h0]))
        · next hport => exact ih (hmano.deja htipo (by simp [dePuerto, hport]))

theorem sondeo_hace {vueltas : Nat} {s : Mundo × Unit} (h : Quieto puntual d s) :
    (rolConductor puntual).Keeps (Ocupado puntual d) (Quieto puntual) (d.hace (.sondeo vueltas)) s :=
  Role.Keeps.bind (pollTransferEvent_keeps vueltas h) fun _ _ hq ↦
    Role.Keeps.ret Llevado.stable hq fun _ hu ↦ ⟨hu.ocupado, hu⟩

end

end BmoX.Xhci.Correo
