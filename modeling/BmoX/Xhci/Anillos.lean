import BmoX.Xhci.Vueltas

/-!
# The three kinds of ring

What the producers keep, put together with the steps of the controller: how each ring is built, how
far it keeps driver and controller in step, and the run in which it does not.
-/

namespace BmoX.Xhci

open BmoX.Base

/-! ### The calls -/

section

variable {k : Clase} {base : UInt64} {A : Op → Estado → Prop} {K : Trb → Nat → Prop}

/-- The driver between two calls. -/
def Quieto (base : UInt64) (K : Trb → Nat → Prop) (d : Conductor) (s : Estado × Unit) : Prop :=
  Lista base K d.ring d.pedidos s

/-- The driver at a call. -/
def Ocupado (k : Clase) (base : UInt64) (c : k.Llamada) (d : Conductor) (s : Estado × Unit) : Prop :=
  EnCurso base d.pedidos (k.trbs c) s

private theorem pide_keeps {d : Conductor} {ts : List Trb} {p : Prog anillo TransferRing}
    {s : Estado × Unit}
    (h : (rolConductor base A).Keeps (EnCurso base d.pedidos ts)
      (fun r s ↦ Lista base K r (d.pedidos ++ ts) s) p s) :
    (rolConductor base A).Keeps (EnCurso base d.pedidos ts) (Quieto base K) (d.pide ts p) s := by
  refine h.bind fun r s hs ↦ ?_
  refine Role.Keeps.ret (Lista.stable _) hs fun u hu ↦ ⟨?_, hu⟩
  obtain ⟨e, he, -⟩ := hu
  exact ⟨he.vale, he.encolados ▸ List.prefix_refl _⟩

private theorem enCurso_uno {l : List Trb} {t : Trb} :
    (∀ s : Estado × Unit, Vale base s.1 → s.1.encolados = l → EnCurso base l [t] s) ∧
      ∀ s : Estado × Unit, Vale base s.1 → s.1.encolados = l ++ [t] → EnCurso base l [t] s :=
  ⟨fun _ hv hl ↦ ⟨hv, hl ▸ List.prefix_append _ _⟩, fun _ hv hl ↦ ⟨hv, hl ▸ List.prefix_refl _⟩⟩

private theorem mando_hace (hcabe : ∀ o m, A o m → Cabe o m) (hA : ∀ o m, A o m → Hasta 254 o m)
    (c : Comando) (d : Conductor) (s : Estado × Unit) (h : Quieto base EnlaceMando d s) :
    (rolConductor base A).Keeps (Ocupado mando base c d) (Quieto base EnlaceMando)
      (mando.hace c d) s := by
  apply pide_keeps
  refine Role.Keeps.bind (encola_keeps c.limpia hcabe hA enCurso_uno.1 enCurso_uno.2 h) ?_
  rintro ⟨r, dir⟩ s hs
  refine Role.Keeps.ret (Lista.stable _) hs fun u hu ↦ ⟨?_, hu⟩
  obtain ⟨e, he, -⟩ := hu
  exact enCurso_uno.2 u he.vale he.encolados

private theorem extremo_hace (hbase : base &&& ~~~0xF = base) (hcabe : ∀ o m, A o m → Cabe o m)
    (hA : ∀ o m, A o m → EnRedondo o m) (c : DelExtremo) (d : Conductor) (s : Estado × Unit)
    (h : Quieto base EnlaceExtremo d s) :
    (rolConductor base A).Keeps (Ocupado extremo base c d) (Quieto base EnlaceExtremo)
      (extremo.hace c d) s := by
  cases c with
  | encolarNormal bufPhys len =>
    exact pide_keeps (encolaExtremo_keeps (trbNormal_limpia bufPhys len) hcabe enCurso_uno.1
      enCurso_uno.2 h)
  | queueIsochOut bufPhys len avisar =>
    exact pide_keeps (encolaExtremo_keeps (trbIsoch_limpia bufPhys len avisar) hcabe enCurso_uno.1
      enCurso_uno.2 h)
  | recuperarEndpoint =>
    have hD : ∀ s, Lista base EnlaceExtremo d.ring d.pedidos s →
        Ocupado extremo base .recuperarEndpoint d s := by
      rintro s ⟨e, he, -⟩
      refine ⟨he.vale, ?_⟩
      rw [he.encolados]
      exact List.prefix_append _ _
    refine Role.Keeps.call (Lista.stable _) h hD fun s hs ha ↦ ⟨(), ?_⟩
    obtain ⟨e, he, ⟨htog, -⟩, hr⟩ := hs
    have hdq : ((d.ring.phys &&& ~~~0xF) ||| 1) &&& ~~~0xF = base := by
      rw [or_and_distrib, UInt64.and_assoc, UInt64.and_self, hr.phys, hbase,
        show (1 &&& ~~~0xF : UInt64) = 0 by decide, UInt64.or_zero]
    have hdcs : ((d.ring.phys &&& ~~~0xF) ||| 1) &&& 1 = (1 : UInt64) := by
      rw [or_and_distrib, UInt64.and_assoc, show (~~~0xF &&& 1 : UInt64) = 0 by decide,
        UInt64.and_zero, UInt64.and_self, UInt64.zero_or]
    have hv := he.vale.recolocado (hA _ _ ha) hdq hdcs
    have hq : Lista base EnlaceExtremo ⟨d.ring.phys, 0, true⟩ []
        (s.1.recolocado base ((d.ring.phys &&& ~~~0xF) ||| 1), ()) :=
      ⟨e, ⟨hv, rfl, he.enlace⟩, ⟨htog, fun hlen ↦ absurd hlen (by simp [lastTrbIdx_eq])⟩,
        ⟨by simp, by simp, hr.phys⟩⟩
    refine ⟨fun _ ↦ hv, Role.Keeps.ret (Lista.stable _) hq fun u hu ↦ ⟨?_, hu⟩⟩
    obtain ⟨e, he, -⟩ := hu
    refine ⟨he.vale, ?_⟩
    rw [he.encolados]
    exact List.nil_prefix

/-- The stages of a control transfer, one after the other. -/
theorem ep0_hace (hcabe : ∀ o m, A o m → Cabe o m) (hA : ∀ o m, A o m → Hasta 510 o m)
    (c : Control) (d : Conductor) (s : Estado × Unit) (h : Quieto base EnlaceEp0 d s) :
    (rolConductor base A).Keeps (Ocupado ep0 base c d) (Quieto base EnlaceEp0) (ep0.hace c d) s := by
  have hetapa : ∀ (ts : List Trb) {l : List Trb} {t : Trb} {r : TransferRing} {s : Estado × Unit}, t.Limpia →
      d.pedidos ++ c.trbs = l ++ t :: ts → Lista base EnlaceEp0 r l s →
      (rolConductor base A).Keeps (EnCurso base d.pedidos c.trbs)
        (fun r s ↦ Lista base EnlaceEp0 r (l ++ [t]) s) (r.etapa t) s := by
    intro ts l t r s ht hts hr
    refine etapa_keeps ht hcabe hA (fun u hv hl ↦ ⟨hv, ?_⟩) (fun u hv hl ↦ ⟨hv, ?_⟩) hr
    · rw [hl, hts]
      exact List.prefix_append _ _
    · rw [hl, hts]
      exact ⟨ts, by simp⟩
  have hlimpia := c.limpia
  apply pide_keeps
  change (rolConductor base A).Keeps (EnCurso base d.pedidos c.trbs)
    (fun r s ↦ Lista base EnlaceEp0 r (d.pedidos ++ c.trbs) s) (d.ring.controlTransfer c) s
  rw [TransferRing.controlTransfer]
  unfold Control.trbs at hetapa hlimpia ⊢
  cases hpag : c.dataPage with
  | none =>
    simp only [List.append_nil]
    refine Role.Keeps.ret (Lista.stable _) h fun u hu ↦ ⟨?_, hu⟩
    obtain ⟨e, he, -⟩ := hu
    exact ⟨he.vale, he.encolados ▸ List.prefix_append _ _⟩
  | some pagina =>
    simp only [hpag] at hetapa hlimpia ⊢
    cases hd : c.hasData with
    | false =>
      simp only [hd, Bool.false_eq_true, if_false, List.cons_append, List.nil_append] at hetapa hlimpia ⊢
      refine (hetapa _ (hlimpia _ (by simp)) rfl h).bind fun r s hs ↦ ?_
      have := hetapa [] (hlimpia c.status (by simp)) (by simp) hs
      simpa using this
    | true =>
      simp only [hd, if_true, List.cons_append, List.nil_append] at hetapa hlimpia ⊢
      refine (hetapa _ (hlimpia _ (by simp)) rfl h).bind fun r s hs ↦ ?_
      refine (hetapa [c.status] (hlimpia (c.data pagina) (by simp)) (by simp) hs).bind
        fun r s hs ↦ ?_
      have := hetapa [] (hlimpia c.status (by simp)) (by simp) hs
      simpa using this

end

/-! ### Every run -/

/-- A driver that keeps the Link TRB as `K` says, and the controller. -/
def rolesDe {k : Clase} {base : UInt64} {A : Op → Estado → Prop} {K : Trb → Nat → Prop}
    (h : ∀ c d s, Quieto base K d s →
      (rolConductor base A).Keeps (Ocupado k base c d) (Quieto base K) (k.hace c d) s) :
    (marcha k base).Roles (fun _ ↦ A) Unit where
  role
    | .conductor => rolConductor base A
    | .controlador => rolControlador base A
  idle
    | .conductor => Quieto base K
    | .controlador => fun _ s ↦ Vale base s.1
  busy
    | .conductor => Ocupado k base
    | .controlador => fun _ _ s ↦ Vale base s.1
  handle_eq i := by cases i <;> rfl
  allowed_eq i := by cases i <;> rfl
  compat {i j} hij s t hst := by
    cases i <;> cases j
    · exact absurd rfl hij
    · exact hst
    · exact hst
    · exact absurd rfl hij
  stable i := by
    cases i
    · exact fun d ↦ Lista.stable d.pedidos
    · exact fun _ s t hst hs ↦ hst hs
  prog i := by
    cases i
    · exact h
    · intro _ _ s hs t ht
      refine ⟨ht hs, fun _ ↦ ⟨(), controla_paso t.1, fun u hu ↦ ?_⟩⟩
      have hu' := hu (Vale.paso (ht hs))
      exact ⟨hu', hu'⟩

/-- The Link TRB is up to date for the controller whenever there is a TRB beyond it. -/
def AlDia (K : Trb → Nat → Prop) : Prop :=
  ∀ e n c, K e n → 0 < c → c % lastTrbIdx = 0 → c < n → n ≤ c + 254 → e.ciclo = !lapBit lastTrbIdx c

/-- With a TRB left to execute and the Link TRB up to date, the controller executes it. -/
theorem sigue_of_vale {base : UInt64} {m : Estado} {K : Trb → Nat → Prop} (hK : AlDia K)
    (h : Vale base m) (hk : K (m.trb lastTrbIdx) m.encolados.length) {t : Trb}
    (ht : m.encolados[m.ejecutados.length]? = some t) :
    (m.paso base).ejecutados = m.ejecutados ++ [t] ∨
      ((m.paso base).paso base).ejecutados = m.ejecutados ++ [t] := by
  have hlt := (List.getElem?_eq_some_iff.mp ht).1
  have hcasilla : ∀ m' : Estado, Vale base m' → m'.encolados = m.encolados →
      m'.ejecutados = m.ejecutados → m'.deq = m'.ejecutados.length % lastTrbIdx →
      m'.ccs = lapBit lastTrbIdx m'.ejecutados.length →
      (m'.paso base).ejecutados = m.ejecutados ++ [t] := by
    intro m' hv henc heje hdeq hccs
    obtain ⟨heq, -⟩ | ⟨u, hu, hp⟩ := hv.paso_casilla hdeq hccs
    · rw [heje, henc] at heq
      rw [heq] at hlt
      omega
    · rw [henc, heje, ht] at hu
      cases hu
      rw [hp, heje]
  obtain ⟨hdeq, hccs⟩ | ⟨hdeq, hc, hpos, hccs⟩ := h.lugar
  · exact .inl (hcasilla m h rfl rfl hdeq hccs)
  · obtain ⟨hne, -⟩ | ⟨-, hp⟩ := h.paso_enlace hdeq hc hpos
    · exact absurd ((hK _ _ _ hk hpos hc hlt h.cabe).trans hccs.symm) hne
    · refine .inr (hcasilla (m.paso base) h.paso ?_ ?_ ?_ ?_)
      all_goals rw [hp]
      · exact hc.symm
      · rw [hccs, Bool.not_not]

private theorem enPaso_of_holds {k : Clase} {base : UInt64} {A : Op → Estado → Prop}
    {K : Trb → Nat → Prop} (hK : AlDia K)
    {h : ∀ c d s, Quieto base K d s →
      (rolConductor base A).Keeps (Ocupado k base c d) (Quieto base K) (k.hace c d) s}
    {c : (marcha k base).Config} (hc : (rolesDe h).Holds c () .conductor) : EnPaso c := by
  unfold System.Roles.Holds at hc
  split at hc
  · next hrun =>
    obtain ⟨e, he, hk, -⟩ : Quieto base K (conductorDe c) (c.mem, ()) := hc
    refine ⟨he.vale.orden, ?_, fun _ ↦ he.encolados, fun _ t ht ↦ ?_⟩
    · rw [he.encolados]
      exact List.prefix_append _ _
    · have hk' : K (c.mem.trb lastTrbIdx) c.mem.encolados.length := by
        rw [he.enlace, he.encolados]
        exact hk
      exact sigue_of_vale hK he.vale hk' ht
  · next l p hrun =>
    obtain ⟨hv, hpre⟩ : Ocupado k base l (conductorDe c) (c.mem, ()) := hc.now
    refine ⟨hv.orden, ?_, fun hno ↦ ?_, fun hno ↦ ?_⟩
    · rw [enCurso, hrun]
      exact hpre
    · rw [hrun] at hno
      cases hno
    · rw [hrun] at hno
      cases hno

private theorem enPaso_of_lista {k : Clase} {base : UInt64} {A : Op → Estado → Prop}
    {K : Trb → Nat → Prop} (hK : AlDia K)
    (h : ∀ c d s, Quieto base K d s →
      (rolConductor base A).Keeps (Ocupado k base c d) (Quieto base K) (k.hace c d) s)
    {p : Prog anillo TransferRing}
    (hp : Lista base K (Prog.exec (maneja base) p .enBlanco).1 []
      ((Prog.exec (maneja base) p .enBlanco).2, ()))
    {c : (marcha k base).Config}
    (hc : (marcha k base).Steps (fun _ ↦ A) (recienHecho k base p) c) : EnPaso c := by
  have hinit : ∀ i, (rolesDe h).Holds (recienHecho k base p) () i := by
    intro i
    cases i
    · exact hp
    · obtain ⟨e, he, -⟩ := hp
      exact he.vale
  obtain ⟨⟨⟩, hg⟩ := (rolesDe h).invariant hinit hc
  exact enPaso_of_holds hK (hg .conductor)

/-! ### The three kinds of ring -/

/-! ### A ring just built -/

/-- A page of zeros but for its Link TRB. -/
structure Nuevo (e : Trb) (m : Estado) : Prop where
  enlace : m.trb lastTrbIdx = e
  ceros : ∀ q < lastTrbIdx, m.trb q = ⟨0, 0, 0, 0⟩
  encolados : m.encolados = []
  ejecutados : m.ejecutados = []
  deq : m.deq = 0
  ccs : m.ccs = true

namespace Nuevo

variable {e : Trb} {m : Estado}

theorem escrito (h : Nuevo e m) {i : Nat} {v : UInt32} {e' : Trb} (hi : i / 4 = lastTrbIdx)
    (he : (m.escrito i v).trb lastTrbIdx = e') : Nuevo e' (m.escrito i v) :=
  ⟨he, fun q hq ↦ by rw [Estado.trb_escrito_of_ne (by omega), h.ceros q hq],
    by rw [Estado.escrito_encolados_of_not (by omega), h.encolados],
    by rw [Estado.escrito_ejecutados, h.ejecutados], by rw [Estado.escrito_deq, h.deq],
    by rw [Estado.escrito_ccs, h.ccs]⟩

theorem vale {base : UInt64} (h : Nuevo e m) (htipo : e.tipo = Tipo.link) (hdest : e.destino = base) :
    Vale base m where
  ring := by
    rw [h.encolados, h.ejecutados]
    apply CycleRing.start
    intro i hi
    simp only [h.ceros i hi]
    decide
  orden := h.encolados ▸ h.ejecutados ▸ List.prefix_refl _
  tipos t ht := by
    rw [h.encolados] at ht
    cases ht
  enlace := by rw [h.enlace, htipo]
  vuelve := by
    rw [h.enlace, hdest]
    simp [Estado.casilla]
  gira hlen := by
    rw [h.encolados] at hlen
    exact absurd hlen (by simp [lastTrbIdx_eq])
  lugar := by
    refine .inl ⟨?_, ?_⟩
    · rw [h.deq, h.ejecutados]
      simp
    · rw [h.ccs, h.ejecutados]
      simp
  cabe := by
    rw [h.encolados]
    exact Nat.zero_le _

theorem lista {base : UInt64} {K : Trb → Nat → Prop} {r : TransferRing} (h : Nuevo e m)
    (htipo : e.tipo = Tipo.link) (hdest : e.destino = base) (hk : K e 0) (hr : r = ⟨base, 0, true⟩) :
    Lista base K r [] (m, ()) := by
  subst hr
  exact ⟨e, ⟨h.vale htipo hdest, h.encolados, h.enlace⟩, hk, ⟨by simp, by simp, rfl⟩⟩

end Nuevo

/-- The Link TRB of a ring, with the last dword given. -/
def enlaceDe (phys : UInt64) (dw3 : UInt32) : Trb :=
  ⟨phys.toUInt32, (phys >>> 32).toUInt32, 0, dw3⟩

private theorem destino_enlaceDe {phys : UInt64} (h : phys &&& ~~~0xF = phys) (dw3 : UInt32) :
    (enlaceDe phys dw3).destino = phys := by
  rw [Trb.destino, enlaceDe, dosMitades, h]

private theorem exec_new (base dma : UInt64) : ∃ m,
    Prog.exec (maneja base) (TransferRing.new dma) .enBlanco = (⟨dma &&& ~~~0xF, 0, true⟩, m) ∧
      Nuevo (enlaceDe (dma &&& ~~~0xF) ((Tipo.link <<< 10) ||| 1)) m := by
  set phys := dma &&& ~~~0xF
  have h : Nuevo ⟨0, 0, 0, 0⟩ .enBlanco := ⟨rfl, fun _ _ ↦ rfl, rfl, rfl, rfl, rfl⟩
  have h : Nuevo ⟨phys.toUInt32, 0, 0, 0⟩ _ := h.escrito (i := lastTrbIdx * 4) (by omega)
    (by rw [Estado.trb_escrito0, h.enlace])
  have h : Nuevo ⟨phys.toUInt32, (phys >>> 32).toUInt32, 0, 0⟩ _ :=
    h.escrito (i := lastTrbIdx * 4 + 1) (by omega) (by rw [Estado.trb_escrito1, h.enlace])
  have h : Nuevo ⟨phys.toUInt32, (phys >>> 32).toUInt32, 0, 0⟩ _ :=
    h.escrito (i := lastTrbIdx * 4 + 2) (by omega) (by rw [Estado.trb_escrito2, h.enlace])
  have h : Nuevo (enlaceDe phys ((Tipo.link <<< 10) ||| 1)) _ :=
    h.escrito (i := lastTrbIdx * 4 + 3) (by omega) (by rw [Estado.trb_escrito3, h.enlace]; rfl)
  exact ⟨_, rfl, h⟩

private theorem mask_mask (a : UInt64) : a &&& ~~~0xF &&& ~~~0xF = a &&& ~~~0xF := by
  rw [UInt64.and_assoc, UInt64.and_self]

private theorem lista_mando (dma : UInt64) :
    let base := dma &&& ~~~0x3F
    let r := Prog.exec (maneja base) (anilloDeMando dma) .enBlanco
    Lista base EnlaceMando r.1 [] (r.2, ()) := by
  intro base r
  have hbase : base &&& ~~~0xF = base := by
    rw [UInt64.and_assoc, show (~~~0x3F &&& ~~~0xF : UInt64) = ~~~0x3F by decide]
  obtain ⟨m, hm, hn⟩ := exec_new base base
  rw [hbase] at hm hn
  have hr : r = (⟨base, 0, true⟩, m) := hm
  rw [hr]
  exact hn.lista (by simp only [enlaceDe, Trb.tipo]; decide) (destino_enlaceDe hbase _) (Nat.zero_le _) rfl

/-- The ring of a control endpoint, and of any other. -/
theorem lista_transferencia {K : Trb → Nat → Prop}
    (hK : ∀ e : Trb, e.toggle = true → e.ciclo = true → K e 0) (dma : UInt64) :
    let base := dma &&& ~~~0xF
    let r := Prog.exec (maneja base) (anilloDeTransferencia dma) .enBlanco
    Lista base K r.1 [] (r.2, ()) := by
  intro base r
  have hbase : base &&& ~~~0xF = base := mask_mask dma
  obtain ⟨m, hm, hn⟩ := exec_new base dma
  have hdw : m.dw (lastTrbIdx * 4 + 3) = (Tipo.link <<< 10) ||| 1 := congrArg Trb.dw3 hn.enlace
  have hr : r = (⟨base, 0, true⟩,
      m.escrito (lastTrbIdx * 4 + 3) (((Tipo.link <<< 10) ||| 1) ||| bit 1)) := by
    simp only [r, anilloDeTransferencia, Prog.exec_bind, hm]
    rw [← hdw]
    rfl
  have hn' : Nuevo (enlaceDe base (((Tipo.link <<< 10) ||| 1) ||| bit 1)) r.2 := by
    rw [hr]
    refine hn.escrito (i := lastTrbIdx * 4 + 3) (by omega) ?_
    rw [Estado.trb_escrito3, hn.enlace]
    rfl
  refine hn'.lista ?_ (destino_enlaceDe hbase _) (hK _ ?_ ?_) (by rw [hr])
  · simp only [enlaceDe, Trb.tipo]
    decide
  · exact decide_eq_true (show (((Tipo.link <<< 10) ||| 1) ||| bit 1) &&& (2 : UInt32) = 2 by decide)
  · exact decide_eq_true (show (((Tipo.link <<< 10) ||| 1) ||| bit 1) &&& (1 : UInt32) = 1 by decide)

/-! ### Where the Link TRB is up to date -/

private theorem alDia_mando : AlDia EnlaceMando := by
  intro e n c hk hpos hc hlt _
  have hk' : n ≤ 254 := hk
  have := Nat.le_of_dvd hpos (Nat.dvd_of_mod_eq_zero hc)
  rw [lastTrbIdx_eq] at this
  omega

private theorem alDia_ep0 : AlDia EnlaceEp0 := by
  intro e n c hk hpos hc hlt _
  obtain ⟨-, hcic, hn⟩ := hk
  have hc' : c = 255 := by
    rw [lastTrbIdx_eq] at hc
    omega
  rw [hcic, hc']
  rfl

private theorem alDia_extremo : AlDia EnlaceExtremo := by
  intro e n c hk hpos hc hlt hle
  have hge := Nat.le_of_dvd hpos (Nat.dvd_of_mod_eq_zero hc)
  rw [hk.2 (by omega)]
  obtain ⟨hd, -⟩ | ⟨-, hm⟩ := div_of_le lastTrbIdx_pos hlt.le (by rw [lastTrbIdx_eq]; omega)
  · rw [lapBit_of_div_eq hd]
  · rw [hc, lastTrbIdx_eq] at hm
    omega

/-! ### Driver and controller in step -/

/-- With at most 254 TRBs enqueued and not executed, the driver and the controller stay in step: on
the command ring in every run of at most 254 commands, on the ring of a control endpoint in every
run of at most 510 TRBs, and on the ring of any other endpoint in every run whose recoveries
come after an even number of laps since the one before. -/
theorem anillos_enPaso (dma : UInt64) :
    (∀ c, (marcha mando (dma &&& ~~~0x3F)).Steps (fun _ o m ↦ Cabe o m ∧ Hasta 254 o m)
      (recienHecho mando (dma &&& ~~~0x3F) (anilloDeMando dma)) c → EnPaso c) ∧
    (∀ c, (marcha ep0 (dma &&& ~~~0xF)).Steps (fun _ o m ↦ Cabe o m ∧ Hasta 510 o m)
      (recienHecho ep0 (dma &&& ~~~0xF) (anilloDeTransferencia dma)) c → EnPaso c) ∧
    (∀ c, (marcha extremo (dma &&& ~~~0xF)).Steps (fun _ o m ↦ Cabe o m ∧ EnRedondo o m)
      (recienHecho extremo (dma &&& ~~~0xF) (anilloDeTransferencia dma)) c → EnPaso c) := by
  refine ⟨fun c hc ↦ ?_, fun c hc ↦ ?_, fun c hc ↦ ?_⟩
  · exact enPaso_of_lista alDia_mando (mando_hace (fun _ _ h ↦ h.1) fun _ _ h ↦ h.2)
      (lista_mando dma) hc
  · refine enPaso_of_lista alDia_ep0 (ep0_hace (fun _ _ h ↦ h.1) fun _ _ h ↦ h.2)
      (lista_transferencia (fun e h1 h2 ↦ ⟨h1, h2, by simp⟩) dma) hc
  · refine enPaso_of_lista alDia_extremo
      (extremo_hace (mask_mask dma) (fun _ _ h ↦ h.1) fun _ _ h ↦ h.2)
      (lista_transferencia (fun e h1 _ ↦ ⟨h1, fun h ↦ absurd h (by simp [lastTrbIdx_eq])⟩) dma) hc

/-! ### Three runs -/

instance : ∀ o m, Decidable (Cabe o m)
  | .leer _, _ => .isTrue trivial
  | .escribir i _, m =>
    inferInstanceAs (Decidable (Empieza i → m.encolados.length < m.ejecutados.length + 254))
  | .ejecutar, _ => .isTrue trivial
  | .recolocar _, _ => .isTrue trivial

instance : ∀ o m, Decidable (EnRedondo o m)
  | .leer _, _ => .isTrue trivial
  | .escribir _ _, _ => .isTrue trivial
  | .ejecutar, _ => .isTrue trivial
  | .recolocar _, m => inferInstanceAs (Decidable (m.encolados.length % (2 * lastTrbIdx) = 0))

/-- A step of the controller, as an entry of a schedule. -/
def pasoDe (k : Clase) (base : UInt64) : List (System.Turn (marcha k base)) :=
  [.ask .controlador (), .act .controlador 1, .done .controlador]

/-- A schedule of the ring of an endpoint. -/
abbrev Guion := List (System.Turn (marcha extremo 0))

/-- A recovery of a new ring, and a TRB that the controller looks for while it is being written. -/
def unInforme : Guion :=
  ([.ask .conductor .recuperarEndpoint, .act .conductor 1, .done .conductor,
    .ask .conductor (.encolarNormal 0x5000 8), .act .conductor 2] : Guion) ++
  pasoDe extremo 0 ++ ([.act .conductor 2, .done .conductor] : Guion) ++
  pasoDe extremo 0

private theorem unInforme_play :
    ((recienHecho extremo 0 (anilloDeTransferencia 0)).play
      (fun _ o m ↦ Cabe o m ∧ EnRedondo o m) unInforme).map (fun c ↦ c.mem.ejecutados) =
        some [trbNormal 0x5000 8] := by
  decide

theorem anillos_enPaso_unInforme :
    ∃ c, (marcha extremo 0).Steps (fun _ o m ↦ Cabe o m ∧ EnRedondo o m)
      (recienHecho extremo 0 (anilloDeTransferencia 0)) c ∧
        c.mem.ejecutados = [trbNormal 0x5000 8] ∧ EnPaso c := by
  obtain ⟨c, hc, heje⟩ := Option.map_eq_some_iff.mp unInforme_play
  have hrun := System.Config.steps_of_play hc
  exact ⟨c, hrun, heje, (anillos_enPaso 0).2.2 c hrun⟩

/-- A recovery after one report. -/
def unaRecuperacion : Guion :=
  ([.ask .conductor (.encolarNormal 0x5000 8), .act .conductor 4, .done .conductor] : Guion) ++
    pasoDe extremo 0 ++
  ([.ask .conductor .recuperarEndpoint, .act .conductor 1, .done .conductor] : Guion) ++
    pasoDe extremo 0

private theorem unaRecuperacion_play :
    ((recienHecho extremo 0 (anilloDeTransferencia 0)).play (fun _ o m ↦ Cabe o m)
      unaRecuperacion).map (fun c ↦ (c.mem.encolados, c.mem.ejecutados)) =
        some ([], [trbNormal 0x5000 8]) := by
  decide

/-- How many TRBs are enqueued and executed. -/
def cuenta : Op → Estado → Nat × Nat → Nat × Nat
  | .leer _, _, n => n
  | .escribir i _, _, n => if i % 4 = 3 ∧ i / 4 < lastTrbIdx then (n.1 + 1, n.2) else n
  | .ejecutar, m, n =>
    if (m.trb m.deq).ciclo ≠ m.ccs then n
    else if (m.trb m.deq).tipo = Tipo.link then n
    else (n.1, n.2 + 1)
  | .recolocar _, _, _ => (0, 0)

def EnCuenta (s : Estado × Nat × Nat) : Prop :=
  s.1.encolados.length = s.2.1 ∧ s.1.ejecutados.length = s.2.2

private theorem enCuenta_maneja (o : Op) (s : Estado × Nat × Nat) (h : EnCuenta s) :
    EnCuenta ((maneja base o s.1).2, cuenta o s.1 s.2) := by
  obtain ⟨henc, heje⟩ := h
  cases o with
  | leer i => exact ⟨henc, heje⟩
  | escribir i v =>
    simp only [EnCuenta, maneja, cuenta, Estado.escrito]
    split <;> simp [henc, heje]
  | ejecutar =>
    simp only [EnCuenta, maneja, cuenta, Estado.paso]
    split
    · exact ⟨henc, heje⟩
    · split <;> simp [henc, heje]
  | recolocar dq => exact ⟨rfl, rfl⟩

/-- There is room by the count. -/
def CabeEnCuenta : Op → Estado × Nat × Nat → Prop
  | .escribir i _, s => Empieza i → s.2.1 < s.2.2 + 254
  | _, _ => True

instance : ∀ o s, Decidable (CabeEnCuenta o s)
  | .leer _, _ => .isTrue trivial
  | .escribir i _, s => inferInstanceAs (Decidable (Empieza i → s.2.1 < s.2.2 + 254))
  | .ejecutar, _ => .isTrue trivial
  | .recolocar _, _ => .isTrue trivial

theorem cabe_of_cuenta (o : Op) (s : Estado × Nat × Nat) (h : EnCuenta s) (hc : CabeEnCuenta o s) :
    Cabe o s.1 := by
  cases o with
  | escribir i v => exact fun he ↦ h.1 ▸ h.2 ▸ hc he
  | leer | ejecutar | recolocar => trivial

/-- A schedule of a counted run. -/
abbrev GuionContado := List (System.Turn ((marcha mando 0).counted cuenta))

/-- 255 commands, each executed before the next, and two steps more of the controller. -/
def unaVuelta : GuionContado :=
  let paso : GuionContado := [.ask .controlador (), .act .controlador 1, .done .controlador]
  (List.replicate 254 (([.ask .conductor .enableSlot, .act .conductor 4, .done .conductor] :
    GuionContado) ++ paso)).flatten ++
  ([.ask .conductor .enableSlot, .act .conductor 6, .done .conductor] : GuionContado) ++
    paso ++ paso ++ paso

private theorem unaVuelta_play :
    (((recienHecho mando 0 (anilloDeMando 0)).count (0, 0)).play (fun _ o s ↦ CabeEnCuenta o s)
      unaVuelta).map (fun c ↦ c.mem.2) = some (255, 256) := by
  decide +kernel

/-- A recovery in the middle of a lap and the end of the first lap of the command ring put the
controller out of step. -/
theorem fuera_de_paso :
    (¬ ∀ c, (marcha extremo 0).Steps (fun _ o m ↦ Cabe o m)
      (recienHecho extremo 0 (anilloDeTransferencia 0)) c → EnPaso c) ∧
    ¬ ∀ c, (marcha mando 0).Steps (fun _ o m ↦ Cabe o m)
      (recienHecho mando 0 (anilloDeMando 0)) c → EnPaso c := by
  constructor
  · intro h
    obtain ⟨c, hc, hsal⟩ := Option.map_eq_some_iff.mp unaRecuperacion_play
    obtain ⟨henc, heje⟩ := Prod.mk.inj hsal
    have hpre := (h c (System.Config.steps_of_play hc)).orden
    rw [henc, heje] at hpre
    simp at hpre
  · intro h
    obtain ⟨c, hc, hsal⟩ := Option.map_eq_some_iff.mp unaVuelta_play
    obtain ⟨⟨henc, heje⟩, hst⟩ := System.steps_of_counted (fun _ ↦ enCuenta_maneja)
      (fun _ ↦ cabe_of_cuenta) ⟨rfl, rfl⟩ (System.Config.steps_of_play hc)
    rw [hsal] at henc heje
    have hpre := (h _ hst).orden.length_le
    exact absurd hpre (by rw [show c.uncount.mem = c.mem.1 from rfl, henc, heje]; decide)

end BmoX.Xhci
