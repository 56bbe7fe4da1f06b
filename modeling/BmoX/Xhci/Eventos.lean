import BmoX.Xhci.Entregas

/-!
# Driver and controller together

What every run keeps of the events, and a run in which a control transfer takes the answer to
another.
-/

namespace BmoX.Xhci.Correo

open BmoX.Base Prog

/-! ### The two sides -/

/-- Each side puts up with what the other does. -/
def partes (puntual : Prop) : eventos.Roles (fun _ ↦ Permitido puntual) Unit where
  role | .conductor => rolConductor puntual | .controlador => rolControlador puntual
  idle | .conductor, d, s => Quieto puntual d s | .controlador, _, _ => True
  busy | .conductor, _, d, s => Ocupado puntual d s | .controlador, _, _, _ => True
  handle_eq | .conductor => rfl | .controlador => rfl
  allowed_eq | .conductor => rfl | .controlador => rfl
  compat {i j} hij {s t} h := by
    cases i <;> cases j
    · exact absurd rfl hij
    · exact h
    · exact h
    · exact absurd rfl hij
  stable
    | .conductor, _ => Llevado.stable
    | .controlador, _ => fun _ _ _ _ ↦ trivial
  prog
    | .conductor, .comando, _, _, h => comando_hace h
    | .conductor, .control _, _, _, h => control_hace h
    | .conductor, .sondeo _, _, _, h => sondeo_hace h
    | .controlador, .postear ev o, _, s, _ => fun t _ ↦ ⟨trivial, fun ha ↦
        ⟨(), controla_postear ha, fun _ _ ↦ ⟨trivial, trivial⟩⟩⟩
    | .controlador, .enchufe puerto sc, _, s, _ => fun t _ ↦ ⟨trivial, fun _ ↦
        ⟨(), controla_enchufe, fun _ _ ↦ ⟨trivial, trivial⟩⟩⟩

/-! ### Every run -/

section

variable {puntual : Prop} {c : eventos.Config} {phys : UInt64} {portsc : UInt8 → UInt32}
  {respira : Nat → Bool}

private theorem vale_inicial : Vale (.inicial phys portsc respira) where
  ring := by
    apply CycleRing.start
    intro i _
    exact decide_eq_false (show ¬(0 : UInt32) &&& 1 = 1 by decide)
  dequeue := rfl
  cycle := show (1 : UInt32) = conCiclo (lapBit ringSize 0) by decide
  causas n ev o hn := by simp [Mundo.inicial] at hn
  aparcados c hc := by simp [Mundo.inicial] at hc
  perdidos n hn := by simp [Mundo.inicial] at hn
  cuenta := rfl

theorem quieto_inicial : Quieto puntual ⟨[], [], []⟩ (.inicial phys portsc respira, ()) where
  vale := vale_inicial
  extremos slot ep _ := ⟨by simp, by simp [Mundo.inicial]⟩
  devueltos n slot ep cc hmem := by simp at hmem
  puertos := ⟨by simp [Mundo.inicial], by simp [Mundo.inicial]⟩
  anotados n puerto ccs hmem := by simp [Mundo.inicial] at hmem
  respuestas _ k n hkn := by simp at hkn
  transferencias _ k n hkn := by simp at hkn
  ninguno _ n hn := by simp [Mundo.inicial] at hn

private theorem holds_conductor
    (h : eventos.Steps (fun _ ↦ Permitido puntual) (alInicio phys portsc respira) c) :
    (partes puntual).Holds c () .conductor := by
  have hini : ∀ i, (partes puntual).Holds (alInicio phys portsc respira) () i := fun
    | .conductor => quieto_inicial
    | .controlador => trivial
  obtain ⟨⟨⟩, hc⟩ := (partes puntual).invariant hini h
  exact hc .conductor

theorem Llevado.repartido (h : Llevado puntual (conductorDe c) [] (c.mem, ())) : Repartido c := by
  refine ⟨h.vale.cuenta, fun slot ep hep ↦ ?_, h.devueltos, ?_, h.anotados⟩
  · have hord := h.extremos slot ep hep
    rw [List.append_nil] at hord
    exact hord.todosEn h.vale
  · have hord := h.puertos
    rw [List.append_nil] at hord
    exact hord.todosEn h.vale

/-- In every run the events of the endpoints and the changes of port are returned and handed on
once, in their order, but for those counted as lost; and where answers come in time, a command and
a control transfer take their own answer and no other, and no change of port is lost. -/
theorem eventos_entregados (phys : UInt64) (portsc : UInt8 → UInt32) (respira : Nat → Bool) :
    (∀ c, eventos.Steps (fun _ ↦ Legal) (alInicio phys portsc respira) c →
      c.run .conductor = none → Repartido c) ∧
    ∀ c, eventos.Steps (fun _ o m ↦ Legal o m ∧ Puntual o m) (alInicio phys portsc respira) c →
      Entregado c := by
  have hidle : ∀ {puntual : Prop} {c : eventos.Config}, (partes puntual).Holds c () .conductor →
      c.run .conductor = none → Llevado puntual (conductorDe c) [] (c.mem, ()) := by
    intro puntual c h hrun
    unfold System.Roles.Holds at h
    rwa [hrun] at h
  constructor
  · intro c hc hrun
    have hperm : eventos.Steps (fun _ ↦ Permitido False) (alInicio phys portsc respira) c :=
      System.Steps.mono (fun _ _ _ hl ↦ ⟨hl, False.elim⟩) hc
    exact (hidle (holds_conductor hperm) hrun).repartido
  · intro c hc
    have hperm : eventos.Steps (fun _ ↦ Permitido True) (alInicio phys portsc respira) c :=
      System.Steps.mono (fun _ _ _ hl ↦ ⟨hl.1, fun _ ↦ hl.2⟩) hc
    have hholds := holds_conductor hperm
    have hoc : Ocupado True (conductorDe c) (c.mem, ()) := by
      unfold System.Roles.Holds at hholds
      split at hholds
      · exact Llevado.ocupado hholds
      · exact hholds.now
    obtain ⟨hcom, hcon⟩ := hoc trivial
    exact ⟨hcom, hcon, fun hrun ↦ (hidle hholds hrun).repartido,
      fun hrun ↦ (hidle hholds hrun).ninguno trivial⟩

end

/-! ### A run in time -/

instance : ∀ o m, Decidable (Legal o m)
  | .postear ev o, m =>
    inferInstanceAs (Decidable (m.posteados.length < m.leidos + ringSize ∧ Causa m ev o))
  | .boca, _ | .leer _, _ | .erdp _ _, _ | .aparcar _, _ | .desaparcarQueCuadre _, _ => .isTrue trivial
  | .desaparcarCualquiera, _ | .tardia, _ | .respirar, _ | .mandar, _ | .controlar _, _ =>
    .isTrue trivial
  | .atender _ _, _ | .enchufe _ _, _ => .isTrue trivial

instance : ∀ o m, Decidable (Puntual o m)
  | .mandar, m => inferInstanceAs
    (Decidable (∀ q ∈ m.posteados.drop m.leidos, q.2.mando m ≠ some (trbEn m.mandar.1.1)))
  | .controlar slot, m => inferInstanceAs
    (Decidable ((∀ q ∈ m.posteados.drop m.leidos, q.2.ranura m ≠ some slot) ∧
      ∀ c ∈ m.aparcados, (m.posteados[c.num]?.bind fun q ↦ q.2.ranura m) ≠ some slot))
  | .postear _ o, m => inferInstanceAs (Decidable (Vigente m o))
  | .aparcar c, m => inferInstanceAs (Decidable (c.ev.tipo = Tipo.portStatus →
      puertoDe c.ev ≠ 0 → m.aparcados.length < aparcadosMax))
  | .boca, _ | .leer _, _ | .erdp _ _, _ | .desaparcarQueCuadre _, _ => .isTrue trivial
  | .desaparcarCualquiera, _ | .tardia, _ | .respirar, _ => .isTrue trivial
  | .atender _ _, _ | .enchufe _ _, _ => .isTrue trivial

/-- A Transfer Event. -/
def llegada (slot ep cc : UInt8) : Trb :=
  ⟨0, 0, cc.toUInt32 <<< 24, (slot.toUInt32 <<< 24) ||| (ep.toUInt32 <<< 16) ||| (Tipo.transfer <<< 10)⟩

/-- A change of port. -/
def enchufado (puerto : UInt8) : Trb := ⟨puerto.toUInt32 <<< 24, 0, 0, Tipo.portStatus <<< 10⟩

/-- A schedule. -/
abbrev Guion := List (System.Turn eventos)

/-- The controller posts an event, as an entry of a schedule. -/
def correoDe (ev : Trb) (o : Origen) : Guion :=
  [.ask .controlador (.postear ev o), .act .controlador 1, .done .controlador]

/-- A report and a change of port arrive while a control transfer is waited for, and are polled
afterwards. -/
def unaEspera : Guion :=
  ([.ask .conductor (.control 1), .act .conductor 1] : Guion) ++ correoDe (llegada 1 3 1) .extremo ++
  ([.act .conductor 8] : Guion) ++ correoDe (enchufado 2) .puerto ++
  ([.act .conductor 8] : Guion) ++ correoDe (llegada 1 1 1) (.control 0) ++
  ([.act .conductor 7, .done .conductor] : Guion) ++
  ([.ask .conductor (.sondeo 5), .act .conductor 1, .done .conductor] : Guion) ++
  ([.ask .conductor (.sondeo 5), .act .conductor 5, .done .conductor] : Guion)

private theorem unaEspera_play :
    ((alInicio 0 (fun _ ↦ 0) fun _ ↦ true).play (fun _ o m ↦ Legal o m ∧ Puntual o m) unaEspera).map
      (fun c ↦ ((conductorDe c).transferencias, (conductorDe c).devueltos.map Prod.fst,
        c.mem.anotados.map Prod.fst)) = some ([(0, 2)], [0], [1]) := by
  decide

theorem eventos_entregados_unaEspera :
    ∃ c, eventos.Steps (fun _ o m ↦ Legal o m ∧ Puntual o m) (alInicio 0 (fun _ ↦ 0) fun _ ↦ true) c ∧
      (conductorDe c).transferencias = [(0, 2)] ∧ (conductorDe c).devueltos.map Prod.fst = [0] ∧
      c.mem.anotados.map Prod.fst = [1] ∧ Entregado c := by
  obtain ⟨c, hc, hsal⟩ := Option.map_eq_some_iff.mp unaEspera_play
  obtain ⟨htra, hsal⟩ := Prod.mk.inj hsal
  obtain ⟨hdev, hano⟩ := Prod.mk.inj hsal
  have hrun := System.Config.steps_of_play hc
  exact ⟨c, hrun, htra, hdev, hano, (eventos_entregados 0 (fun _ ↦ 0) fun _ ↦ true).2 c hrun⟩

/-! ### A wait that gives up -/

/-- The ring has nothing for the driver, nothing is parked and the HAL answers. -/
structure Vacio (m : Mundo) : Prop where
  aparcados : m.aparcados = []
  anillo : m.dw (m.evtDequeue * 4 + 3) &&& 1 ≠ m.evtCycle
  respira : ∀ i, m.respira i = true

private theorem desaparcar_vacio {m : Mundo} (h : Vacio m) (esp : Espera) :
    m.desaparcarQueCuadre esp = (none, m) := by
  obtain ⟨ha, -, -⟩ := h
  rw [Mundo.desaparcarQueCuadre, ha, List.find?_nil, List.eraseP_nil, ← ha]

private theorem evtRingPop_vacio {m : Mundo} (h : Vacio m) {Q : Option Carta → Mundo → Prop}
    (hQ : Q none m) : Safe (Handler.env maneja) Legal Q evtRingPop m := by
  refine ⟨trivial, ?_⟩
  rintro _ _ ⟨⟩
  refine ⟨trivial, ?_⟩
  rintro _ _ ⟨⟩
  change Safe _ _ Q (if m.dw (m.evtDequeue * 4 + 3) &&& 1 ≠ m.evtCycle then pure none else _) m
  rw [if_pos h.anillo]
  exact hQ

/-- A wait on an empty ring gives up. -/
theorem gira_vacio {esp : Espera} (n v r : Nat) {m : Mundo} (h : Vacio m) (hr : r < respirosMax)
    (hn : girando + respirosMax ≤ n + v + r + 1) (hn' : respirosMax - r ≤ n) :
    Safe (Handler.env maneja) Legal
      (fun c t ↦ c = none ∧ t = { m with veces := m.veces + (respirosMax - r) }) (gira esp n v r) m := by
  induction n generalizing v r m with
  | zero => omega
  | succ n ih =>
    rw [gira]
    refine ⟨trivial, ?_⟩
    rintro _ _ hd
    have hd' : m.desaparcarQueCuadre esp = _ := hd
    rw [desaparcar_vacio h] at hd'
    cases hd'
    change Safe _ _ _ (evtRingPop >>= _) m
    refine safe_bind.mpr (evtRingPop_vacio h ?_)
    simp only
    split
    · refine ⟨trivial, ?_⟩
      rintro _ _ ⟨⟩
      simp only [h.respira]
      split
      · refine ⟨rfl, ?_⟩
        have huno : respirosMax - r = 1 := by omega
        rw [huno]
      · have hm : Vacio { m with veces := m.veces + 1 } := ⟨h.aparcados, h.anillo, h.respira⟩
        refine (ih (v + 1) (r + 1) hm (by omega) (by omega) (by omega)).post ?_
        rintro c t ⟨rfl, rfl⟩
        refine ⟨rfl, ?_⟩
        have hveces : m.veces + 1 + (respirosMax - (r + 1)) = m.veces + (respirosMax - r) := by omega
        simp only [hveces]
    · exact ih _ _ h hr (by omega) (by omega)

/-- The controller answers one control transfer after the driver gave up, and the driver begins
another. -/
def unaTardia : Guion :=
  ([.done .conductor] : Guion) ++ correoDe (llegada 1 1 1) (.control 0) ++
  ([.ask .conductor (.control 1), .act .conductor 8, .done .conductor] : Guion)

/-- The driver at the end of a control transfer of slot 1 that nobody answers. -/
def sinRespuesta : eventos.Config where
  mem := { Mundo.inicial 0 (fun _ ↦ 0) (fun _ ↦ true) with controles := [1], veces := respirosMax }
  priv := (alInicio 0 (fun _ ↦ 0) fun _ ↦ true).priv
  run := Function.update (fun _ ↦ none) Parte.conductor
    (some (DelConductor.control 1, .ret (⟨[], [], []⟩ : Conductor)))

private theorem steps_sinRespuesta :
    eventos.Steps (fun _ ↦ Legal) (alInicio 0 (fun _ ↦ 0) fun _ ↦ true) sinRespuesta := by
  let s : eventos.Config := (alInicio 0 (fun _ ↦ 0) fun _ ↦ true).ask Parte.conductor
    (DelConductor.control 1)
  have hask : eventos.Steps (fun _ ↦ Legal) (alInicio 0 (fun _ ↦ 0) fun _ ↦ true) s :=
    .single (System.Step.ask (S := eventos) Parte.conductor (DelConductor.control 1) rfl)
  have hvacio : Vacio { s.mem with controles := [1] } :=
    ⟨rfl, show (0 : UInt32) &&& 1 ≠ 1 by decide, fun _ ↦ rfl⟩
  have hsafe : Safe (Handler.env maneja) Legal (fun d m ↦ d = ⟨[], [], []⟩ ∧
      m = { s.mem with controles := [1], veces := respirosMax })
      (Conductor.hace ⟨[], [], []⟩ (.control 1)) s.mem := by
    simp only [Conductor.hace, controlTransfer, bind_assoc, pure_bind]
    refine ⟨trivial, ?_⟩
    rintro _ _ ⟨⟩
    change Safe _ _ _ (evtPollBlock _ >>= _) _
    refine safe_bind.mpr ((gira_vacio 500000 0 0 hvacio (by decide) (by decide) (by decide)).post ?_)
    rintro _ _ ⟨rfl, rfl⟩
    exact ⟨rfl, rfl⟩
  have hrun : s.run .conductor = some (DelConductor.control 1,
    Conductor.hace ⟨[], [], []⟩ (.control 1)) := rfl
  have hsteps := System.steps_of_safe (S := eventos) (fun _ ↦ Legal) hrun hsafe
  obtain ⟨l, m, ⟨rfl, rfl⟩, hst⟩ := hsteps
  have hfin : Function.update s.run Parte.conductor
      (some (DelConductor.control 1, .ret (⟨[], [], []⟩ : Conductor))) = sinRespuesta.run :=
    Function.update_idem ..
  rw [hfin] at hst
  exact hask.trans hst

theorem unaTardia_play :
    (sinRespuesta.play (fun _ ↦ Legal) unaTardia).map
      (fun c ↦ ((conductorDe c).transferencias, c.mem.posteados.map Prod.snd)) =
        some ([(1, 0)], [.control 0]) := by
  decide

/-- A control transfer takes the answer to one of before. -/
theorem respuesta_ajena :
    ¬∀ c, eventos.Steps (fun _ ↦ Legal) (alInicio 0 (fun _ ↦ 0) fun _ ↦ true) c → Entregado c := by
  intro h
  obtain ⟨c, hc, hsal⟩ := Option.map_eq_some_iff.mp unaTardia_play
  obtain ⟨htra, hpost⟩ := Prod.mk.inj hsal
  have hent := h c (steps_sinRespuesta.trans (System.Config.steps_of_play hc))
  obtain ⟨ev, hev⟩ := hent.controles 1 0 (by simp [htra])
  have hsnd := congrArg (fun l ↦ l[0]?) hpost
  simp [hev] at hsnd

end BmoX.Xhci.Correo
