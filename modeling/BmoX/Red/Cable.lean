import BmoX.Red.Despegue

/-!
# Nothing leaves that the tap did not grant

Every run of the kernel's calls, with the card giving descriptors back and the clock going on at any
moment.
-/

namespace BmoX.Red.Salida

open BmoX.Base

/-- Kernel and card put up with each other. -/
def lados (p : Plan) (miMac : Arr 6) : (salida p miMac).Roles (fun _ ↦ Legal) Unit where
  role | .nucleo => rolNucleo p | .tarjeta => rolTarjeta p
  idle | .nucleo, k, s => Quieto p miMac k s | .tarjeta, _, _ => True
  busy | .nucleo, _, _, s => Ocupado p miMac s | .tarjeta, _, _, _ => True
  handle_eq | .nucleo => rfl | .tarjeta => rfl
  allowed_eq | .nucleo => rfl | .tarjeta => rfl
  compat {i j} hij {s t} h := by
    cases i <;> cases j
    · exact absurd rfl hij
    · exact h
    · exact h
    · exact absurd rfl hij
  stable
    | .nucleo, _ => Quieto.stable
    | .tarjeta, _ => fun _ _ _ _ ↦ trivial
  prog
    | .nucleo, .abrirGrifo _ _, _, _, h => abrirGrifo_hace h
    | .nucleo, .cerrarGrifo, _, _, h => cerrarGrifo_hace h
    | .nucleo, .enviar _, _, _, h => enviar_hace h
    | .nucleo, .recoger, _, _, h => recoger_hace h
    | .tarjeta, .devolver _, _, _, _ => fun _ _ ↦ ⟨trivial, fun ha ↦
        ⟨(), controla_devolver ha, fun _ _ ↦ ⟨trivial, trivial⟩⟩⟩
    | .tarjeta, .tic _, _, _, _ => fun _ _ ↦ ⟨trivial, fun ha ↦
        ⟨(), controla_tic ha, fun _ _ ↦ ⟨trivial, trivial⟩⟩⟩

/-! ### The pen at the start -/

section

variable {p : Plan} {miMac : Arr 6} {mem : Memory} {t : UInt64}

private theorem quietos_desc (n : Nat) (hn : n ≤ anillo) (i : Nat) (hi : i < n) :
    TxDesc.deBytes ((quietos p mem n).load (p.dirDesc i) desc) =
      .quieto (p.dirBufer i) (i = anillo - 1) := by
  induction n with
  | zero => exact absurd hi (Nat.not_lt_zero _)
  | succ n ih =>
    have hstore : quietos p mem (n + 1) = (quietos p mem n).store (p.dirDesc n)
        (TxDesc.quieto (p.dirBufer n) (n = anillo - 1)).aBytes := by
      rw [quietos, Plan.quieto_eq hn]
      rfl
    rw [hstore]
    by_cases hin : i = n
    · subst hin
      have hload := Memory.load_store_self (m := quietos p mem i) (a := p.dirDesc i)
        (d := (TxDesc.quieto (p.dirBufer i) (i = anillo - 1)).aBytes)
      rw [TxDesc.length_aBytes] at hload
      rw [hload, TxDesc.deBytes_aBytes]
    · rw [Memory.load_store_of_disjoint]
      · exact ih (by omega) (by omega)
      · rw [TxDesc.length_aBytes]
        exact dirDesc_disjoint hin

private theorem quieto_armada :
    Quieto p miMac ⟨.nuevo, .cerrado, []⟩
      (⟨quietos p mem anillo, t, p.descriptores, 0, [], [], 0⟩, ()) where
  vale := by
    refine ⟨rfl, rfl, Nat.zero_le _, List.nil_prefix, ?_, fun k _ _ ↦ ?_, rfl⟩
    · intro k e _ he
      cases he
    · rw [Mundo.descEn, quietos_desc anillo le_rfl _ (turno_lt k), TxDesc.tiene_quieto]
  entregadas := rfl
  salidas n x hn := by cases hn
  aterrizadas n i hn := by cases hn
  vuelos := Vuelos.Lleva.nuevo
  vueltas := le_rfl
  grifo := Grifo.Lleva.cerrado t
  juzgadas n casilla trama ahora hn := by cases hn
  sinGasto no antes despues hmem := by cases hmem
  buferes k e _ he := by cases he

end

/-! ### What leaves and what was granted -/

/-- The kernel in a state of a run. -/
def nucleoDe {p : Plan} {miMac : Arr 6} (c : (salida p miMac).Config) : Nucleo := c.priv .nucleo

/-- At every moment what the card was given is ours, the kernel wrote to nothing of the card's, and
the card sent no more than it was given, in that order. Between two calls, what the card was given is
what left by the tap, each frame under a grant, and tap and flights go with that. -/
structure Conforme {p : Plan} {miMac : Arr 6} (c : (salida p miMac).Config) : Prop where
  tramas : ∀ e ∈ c.mem.entregadas, ∃ trama, Correcta miMac trama ∧ e.2 = rellena trama ∧
    Correcta miMac e.2 ∧ minima ≤ e.2.length ∧ e.2.length ≤ maxima
  intactas : c.mem.invadidas = 0
  cable : c.mem.cable <+: c.mem.entregadas.map Prod.snd
  entregadas : c.run .nucleo = none → c.mem.entregadas =
    (salidas (nucleoDe c).historia).map fun x ↦ (p.dirDesc x.1, rellena x.2.1)
  juzgadas : c.run .nucleo = none → Juzgadas miMac (nucleoDe c).historia
  cupo : c.run .nucleo = none → ∀ pre mid post t plazo n,
    (nucleoDe c).historia = pre ++ .abierto t plazo n :: (mid ++ post) →
      (∀ s ∈ mid, ∀ t plazo n, s ≠ .abierto t plazo n) → (salidas mid).length ≤ n.toNat
  ritmo : c.run .nucleo = none → ∀ t, (((salidas (nucleoDe c).historia).map fun x ↦ x.2.2.toNat).filter
    fun u ↦ t ≤ u ∧ u < t + segundo).length ≤ 2 * ritmoMax
  cuentas : c.run .nucleo = none → (nucleoDe c).grifo.salieron = (nucleoDe c).vuelos.despegues ∧
    (nucleoDe c).vuelos.despegues = UInt64.ofNat (salidas (nucleoDe c).historia).length
  intervalo : c.run .nucleo = none → ∀ i, (nucleoDe c).vuelos.casillas i ≠ .libre ↔
    ∃ k < (nucleoDe c).vuelos.enVuelo, i = (nucleoDe c).vuelos.masVieja + Fin.ofNat anillo k
  aterrizan : c.run .nucleo = none → aterrizadas (nucleoDe c).historia <+:
    (salidas (nucleoDe c).historia).map Prod.fst
  buferes : c.run .nucleo = none → Buferes p (aterrizadas (nucleoDe c).historia).length c.mem
  sinGasto : c.run .nucleo = none → SinGasto (nucleoDe c).historia

section

variable {p : Plan} {miMac : Arr 6} {k : Nucleo} {s : Mundo × Unit}

theorem Quieto.cupo (h : Quieto p miMac k s) {pre mid post : List Suceso} {t plazo : UInt64}
    {n : UInt32} (hh : k.historia = pre ++ .abierto t plazo n :: (mid ++ post))
    (hmid : ∀ s ∈ mid, ∀ t plazo n, s ≠ .abierto t plazo n) : (Salida.salidas mid).length ≤ n.toNat := by
  have hj : Juzgadas miMac (pre ++ .abierto t plazo n :: mid) := by
    intro i casilla trama ahora hi
    have hlt := (List.getElem?_eq_some_iff.mp hi).1
    have hfull := h.juzgadas i casilla trama ahora (by
      rw [hh, ← List.cons_append, ← List.append_assoc, List.getElem?_append_left hlt]
      exact hi)
    rwa [hh, ← List.cons_append, ← List.append_assoc, List.take_append_of_le_length hlt.le] at hfull
  exact hj.cupo hmid

private theorem Quieto.aterrizan (h : Quieto p miMac k s) :
    Salida.aterrizadas k.historia <+: (Salida.salidas k.historia).map Prod.fst := by
  refine List.prefix_iff_getElem?.mpr fun n hn ↦ ?_
  have hlt : n < (Salida.salidas k.historia).length := hn.trans_le h.vuelos.le
  have hsal := List.getElem?_eq_getElem hlt
  rw [List.getElem?_map, hsal, Option.map_some, h.salidas n _ hsal,
    ← h.aterrizadas n _ (List.getElem?_eq_getElem hn)]

end

/-- In every run, what reaches the card and leaves by it is what the tap granted. -/
theorem salida_conforme (p : Plan) (miMac : Arr 6) (mem : Memory) (t : UInt64) :
    ∀ c, (salida p miMac).Steps (fun _ ↦ Legal) (armada p miMac mem t) c → Conforme c := by
  intro c hc
  have hini : ∀ i, (lados p miMac).Holds (armada p miMac mem t) () i := fun
    | .nucleo => quieto_armada
    | .tarjeta => trivial
  obtain ⟨⟨⟩, hall⟩ := (lados p miMac).invariant hini hc
  have hnuc := hall .nucleo
  have hoc : Ocupado p miMac (c.mem, ()) := by
    unfold System.Roles.Holds at hnuc
    split at hnuc
    · exact Quieto.ocupado hnuc
    · exact hnuc.now
  have hidle : c.run .nucleo = none → Quieto p miMac (nucleoDe c) (c.mem, ()) := by
    intro hrun
    unfold System.Roles.Holds at hnuc
    rwa [hrun] at hnuc
  obtain ⟨hvale, htramas⟩ := hoc
  refine ⟨fun e he ↦ ?_, hvale.intactas, hvale.cable, fun h ↦ (hidle h).entregadas,
    fun h ↦ (hidle h).juzgadas, fun h pre mid post t plazo n hh hmid ↦ (hidle h).cupo hh hmid,
    fun h ↦ (hidle h).grifo.ritmo.within_le, fun h ↦ ?_, fun h ↦ (hidle h).vuelos.intervalo,
    fun h ↦ (hidle h).aterrizan, fun h ↦ (hidle h).buferes, fun h ↦ (hidle h).sinGasto⟩
  · obtain ⟨trama, hc, he⟩ := htramas e he
    rw [he]
    exact ⟨trama, hc, rfl, hc.rellena⟩
  · have hq := hidle h
    exact ⟨hq.grifo.salieron.trans hq.vuelos.despegues.symm, hq.vuelos.despegues⟩

/-! ### One frame, and one too late -/

instance : ∀ o m, Decidable (Legal o m)
  | .devolver _, _ => inferInstanceAs (Decidable (_ ∧ _))
  | .tic t, m => inferInstanceAs (Decidable (m.reloj ≤ t))
  | .reloj, _ | .copiar .., _ | .leerDesc _, _ | .escribirDesc .., _ | .campana, _ =>
    inferInstanceAs (Decidable True)

def planUno : Plan := ⟨0, 262144, by decide, by decide, by decide⟩

private theorem length_macUna : [(0x02 : UInt8), 0, 0, 0, 0, 1].length = 6 := rfl

def macUna : Arr 6 := ⟨[0x02, 0, 0, 0, 0, 1], length_macUna⟩

def tramaUna : Bytes := List.replicate 6 0xFF ++ macUna.1 ++ [0x08, 0x06]

/-- A frame is sent; the card gives its descriptor back before the kernel is through. -/
def unaTrama : List (System.Turn (salida planUno macUna)) :=
  [.ask .nucleo (.abrirGrifo 1000 5), .act .nucleo 1, .done .nucleo,
   .ask .nucleo (.enviar tramaUna), .act .nucleo 5,
   .ask .tarjeta (.devolver 0), .act .tarjeta 1, .done .tarjeta, .done .nucleo,
   .ask .nucleo .recoger, .act .nucleo 3, .done .nucleo]

theorem unaTrama_play :
    ((armada planUno macUna (fun _ ↦ 0) 7).play (fun _ ↦ Legal) unaTrama).map
      (fun c ↦ (c.mem.cable, aterrizadas (nucleoDe c).historia)) =
        some ([tramaUna ++ zeros 46], [0]) := by
  decide

theorem salida_conforme_unaTrama :
    ∃ c, (salida planUno macUna).Steps (fun _ ↦ Legal) (armada planUno macUna (fun _ ↦ 0) 7) c ∧
      c.mem.cable = [tramaUna ++ zeros 46] ∧ aterrizadas (nucleoDe c).historia = [0] ∧
      Conforme c := by
  obtain ⟨c, hc, hsal⟩ := Option.map_eq_some_iff.mp unaTrama_play
  obtain ⟨hcable, hater⟩ := Prod.mk.inj hsal
  have hrun := System.Config.steps_of_play hc
  exact ⟨c, hrun, hcable, hater, salida_conforme planUno macUna (fun _ ↦ 0) 7 c hrun⟩

/-- A frame comes when the grant is over. -/
def unaTardia : List (System.Turn (salida planUno macUna)) :=
  [.ask .nucleo (.abrirGrifo 10 5), .act .nucleo 1, .done .nucleo,
   .ask .tarjeta (.tic 17), .act .tarjeta 1, .done .tarjeta,
   .ask .nucleo (.enviar tramaUna), .act .nucleo 1, .done .nucleo]

/-- The quota before and after each refusal. -/
def cupos (h : List Suceso) : List (UInt32 × UInt32) := h.filterMap fun
  | .negada _ antes despues => some (antes.2.cupo, despues.2.cupo)
  | _ => none

theorem unaTardia_play :
    ((armada planUno macUna (fun _ ↦ 0) 7).play (fun _ ↦ Legal) unaTardia).map
      (fun c ↦ ((c.run .nucleo).isNone, cupos (nucleoDe c).historia)) = some (true, [(5, 0)]) := by
  decide

/-- A frame that comes too late is refused, and the quota goes with the grant. -/
theorem cupo_gastado :
    ¬∀ c, (salida planUno macUna).Steps (fun _ ↦ Legal) (armada planUno macUna (fun _ ↦ 0) 7) c →
      c.run .nucleo = none → ∀ no antes despues,
        Suceso.negada no antes despues ∈ (nucleoDe c).historia → despues.2.cupo = antes.2.cupo := by
  intro h
  obtain ⟨c, hc, hsal⟩ := Option.map_eq_some_iff.mp unaTardia_play
  obtain ⟨hnone, hcupos⟩ := Prod.mk.inj hsal
  have hmem : (5, 0) ∈ cupos (nucleoDe c).historia := by simp [hcupos]
  obtain ⟨s, hs, hq⟩ := List.mem_filterMap.mp hmem
  have hsin := h c (System.Config.steps_of_play hc) (Option.isNone_iff_eq_none.mp hnone)
  cases s with
  | negada no antes despues =>
    obtain ⟨h5, h0⟩ := Prod.mk.inj (Option.some.inj hq)
    have hcupo := hsin no antes despues hs
    rw [h5, h0] at hcupo
    exact absurd hcupo (by decide)
  | _ => cases hq

end BmoX.Red.Salida
