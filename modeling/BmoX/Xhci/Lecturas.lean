import BmoX.Xhci.Correo

/-!
# One event read

What the controller may post meanwhile, when an answer comes in time, and what the driver has when
it has read an event of the ring: each one read is with the one that took it, parked or counted as
lost.
-/

namespace BmoX.Xhci.Correo

open BmoX.Base

/-! ### What the controller may do -/

/-- The TRB that an address names. -/
def trbEn (dir : UInt64) : UInt64 := dir &&& ~~~0xF

/-- An event fits what it is the answer to. -/
def Causa (m : Mundo) (ev : Trb) : Origen → Prop
  | .comando k => ev.tipo = Tipo.completion ∧ m.mandados[k]?.map trbEn = some ev.destino
  | .control k => ev.tipo = Tipo.transfer ∧ epDe ev = 1 ∧ m.controles[k]? = some (slotDe ev)
  | .extremo => ev.tipo = Tipo.transfer ∧ epDe ev ≠ 1
  | .puerto => ev.tipo = Tipo.portStatus
  | .otro => ev.tipo ≠ Tipo.transfer ∧ ev.tipo ≠ Tipo.completion ∧ ev.tipo ≠ Tipo.portStatus

instance (m : Mundo) (ev : Trb) : ∀ o, Decidable (Causa m ev o)
  | .comando _ | .control _ | .extremo | .otro => inferInstanceAs (Decidable (_ ∧ _))
  | .puerto => inferInstanceAs (Decidable (_ = _))

/-- The controller posts events with a cause, and none over one that was not read. -/
def Legal : Op → Mundo → Prop
  | .postear ev o, m => m.posteados.length < m.leidos + ringSize ∧ Causa m ev o
  | _, _ => True

/-- The TRB of the command that an event answers. -/
def Origen.mando (m : Mundo) : Origen → Option UInt64
  | .comando k => m.mandados[k]?.map trbEn
  | _ => none

/-- The slot of the control transfer that an event answers. -/
def Origen.ranura (m : Mundo) : Origen → Option UInt8
  | .control k => m.controles[k]?
  | _ => none

/-- The cause of an event has no later one in its place. -/
def Vigente (m : Mundo) : Origen → Prop
  | .comando k => ∀ j < m.mandados.length, k < j →
    m.mandados[j]?.map trbEn ≠ m.mandados[k]?.map trbEn
  | .control k => ∀ j < m.controles.length, k < j → m.controles[j]? ≠ m.controles[k]?
  | _ => True

instance (m : Mundo) : ∀ o, Decidable (Vigente m o)
  | .comando k => inferInstanceAs (Decidable (∀ j < m.mandados.length, k < j →
      m.mandados[j]?.map trbEn ≠ m.mandados[k]?.map trbEn))
  | .control k => inferInstanceAs (Decidable (∀ j < m.controles.length, k < j →
      m.controles[j]? ≠ m.controles[k]?))
  | .extremo | .puerto | .otro => .isTrue trivial

/-- Answers in time: when a command goes to a TRB, no completion of an earlier one in that TRB is
unread, and none is posted afterwards; when a control transfer begins, no event of an earlier one of
its slot is unread or parked, and none is posted afterwards; and a change of port is parked only
where there is room. -/
def Puntual : Op → Mundo → Prop
  | .mandar, m => ∀ q ∈ m.posteados.drop m.leidos, q.2.mando m ≠ some (trbEn m.mandar.1.1)
  | .controlar slot, m => (∀ q ∈ m.posteados.drop m.leidos, q.2.ranura m ≠ some slot) ∧
    ∀ c ∈ m.aparcados, (m.posteados[c.num]?.bind fun q ↦ q.2.ranura m) ≠ some slot
  | .postear _ o, m => Vigente m o
  | .aparcar c, m => c.ev.tipo = Tipo.portStatus → puertoDe c.ev ≠ 0 →
    m.aparcados.length < aparcadosMax
  | _, _ => True

/-! ### What is claimed of a run -/

/-- A Transfer Event of an endpoint. -/
def deExtremo (slot ep : UInt8) (ev : Trb) : Bool :=
  ev.tipo = Tipo.transfer && slotDe ev = slot && epDe ev = ep

/-- A change of a port that exists. -/
def dePuerto (ev : Trb) : Bool := ev.tipo = Tipo.portStatus && puertoDe ev ≠ 0

/-- The `n`-th event posted is one of those. -/
def Mundo.es (m : Mundo) (p : Trb → Bool) (n : Nat) : Bool := m.posteados[n]?.any fun q ↦ p q.1

/-- The events of a kind, in the order posted: those in `log`, then those parked, then those
unread, and no others but the ones lost. -/
def TodosEn (m : Mundo) (p : Trb → Bool) (log : List Nat) : Prop :=
  log.filter (m.es p) ++ (m.aparcados.map Carta.num).filter (m.es p) ++
      ((List.range m.posteados.length).drop m.leidos).filter (m.es p) =
    (List.range m.posteados.length).filter fun n ↦ m.es p n && !m.perdidos.contains n

/-- Each answer taken down is to what it was taken for. -/
def Contestan (m : Mundo) (o : Nat → Origen) (log : List (Nat × Nat)) : Prop :=
  ∀ k n, (k, n) ∈ log → ∃ ev, m.posteados[n]? = some (ev, o k)

/-- The driver in a state of a run. -/
def conductorDe (c : eventos.Config) : Conductor := c.priv .conductor

/-- With or without answers in time, between two calls of the driver: every Transfer Event of an
endpoint that is not EP0 was returned once and in its order, or waits to be, but for those lost, which
are counted; and so was every change of port handed to the queue. -/
structure Repartido (c : eventos.Config) : Prop where
  cuenta : c.mem.aparcadosPerdidos = UInt32.ofNat c.mem.perdidos.length
  extremos : ∀ slot ep, ep ≠ 1 →
    TodosEn c.mem (deExtremo slot ep) ((conductorDe c).devueltos.map Prod.fst)
  devueltos : ∀ n slot ep cc, (n, slot, ep, cc) ∈ (conductorDe c).devueltos →
    ∃ ev o, c.mem.posteados[n]? = some (ev, o) ∧ deExtremo slot ep ev = true ∧ cc = ccDe ev
  puertos : TodosEn c.mem dePuerto (c.mem.anotados.map Prod.fst)
  anotados : ∀ n puerto ccs, (n, puerto, ccs) ∈ c.mem.anotados →
    ∃ ev o, c.mem.posteados[n]? = some (ev, o) ∧ dePuerto ev = true ∧ puerto = puertoDe ev

/-- Every event reached the one it belongs to. -/
structure Entregado (c : eventos.Config) : Prop where
  comandos : Contestan c.mem .comando (conductorDe c).respuestas
  controles : Contestan c.mem .control (conductorDe c).transferencias
  repartido : c.run .conductor = none → Repartido c
  ningunPuerto : c.run .conductor = none → ∀ n ∈ c.mem.perdidos, c.mem.es dePuerto n = false

/-! ### The bits of an event -/

private theorem campo_puesta (ev : Trb) (b : Bool) {k : UInt32} {mask : UInt32}
    (h1 : ∀ b, conCiclo b >>> k = 0) (h2 : ((~~~1 : UInt32) >>> k) &&& mask = mask) :
    ((ev.puesta b).dw3 >>> k) &&& mask = (ev.dw3 >>> k) &&& mask := by
  simp only [Trb.puesta, UInt32.shiftRight_or, h1, UInt32.or_zero, UInt32.shiftRight_and,
    UInt32.and_assoc, h2]

private theorem slotDe_puesta (ev : Trb) (b : Bool) : slotDe (ev.puesta b) = slotDe ev := by
  rw [slotDe, slotDe, campo_puesta ev b (by decide) (by decide)]

private theorem epDe_puesta (ev : Trb) (b : Bool) : epDe (ev.puesta b) = epDe ev := by
  rw [epDe, epDe, campo_puesta ev b (by decide) (by decide)]

theorem Causa.puesta {m : Mundo} {ev : Trb} {o : Origen} (h : Causa m ev o) (b : Bool) :
    Causa m (ev.puesta b) o := by
  have hdest : (ev.puesta b).destino = ev.destino := rfl
  cases o <;> simpa only [Causa, Trb.tipo_puesta, slotDe_puesta, epDe_puesta, hdest] using h

/-! ### The invariant -/

/-- The invariant of the events. -/
structure Vale (m : Mundo) : Prop where
  ring : CycleRing ringSize (fun i ↦ (m.evento i).ciclo) m.evento (m.posteados.map Prod.fst) m.leidos
  dequeue : m.evtDequeue = m.leidos % ringSize
  cycle : m.evtCycle = conCiclo (lapBit ringSize m.leidos)
  causas : ∀ (n : Nat) ev o, m.posteados[n]? = some (ev, o) → Causa m ev o
  aparcados : ∀ c ∈ m.aparcados, c.num < m.leidos ∧ c.ev.tipo ≠ Tipo.completion ∧
    ∃ o, m.posteados[c.num]? = some (c.ev, o)
  perdidos : ∀ n ∈ m.perdidos, n < m.leidos
  cuenta : m.aparcadosPerdidos = UInt32.ofNat m.perdidos.length

/-- The events read of a kind: those in `log`, then those parked, and no others but the ones lost. -/
structure EnOrden (p : Trb → Bool) (log : List Nat) (m : Mundo) : Prop where
  leidos : ∀ n ∈ log, n < m.leidos
  todos : log.filter (m.es p) ++ (m.aparcados.map Carta.num).filter (m.es p) =
    (List.range m.leidos).filter fun n ↦ m.es p n && !m.perdidos.contains n

private theorem ringSize_pos : 0 < ringSize := by decide

section

variable {m m' : Mundo} {p : Trb → Bool} {log : List Nat} {n : Nat}

theorem es_of_some {q : Trb × Origen} (h : m.posteados[n]? = some q) : m.es p n = p q.1 := by
  rw [Mundo.es, h, Option.any_some]

theorem es_mono (h : m.posteados <+: m'.posteados) (hn : n < m.posteados.length) :
    m'.es p n = m.es p n := by
  have hq := List.getElem?_eq_getElem hn
  rw [es_of_some hq, es_of_some ((List.prefix_iff_getElem?.mp h) n hn)]

theorem some_mono {q : Trb × Origen} (h : m.posteados <+: m'.posteados)
    (hq : m.posteados[n]? = some q) : m'.posteados[n]? = some q := by
  obtain ⟨hn, rfl⟩ := List.getElem?_eq_some_iff.mp hq
  exact (List.prefix_iff_getElem?.mp h) n hn

theorem Vale.leidos_le (h : Vale m) : m.leidos ≤ m.posteados.length := by
  have := h.ring.consumed
  rwa [List.length_map] at this

theorem filter_es_congr {l : List Nat} (h : m.posteados <+: m'.posteados)
    (hl : ∀ n ∈ l, n < m.posteados.length) : l.filter (m'.es p) = l.filter (m.es p) :=
  List.filter_congr fun n hn ↦ es_mono h (hl n hn)

/-- With what was read, the rest of the events posted are those to be read. -/
theorem EnOrden.todosEn (hv : Vale m) (h : EnOrden p log m) : TodosEn m p log := by
  have hle := hv.leidos_le
  have hsplit : List.range m.posteados.length =
      List.range m.leidos ++ (List.range m.posteados.length).drop m.leidos := by
    have htake : (List.range m.posteados.length).take m.leidos = List.range m.leidos := by
      rw [List.take_range, Nat.min_eq_left hle]
    rw [← htake, List.take_append_drop]
  have hresto : ((List.range m.posteados.length).drop m.leidos).filter
      (fun n ↦ m.es p n && !m.perdidos.contains n) =
        ((List.range m.posteados.length).drop m.leidos).filter (m.es p) := by
    refine List.filter_congr fun n hn ↦ ?_
    have hge : m.leidos ≤ n := by
      obtain ⟨i, hi, rfl⟩ := List.mem_iff_getElem.mp hn
      simp only [List.getElem_drop, List.getElem_range]
      omega
    have hno : m.perdidos.contains n = false := by
      rw [Bool.eq_false_iff]
      intro hc
      have := hv.perdidos n (List.contains_iff_mem.mp hc)
      omega
    rw [hno, Bool.not_false, Bool.and_true]
  rw [TodosEn, h.todos]
  conv_rhs => rw [hsplit]
  rw [List.filter_append, hresto]

theorem EnOrden.sin (h : EnOrden p (log ++ [n]) m) (hn : m.es p n = false) : EnOrden p log m := by
  refine ⟨fun i hi ↦ h.leidos i (List.mem_append_left _ hi), ?_⟩
  have ht := h.todos
  rwa [List.filter_append, List.filter_singleton, hn, cond_false, List.append_nil] at ht

end

/-! ### One event read -/

/-! ### The parties -/

/-- What the controller does meanwhile. With `puntual`, answers come in time. -/
structure Controla (puntual : Prop) (s t : Mundo × Unit) : Prop where
  posteados : s.1.posteados <+: t.1.posteados
  dequeue : t.1.evtDequeue = s.1.evtDequeue
  cycle : t.1.evtCycle = s.1.evtCycle
  aparcados : t.1.aparcados = s.1.aparcados
  anotados : t.1.anotados = s.1.anotados
  leidos : t.1.leidos = s.1.leidos
  perdidos : t.1.perdidos = s.1.perdidos
  mandados : t.1.mandados = s.1.mandados
  controles : t.1.controles = s.1.controles
  cmdRing : t.1.cmdRing = s.1.cmdRing
  vale : Vale s.1 → Vale t.1
  vigentes : puntual → ∀ n ev o, s.1.posteados.length ≤ n → t.1.posteados[n]? = some (ev, o) →
    Vigente s.1 o

theorem vigente_congr {m m' : Mundo} (h1 : m'.mandados = m.mandados)
    (h2 : m'.controles = m.controles) (o : Origen) : Vigente m' o ↔ Vigente m o := by
  cases o <;> simp only [Vigente, h1, h2]

theorem causa_congr {m m' : Mundo} (h1 : m'.mandados = m.mandados)
    (h2 : m'.controles = m.controles) (ev : Trb) (o : Origen) : Causa m' ev o ↔ Causa m ev o := by
  cases o <;> simp only [Causa, h1, h2]

/-- What a step may do: what the controller may post, and with `puntual` only in time. -/
def Permitido (puntual : Prop) (o : Op) (m : Mundo) : Prop := Legal o m ∧ (puntual → Puntual o m)

/-- The driver. -/
def rolConductor (puntual : Prop) : Role correo Mundo Unit where
  handle := maneja
  allowed := Permitido puntual
  rely := Controla puntual
  guar s t := Vale s.1 → Vale t.1
  refl s := ⟨List.prefix_refl _, rfl, rfl, rfl, rfl, rfl, rfl, rfl, rfl, rfl, id, fun _ n ev o hn h ↦ by
    rw [List.getElem?_eq_none hn] at h
    cases h⟩
  trans {s t u} h h' := by
    refine ⟨h.posteados.trans h'.posteados, h'.dequeue.trans h.dequeue, h'.cycle.trans h.cycle,
      h'.aparcados.trans h.aparcados, h'.anotados.trans h.anotados, h'.leidos.trans h.leidos,
      h'.perdidos.trans h.perdidos, h'.mandados.trans h.mandados, h'.controles.trans h.controles,
      h'.cmdRing.trans h.cmdRing, h'.vale ∘ h.vale, fun hp n ev o hn hu ↦ ?_⟩
    by_cases ht : n < t.1.posteados.length
    · have hmed := (List.prefix_iff_getElem?.mp h'.posteados) n ht
      rw [hu] at hmed
      exact h.vigentes hp n ev o hn (by rw [List.getElem?_eq_getElem ht, ← hmed])
    · exact (vigente_congr h.mandados h.controles o).mp (h'.vigentes hp n ev o (by omega) hu)

/-- The controller. -/
def rolControlador (puntual : Prop) : Role correo Mundo Unit where
  handle := maneja
  allowed := Permitido puntual
  rely s t := Vale s.1 → Vale t.1
  guar := Controla puntual
  refl _ := id
  trans h h' := h' ∘ h

/-! ### What the controller does -/

private theorem evento_postear {m : Mundo} {ev : Trb} {o : Origen} {i : Nat} :
    (m.postear ev o).evento i = if i = m.posteados.length % ringSize then
      ev.puesta (lapBit ringSize m.posteados.length) else m.evento i := by
  split
  · next h =>
    subst h
    simp [Mundo.evento, Mundo.postear]
  · next h =>
    simp only [Mundo.evento, Mundo.postear]
    repeat rw [Function.update_of_ne (by omega)]

theorem Vale.postear {m : Mundo} (h : Vale m) {ev : Trb} {o : Origen}
    (hroom : m.posteados.length < m.leidos + ringSize) (hc : Causa m ev o) :
    Vale (m.postear ev o) := by
  have hposteados : (m.postear ev o).posteados =
      m.posteados ++ [(ev.puesta (lapBit ringSize m.posteados.length), o)] := rfl
  have hpre : m.posteados <+: (m.postear ev o).posteados := List.prefix_append _ _
  refine ⟨?_, h.dequeue, h.cycle, fun n e o' hn ↦ ?_, fun c hc ↦ ?_, h.perdidos, h.cuenta⟩
  · rw [hposteados, List.map_append]
    have hlen : (m.posteados.map Prod.fst).length = m.posteados.length := List.length_map _
    refine h.ring.produce ringSize_pos (by rwa [hlen]) ?_ (fun i _ hi ↦ ?_) ?_ fun i _ hi ↦ ?_
    · simp only [hlen, evento_postear, if_pos, Trb.ciclo_puesta]
    · rw [hlen] at hi
      simp only [evento_postear, if_neg hi]
    · simp only [hlen, evento_postear, if_pos]
    · rw [hlen] at hi
      rw [evento_postear, if_neg hi]
  · rw [hposteados, List.getElem?_append] at hn
    split at hn
    · exact h.causas n e o' hn
    · rw [List.getElem?_singleton] at hn
      split at hn
      · cases hn
        exact hc.puesta _
      · cases hn
  · obtain ⟨h1, h2, o', h3⟩ := h.aparcados c hc
    exact ⟨h1, h2, o', some_mono hpre h3⟩

theorem controla_postear {puntual : Prop} {m : Mundo} {ev : Trb} {o : Origen}
    (ha : Permitido puntual (.postear ev o) m) :
    Controla puntual (m, ()) (m.postear ev o, ()) := by
  refine ⟨List.prefix_append _ _, rfl, rfl, rfl, rfl, rfl, rfl, rfl, rfl, rfl,
    fun h ↦ h.postear ha.1.1 ha.1.2, fun hp n e o' hn hs ↦ ?_⟩
  have hs' : (m.posteados ++ [(ev.puesta (lapBit ringSize m.posteados.length), o)])[n]? =
      some (e, o') := hs
  rw [List.getElem?_append_right hn, List.getElem?_singleton] at hs'
  split at hs'
  · cases hs'
    exact ha.2 hp
  · cases hs'

theorem controla_enchufe {puntual : Prop} {m : Mundo} {puerto : UInt8} {sc : UInt32} :
    Controla puntual (m, ()) ({ m with portsc := Function.update m.portsc puerto sc }, ()) := by
  refine ⟨List.prefix_refl _, rfl, rfl, rfl, rfl, rfl, rfl, rfl, rfl, rfl,
    fun h ↦ ⟨h.ring, h.dequeue, h.cycle, h.causas, h.aparcados, h.perdidos, h.cuenta⟩,
    fun _ n e o hn hs ↦ ?_⟩
  rw [List.getElem?_eq_none hn] at hs
  cases hs

/-! ### Reading one event -/

/-- The events read since `s`, `k` of them, and nothing else done but what the controller does. -/
structure Desde (puntual : Prop) (k : Nat) (s t : Mundo) : Prop where
  vale : Vale t
  posteados : s.posteados <+: t.posteados
  leidos : t.leidos = s.leidos + k
  aparcados : t.aparcados = s.aparcados
  anotados : t.anotados = s.anotados
  perdidos : t.perdidos = s.perdidos
  mandados : t.mandados = s.mandados
  controles : t.controles = s.controles
  vigentes : puntual → ∀ n ev o, s.posteados.length ≤ n → t.posteados[n]? = some (ev, o) →
    Vigente s o

section

variable {puntual : Prop} {k : Nat} {s : Mundo} {D : Mundo × Unit → Prop}

theorem Desde.refl (h : Vale s) : Desde puntual 0 s s :=
  ⟨h, List.prefix_refl _, rfl, rfl, rfl, rfl, rfl, rfl, fun _ n ev o hn hs ↦ by
    rw [List.getElem?_eq_none hn] at hs
    cases hs⟩

theorem Desde.controla {t u : Mundo × Unit} (h : Desde puntual k s t.1) (hu : Controla puntual t u) :
    Desde puntual k s u.1 := by
  refine ⟨hu.vale h.vale, h.posteados.trans hu.posteados, hu.leidos.trans h.leidos,
    hu.aparcados.trans h.aparcados, hu.anotados.trans h.anotados, hu.perdidos.trans h.perdidos,
    hu.mandados.trans h.mandados, hu.controles.trans h.controles, fun hp n ev o hn hs ↦ ?_⟩
  by_cases ht : n < t.1.posteados.length
  · have hmed := (List.prefix_iff_getElem?.mp hu.posteados) n ht
    rw [hs] at hmed
    exact h.vigentes hp n ev o hn (by rw [List.getElem?_eq_getElem ht, ← hmed])
  · exact (vigente_congr h.mandados h.controles o).mp (hu.vigentes hp n ev o (by omega) hs)

theorem Desde.stable : (rolConductor puntual).Stable fun t ↦ Desde puntual k s t.1 :=
  fun _ _ hu h ↦ h.controla hu

/-- The next event is read. -/
theorem Desde.lee {t : Mundo} (h : Desde puntual 0 s t) (hlt : t.leidos < t.posteados.length) :
    Desde puntual 1 s { t with
      evtDequeue := (t.leidos + 1) % ringSize
      evtCycle := conCiclo (lapBit ringSize (t.leidos + 1))
      leidos := t.leidos + 1 } := by
  refine ⟨⟨?_, rfl, rfl, h.vale.causas, fun c hc ↦ ?_, fun n hn ↦ ?_, h.vale.cuenta⟩, h.posteados,
    by rw [h.leidos], h.aparcados, h.anotados, h.perdidos, h.mandados, h.controles, h.vigentes⟩
  · exact h.vale.ring.consume (by rwa [List.length_map])
  · obtain ⟨h1, h2⟩ := h.vale.aparcados c hc
    exact ⟨Nat.lt_succ_of_lt h1, h2⟩
  · exact Nat.lt_succ_of_lt (h.vale.perdidos n hn)

private theorem conCiclo_inj {a b : Bool} : conCiclo a = conCiclo b ↔ a = b := by
  cases a <;> cases b <;> decide

private theorem conCiclo_not (b : Bool) : conCiclo b ^^^ 1 = conCiclo (!b) := by
  cases b <;> decide

private theorem and_one_ciclo (t : Trb) : t.dw3 &&& 1 = conCiclo t.ciclo := by
  rcases and_one t.dw3 with h | h
  · simp [Trb.ciclo, h, conCiclo]
  · simp [Trb.ciclo, h, conCiclo]

private theorem siguienteSitio_eq (n : Nat) :
    siguienteSitio (n % ringSize) (conCiclo (lapBit ringSize n)) =
      ((n + 1) % ringSize, conCiclo (lapBit ringSize (n + 1))) := by
  have hlt := Nat.mod_lt n ringSize_pos
  rw [siguienteSitio]
  split
  · obtain ⟨hl, hm⟩ := lapBit_succ_of_end ringSize_pos (k := n) (by omega)
    rw [hl, hm, conCiclo_not]
  · obtain ⟨hl, hm⟩ := lapBit_succ ringSize_pos (k := n) (by omega)
    rw [hl, hm]

/-- What a read of the ring gives: nothing, or the event that is next. -/
def Leida (puntual : Prop) (s : Mundo) : Option Carta → Mundo → Prop
  | none, t => Desde puntual 0 s t
  | some c, t => Desde puntual 1 s t ∧ c.num = s.leidos ∧ ∃ o, t.posteados[s.leidos]? = some (c.ev, o)

/-- `evt_ring_pop`. -/
theorem evtRingPop_keeps (hs : Vale s)
    (hD : ∀ k t, k ≤ 1 → Desde puntual k s t → D (t, ())) :
    (rolConductor puntual).Keeps D (fun r t ↦ Leida puntual s r t.1) evtRingPop (s, ()) := by
  have hD0 : ∀ t : Mundo × Unit, Desde puntual 0 s t.1 → D t := fun t ht ↦ hD 0 t.1 (by omega) ht
  refine Role.Keeps.call Desde.stable (Desde.refl hs) hD0 fun t ht _ ↦ ⟨(), id, ?_⟩
  have hdq : t.1.evtDequeue = s.leidos % ringSize := by rw [ht.vale.dequeue, ht.leidos, Nat.add_zero]
  have hcy : t.1.evtCycle = conCiclo (lapBit ringSize s.leidos) := by
    rw [ht.vale.cycle, ht.leidos, Nat.add_zero]
  refine Role.Keeps.call Desde.stable ht hD0 fun u hu _ ↦ ⟨(), id, ?_⟩
  have hdw3 : u.1.dw (t.1.evtDequeue * 4 + 3) &&& 1 =
      conCiclo (u.1.evento (s.leidos % ringSize)).ciclo := by
    rw [hdq]
    exact and_one_ciclo (u.1.evento (s.leidos % ringSize))
  have hready := hu.vale.ring.ready ringSize_pos
  rw [hu.leidos, Nat.add_zero, List.length_map] at hready
  by_cases hne : (u.1.evento (s.leidos % ringSize)).ciclo = lapBit ringSize s.leidos
  case neg =>
    have hif : u.1.dw (t.1.evtDequeue * 4 + 3) &&& 1 ≠ t.1.evtCycle := by
      rw [hdw3, hcy]
      exact fun h ↦ hne (conCiclo_inj.mp h)
    refine (if_pos hif).symm ▸ ?_
    exact Role.Keeps.ret Desde.stable hu fun w hw ↦ ⟨hD0 w hw, hw⟩
  case pos =>
    -- the event is there, and no longer changes while it is read dword by dword
    have hif : ¬u.1.dw (t.1.evtDequeue * 4 + 3) &&& 1 ≠ t.1.evtCycle := by
      rw [hdw3, hcy, hne, not_not]
    refine (if_neg hif).symm ▸ ?_
    have hlt : s.leidos < u.1.posteados.length := hready.mp hne
    obtain ⟨⟨ev, o⟩, hev⟩ : ∃ q, u.1.posteados[s.leidos]? = some q :=
      ⟨_, List.getElem?_eq_getElem hlt⟩
    have hevento : ∀ w : Mundo, Desde puntual 0 s w → u.1.posteados <+: w.posteados →
        w.evento (s.leidos % ringSize) = ev := by
      intro w hw hpre
      refine hw.vale.ring.items s.leidos ev (by rw [hw.leidos, Nat.add_zero]) ?_
      rw [List.getElem?_map, some_mono hpre hev, Option.map_some]
    have hP : (rolConductor puntual).Stable fun w ↦
        Desde puntual 0 s w.1 ∧ u.1.posteados <+: w.1.posteados :=
      fun a b hab h ↦ ⟨h.1.controla hab, h.2.trans hab.posteados⟩
    have hDP : ∀ w : Mundo × Unit, Desde puntual 0 s w.1 ∧ u.1.posteados <+: w.1.posteados → D w :=
      fun w hw ↦ hD0 w hw.1
    refine Role.Keeps.call hP ⟨hu, List.prefix_refl _⟩ hDP fun w0 hw0 _ ↦ ⟨(), id, ?_⟩
    refine Role.Keeps.call hP hw0 hDP fun w1 hw1 _ ↦ ⟨(), id, ?_⟩
    refine Role.Keeps.call hP hw1 hDP fun w2 hw2 _ ↦ ⟨(), id, ?_⟩
    refine Role.Keeps.call hP hw2 hDP fun w3 hw3 _ ↦ ⟨(), ?_⟩
    have hev0 := hevento w0.1 hw0.1 hw0.2
    have hev1 := hevento w1.1 hw1.1 hw1.2
    have hev2 := hevento w2.1 hw2.1 hw2.2
    have hevu := hevento u.1 hu (List.prefix_refl _)
    have hl3 : w3.1.leidos = s.leidos := by rw [hw3.1.leidos, Nat.add_zero]
    have hlee := hw3.1.lee (by rw [hl3]; exact hlt.trans_le hw3.2.length_le)
    have hsitio : siguienteSitio t.1.evtDequeue t.1.evtCycle =
        ((s.leidos + 1) % ringSize, conCiclo (lapBit ringSize (s.leidos + 1))) := by
      rw [hdq, hcy, siguienteSitio_eq]
    change (Vale w3.1 → Vale { w3.1 with
        evtDequeue := (siguienteSitio t.1.evtDequeue t.1.evtCycle).1
        evtCycle := (siguienteSitio t.1.evtDequeue t.1.evtCycle).2
        leidos := w3.1.leidos + 1 }) ∧
      (rolConductor puntual).Keeps D (fun r t ↦ Leida puntual s r t.1)
        (pure (some ⟨w3.1.leidos, ⟨w0.1.dw (t.1.evtDequeue * 4), w1.1.dw (t.1.evtDequeue * 4 + 1),
          w2.1.dw (t.1.evtDequeue * 4 + 2), u.1.dw (t.1.evtDequeue * 4 + 3)⟩⟩))
        ({ w3.1 with
          evtDequeue := (siguienteSitio t.1.evtDequeue t.1.evtCycle).1
          evtCycle := (siguienteSitio t.1.evtDequeue t.1.evtCycle).2
          leidos := w3.1.leidos + 1 }, ())
    rw [hsitio, hdq]
    rw [hl3] at hlee ⊢
    refine ⟨fun _ ↦ hlee.vale, Role.Keeps.ret
      (P := fun x ↦ Desde puntual 1 s x.1 ∧ u.1.posteados <+: x.1.posteados)
      (fun a b hab h ↦ ⟨h.1.controla hab, h.2.trans hab.posteados⟩) ⟨hlee, hw3.2⟩ fun x hx ↦
        ⟨hD 1 x.1 le_rfl hx.1, hx.1, rfl, o, ?_⟩⟩
    rw [some_mono hx.2 hev]
    have heq : ev = ⟨w0.1.dw (s.leidos % ringSize * 4), w1.1.dw (s.leidos % ringSize * 4 + 1),
        w2.1.dw (s.leidos % ringSize * 4 + 2), u.1.dw (s.leidos % ringSize * 4 + 3)⟩ := by
      have h0 := congrArg Trb.dw0 hev0
      have h1 := congrArg Trb.dw1 hev1
      have h2 := congrArg Trb.dw2 hev2
      have h3 := congrArg Trb.dw3 hevu
      simp only [Mundo.evento] at h0 h1 h2 h3
      rw [h0, h1, h2, h3]
    rw [← heq]

/-- `evt_poll_nb` is the same read. -/
theorem evtPollNb_eq : evtPollNb = evtRingPop := by
  have hsitio : ∀ dq cy, siguienteSitio dq cy = (if dq + 1 ≥ ringSize then 0 else dq + 1,
      if (if dq + 1 ≥ ringSize then 0 else dq + 1) = 0 then cy ^^^ 1 else cy) := by
    intro dq cy
    rw [siguienteSitio]
    split
    · rfl
    · rw [if_neg (Nat.succ_ne_zero dq)]
  simp only [evtPollNb, evtRingPop]
  refine congrArg (pide .boca >>= ·) (funext fun x ↦ ?_)
  refine congrArg (pide (.leer (x.1 * 4 + 3)) >>= ·) (funext fun dw3 ↦ ?_)
  by_cases h : dw3 &&& 1 = x.2
  · rw [if_pos h, if_neg (not_not.mpr h), hsitio]
  · rw [if_neg h, if_pos h]

end

end BmoX.Xhci.Correo
