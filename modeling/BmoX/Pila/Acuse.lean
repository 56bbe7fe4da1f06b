import BmoX.Pila.Blindado

/-!
# Acknowledgements and retries

`platform/shared/bmo-pila/src/tcp/mod.rs:496–551, 637–653`. Which acknowledgements of what was
sent are accepted after a retransmission timeout, and when retries run out on a peer that
answers.
-/

namespace BmoX.Pila

open BmoX.Base

namespace Conexion

/-- A segment that acknowledges, in order: in the handshake the answer to the SYN, later the
next one expected. -/
def enOrden (c : Conexion) (s : Segmento) : Bool :=
  s.banderas &&& ack ≠ 0 && s.banderas &&& rst = 0 &&
    if c.estado = .synEnviado then s.banderas &&& syn ≠ 0
    else s.banderas &&& syn = 0 && s.sec = c.rcvNxt

/-- A new acknowledgement is accepted: it is acknowledged up to there, and exactly the bytes it
acknowledges leave the queue (none for the SYN). -/
def Acepta (c : Conexion) (s : Segmento) (r : Conexion × Except Rechazo Unit) : Prop :=
  r.2 = .ok () ∧ r.1.sndUna = s.ack ∧
    r.1.tx = if c.estado = .synEnviado ∨ c.estado = .synRecibido then c.tx
      else c.tx.drop (s.ack - c.sndUna).toNat

/-- In the handshake only the SYN was sent, if that. -/
structure Saludo (c : Conexion) (cima : UInt32) : Prop where
  sndUna : c.sndUna = c.isn
  sndNxt : c.sndNxt = c.isn ∨ c.sndNxt = c.isn + 1
  cima : cima = c.isn ∨ cima = c.isn + 1

private theorem Saludo.ack_eq {c : Conexion} {cima a : UInt32} (h : Saludo c cima)
    (hn : antes c.sndUna a = true) (hc : antes cima a = false) : a = c.isn + 1 := by
  rw [h.sndUna] at hn
  rcases h.cima with e | e
  · rw [e, hn] at hc
    cases hc
  · rw [antes_iff, UInt32.toNat_sub] at hn
    rw [e, ← Bool.not_eq_true, antes_iff, UInt32.toNat_sub, UInt32.toNat_add,
      UInt32.toNat_one] at hc
    rw [← UInt32.toNat_inj, UInt32.toNat_add, UInt32.toNat_one]
    have ha := a.toNat_lt
    have hi := c.isn.toNat_lt
    omega

/-- A segment in order that acknowledges something new is accepted exactly if its number is not
after the next one to send, or it answers the SYN. -/
theorem acepta_iff {c : Conexion} {cima : UInt32} {s : Segmento} {ahora : UInt64}
    (hs : c.estado = .synEnviado ∨ c.estado = .synRecibido → Saludo c cima)
    (ho : c.enOrden s = true) (hn : antes c.sndUna s.ack = true)
    (hc : antes cima s.ack = false) :
    c.Acepta s ((c.entra s ahora).1, (c.entra s ahora).2.2) ↔
      c.estado = .synEnviado ∨ antes c.sndNxt s.ack = false := by
  unfold enOrden at ho
  rw [Bool.and_eq_true, Bool.and_eq_true, decide_eq_true_eq, decide_eq_true_eq] at ho
  obtain ⟨⟨hack, hrst⟩, ho⟩ := ho
  by_cases he : c.estado = .synEnviado
  · -- the answer to the SYN
    rw [if_pos he, decide_eq_true_eq] at ho
    have ha := (hs (.inl he)).ack_eq hn hc
    have hb : s.banderas &&& ack ≠ 0 ∧ s.ack = c.isn + 1 := ⟨hack, ha⟩
    refine ⟨fun _ ↦ .inl he, fun _ ↦ ?_⟩
    unfold Acepta entra entraSynEnviado
    dsimp only
    rw [if_pos he, if_neg (fun h ↦ h.2 hb), if_neg (not_not.mpr hrst),
      if_neg (not_or.mpr ⟨ho, not_not.mpr hb⟩), if_pos (.inl he)]
    exact ⟨rfl, rfl, rfl⟩
  · rw [if_neg he, Bool.and_eq_true, decide_eq_true_eq, decide_eq_true_eq] at ho
    rw [entra_ack ahora he hrst ho.1 hack]
    cases hnx : antes c.sndNxt s.ack with
    | true =>
      rw [if_pos rfl]
      refine ⟨fun h ↦ ?_, fun h ↦ ?_⟩
      · cases h.1
      · rcases h with h | h
        · exact absurd h he
        · cases h
    | false =>
      rw [if_neg Bool.false_ne_true]
      refine ⟨fun _ ↦ .inr rfl, fun _ ↦ ?_⟩
      by_cases hr : c.estado = .synRecibido
      · -- the ACK of the SYN
        have hsal := hs (.inr hr)
        have ha := hsal.ack_eq hn hc
        have hnx' : c.sndNxt = c.isn + 1 := by
          rcases hsal.sndNxt with e | e
          · rw [hsal.sndUna] at hn
            rw [e, hn] at hnx
            cases hnx
          · exact e
        have hne : ¬(c.sndNxt = c.isn ∨ s.ack ≠ c.sndNxt) := by
          rw [not_or, not_not]
          rw [hsal.sndUna, ha] at hn
          exact ⟨fun e ↦ ne_of_antes hn (hnx'.symm.trans e), ha.trans hnx'.symm⟩
        unfold Acepta confirma
        rw [if_pos hr, if_neg hne, if_pos (.inr hr)]
        dsimp only
        have hm := marco_toma { c with
          sndUna := s.ack, sndWnd := s.ventana.toUInt32, estado := .establecida, vence := none
          reintentos := 0, rto := rtoInicial, desde := ahora } s ahora
        exact ⟨rfl, hm.sndUna, hm.tx⟩
      · obtain ⟨c', b, hcon, hu, ht, -⟩ :=
          @confirma_nuevo _ _ ahora hr (antes_asymm hn) (ne_of_antes hn)
        have hh : ¬(c.estado = .synEnviado ∨ c.estado = .synRecibido) := not_or.mpr ⟨he, hr⟩
        rw [hcon]
        unfold Acepta
        rw [if_neg hh]
        cases b with
        | true => exact ⟨rfl, hu, ht⟩
        | false =>
          have hm := marco_toma c' s ahora
          exact ⟨rfl, hm.sndUna.trans hu, hm.tx.trans ht⟩

/-! ### The states a segment leads to -/

/-- The states that a segment can move a connection to. -/
def llegable : Estado → Bool
  | .libre | .establecida | .finEspera2 | .cierreEspera | .cerrando | .tiempoEspera
  | .cerrada .reset | .cerrada .normal => true
  | _ => false

theorem llegable_cerrarCon (c : Conexion) {por : Cierre} (h : llegable (.cerrada por) = true) :
    llegable (c.cerrarCon por).estado = true := by
  unfold cerrarCon
  dsimp only
  split
  · rfl
  · exact h

theorem llegable_confirma {c c' : Conexion} {s : Segmento} {ahora : UInt64} {b : Bool}
    (h : c.confirma s ahora = .ok (c', b)) :
    (c.estado ≠ .synRecibido ∧ c'.estado = c.estado) ∨ llegable c'.estado = true := by
  rcases c.confirma_cases s ahora with ⟨-, -, he⟩ | ⟨-, -, -, he⟩ | ⟨h1, -, he⟩ | ⟨h1, -, he⟩ |
    ⟨h1, -, -, ⟨-, -, he⟩ | ⟨-, he⟩⟩
  · rw [he] at h
    cases h
  · rw [he] at h
    cases h
    exact .inr rfl
  · rw [he] at h
    cases h
    exact .inl ⟨h1, rfl⟩
  · rw [he] at h
    cases h
    exact .inl ⟨h1, rfl⟩
  · rw [he] at h
    cases h
    exact .inr (llegable_cerrarCon _ rfl)
  · rw [he] at h
    cases h
    dsimp only
    split
    · unfold trasFin
      split
      · exact .inr rfl
      · exact .inr rfl
      · exact .inr (llegable_cerrarCon _ rfl)
      · exact .inl ⟨h1, rfl⟩
    · exact .inl ⟨h1, rfl⟩

theorem llegable_toma (c : Conexion) (s : Segmento) (ahora : UInt64) :
    (c.toma s ahora).estado = c.estado ∨ llegable (c.toma s ahora).estado = true := by
  rcases c.toma_cases s ahora with ⟨b, ht⟩ | ⟨-, ht⟩ | ⟨-, -, -, -, ht⟩
  · rw [ht]
    exact .inl rfl
  · rw [ht]
    exact .inl (estado_conDatos ..).1
  · rw [ht]
    unfold traeFin
    dsimp only
    split
    · exact .inr rfl
    · split <;> exact .inr rfl
    · exact .inr rfl
    · exact .inl (estado_conDatos ..).1

/-- A segment leaves the state, or moves it to one of those. -/
theorem llegable_entra (c : Conexion) (s : Segmento) (ahora : UInt64) :
    (c.entra s ahora).1.estado = c.estado ∨ llegable (c.entra s ahora).1.estado = true := by
  rcases c.entra_cases s ahora with ⟨-, he⟩ | ⟨-, -, -, he⟩ | ⟨-, -, -, -, he⟩ | ⟨-, he⟩ |
    ⟨-, -, -, -, -, c', b, hc, -, he⟩
  · rw [he]
    unfold entraSynEnviado
    dsimp only
    split
    · exact .inl rfl
    · split
      · dsimp only
        split
        · exact .inr (llegable_cerrarCon c rfl)
        · exact .inl rfl
      · split
        · exact .inl rfl
        · exact .inr rfl
  · rw [he]
    exact .inr (llegable_cerrarCon c rfl)
  · rw [he]
    exact .inl rfl
  · rw [he]
    exact .inl rfl
  · rw [he]
    have hcon : c'.estado = c.estado ∨ llegable c'.estado = true :=
      (llegable_confirma hc).imp_left And.right
    cases b with
    | true => exact hcon
    | false =>
      show (c'.toma s ahora).estado = _ ∨ llegable (c'.toma s ahora).estado = true
      rcases c'.llegable_toma s ahora with h | h
      · rw [h]
        exact hcon
      · exact .inr h

/-- A segment that leaves a connection in the handshake leaves it alone, but for the SYN that
has to leave again. -/
theorem entra_saludo {c : Conexion} {s : Segmento} {ahora : UInt64}
    (h : (c.entra s ahora).1.estado = .synEnviado ∨ (c.entra s ahora).1.estado = .synRecibido) :
    (c.entra s ahora).1 = c ∨ (c.entra s ahora).1 = { c with sndNxt := c.isn } := by
  have hnl : llegable (c.entra s ahora).1.estado = false := by
    rcases h with h | h <;> rw [h] <;> rfl
  rcases c.entra_cases s ahora with ⟨-, he⟩ | ⟨-, -, -, he⟩ | ⟨-, -, -, -, he⟩ | ⟨-, he⟩ |
    ⟨h1, -, -, -, -, c', b, hc, -, he⟩
  · rw [he] at hnl ⊢
    unfold entraSynEnviado at hnl ⊢
    dsimp only at hnl ⊢
    split at hnl
    · next h1 =>
      rw [if_pos h1]
      exact .inl rfl
    · next h1 =>
      rw [if_neg h1]
      split at hnl
      · next h2 =>
        rw [if_pos h2]
        dsimp only at hnl ⊢
        split at hnl
        · rw [llegable_cerrarCon c rfl] at hnl
          cases hnl
        · next h3 =>
          rw [if_neg h3]
          exact .inl rfl
      · next h2 =>
        rw [if_neg h2]
        split at hnl
        · next h3 =>
          rw [if_pos h3]
          exact .inl rfl
        · cases hnl
  · rw [he, llegable_cerrarCon c rfl] at hnl
    cases hnl
  · exact .inr he
  · exact .inl he
  · -- an ACK that is taken ends the handshake
    exfalso
    have hest : (c.entra s ahora).1.estado = c'.estado := by
      rw [he] at hnl ⊢
      cases b with
      | true => rfl
      | false =>
        rcases c'.llegable_toma s ahora with h | h
        · exact h
        · rw [show llegable (c'.toma s ahora).estado = false from hnl] at h
          cases h
    rcases llegable_confirma hc with ⟨h2, h3⟩ | h3
    · rw [hest, h3] at h
      rcases h with h | h
      · exact h1 h
      · exact h2 h
    · rw [hest, h3] at hnl
      cases hnl

/-! ### What a call does to the retries -/

/-- A segment clears the retries or leaves them. -/
theorem reintentos_entra (c : Conexion) (s : Segmento) (ahora : UInt64) :
    (c.entra s ahora).1.reintentos = c.reintentos ∨ (c.entra s ahora).1.reintentos = 0 := by
  have hcon : ∀ c' b, c.confirma s ahora = .ok (c', b) →
      c'.reintentos = c.reintentos ∨ c'.reintentos = 0 := by
    intro c' b h
    rcases c.confirma_cases s ahora with ⟨-, -, he⟩ | ⟨-, -, -, he⟩ | ⟨-, -, he⟩ | ⟨-, -, he⟩ |
      ⟨h1, h2, h3, -⟩
    · rw [he] at h
      cases h
    · rw [he] at h
      cases h
      exact .inr rfl
    · rw [he] at h
      cases h
      exact .inl rfl
    · rw [he] at h
      cases h
      exact .inl rfl
    · obtain ⟨c'', b', he, -, -, hr⟩ := @confirma_nuevo _ _ ahora h1 h2 h3
      rw [he] at h
      cases h
      exact .inr hr
  rcases c.entra_cases s ahora with ⟨-, he⟩ | ⟨-, -, -, he⟩ | ⟨-, -, -, -, he⟩ | ⟨-, he⟩ |
    ⟨-, -, -, -, -, c', b, hc, -, he⟩
  · rw [he]
    unfold entraSynEnviado
    dsimp only
    split
    · exact .inl rfl
    · split
      · dsimp only
        split <;> exact .inl rfl
      · split
        · exact .inl rfl
        · exact .inr rfl
  · rw [he]
    exact .inl rfl
  · rw [he]
    exact .inl rfl
  · rw [he]
    exact .inl rfl
  · rw [he]
    cases b with
    | true => exact hcon c' true hc
    | false =>
      show (c'.toma s ahora).reintentos = _ ∨ (c'.toma s ahora).reintentos = 0
      rw [(marco_toma c' s ahora).reintentos]
      exact hcon c' false hc

/-- A segment that is accepted as a new acknowledgement clears the retries. -/
theorem reintentos_acepta {c : Conexion} {cima : UInt32} {s : Segmento} {ahora : UInt64}
    (hs : c.estado = .synEnviado ∨ c.estado = .synRecibido → Saludo c cima)
    (ho : c.enOrden s = true) (hn : antes c.sndUna s.ack = true)
    (hc : antes cima s.ack = false)
    (hx : c.estado = .synEnviado ∨ antes c.sndNxt s.ack = false) :
    (c.entra s ahora).1.reintentos = 0 := by
  unfold enOrden at ho
  rw [Bool.and_eq_true, Bool.and_eq_true, decide_eq_true_eq, decide_eq_true_eq] at ho
  obtain ⟨⟨hack, hrst⟩, ho⟩ := ho
  by_cases he : c.estado = .synEnviado
  · rw [if_pos he, decide_eq_true_eq] at ho
    have hb : s.banderas &&& ack ≠ 0 ∧ s.ack = c.isn + 1 := ⟨hack, (hs (.inl he)).ack_eq hn hc⟩
    unfold entra entraSynEnviado
    dsimp only
    rw [if_pos he, if_neg (fun h ↦ h.2 hb), if_neg (not_not.mpr hrst),
      if_neg (not_or.mpr ⟨ho, not_not.mpr hb⟩)]
  · rw [if_neg he, Bool.and_eq_true, decide_eq_true_eq, decide_eq_true_eq] at ho
    have hnx : antes c.sndNxt s.ack = false := hx.resolve_left he
    have hcon : ∃ c' b, c.confirma s ahora = .ok (c', b) ∧ c'.reintentos = 0 := by
      rcases c.confirma_cases s ahora with ⟨hr, hne, -⟩ | ⟨-, -, -, hc⟩ | ⟨-, h, -⟩ | ⟨-, h, -⟩ |
        ⟨h1, h2, h3, -⟩
      · have hsal := hs (.inr hr)
        have ha := hsal.ack_eq hn hc
        rcases hsal.sndNxt with e | e
        · rw [hsal.sndUna] at hn
          rw [e, hn] at hnx
          cases hnx
        · rcases hne with hne | hne
          · rw [hsal.sndUna, ha] at hn
            exact absurd (e.symm.trans hne) (ne_of_antes hn)
          · exact absurd (ha.trans e.symm) hne
      · exact ⟨_, _, hc, rfl⟩
      · rw [antes_asymm hn] at h
        cases h
      · exact absurd h (ne_of_antes hn)
      · obtain ⟨c', b, hc, -, -, hr⟩ := @confirma_nuevo _ _ ahora h1 h2 h3
        exact ⟨c', b, hc, hr⟩
    obtain ⟨c', b, hcon, hr⟩ := hcon
    rw [entra_ack ahora he hrst ho.1 hack, hnx, if_neg Bool.false_ne_true, hcon]
    cases b with
    | true => exact hr
    | false => exact (marco_toma c' s ahora).reintentos.trans hr

@[simp] theorem reintentos_armar (c : Conexion) (ahora : UInt64) :
    (c.armar ahora).reintentos = c.reintentos := by
  unfold armar
  split <;> rfl

/-- Speaking keeps the retries. -/
theorem reintentos_habla (c : Conexion) (ahora : UInt64) (dst : Bytes) :
    (c.habla ahora dst).1.reintentos = c.reintentos := by
  have hdatos : (c.mandaDatos ahora dst).1.reintentos = c.reintentos := by
    unfold mandaDatos
    split
    · dsimp only
      split
      · split
        · rfl
        · exact reintentos_armar _ _
      · split
        · exact reintentos_armar _ _
        · rfl
    · rfl
  have hcontrol : ∀ c : Conexion, (c.mandaControl ahora dst).1.reintentos = c.reintentos := by
    intro c
    unfold mandaControl
    split
    · split
      · rfl
      · dsimp only
        split <;> exact reintentos_armar _ _
    · split
      · split <;> rfl
      · rfl
  unfold habla
  split
  · next r h =>
    unfold saluda at h
    split at h
    · split at h
      · cases h
        rfl
      · split at h
        · cases h
          rfl
        · cases h
          exact reintentos_armar _ _
    · split at h
      · split at h
        · cases h
          rfl
        · cases h
          exact reintentos_armar _ _
      · cases h
  · split
    · next c' r h =>
      rw [h] at hdatos
      exact hdatos
    · next c' h =>
      rw [h] at hdatos
      exact (hcontrol c').trans hdatos

private theorem reintentos_temporiza {c c' : Conexion} {ahora : UInt64}
    (h : c.temporiza ahora = some c') : c'.reintentos = c.reintentos ∨
      (c.reintentos < reintentosMax ∧ c'.reintentos = c.reintentos + 1) := by
  unfold temporiza at h
  split at h
  · cases h
    exact .inl rfl
  · split at h
    · cases h
      exact .inl rfl
    · split at h
      · cases h
      · next hr =>
        cases h
        exact .inr ⟨UInt8.not_le.mp hr, rfl⟩

/-- Emitting adds a retry, leaves them, or ends a connection that has none left. -/
theorem reintentos_emite (c : Conexion) (ahora : UInt64) (dst : Bytes) :
    ((c.emite ahora dst).1.reintentos = c.reintentos ∨
      (c.reintentos < reintentosMax ∧
        (c.emite ahora dst).1.reintentos = c.reintentos + 1)) ∧
    ((c.emite ahora dst).1.estado = .cerrada .agotada → c.estado = .cerrada .agotada ∨
      (reintentosMax ≤ c.reintentos ∧ (c.emite ahora dst).1.reintentos = c.reintentos)) := by
  rcases c.emite_cases ahora dst with ⟨-, h⟩ | ⟨-, c', r, hc, h⟩ | ⟨-, -, ht, h⟩ |
    ⟨hv, -, c', ht, h⟩
  · rw [h]
    exact ⟨.inl rfl, fun he ↦ .inl he⟩
  · rw [h]
    unfold caduca at hc
    split at hc
    · cases hc
      refine ⟨.inl rfl, fun he ↦ ?_⟩
      unfold cerrarCon at he
      dsimp only at he
      split at he <;> cases he
    · split at hc
      · cases hc
        refine ⟨.inl rfl, fun he ↦ ?_⟩
        unfold cerrarCon at he
        dsimp only at he
        split at he <;> cases he
      · cases hc
  · rw [h]
    refine ⟨.inl rfl, fun _ ↦ .inr ⟨?_, rfl⟩⟩
    unfold temporiza at ht
    split at ht
    · cases ht
    · split at ht
      · cases ht
      · split at ht
        · next hr => exact hr
        · cases ht
  · rw [h]
    have hest : (c'.habla ahora dst).1.estado ≠ .cerrada .agotada := by
      intro he
      rw [viva, ← (marco_temporiza ht).2] at hv
      rcases c'.estado_habla ahora dst with h' | ⟨-, h'⟩ | ⟨-, h'⟩
      · rw [← h', he] at hv
        cases hv
      · exact absurd (h'.symm.trans he) Estado.noConfusion
      · exact absurd (h'.symm.trans he) Estado.noConfusion
    refine ⟨?_, fun he ↦ absurd he hest⟩
    show (c'.habla ahora dst).1.reintentos = _ ∨ _ ∧ (c'.habla ahora dst).1.reintentos = _
    rw [reintentos_habla]
    exact reintentos_temporiza ht

/-- In the handshake what leaves is the SYN. -/
theorem saludo_emite {c : Conexion} {cima : UInt32} {ahora : UInt64} {dst : Bytes}
    (he : c.estado = .synEnviado ∨ c.estado = .synRecibido) (hs : Saludo c cima) :
    (c.emite ahora dst).1.sndUna = (c.emite ahora dst).1.isn ∧
      ((c.emite ahora dst).1.sndNxt = c.isn ∨ (c.emite ahora dst).1.sndNxt = c.isn + 1) := by
  obtain ⟨hm, -⟩ := c.marco_emite ahora dst
  refine ⟨by rw [hm.sndUna, hm.isn, hs.sndUna], ?_⟩
  rcases c.emite_cases ahora dst with ⟨-, h⟩ | ⟨-, c', r, hc, h⟩ | ⟨-, -, ht, h⟩ |
    ⟨hv, -, c', ht, h⟩
  · rw [h]
    exact hs.sndNxt
  · rw [h]
    unfold caduca at hc
    split at hc
    · cases hc
      exact hs.sndNxt
    · split at hc
      · cases hc
        exact hs.sndNxt
      · cases hc
  · rw [h]
    exact hs.sndNxt
  · rw [h]
    obtain ⟨hm', he'⟩ := marco_temporiza ht
    have hnx : c'.sndNxt = c.isn ∨ c'.sndNxt = c.isn + 1 := by
      unfold temporiza at ht
      split at ht
      · cases ht
        exact hs.sndNxt
      · split at ht
        · cases ht
          exact hs.sndNxt
        · split at ht
          · cases ht
          · cases ht
            exact .inl hs.sndUna
    rw [← he'] at he
    have hmanda : ¬c'.manda = true := by
      unfold manda
      rcases he with he | he <;> rw [he] <;> exact Bool.false_ne_true
    show (c'.habla ahora dst).1.sndNxt = c.isn ∨ (c'.habla ahora dst).1.sndNxt = c.isn + 1
    unfold habla
    split
    · next r hr =>
      unfold saluda at hr
      split at hr
      · split at hr
        · cases hr
          exact hnx
        · split at hr
          · cases hr
            exact hnx
          · cases hr
            rw [sndNxt_armar]
            exact .inr (congrArg (· + 1) hm'.isn)
      · split at hr
        · split at hr
          · cases hr
            exact hnx
          · cases hr
            rw [sndNxt_armar]
            exact .inr (congrArg (· + 1) hm'.isn)
        · cases hr
    · unfold mandaDatos
      rw [if_neg (fun h ↦ hmanda h.1)]
      dsimp only
      unfold mandaControl
      rw [if_neg (fun h ↦ hmanda h.1)]
      split
      · split <;> exact hnx
      · exact hnx

end Conexion

namespace Tcp

/-! ### What is remembered of a connection -/

/-- The highest number a connection ever sent, its timeouts since the last answer, and whether
every answer that came while retries counted acknowledged something new that is not after the
next number to send. -/
structure Rastro where
  cima : UInt32
  silencio : Nat
  puntual : Bool

/-- The segment that a call brings to a slot. -/
def llegado (t : Tcp) (o : Orden) (i : Fin conexiones) : Option Segmento :=
  match o with
  | .entrada ipOrigen ipDestino b _ =>
    match Segmento.leer b ipOrigen ipDestino with
    | .error _ => none
    | .ok s => if t.exacta ipOrigen ipDestino s = some i then some s else none
  | _ => none

/-- An answer: a segment in order that acknowledges between the oldest number without
acknowledgement and the highest sent. -/
def Rastro.contesta (r : Rastro) (c : Conexion) (s : Segmento) : Bool :=
  c.enOrden s && !antes s.ack c.sndUna && !antes r.cima s.ack

/-- An answer that clears the retries: there are none, or it acknowledges something new that is
not after the next number to send. -/
def aTiempo (c : Conexion) (s : Segmento) : Bool :=
  c.reintentos = 0 ||
    (antes c.sndUna s.ack && (c.estado = .synEnviado || !antes c.sndNxt s.ack))

/-- What is remembered after a call that brought `s` to the slot. -/
def Rastro.sigue (r : Rastro) (c c' : Conexion) (s : Option Segmento) : Rastro :=
  if c.viva then {
    cima := if antes r.cima c'.sndNxt then c'.sndNxt else r.cima
    silencio :=
      if (s.filter (r.contesta c)).isSome then 0
      else if c.reintentos < c'.reintentos then r.silencio + 1 else r.silencio
    puntual := r.puntual && (s.filter (r.contesta c)).all (aTiempo c) }
  else if c'.viva then ⟨c'.sndNxt, 0, true⟩ else r

/-- The stacks that some run of calls reaches, with what is remembered of their connections. -/
inductive Corre (hmac : Bytes → Bytes → Arr 32) : Tcp → (Fin conexiones → Rastro) → Prop
  | nueva (secreto : Bytes) : Corre hmac (Tcp.nueva secreto) fun _ ↦ ⟨0, 0, true⟩
  | sigue {t : Tcp} {r : Fin conexiones → Rastro} (h : Corre hmac t r) (o : Orden) :
      Corre hmac (t.hace hmac o)
        fun i ↦ (r i).sigue (t.c i) ((t.hace hmac o).c i) (t.llegado o i)

private theorem entrada_exacta (hmac : Bytes → Bytes → Arr 32) {t : Tcp} {ipOrigen ipDestino : Ip}
    {b : Bytes} (ahora : UInt64) {s : Segmento} {i : Fin conexiones}
    (hl : Segmento.leer b ipOrigen ipDestino = .ok s)
    (hx : t.exacta ipOrigen ipDestino s = some i) :
    (t.entrada hmac ipOrigen ipDestino b ahora).2 = ((t.c i).entra s ahora).2.2 ∧
      (∃ debe, (t.entrada hmac ipOrigen ipDestino b ahora).1.c i =
        { ((t.c i).entra s ahora).1 with ackDebido := debe }) ∧
      ∀ j, j ≠ i → (t.entrada hmac ipOrigen ipDestino b ahora).1.c j = t.c j := by
  simp only [entrada, hl, hx]
  unfold enConexion
  generalize (t.c i).entra s ahora = x
  obtain ⟨c, e, r⟩ := x
  cases e with
  | nada => exact ⟨rfl, ⟨c.ackDebido, pon_self ..⟩, fun j hj ↦ pon_of_ne t hj c⟩
  | reto =>
    refine ⟨rfl, ?_, fun j hj ↦ ?_⟩
    · rcases reto_c (t.pon i c) i ahora i with hr | ⟨-, hr⟩
      · exact ⟨c.ackDebido, hr.trans (pon_self ..)⟩
      · exact ⟨true, by rw [hr, pon_self]⟩
    · rcases reto_c (t.pon i c) i ahora j with hr | ⟨e, -⟩
      · exact hr.trans (pon_of_ne t hj c)
      · exact absurd e hj

/-- A segment that comes to a slot goes through its connection, which may owe an ACK. -/
theorem hace_llegado {hmac : Bytes → Bytes → Arr 32} {t : Tcp} {o : Orden} {i : Fin conexiones}
    {s : Segmento} (h : t.llegado o i = some s) :
    (t.c i).viva = true ∧ ∃ ahora b,
      (t.hace hmac o).c i = { ((t.c i).entra s ahora).1 with ackDebido := b } := by
  unfold llegado at h
  split at h
  · next ipOrigen ipDestino b ahora =>
    split at h
    · cases h
    · next s' hl =>
      split at h
      · next hx =>
        obtain rfl := Option.some.inj h
        exact ⟨(exacta_spec hx).1, ahora, (entrada_exacta hmac ahora hl hx).2.1⟩
      · cases h
  · cases h

/-- When no segment comes to a slot, a live connection changes by a call of the application or
by emitting. -/
theorem hace_sin_llegado {hmac : Bytes → Bytes → Arr 32} {t : Tcp} {o : Orden}
    {i : Fin conexiones} (h : t.llegado o i = none) (hv : (t.c i).viva = true)
    {ipOrigen ipDestino : Ip} {b : Bytes} {ahora : UInt64}
    (ho : o = .entrada ipOrigen ipDestino b ahora) : (t.hace hmac o).c i = t.c i := by
  subst ho
  show (t.entrada hmac ipOrigen ipDestino b ahora).1.c i = t.c i
  unfold llegado at h
  dsimp only at h
  cases hl : Segmento.leer b ipOrigen ipDestino with
  | error e => simp only [entrada, hl]
  | ok s =>
    rw [hl] at h
    dsimp only at h
    cases hx : t.exacta ipOrigen ipDestino s with
    | none =>
      exact entrada_ajena hmac t ipOrigen ipDestino b ahora hv fun s' hl' hd ↦ by
        obtain rfl : s = s' := Except.ok.inj (hl.symm.trans hl')
        have := primera_none hx i
        simp [hv, hd.1, hd.2.1, hd.2.2.1, hd.2.2.2] at this
    | some j =>
      have hij : i ≠ j := by
        rintro rfl
        rw [hx, if_pos rfl] at h
        cases h
      exact (entrada_exacta hmac ahora hl hx).2.2 i hij

/-! ### Retries and silence -/

/-- The retries of a connection whose answers came in time are timeouts since the last answer;
it ends without retries after as many. -/
structure Cuenta (c : Conexion) (r : Rastro) : Prop where
  saludo : c.estado = .synEnviado ∨ c.estado = .synRecibido → c.Saludo r.cima
  reintentos : c.viva = true → r.puntual = true → c.reintentos.toNat ≤ r.silencio
  agotada : c.estado = .cerrada .agotada → r.puntual = true → reintentosMax.toNat ≤ r.silencio

private theorem cima_saludo {isn cima nxt : UInt32} (hc : cima = isn ∨ cima = isn + 1)
    (hn : nxt = isn ∨ nxt = isn + 1) :
    (if antes cima nxt then nxt else cima) = isn ∨
      (if antes cima nxt then nxt else cima) = isn + 1 := by
  split
  · exact hn
  · exact hc

/-- A live connection keeps its count when no segment comes to it. -/
theorem Cuenta.sin_segmento {c c' : Conexion} {r : Rastro} (h : Cuenta c r) (hv : c.viva = true)
    (hs : c'.estado = .synEnviado ∨ c'.estado = .synRecibido →
      (c.estado = .synEnviado ∨ c.estado = .synRecibido) ∧ c'.isn = c.isn ∧
        c'.sndUna = c'.isn ∧ (c'.sndNxt = c.isn ∨ c'.sndNxt = c.isn + 1))
    (hr : c'.reintentos = c.reintentos ∨
      (c.reintentos < reintentosMax ∧ c'.reintentos = c.reintentos + 1))
    (ha : c'.estado = .cerrada .agotada →
      reintentosMax ≤ c.reintentos ∧ c'.reintentos = c.reintentos) :
    Cuenta c' (r.sigue c c' none) := by
  unfold Rastro.sigue
  rw [if_pos hv]
  refine ⟨fun he ↦ ?_, fun _ hp ↦ ?_, fun he hp ↦ ?_⟩
  · obtain ⟨h1, h2, h3, h4⟩ := hs he
    obtain ⟨-, -, h5⟩ := h.saludo h1
    refine ⟨h3, h2 ▸ h4, ?_⟩
    rw [h2]
    exact cima_saludo h5 h4
  · have hle := h.reintentos hv (Bool.and_eq_true_iff.mp hp).1
    show c'.reintentos.toNat ≤ if c.reintentos < c'.reintentos then r.silencio + 1 else r.silencio
    rcases hr with hr | ⟨hlt, hr⟩
    · rw [hr, if_neg (UInt8.lt_irrefl _)]
      exact hle
    · have hsuc : c'.reintentos.toNat = c.reintentos.toNat + 1 := by
        have h6 : c.reintentos.toNat < 6 := UInt8.lt_iff_toNat_lt.mp hlt
        rw [hr, UInt8.toNat_add, UInt8.toNat_one]
        omega
      rw [if_pos (UInt8.lt_iff_toNat_lt.mpr (by omega)), hsuc]
      exact Nat.succ_le_succ hle
  · obtain ⟨h6, hre⟩ := ha he
    have hle := h.reintentos hv (Bool.and_eq_true_iff.mp hp).1
    show reintentosMax.toNat ≤ if c.reintentos < c'.reintentos then r.silencio + 1 else r.silencio
    rw [hre, if_neg (UInt8.lt_irrefl _)]
    exact (UInt8.le_iff_toNat_le.mp h6).trans hle

private theorem Cuenta.sin_conexion {c c' : Conexion} {r : Rastro} {s : Option Segmento}
    (h : Cuenta c r) (hv : c.viva = false)
    (hn : c'.viva = true → (c'.estado = .synEnviado ∨ c'.estado = .synRecibido →
      c'.sndUna = c'.isn ∧ c'.sndNxt = c'.isn) ∧ c'.reintentos = 0)
    (ha : c'.estado = .cerrada .agotada → c.estado = .cerrada .agotada) :
    Cuenta c' (r.sigue c c' s) := by
  unfold Rastro.sigue
  rw [hv, if_neg Bool.false_ne_true]
  split
  · next hv' =>
    obtain ⟨h1, h2⟩ := hn hv'
    refine ⟨fun he ↦ ?_, fun _ _ ↦ ?_, fun he ↦ ?_⟩
    · obtain ⟨h3, h4⟩ := h1 he
      exact ⟨h3, .inl h4, .inl h4⟩
    · rw [h2]
      exact Nat.le_refl 0
    · rw [Conexion.viva, he] at hv'
      cases hv'
  · next hv' =>
    refine ⟨fun he ↦ ?_, fun he ↦ absurd he hv', fun he ↦ h.agotada (ha he)⟩
    rw [Conexion.viva] at hv'
    rcases he with he | he <;> rw [he] at hv' <;> exact absurd rfl hv'

/-- A segment keeps the count of the connection it comes to. -/
theorem Cuenta.con_segmento {c : Conexion} {r : Rastro} (h : Cuenta c r) (hv : c.viva = true)
    (s : Segmento) (ahora : UInt64) (b : Bool) :
    Cuenta { (c.entra s ahora).1 with ackDebido := b }
      (r.sigue c { (c.entra s ahora).1 with ackDebido := b } (some s)) := by
  unfold Rastro.sigue
  rw [if_pos hv]
  refine ⟨fun he ↦ ?_, fun _ hp ↦ ?_, fun he ↦ ?_⟩
  · have heq := Conexion.entra_saludo he
    have hhs : c.estado = .synEnviado ∨ c.estado = .synRecibido := by
      rcases heq with heq | heq <;> rw [heq] at he <;> exact he
    obtain ⟨h1, h2, h3⟩ := h.saludo hhs
    have hk : (c.entra s ahora).1.isn = c.isn ∧ (c.entra s ahora).1.sndUna = c.isn ∧
        ((c.entra s ahora).1.sndNxt = c.isn ∨ (c.entra s ahora).1.sndNxt = c.isn + 1) := by
      rcases heq with heq | heq <;> rw [heq]
      · exact ⟨rfl, h1, h2⟩
      · exact ⟨rfl, h1, .inl rfl⟩
    refine ⟨hk.2.1.trans hk.1.symm, hk.1 ▸ hk.2.2, ?_⟩
    rw [show ({ (c.entra s ahora).1 with ackDebido := b } : Conexion).isn = c.isn from hk.1]
    exact cima_saludo h3 hk.2.2
  · obtain ⟨hp, hpu⟩ := Bool.and_eq_true_iff.mp hp
    have hle := h.reintentos hv hp
    have hent := c.reintentos_entra s ahora
    show (c.entra s ahora).1.reintentos.toNat ≤ _
    rw [show ({ (c.entra s ahora).1 with ackDebido := b } : Conexion).reintentos =
      (c.entra s ahora).1.reintentos from rfl]
    rw [Option.filter_some] at hpu ⊢
    split at hpu
    · next hcon =>
      -- an answer: whatever retries there were are gone
      rw [if_pos hcon]
      have h0 : (c.entra s ahora).1.reintentos = 0 := by
        rw [Option.all_some, aTiempo, Bool.or_eq_true, decide_eq_true_eq, Bool.and_eq_true,
          Bool.or_eq_true, decide_eq_true_eq, Bool.not_eq_true'] at hpu
        rcases hpu with h0 | ⟨hn, hx⟩
        · rcases hent with e | e
          · rw [e, h0]
          · exact e
        · unfold Rastro.contesta at hcon
          rw [Bool.and_eq_true, Bool.and_eq_true, Bool.not_eq_true', Bool.not_eq_true'] at hcon
          exact Conexion.reintentos_acepta h.saludo hcon.1.1 hn hcon.2 hx
      rw [h0]
      exact Nat.zero_le _
    · next hcon =>
      rw [if_neg hcon]
      have hnlt : ¬c.reintentos < (c.entra s ahora).1.reintentos := by
        rcases hent with e | e <;> rw [e]
        · exact UInt8.lt_irrefl _
        · exact UInt8.not_lt.mpr (UInt8.zero_le)
      rw [Option.isSome_none, if_neg Bool.false_ne_true, if_neg hnlt]
      rcases hent with e | e <;> rw [e]
      · exact hle
      · exact Nat.zero_le _
  · exfalso
    rcases c.llegable_entra s ahora with e | e
    · rw [Conexion.viva, ← e, show (c.entra s ahora).1.estado = .cerrada .agotada from he] at hv
      cases hv
    · rw [show (c.entra s ahora).1.estado = .cerrada .agotada from he] at e
      cases e

/-- A call that brings no segment to a slot keeps its count. -/
theorem Cuenta.mueve {c c' : Conexion} {o : Orden} {r : Rastro} (h : Cuenta c r)
    (hm : Mueve c o c')
    (hs : ∀ ipOrigen ipDestino b ahora, c.viva = true →
      o = .entrada ipOrigen ipDestino b ahora → c' = c) :
    Cuenta c' (r.sigue c c' none) := by
  -- a closed connection was not ended by its retries
  have hcierra : ∀ por, por ≠ .agotada → (c.cerrarCon por).estado ≠ .cerrada .agotada := by
    intro por hne he
    unfold Conexion.cerrarCon at he
    dsimp only at he
    split at he
    · cases he
    · exact hne (Estado.cerrada.inj he)
  -- the handshake of a connection that did not move
  have hquieto : c.estado = .synEnviado ∨ c.estado = .synRecibido →
      (c.estado = .synEnviado ∨ c.estado = .synRecibido) ∧ c.isn = c.isn ∧
        c.sndUna = c.isn ∧ (c.sndNxt = c.isn ∨ c.sndNxt = c.isn + 1) := by
    intro he
    obtain ⟨h1, h2, -⟩ := h.saludo he
    exact ⟨he, rfl, h1, h2⟩
  have hnoviva : ∀ e, c.estado = e → c.viva = true → e ≠ .cerrada .agotada := by
    rintro e rfl hv he
    rw [Conexion.viva, he] at hv
    cases hv
  by_cases hv : c.viva = true
  · cases hm with
    | igual => exact h.sin_segmento hv hquieto (.inl rfl) fun he ↦ absurd he (hnoviva _ rfl hv)
    | conecta hl => rw [Conexion.viva, hl] at hv; cases hv
    | escucha hl => rw [Conexion.viva, hl] at hv; cases hv
    | acepta => exact h.sin_segmento hv hquieto (.inl rfl) fun he ↦ absurd he (hnoviva _ rfl hv)
    | envia => exact h.sin_segmento hv hquieto (.inl rfl) fun he ↦ absurd he (hnoviva _ rfl hv)
    | saca => exact h.sin_segmento hv hquieto (.inl rfl) fun he ↦ absurd he (hnoviva _ rfl hv)
    | pideFin => exact h.sin_segmento hv hquieto (.inl rfl) fun he ↦ absurd he (hnoviva _ rfl hv)
    | cierraSyn =>
      refine h.sin_segmento hv (fun he ↦ ?_) (.inl rfl)
        fun he ↦ absurd he (hcierra _ Cierre.noConfusion)
      unfold Conexion.cerrarCon at he
      dsimp only at he
      split at he <;> rcases he with he | he <;> cases he
    | calla hl => rw [Conexion.viva, hl] at hv; cases hv
    | aborta =>
      refine h.sin_segmento hv (fun he ↦ ?_) (.inl rfl)
        fun he ↦ absurd he (hcierra _ Cierre.noConfusion)
      unfold Conexion.cerrarCon at he
      dsimp only at he
      split at he <;> rcases he with he | he <;> cases he
    | suelta hl => rw [hl] at hv; cases hv
    | deja => exact h.sin_segmento hv hquieto (.inl rfl) fun he ↦ absurd he (hnoviva _ rfl hv)
    | llega =>
      rw [hs _ _ _ _ hv rfl]
      exact h.sin_segmento hv hquieto (.inl rfl) fun he ↦ absurd he (hnoviva _ rfl hv)
    | reta => exact h.sin_segmento hv hquieto (.inl rfl) fun he ↦ absurd he (hnoviva _ rfl hv)
    | nace _ _ hl => rw [Conexion.viva, hl] at hv; cases hv
    | @habla ahora dst =>
      obtain ⟨hr, ha⟩ := c.reintentos_emite ahora dst
      refine h.sin_segmento hv (fun he ↦ ?_) hr fun he ↦ ?_
      · have hv' : (c.emite ahora dst).1.viva = true := by
          rw [Conexion.viva]
          rcases he with he | he <;> rw [he]
        have hest : (c.emite ahora dst).1.estado = c.estado := by
          rcases c.estado_emite ahora dst hv' with e | ⟨-, e⟩ | ⟨-, e⟩
          · exact e
          · rw [e] at he
            rcases he with he | he <;> cases he
          · rw [e] at he
            rcases he with he | he <;> cases he
        rw [hest] at he
        obtain ⟨h1, h2⟩ := @Conexion.saludo_emite _ _ ahora dst he (h.saludo he)
        exact ⟨he, (c.marco_emite ahora dst).1.isn, h1, h2⟩
      · rcases ha he with e | e
        · exact absurd e (hnoviva _ rfl hv)
        · exact e
  · rw [Bool.not_eq_true] at hv
    have hno : ∀ c'' : Conexion, c''.estado = c.estado → c''.viva = true → False := by
      intro c'' he hv''
      rw [Conexion.viva, he, ← Conexion.viva, hv] at hv''
      cases hv''
    cases hm with
    | igual => exact h.sin_conexion hv (fun hv' ↦ (hno c rfl hv').elim) id
    | conecta => exact h.sin_conexion hv (fun _ ↦ ⟨fun _ ↦ ⟨rfl, rfl⟩, rfl⟩) fun he ↦ by cases he
    | escucha => exact h.sin_conexion hv (fun hv' ↦ by cases hv') fun he ↦ by cases he
    | acepta => exact h.sin_conexion hv (fun hv' ↦ (hno _ rfl hv').elim) id
    | envia => exact h.sin_conexion hv (fun hv' ↦ (hno _ rfl hv').elim) id
    | saca => exact h.sin_conexion hv (fun hv' ↦ (hno _ rfl hv').elim) id
    | pideFin => exact h.sin_conexion hv (fun hv' ↦ (hno _ rfl hv').elim) id
    | cierraSyn he => rw [Conexion.viva, he] at hv; cases hv
    | calla => exact h.sin_conexion hv (fun hv' ↦ by cases hv') fun he ↦ by cases he
    | aborta =>
      refine h.sin_conexion hv (fun hv' ↦ ?_) fun he ↦ absurd he (hcierra _ Cierre.noConfusion)
      rw [Conexion.viva_cerrarCon] at hv'
      cases hv'
    | suelta => exact h.sin_conexion hv (fun hv' ↦ by cases hv') fun he ↦ by cases he
    | deja he => rw [Conexion.viva, he] at hv; cases hv
    | llega _ hl => rw [hv] at hl; cases hl
    | reta _ hl => rw [hv] at hl; cases hl
    | nace => exact h.sin_conexion hv (fun _ ↦ ⟨fun _ ↦ ⟨rfl, rfl⟩, rfl⟩) fun he ↦ by cases he
    | @habla ahora dst =>
      have he : c.emite ahora dst = (c, none, none) := by
        unfold Conexion.emite
        rw [hv]
        rfl
      rw [he]
      exact h.sin_conexion hv (fun hv' ↦ (hno c rfl hv').elim) id

/-- In every run the retries of every slot are counted right. -/
theorem Corre.cuenta {hmac : Bytes → Bytes → Arr 32} {t : Tcp} {r : Fin conexiones → Rastro}
    (h : Corre hmac t r) (i : Fin conexiones) : Cuenta (t.c i) (r i) := by
  induction h with
  | nueva secreto =>
    refine ⟨fun he ↦ ?_, fun hv ↦ ?_, fun he ↦ ?_⟩
    · rcases he with he | he <;> cases he
    · cases hv
    · cases he
  | @sigue t r _ o ih =>
    show Cuenta _ ((r i).sigue (t.c i) ((t.hace hmac o).c i) (t.llegado o i))
    cases hl : t.llegado o i with
    | none =>
      exact ih.mueve (t.hace_mueve hmac o i) fun _ _ _ _ hv ho ↦ hace_sin_llegado hl hv ho
    | some s =>
      obtain ⟨hv, ahora, b, hc⟩ := @hace_llegado hmac _ _ _ _ hl
      rw [hc]
      exact ih.con_segmento hv s ahora b

/-- Which new acknowledgements are accepted: those that answer the SYN or are not after the next
number to send. And a connection whose answers, while retries counted, all acknowledged
something new and sent ends without retries only after six timeouts without an answer. -/
theorem acuse_progresa {hmac : Bytes → Bytes → Arr 32} {t : Tcp} {r : Fin conexiones → Rastro}
    (h : Corre hmac t r) :
    (∀ ipOrigen ipDestino b ahora s i, Segmento.leer b ipOrigen ipDestino = .ok s →
      t.exacta ipOrigen ipDestino s = some i → (t.c i).enOrden s = true →
      antes (t.c i).sndUna s.ack = true → antes (r i).cima s.ack = false →
      ((t.c i).Acepta s ((t.entrada hmac ipOrigen ipDestino b ahora).1.c i,
          (t.entrada hmac ipOrigen ipDestino b ahora).2) ↔
        (t.c i).estado = .synEnviado ∨ antes (t.c i).sndNxt s.ack = false)) ∧
    ∀ i, (r i).puntual = true → (t.c i).estado = .cerrada .agotada →
      reintentosMax.toNat ≤ (r i).silencio := by
  refine ⟨fun ipOrigen ipDestino b ahora s i hl hx ho hn hc ↦ ?_,
    fun i hp he ↦ (h.cuenta i).agotada he hp⟩
  rw [← @Conexion.acepta_iff _ _ _ ahora (h.cuenta i).saludo ho hn hc]
  obtain ⟨hr, ⟨debe, hc'⟩, -⟩ := entrada_exacta hmac ahora hl hx
  rw [hr, hc']
  rfl

/-- A stack and what is remembered of its connections, after a list of calls. -/
def anota (hmac : Bytes → Bytes → Arr 32) (x : Tcp × (Fin conexiones → Rastro))
    (os : List Orden) : Tcp × (Fin conexiones → Rastro) :=
  os.foldl (fun x o ↦ (x.1.hace hmac o,
    fun i ↦ (x.2 i).sigue (x.1.c i) ((x.1.hace hmac o).c i) (x.1.llegado o i))) x

theorem Corre.anota {hmac : Bytes → Bytes → Arr 32} {x : Tcp × (Fin conexiones → Rastro)}
    (h : Corre hmac x.1 x.2) (os : List Orden) :
    Corre hmac (Tcp.anota hmac x os).1 (Tcp.anota hmac x os).2 := by
  induction os generalizing x with
  | nil => exact h
  | cons o os ih => exact ih (h.sigue o)

/-- The client's ACK of everything up to `n` bytes. -/
def acuseDe (n : UInt32) : Segmento := ⟨40000, 80, 101, 0x28CAD676 + n, ack, 1000, none, []⟩

/-- The greeted server sent a thousand bytes in two segments, and after a second the first again. -/
def reenviada : Tcp × (Fin conexiones → Rastro) :=
  anota hmacFijo (Tcp.nueva ((List.range 32).map fun i ↦ UInt8.ofNat (i + 1)), fun _ ↦ ⟨0, 0, true⟩)
    (saludo ++ [.aceptar 0, .enviar 1 (zeros 1000), .salida 0 (zeros 1500), .salida 0 (zeros 1500),
      .salida 1000 (zeros 1500)])

/-- The client answers every repetition at once, for a minute and a half. -/
def repetida : Tcp × (Fin conexiones → Rastro) :=
  anota hmacFijo reenviada
    (([3000, 7000, 15000, 31000, 63000, 95000].map fun ahora ↦
      [.entrada cliente servidor (enCable cliente servidor (acuseDe 1000)) ahora,
        .salida ahora (zeros 1500)]).flatten)

private theorem corre_reenviada : Corre hmacFijo reenviada.1 reenviada.2 :=
  Corre.anota (x := (Tcp.nueva _, fun _ ↦ ⟨0, 0, true⟩)) (.nueva _) _

/-- The ACK of the first segment is accepted after the repetition. -/
theorem acuse_progresa_reenviada :
    (reenviada.1.c 1).Acepta (acuseDe 536)
      ((reenviada.1.entrada hmacFijo cliente servidor
          (enCable cliente servidor (acuseDe 536)) 1001).1.c 1,
        (reenviada.1.entrada hmacFijo cliente servidor
          (enCable cliente servidor (acuseDe 536)) 1001).2) :=
  ((acuse_progresa corre_reenviada).1 cliente servidor (enCable cliente servidor (acuseDe 536))
    1001 (acuseDe 536) 1 (by decide +kernel) (by decide +kernel) (by decide +kernel)
    (by decide +kernel) (by decide +kernel)).mpr (by decide +kernel)

/-- The ACK of both segments is refused after the repetition, and the connection of a client that
answers every repetition with it ends without retries. -/
theorem acuse_rechazado : Corre hmacFijo reenviada.1 reenviada.2 ∧
    Segmento.leer (enCable cliente servidor (acuseDe 1000)) cliente servidor =
      .ok (acuseDe 1000) ∧
    reenviada.1.exacta cliente servidor (acuseDe 1000) = some 1 ∧
    (reenviada.1.c 1).enOrden (acuseDe 1000) = true ∧
    antes (reenviada.1.c 1).sndUna (acuseDe 1000).ack = true ∧
    antes (reenviada.2 1).cima (acuseDe 1000).ack = false ∧
    (reenviada.1.entrada hmacFijo cliente servidor
      (enCable cliente servidor (acuseDe 1000)) 1001).2 = .error .secuencia ∧
    Corre hmacFijo repetida.1 repetida.2 ∧ (repetida.1.c 1).estado = .cerrada .agotada ∧
    (repetida.2 1).silencio = 0 :=
  ⟨corre_reenviada, by decide +kernel, by decide +kernel, by decide +kernel, by decide +kernel,
    by decide +kernel, by decide +kernel, corre_reenviada.anota _, by decide +kernel,
    by decide +kernel⟩

end Tcp

end BmoX.Pila
