import BmoX.Pila.Ranura

/-!
# What a segment does to its connection

`platform/shared/bmo-pila/src/tcp/mod.rs:443–600`. The cases of `entra`: the answer to a SYN,
the ACK, the data and the FIN.
-/

namespace BmoX.Pila

open BmoX.Base

/-- Before means less than half the circle ahead. -/
theorem antes_iff (a b : UInt32) : antes a b = true ↔
    0 < (b - a).toNat ∧ (b - a).toNat < 2147483648 := by
  have h0 : b - a ≠ 0 ↔ 0 < (b - a).toNat := by
    rw [Nat.pos_iff_ne_zero, ne_eq, ne_eq, ← UInt32.toNat_inj]
    rfl
  rw [antes, Bool.and_eq_true, decide_eq_true_eq, decide_eq_true_eq, h0, UInt32.lt_iff_toNat_lt]
  rfl

/-- Not both of two numbers are before the other. -/
theorem antes_asymm {a b : UInt32} (h : antes a b = true) : antes b a = false := by
  rw [← Bool.not_eq_true, antes_iff]
  rw [antes_iff, UInt32.toNat_sub] at h
  rw [UInt32.toNat_sub]
  have ha := a.toNat_lt
  have hb := b.toNat_lt
  omega

theorem ne_of_antes {a b : UInt32} (h : antes a b = true) : b ≠ a := by
  rintro rfl
  rw [antes_iff, UInt32.sub_self] at h
  exact absurd h.1 (Nat.lt_irrefl _)

namespace Conexion

private theorem entraSynEnviado_estado {c : Conexion} {s : Segmento} {ahora : UInt64}
    (h : (c.entraSynEnviado s ahora).1.estado ≠ c.estado) :
    s.banderas &&& ack ≠ 0 ∧ s.ack = c.isn + 1 := by
  unfold entraSynEnviado at h
  dsimp only at h
  by_cases hb : s.banderas &&& ack ≠ 0 ∧ s.ack = c.isn + 1
  · exact hb
  · rw [if_neg hb] at h
    split at h
    · exact absurd rfl h
    · split at h
      · exact absurd rfl h
      · rw [if_pos (.inr hb)] at h
        exact absurd rfl h

/-- A segment that answered a SYN established the connection at its time. -/
theorem entraSynEnviado_establecida {c : Conexion} {s : Segmento} {ahora : UInt64}
    (he : c.estado = .synEnviado)
    (h : (c.entraSynEnviado s ahora).1.estado = .establecida) :
    (c.entraSynEnviado s ahora).1.desde = ahora := by
  unfold entraSynEnviado at h ⊢
  dsimp only at h ⊢
  split at h
  · rw [he] at h
    cases h
  · next h1 =>
    rw [if_neg h1]
    split at h
    · split at h
      · unfold cerrarCon at h
        dsimp only at h
        split at h <;> cases h
      · rw [he] at h
        cases h
    · next h2 =>
      rw [if_neg h2]
      split at h
      · rw [he] at h
        cases h
      · next h3 =>
        rw [if_neg h3]

/-- What the ACK of a segment does. -/
theorem confirma_cases (c : Conexion) (s : Segmento) (ahora : UInt64) :
    (c.estado = .synRecibido ∧ (c.sndNxt = c.isn ∨ s.ack ≠ c.sndNxt) ∧
      c.confirma s ahora = .error .secuencia) ∨
    (c.estado = .synRecibido ∧ c.sndNxt ≠ c.isn ∧ s.ack = c.sndNxt ∧
      c.confirma s ahora = .ok ({ c with
        sndUna := s.ack, sndWnd := s.ventana.toUInt32, estado := .establecida, vence := none
        reintentos := 0, rto := rtoInicial, desde := ahora }, false)) ∨
    (c.estado ≠ .synRecibido ∧ antes s.ack c.sndUna = true ∧
      c.confirma s ahora = .ok (c, false)) ∨
    (c.estado ≠ .synRecibido ∧ s.ack = c.sndUna ∧
      c.confirma s ahora = .ok ({ c with sndWnd := s.ventana.toUInt32 }, false)) ∨
    (c.estado ≠ .synRecibido ∧ antes s.ack c.sndUna = false ∧ s.ack ≠ c.sndUna ∧
      ((c.avanza s ahora).finConfirmado = true ∧ c.estado = .ultimoAck ∧
        c.confirma s ahora = .ok ((c.avanza s ahora).cerrarCon .normal, true) ∨
      ¬((c.avanza s ahora).finConfirmado = true ∧ c.estado = .ultimoAck) ∧
        c.confirma s ahora = .ok ({ (if (c.avanza s ahora).finConfirmado then
          (c.avanza s ahora).trasFin ahora else c.avanza s ahora) with
            sndWnd := s.ventana.toUInt32 }, false))) := by
  unfold confirma
  split
  · next h1 =>
    split
    · next h2 => exact .inl ⟨h1, h2, rfl⟩
    · next h2 =>
      rw [not_or, not_not] at h2
      exact .inr (.inl ⟨h1, h2.1, h2.2, rfl⟩)
  · next h1 =>
    split
    · next h2 => exact .inr (.inr (.inl ⟨h1, h2, rfl⟩))
    · next h2 =>
      split
      · next h3 => exact .inr (.inr (.inr (.inl ⟨h1, h3, rfl⟩)))
      · next h3 =>
        refine .inr (.inr (.inr (.inr ⟨h1, by simpa using h2, h3, ?_⟩)))
        dsimp only
        split
        · next h4 =>
          refine .inl ⟨h4.1, h4.2, ?_⟩
          rw [if_pos h4.1]
          have hu : (c.avanza s ahora).estado = .ultimoAck := h4.2
          unfold trasFin
          rw [hu]
        · next h4 => exact .inr ⟨h4, rfl⟩

@[simp] theorem estado_avanza (c : Conexion) (s : Segmento) (ahora : UInt64) :
    (c.avanza s ahora).estado = c.estado ∧ (c.avanza s ahora).desde = c.desde :=
  ⟨rfl, rfl⟩

private theorem trasFin_establecida {c : Conexion} {ahora : UInt64}
    (h : (c.trasFin ahora).estado = .establecida) :
    c.estado = .establecida ∧ (c.trasFin ahora).desde = c.desde := by
  unfold trasFin at h ⊢
  split at h
  · cases h
  · cases h
  · unfold cerrarCon at h
    dsimp only at h
    split at h <;> cases h
  · next h1 h2 h3 => exact ⟨h, rfl⟩

/-- An ACK establishes a connection from the handshake only, at its time. -/
theorem confirma_establecida {c c' : Conexion} {s : Segmento} {ahora : UInt64} {b : Bool}
    (hc : c.confirma s ahora = .ok (c', b)) (h : c'.estado = .establecida) :
    (c.estado = .establecida ∧ c'.desde = c.desde) ∨
      (c.estado = .synRecibido ∧ c'.desde = ahora) := by
  rcases c.confirma_cases s ahora with ⟨-, -, he⟩ | ⟨h1, -, -, he⟩ | ⟨-, -, he⟩ | ⟨-, -, he⟩ |
    ⟨-, -, -, ⟨-, -, he⟩ | ⟨-, he⟩⟩
  · rw [he] at hc
    cases hc
  · rw [he] at hc
    cases hc
    exact .inr ⟨h1, rfl⟩
  · rw [he] at hc
    cases hc
    exact .inl ⟨h, rfl⟩
  · rw [he] at hc
    cases hc
    exact .inl ⟨h, rfl⟩
  · rw [he] at hc
    cases hc
    unfold cerrarCon at h
    dsimp only at h
    split at h <;> cases h
  · rw [he] at hc
    cases hc
    dsimp only at h ⊢
    split at h
    · next hf =>
      rw [if_pos hf]
      exact .inl (trasFin_establecida h)
    · next hf =>
      rw [if_neg hf]
      exact .inl ⟨h, rfl⟩

private theorem traeFin_establecida {c : Conexion} {ahora : UInt64} :
    (c.traeFin ahora).estado ≠ .establecida := by
  unfold traeFin
  dsimp only
  split
  · exact Estado.noConfusion
  · split <;> exact Estado.noConfusion
  · exact Estado.noConfusion
  · next h1 h2 h3 => exact h1

/-- The connection after `n` bytes of `datos` were taken. -/
def conDatos (c : Conexion) (datos : Bytes) (n : Nat) : Conexion :=
  if datos = [] then c else { c with
    rx := c.rx ++ datos.take n
    rcvNxt := c.rcvNxt + UInt32.ofNat n
    ackDebido := true }

/-- The bytes of a segment that are new for the connection. -/
def nuevos (c : Conexion) (s : Segmento) : Bytes := s.datos.drop (c.rcvNxt - s.sec).toNat

/-- How many of them there is room for. -/
def tomados (c : Conexion) (s : Segmento) : Nat :=
  if c.recibe then Nat.min (c.nuevos s).length (bufer - c.rx.length) else 0

/-- A segment that starts at or before what is expected, and ends at or after it. -/
def Sigue (c : Conexion) (s : Segmento) : Prop :=
  antes c.rcvNxt s.sec = false ∧ (c.rcvNxt - s.sec).toNat ≤ s.datos.length

private theorem toma_eq (c : Conexion) (s : Segmento) (ahora : UInt64) :
    c.toma s ahora =
      if antes c.rcvNxt s.sec ∨ s.datos.length < (c.rcvNxt - s.sec).toNat then
        if s.datos ≠ [] ∨ s.banderas &&& fin ≠ 0 then { c with ackDebido := true } else c
      else if s.banderas &&& fin ≠ 0 ∧ c.recibe ∧ c.tomados s = (c.nuevos s).length then
        (c.conDatos (c.nuevos s) (c.tomados s)).traeFin ahora
      else c.conDatos (c.nuevos s) (c.tomados s) :=
  rfl

/-- What the data of a segment does. -/
theorem toma_cases (c : Conexion) (s : Segmento) (ahora : UInt64) :
    (∃ b, c.toma s ahora = { c with ackDebido := b }) ∨
    (c.Sigue s ∧ c.toma s ahora = c.conDatos (c.nuevos s) (c.tomados s)) ∨
    (c.Sigue s ∧ s.banderas &&& fin ≠ 0 ∧ c.recibe = true ∧
      c.tomados s = (c.nuevos s).length ∧
      c.toma s ahora = (c.conDatos (c.nuevos s) (c.tomados s)).traeFin ahora) := by
  rw [toma_eq]
  split
  · split
    · exact .inl ⟨true, rfl⟩
    · exact .inl ⟨c.ackDebido, rfl⟩
  · next h =>
    rw [not_or, Bool.not_eq_true, Nat.not_lt] at h
    split
    · next h2 => exact .inr (.inr ⟨h, h2.1, h2.2.1, h2.2.2, rfl⟩)
    · exact .inr (.inl ⟨h, rfl⟩)

/-- Taking data keeps the state and its time. -/
theorem estado_conDatos (c : Conexion) (datos : Bytes) (n : Nat) :
    (c.conDatos datos n).estado = c.estado ∧ (c.conDatos datos n).desde = c.desde := by
  unfold conDatos
  split
  · exact ⟨rfl, rfl⟩
  · exact ⟨rfl, rfl⟩

/-- Taking data keeps the timer, or stops it. -/
theorem vence_toma (c : Conexion) (s : Segmento) (ahora : UInt64) :
    (c.toma s ahora).vence = c.vence ∨ (c.toma s ahora).vence = none := by
  have hd : ∀ datos n, (c.conDatos datos n).vence = c.vence := by
    intro datos n
    unfold conDatos
    split <;> rfl
  rcases c.toma_cases s ahora with ⟨b, ht⟩ | ⟨-, ht⟩ | ⟨-, -, -, -, ht⟩
  · rw [ht]
    exact .inl rfl
  · rw [ht]
    exact .inl (hd _ _)
  · rw [ht]
    unfold traeFin
    dsimp only
    split
    · exact .inl (hd _ _)
    · split <;> exact .inl (hd _ _)
    · exact .inr rfl
    · exact .inl (hd _ _)

/-- Taking data does not bring a connection back to life. -/
theorem viva_de_toma {c : Conexion} {s : Segmento} {ahora : UInt64}
    (h : (c.toma s ahora).viva = true) : c.viva = true := by
  rcases c.toma_cases s ahora with ⟨b, ht⟩ | ⟨-, ht⟩ | ⟨-, -, hr, -, -⟩
  · rw [ht] at h
    exact h
  · rw [ht] at h
    unfold viva at h ⊢
    rwa [(estado_conDatos ..).1] at h
  · unfold recibe at hr
    unfold viva
    split at hr
    · next e => rw [e]
    · next e => rw [e]
    · next e => rw [e]
    · cases hr

private theorem toma_establecida {c : Conexion} {s : Segmento} {ahora : UInt64}
    (h : (c.toma s ahora).estado = .establecida) :
    c.estado = .establecida ∧ (c.toma s ahora).desde = c.desde := by
  rcases c.toma_cases s ahora with ⟨b, ht⟩ | ⟨-, ht⟩ | ⟨-, -, -, -, ht⟩
  · rw [ht] at h ⊢
    exact ⟨h, rfl⟩
  · rw [ht] at h ⊢
    obtain ⟨he, hd⟩ := c.estado_conDatos (c.nuevos s) (c.tomados s)
    exact ⟨he.symm.trans h, hd⟩
  · rw [ht] at h
    exact absurd h traeFin_establecida

/-- A segment with an ACK and neither RST nor SYN, outside SYN-SENT. -/
theorem entra_ack {c : Conexion} {s : Segmento} (ahora : UInt64) (h1 : c.estado ≠ .synEnviado)
    (h2 : s.banderas &&& rst = 0) (h3 : s.banderas &&& syn = 0) (h4 : s.banderas &&& ack ≠ 0) :
    c.entra s ahora = if antes c.sndNxt s.ack then (c, .reto, .error .secuencia) else
      match c.confirma s ahora with
      | .error e => (c, .nada, .error e)
      | .ok (c, true) => (c, .nada, .ok ())
      | .ok (c, false) => (c.toma s ahora, .nada, .ok ()) := by
  unfold entra
  refine (if_neg h1).trans ((if_neg (not_not.mpr h2)).trans ?_)
  exact (if_neg (not_not.mpr h3)).trans (if_neg h4)

/-- What a segment does to a connection, by its flags. -/
theorem entra_cases (c : Conexion) (s : Segmento) (ahora : UInt64) :
    (c.estado = .synEnviado ∧ (c.entra s ahora).1 = (c.entraSynEnviado s ahora).1) ∨
    (c.estado ≠ .synEnviado ∧ s.banderas &&& rst ≠ 0 ∧ s.sec = c.rcvNxt ∧
      (c.entra s ahora).1 = c.cerrarCon .reset) ∨
    (c.estado = .synRecibido ∧ s.banderas &&& rst = 0 ∧ s.banderas &&& syn ≠ 0 ∧
      s.sec + 1 = c.rcvNxt ∧ (c.entra s ahora).1 = { c with sndNxt := c.isn }) ∨
    (c.estado ≠ .synEnviado ∧ (c.entra s ahora).1 = c) ∨
    (c.estado ≠ .synEnviado ∧ s.banderas &&& rst = 0 ∧ s.banderas &&& syn = 0 ∧
      s.banderas &&& ack ≠ 0 ∧ antes c.sndNxt s.ack = false ∧
      ∃ c' b, c.confirma s ahora = .ok (c', b) ∧ (c.entra s ahora).2.2 = .ok () ∧
        (c.entra s ahora).1 = if b then c' else c'.toma s ahora) := by
  unfold entra
  split
  · next h1 => exact .inl ⟨h1, rfl⟩
  · next h1 =>
    split
    · next h2 =>
      split
      · exact .inr (.inr (.inr (.inl ⟨h1, rfl⟩)))
      · split
        · next h3 => exact .inr (.inl ⟨h1, h2, h3, rfl⟩)
        · have hite : ∀ (p : Prop) [Decidable p], (if p then (c, Efecto.reto,
              (.ok () : Except Rechazo Unit)) else (c, .nada, .ok ())).1 = c := by
            intro p _
            split <;> rfl
          exact .inr (.inr (.inr (.inl ⟨h1, hite _⟩)))
    · next h2 =>
      rw [ne_eq, not_not] at h2
      split
      · next h3 =>
        split
        · next h4 => exact .inr (.inr (.inl ⟨h4.1, h2, h3, h4.2, rfl⟩))
        · exact .inr (.inr (.inr (.inl ⟨h1, rfl⟩)))
      · next h3 =>
        rw [ne_eq, not_not] at h3
        split
        · exact .inr (.inr (.inr (.inl ⟨h1, rfl⟩)))
        · next h4 =>
          split
          · exact .inr (.inr (.inr (.inl ⟨h1, rfl⟩)))
          · next h5 =>
            rw [Bool.not_eq_true] at h5
            split
            · exact .inr (.inr (.inr (.inl ⟨h1, rfl⟩)))
            · next c' hc =>
              exact .inr (.inr (.inr (.inr ⟨h1, h2, h3, h4, h5, c', true, hc, rfl, rfl⟩)))
            · next c' hc =>
              exact .inr (.inr (.inr (.inr ⟨h1, h2, h3, h4, h5, c', false, hc, rfl, rfl⟩)))

/-- What lets a segment change the state of a connection. -/
theorem entra_estado {c : Conexion} {s : Segmento} {ahora : UInt64}
    (h : (c.entra s ahora).1.estado ≠ c.estado) :
    (c.estado = .synEnviado ∧ s.banderas &&& ack ≠ 0 ∧ s.ack = c.isn + 1) ∨
    (c.estado ≠ .synEnviado ∧ s.banderas &&& rst ≠ 0 ∧ s.sec = c.rcvNxt) ∨
    (c.estado ≠ .synEnviado ∧ s.banderas &&& rst = 0 ∧ s.banderas &&& syn = 0) := by
  rcases c.entra_cases s ahora with ⟨h1, he⟩ | ⟨h1, h2, h3, -⟩ | ⟨-, -, -, -, he⟩ | ⟨-, he⟩ |
    ⟨h1, h2, h3, -⟩
  · rw [he] at h
    exact .inl ⟨h1, entraSynEnviado_estado h⟩
  · exact .inr (.inl ⟨h1, h2, h3⟩)
  · rw [he] at h
    exact absurd rfl h
  · rw [he] at h
    exact absurd rfl h
  · exact .inr (.inr ⟨h1, h2, h3⟩)

/-- A segment establishes a connection from the handshake only, at its time. -/
theorem entra_establecida {c : Conexion} {s : Segmento} {ahora : UInt64}
    (h : (c.entra s ahora).1.estado = .establecida) :
    (c.estado = .establecida ∧ (c.entra s ahora).1.desde = c.desde) ∨
      ((c.estado = .synEnviado ∨ c.estado = .synRecibido) ∧
        (c.entra s ahora).1.desde = ahora) := by
  rcases c.entra_cases s ahora with ⟨h1, he⟩ | ⟨-, -, -, he⟩ | ⟨h1, -, -, -, he⟩ | ⟨-, he⟩ |
    ⟨-, -, -, -, -, c', b, hc, -, he⟩
  · rw [he] at h ⊢
    exact .inr ⟨.inl h1, entraSynEnviado_establecida h1 h⟩
  · rw [he] at h
    unfold cerrarCon at h
    dsimp only at h
    split at h <;> cases h
  · rw [he] at h
    exact absurd (h1.symm.trans h) Estado.noConfusion
  · rw [he] at h ⊢
    exact .inl ⟨h, rfl⟩
  · rw [he] at h ⊢
    have hc' : c'.estado = .establecida ∧ (if b then c' else c'.toma s ahora).desde = c'.desde := by
      cases b with
      | true => exact ⟨h, rfl⟩
      | false => exact toma_establecida h
    rw [hc'.2]
    rcases confirma_establecida hc hc'.1 with hc | hc
    · exact .inl hc
    · exact .inr ⟨.inr hc.1, hc.2⟩

/-! ### What the data and the ACK leave alone -/

/-- The fields that a connection keeps while it takes data: those it sends with. -/
structure MarcoEnvio (c c' : Conexion) : Prop where
  miIp : c'.miIp = c.miIp
  suIp : c'.suIp = c.suIp
  miPuerto : c'.miPuerto = c.miPuerto
  suPuerto : c'.suPuerto = c.suPuerto
  isn : c'.isn = c.isn
  sndUna : c'.sndUna = c.sndUna
  sndNxt : c'.sndNxt = c.sndNxt
  tx : c'.tx = c.tx
  finPedido : c'.finPedido = c.finPedido
  finConfirmado : c'.finConfirmado = c.finConfirmado
  reintentos : c'.reintentos = c.reintentos
  escucha : c'.escucha = c.escucha
  huerfana : c'.huerfana = c.huerfana

/-- The fields that a connection keeps while it takes an ACK: those it receives with. -/
structure MarcoRecibo (c c' : Conexion) : Prop where
  miIp : c'.miIp = c.miIp
  suIp : c'.suIp = c.suIp
  miPuerto : c'.miPuerto = c.miPuerto
  suPuerto : c'.suPuerto = c.suPuerto
  isn : c'.isn = c.isn
  sndNxt : c'.sndNxt = c.sndNxt
  finPedido : c'.finPedido = c.finPedido
  rcvNxt : c'.rcvNxt = c.rcvNxt
  rx : c'.rx = c.rx
  escucha : c'.escucha = c.escucha
  huerfana : c'.huerfana = c.huerfana

theorem MarcoEnvio.refl (c : Conexion) : MarcoEnvio c c :=
  ⟨rfl, rfl, rfl, rfl, rfl, rfl, rfl, rfl, rfl, rfl, rfl, rfl, rfl⟩

theorem MarcoEnvio.trans {a b c : Conexion} (h : MarcoEnvio a b) (h' : MarcoEnvio b c) :
    MarcoEnvio a c :=
  ⟨h'.miIp.trans h.miIp, h'.suIp.trans h.suIp, h'.miPuerto.trans h.miPuerto,
    h'.suPuerto.trans h.suPuerto, h'.isn.trans h.isn, h'.sndUna.trans h.sndUna,
    h'.sndNxt.trans h.sndNxt, h'.tx.trans h.tx, h'.finPedido.trans h.finPedido,
    h'.finConfirmado.trans h.finConfirmado, h'.reintentos.trans h.reintentos,
    h'.escucha.trans h.escucha, h'.huerfana.trans h.huerfana⟩

private theorem marco_conDatos (c : Conexion) (datos : Bytes) (n : Nat) :
    MarcoEnvio c (c.conDatos datos n) := by
  unfold conDatos
  split
  · exact .refl c
  · exact ⟨rfl, rfl, rfl, rfl, rfl, rfl, rfl, rfl, rfl, rfl, rfl, rfl, rfl⟩

private theorem marco_traeFin (c : Conexion) (ahora : UInt64) : MarcoEnvio c (c.traeFin ahora) := by
  unfold traeFin
  dsimp only
  split
  · exact ⟨rfl, rfl, rfl, rfl, rfl, rfl, rfl, rfl, rfl, rfl, rfl, rfl, rfl⟩
  · split <;> exact ⟨rfl, rfl, rfl, rfl, rfl, rfl, rfl, rfl, rfl, rfl, rfl, rfl, rfl⟩
  · exact ⟨rfl, rfl, rfl, rfl, rfl, rfl, rfl, rfl, rfl, rfl, rfl, rfl, rfl⟩
  · exact ⟨rfl, rfl, rfl, rfl, rfl, rfl, rfl, rfl, rfl, rfl, rfl, rfl, rfl⟩

/-- Data leaves what a connection sends with alone. -/
theorem marco_toma (c : Conexion) (s : Segmento) (ahora : UInt64) :
    MarcoEnvio c (c.toma s ahora) := by
  rcases c.toma_cases s ahora with ⟨b, ht⟩ | ⟨-, ht⟩ | ⟨-, -, -, -, ht⟩
  · rw [ht]
    exact ⟨rfl, rfl, rfl, rfl, rfl, rfl, rfl, rfl, rfl, rfl, rfl, rfl, rfl⟩
  · rw [ht]
    exact marco_conDatos c _ _
  · rw [ht]
    exact (marco_conDatos c _ _).trans (marco_traeFin _ ahora)

theorem marco_trasFin (c : Conexion) (ahora : UInt64) :
    MarcoEnvio c (c.trasFin ahora) ∧ MarcoRecibo c (c.trasFin ahora) := by
  unfold trasFin
  split <;> exact ⟨⟨rfl, rfl, rfl, rfl, rfl, rfl, rfl, rfl, rfl, rfl, rfl, rfl, rfl⟩,
    ⟨rfl, rfl, rfl, rfl, rfl, rfl, rfl, rfl, rfl, rfl, rfl⟩⟩

/-- An ACK leaves what a connection receives with alone. -/
theorem marco_confirma {c c' : Conexion} {s : Segmento} {ahora : UInt64} {b : Bool}
    (h : c.confirma s ahora = .ok (c', b)) : MarcoRecibo c c' := by
  rcases c.confirma_cases s ahora with ⟨-, -, he⟩ | ⟨-, -, -, he⟩ | ⟨-, -, he⟩ | ⟨-, -, he⟩ |
    ⟨-, -, -, ⟨-, -, he⟩ | ⟨-, he⟩⟩
  · rw [he] at h
    cases h
  · rw [he] at h
    cases h
    exact ⟨rfl, rfl, rfl, rfl, rfl, rfl, rfl, rfl, rfl, rfl, rfl⟩
  · rw [he] at h
    cases h
    exact ⟨rfl, rfl, rfl, rfl, rfl, rfl, rfl, rfl, rfl, rfl, rfl⟩
  · rw [he] at h
    cases h
    exact ⟨rfl, rfl, rfl, rfl, rfl, rfl, rfl, rfl, rfl, rfl, rfl⟩
  · rw [he] at h
    cases h
    exact ⟨rfl, rfl, rfl, rfl, rfl, rfl, rfl, rfl, rfl, rfl, rfl⟩
  · rw [he] at h
    cases h
    split
    · obtain ⟨-, hm⟩ := marco_trasFin (c.avanza s ahora) ahora
      exact ⟨hm.miIp, hm.suIp, hm.miPuerto, hm.suPuerto, hm.isn, hm.sndNxt, hm.finPedido,
        hm.rcvNxt, hm.rx, hm.escucha, hm.huerfana⟩
    · exact ⟨rfl, rfl, rfl, rfl, rfl, rfl, rfl, rfl, rfl, rfl, rfl⟩

/-- The tail of a list from at most its end. -/
theorem drop_min_length {α : Type} (n : Nat) (l : List α) :
    l.drop (Nat.min n l.length) = l.drop n := by
  rcases Nat.le_total n l.length with h | h
  · rw [show Nat.min n l.length = n from Nat.min_eq_left h]
  · rw [show Nat.min n l.length = l.length from Nat.min_eq_right h, List.drop_length,
      List.drop_eq_nil_of_le h]

/-- A new ACK outside the handshake: it is acknowledged up to there, what it acknowledges
leaves, and no retry counts. -/
theorem confirma_nuevo {c : Conexion} {s : Segmento} {ahora : UInt64}
    (he : c.estado ≠ .synRecibido) (ha : antes s.ack c.sndUna = false) (hn : s.ack ≠ c.sndUna) :
    ∃ c' b, c.confirma s ahora = .ok (c', b) ∧ c'.sndUna = s.ack ∧
      c'.tx = c.tx.drop (s.ack - c.sndUna).toNat ∧ c'.reintentos = 0 := by
  have htx : (c.avanza s ahora).tx = c.tx.drop (s.ack - c.sndUna).toNat :=
    drop_min_length _ c.tx
  rcases c.confirma_cases s ahora with ⟨h, -⟩ | ⟨h, -⟩ | ⟨-, h, -⟩ | ⟨-, h, -⟩ |
    ⟨-, -, -, ⟨-, -, hc⟩ | ⟨-, hc⟩⟩
  · exact absurd h he
  · exact absurd h he
  · rw [ha] at h
    cases h
  · exact absurd h hn
  · exact ⟨_, _, hc, rfl, htx, rfl⟩
  · refine ⟨_, _, hc, ?_⟩
    split
    · obtain ⟨hm, -⟩ := marco_trasFin (c.avanza s ahora) ahora
      exact ⟨hm.sndUna, hm.tx.trans htx, hm.reintentos⟩
    · exact ⟨rfl, htx, rfl⟩

end Conexion

end BmoX.Pila
