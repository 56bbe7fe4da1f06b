import BmoX.Pila.Flujo

/-!
# The numbers a connection sends with

The oldest number without acknowledgement, the next one and the queue, as counters over the
stream that was accepted. The SYN is number 0, the bytes go from 1, the FIN follows them.
-/

namespace BmoX.Pila

open BmoX.Base

theorem antes_serial {b : UInt32} {m n : Nat} (h : m < n) (hn : n - m < 2147483648) :
    antes (serial b m) (serial b n) = true := by
  rw [antes_iff, toNat_serial_sub b (by omega) (by omega)]
  omega

/-- The numbers of a live connection, with `n` the counter of its next one. The last case is a
SYN that was answered when it had to leave again and could not: nothing is sent any more. -/
structure Emisor (d : Diario) (c : Conexion) (n : Nat) : Prop where
  isn : c.isn = d.isn
  sndUna : c.sndUna = serial d.isn d.una
  sndNxt : c.sndNxt = serial d.isn n
  tx : c.tx = d.aceptado.drop (d.una - 1)
  cabe : c.tx.length ≤ bufer
  orden : (d.una ≤ n ∧ n ≤ d.aceptado.length + 1 + (if c.finPedido then 1 else 0)) ∨
    (n = 0 ∧ d.una = 1 ∧ c.vence = none)
  saludo : (c.estado = .synEnviado ∨ c.estado = .synRecibido) ↔ d.una = 0
  saludoNxt : d.una = 0 → n ≤ 1
  fin : c.finConfirmado = true ↔ d.una = d.aceptado.length + 2

namespace Emisor

variable {d : Diario} {c c' : Conexion} {n : Nat}

private theorem length_tx (h : Emisor d c n) : c.tx.length = d.aceptado.length - (d.una - 1) := by
  rw [h.tx, List.length_drop]

theorem nxt_le (h : Emisor d c n) : n ≤ d.aceptado.length + 2 := by
  rcases h.orden with ⟨-, h2⟩ | ⟨h2, -⟩
  · split at h2 <;> omega
  · omega

private theorem una_le_succ (h : Emisor d c n) : d.una ≤ n + 1 := by
  rcases h.orden with ⟨h1, -⟩ | ⟨h1, h2, -⟩ <;> omega

theorem length_aceptado_le (h : Emisor d c n) : d.aceptado.length ≤ d.una + bufer := by
  have h1 := h.length_tx
  have h2 := h.cabe
  omega

theorem enVuelo (h : Emisor d c n) (hn : d.una ≤ n) : c.enVuelo.toNat = n - d.una := by
  have h1 := h.nxt_le
  have h2 := h.length_aceptado_le
  have hb : bufer = 8192 := rfl
  rw [Conexion.enVuelo, h.sndNxt, h.sndUna, toNat_serial_sub _ hn (by omega)]

private theorem enVuelo_atascada (h : Emisor d c n) (h0 : n = 0) (h1 : d.una = 1) :
    c.enVuelo.toNat = 4294967295 := by
  rw [Conexion.enVuelo, h.sndNxt, h.sndUna, h0, h1,
    toNat_serial_sub_of_lt _ Nat.zero_lt_one (by omega)]

/-- A step that keeps what a connection sends with and its handshake keeps its numbers. -/
theorem conserva (h : Emisor d c n) (hm : Conexion.Marco c c')
    (he : (c'.estado = .synEnviado ∨ c'.estado = .synRecibido) ↔
      (c.estado = .synEnviado ∨ c.estado = .synRecibido)) {m : Nat}
    (hn : c'.sndNxt = serial d.isn m)
    (ho : (d.una ≤ m ∧ m ≤ d.aceptado.length + 1 + (if c.finPedido then 1 else 0)) ∨
      (m = 0 ∧ d.una = 1 ∧ c'.vence = none))
    (hs : d.una = 0 → m ≤ 1) : Emisor d c' m where
  isn := hm.isn.trans h.isn
  sndUna := hm.sndUna.trans h.sndUna
  sndNxt := hn
  tx := hm.tx.trans h.tx
  cabe := by
    rw [hm.tx]
    exact h.cabe
  orden := by
    rw [hm.finPedido]
    exact ho
  saludo := he.trans h.saludo
  saludoNxt := hs
  fin := by
    rw [hm.finConfirmado]
    exact h.fin

/-- The timer goes back to the oldest number without acknowledgement. -/
theorem temporiza (h : Emisor d c n) (hm : Conexion.Marco c c') (he : c'.estado = c.estado)
    (hv : c.vence ≠ none) (hn : c'.sndNxt = c.sndUna) : Emisor d c' d.una := by
  refine h.conserva hm (by rw [he]) (hn.trans h.sndUna) (.inl ⟨Nat.le_refl _, ?_⟩)
    fun h0 ↦ by omega
  rcases h.orden with ⟨h1, h2⟩ | ⟨-, -, h3⟩
  · omega
  · exact absurd h3 hv

end Emisor

/-- What a segment of a connection says about its stream: its number, its bytes, its FIN. -/
structure Dicho (d : Diario) (s : Segmento) (pos : Nat) : Prop where
  sec : s.sec = serial d.isn pos
  una : d.una ≤ pos + 1
  tope : pos ≤ d.aceptado.length + 2
  datos : s.datos <+: d.aceptado.drop (pos - 1)
  primero : s.datos ≠ [] → 1 ≤ pos
  fin : s.banderas &&& fin ≠ 0 → s.datos = [] ∧ d.cerrado = some d.aceptado ∧
    pos = d.aceptado.length + 1
  syn : s.banderas &&& syn ≠ 0 → pos = 0

/-- A connection that says something tells its stream, and its numbers go on. -/
theorem Emisor.dice {d : Diario} {c c' : Conexion} {n : Nat} {s : Segmento} (h : Emisor d c n)
    (hm : Conexion.Marco c c')
    (he : (c'.estado = .synEnviado ∨ c'.estado = .synRecibido) ↔
      (c.estado = .synEnviado ∨ c.estado = .synRecibido))
    (hf : c.finPedido = true → d.cerrado = some d.aceptado) (hd : c.Dice c' s) :
    (∃ m, Emisor d c' m) ∧ (∃ pos, Dicho d s pos) ∧
      (s.banderas &&& ack ≠ 0 → c.estado ≠ .synEnviado ∧ s.ack = c.rcvNxt) := by
  have hb : bufer = 8192 := rfl
  have hlen := h.length_tx
  have hcabe := h.cabe
  have hmanda : c.manda = true → d.una ≠ 0 := by
    intro hma h0
    unfold Conexion.manda at hma
    rcases h.saludo.mpr h0 with e | e <;> rw [e] at hma <;> cases hma
  have hsf : syn &&& Pila.fin = 0 := by decide
  have hsaf : (syn ||| ack) &&& Pila.fin = 0 := by decide
  have hpf : (ack ||| psh) &&& Pila.fin = 0 := by decide
  have hps : (ack ||| psh) &&& syn = 0 := by decide
  have hfs : (Pila.fin ||| ack) &&& syn = 0 := by decide
  have haf : ack &&& Pila.fin = 0 := by decide
  have has : ack &&& syn = 0 := by decide
  have hsa : syn &&& ack = 0 := by decide
  cases hd with
  | saludo ventana hest hn hsig =>
    have h0 := h.saludo.mp (.inl hest)
    have hn1 : c'.sndNxt = serial d.isn 1 := by rw [hsig, h.isn, serial_one]
    refine ⟨⟨1, h.conserva hm he hn1 (.inl (by omega)) fun _ ↦ Nat.le_refl 1⟩, ⟨0, ?_⟩,
      fun ha ↦ absurd hsa ha⟩
    exact ⟨by rw [serial_zero]; exact h.isn, by omega, Nat.zero_le _, List.nil_prefix,
      fun hne ↦ absurd rfl hne, fun hfin ↦ absurd hsf hfin, fun _ ↦ rfl⟩
  | respuesta ventana hest hn hsig =>
    have h0 := h.saludo.mp (.inr hest)
    have hn1 : c'.sndNxt = serial d.isn 1 := by rw [hsig, h.isn, serial_one]
    refine ⟨⟨1, h.conserva hm he hn1 (.inl (by omega)) fun _ ↦ Nat.le_refl 1⟩, ⟨0, ?_⟩,
      fun _ ↦ ⟨by rw [hest]; exact Estado.noConfusion, rfl⟩⟩
    exact ⟨by rw [serial_zero]; exact h.isn, by omega, Nat.zero_le _, List.nil_prefix,
      fun hne ↦ absurd rfl hne, fun hfin ↦ absurd hsaf hfin, fun _ ↦ rfl⟩
  | datos ventana hma k hk hc hsig =>
    have h0 := hmanda hma
    have hne : c.estado ≠ .synEnviado := fun e ↦ h0 (h.saludo.mp (.inl e))
    rcases h.orden with ⟨ho1, ho2⟩ | ⟨ho1, ho2, -⟩
    · -- the bytes from the next number on
      have hfl := h.enVuelo ho1
      have henv : c.enviados = n - d.una := by
        unfold Conexion.enviados at hc ⊢
        rw [hfl] at hc ⊢
        rcases Nat.le_total (n - d.una) c.tx.length with hle | hle
        · exact Nat.min_eq_left hle
        · rw [show Nat.min (n - d.una) c.tx.length = c.tx.length from Nat.min_eq_right hle] at hc
          omega
      rw [henv] at hc ⊢
      have hn1 : c'.sndNxt = serial d.isn (n + k) := by rw [hsig, h.sndNxt, serial_add]
      have hdrop : c.tx.drop (n - d.una) = d.aceptado.drop (n - 1) := by
        rw [h.tx, List.drop_drop]
        congr 1
        omega
      refine ⟨⟨n + k, h.conserva hm he hn1 (.inl (by omega)) fun h0' ↦ absurd h0' h0⟩, ⟨n, ?_⟩,
        fun _ ↦ ⟨hne, rfl⟩⟩
      refine ⟨h.sndNxt, by omega, h.nxt_le, ?_, fun _ ↦ by omega,
        fun hfin ↦ absurd hpf hfin, fun hsyn ↦ absurd hps hsyn⟩
      rw [hdrop]
      exact List.take_prefix _ _
    · -- a connection that sends nothing has no bytes to send
      exfalso
      have hfl := h.enVuelo_atascada ho1 ho2
      unfold Conexion.enviados at hc
      rw [hfl, show Nat.min 4294967295 c.tx.length = c.tx.length from
        Nat.min_eq_right (by omega)] at hc
      omega
  | fin ventana hma hfl hsig =>
    have h0 := hmanda hma
    have hne : c.estado ≠ .synEnviado := fun e ↦ h0 (h.saludo.mp (.inl e))
    unfold Conexion.finListo at hfl
    rw [Bool.and_eq_true, Bool.and_eq_true, Bool.not_eq_true', decide_eq_true_eq] at hfl
    obtain ⟨⟨hped, hcon⟩, hvuelo⟩ := hfl
    have hunf : d.una ≠ d.aceptado.length + 2 := fun e ↦ by
      rw [h.fin.mpr e] at hcon
      cases hcon
    rcases h.orden with ⟨ho1, ho2⟩ | ⟨ho1, ho2, -⟩
    · rw [h.enVuelo ho1] at hvuelo
      have hn : n = d.aceptado.length + 1 := by
        rw [hped, if_pos rfl] at ho2
        omega
      have hn1 : c'.sndNxt = serial d.isn (n + 1) := by rw [hsig, h.sndNxt, serial_succ]
      have hord : n + 1 ≤ d.aceptado.length + 1 + (if c.finPedido then 1 else 0) := by
        rw [hped, if_pos rfl]
        omega
      refine ⟨⟨n + 1, h.conserva hm he hn1 (.inl ⟨by omega, hord⟩) fun h0' ↦ absurd h0' h0⟩,
        ⟨n, ?_⟩, fun _ ↦ ⟨hne, rfl⟩⟩
      exact ⟨h.sndNxt, by omega, h.nxt_le, List.nil_prefix, fun hne' ↦ absurd rfl hne',
        fun _ ↦ ⟨rfl, hf hped, hn⟩, fun hsyn ↦ absurd hfs hsyn⟩
    · exfalso
      rw [h.enVuelo_atascada ho1 ho2] at hvuelo
      omega
  | acuse ventana hest hsig hv =>
    have hn1 : c'.sndNxt = serial d.isn n := hsig.trans h.sndNxt
    refine ⟨⟨n, h.conserva hm he hn1 ?_ h.saludoNxt⟩, ⟨n, ?_⟩, fun _ ↦ ⟨hest, rfl⟩⟩
    · rcases h.orden with ho | ⟨ho1, ho2, ho3⟩
      · exact .inl ho
      · rcases hv with hv | hv
        · exact .inr ⟨ho1, ho2, hv.trans ho3⟩
        · have := h.enVuelo_atascada ho1 ho2
          rw [hv] at this
          cases this
    · exact ⟨h.sndNxt, h.una_le_succ, h.nxt_le, List.nil_prefix, fun hne ↦ absurd rfl hne,
        fun hfin ↦ absurd haf hfin, fun hsyn ↦ absurd has hsyn⟩

/-- A connection that says nothing keeps its numbers. -/
theorem Emisor.calla {d : Diario} {c c' : Conexion} {n : Nat} (h : Emisor d c n)
    (hm : Conexion.Marco c c')
    (he : (c'.estado = .synEnviado ∨ c'.estado = .synRecibido) ↔
      (c.estado = .synEnviado ∨ c.estado = .synRecibido)) (hc : c.Calla c') : Emisor d c' n := by
  refine h.conserva hm he (hc.sndNxt.trans h.sndNxt) ?_ h.saludoNxt
  rcases h.orden with ho | ⟨ho1, ho2, ho3⟩
  · exact .inl ho
  · rcases hc.vence with hv | hv
    · exact .inr ⟨ho1, ho2, hv.trans ho3⟩
    · have := h.enVuelo_atascada ho1 ho2
      rw [hv] at this
      cases this

/-- The handshake of a live connection stays while it emits. -/
theorem saludo_emite_iff {c : Conexion} {ahora : UInt64} {dst : Bytes}
    (hv : (c.emite ahora dst).1.viva = true) :
    ((c.emite ahora dst).1.estado = .synEnviado ↔ c.estado = .synEnviado) ∧
      ((c.emite ahora dst).1.estado = .synRecibido ↔ c.estado = .synRecibido) := by
  rcases c.estado_emite ahora dst hv with e | ⟨e, e'⟩ | ⟨e, e'⟩
  · rw [e]
    exact ⟨Iff.rfl, Iff.rfl⟩
  · rw [e, e']
    exact ⟨⟨Estado.noConfusion, Estado.noConfusion⟩, ⟨Estado.noConfusion, Estado.noConfusion⟩⟩
  · rw [e, e']
    exact ⟨⟨Estado.noConfusion, Estado.noConfusion⟩, ⟨Estado.noConfusion, Estado.noConfusion⟩⟩

/-- Emitting keeps the numbers, and what leaves tells the stream. -/
theorem Emisor.emite {d : Diario} {c : Conexion} {n : Nat} (h : Emisor d c n)
    (hv : c.viva = true) (hf : c.finPedido = true → d.cerrado = some d.aceptado) (ahora : UInt64)
    (dst : Bytes) :
    ((c.emite ahora dst).1.viva = true → ∃ m, Emisor d (c.emite ahora dst).1 m) ∧
    ∀ r, (c.emite ahora dst).2.2 = some r → ∃ s, Segmento.escribir dst c.miIp c.suIp s = .ok r ∧
      Segmento.Admitida s.banderas ∧ s.origen = c.miPuerto ∧ s.destino = c.suPuerto ∧
      (∃ pos, Dicho d s pos) ∧
      (s.banderas &&& ack ≠ 0 → c.estado ≠ .synEnviado ∧ s.ack = c.rcvNxt) := by
  rcases @Conexion.emite_dice _ ahora dst hv with ⟨hn, hm, -⟩ |
    ⟨c₁, hm, he, ht, hv', hd⟩
  · refine ⟨fun hv' ↦ ?_, fun r hr ↦ ?_⟩
    · rw [hm] at hv'
      cases hv'
    · rw [hn] at hr
      cases hr
  · -- the timer may have gone back
    have h₁ : ∃ m, Emisor d c₁ m := by
      rcases ht with rfl | ⟨hv, hu⟩
      · exact ⟨n, h⟩
      · exact ⟨_, h.temporiza hm he hv hu⟩
    obtain ⟨m, h₁⟩ := h₁
    have hm' : Conexion.Marco c₁ (c.emite ahora dst).1 := hm.symm.trans (c.marco_emite ahora dst).1
    obtain ⟨hs1, hs2⟩ := saludo_emite_iff hv'
    have hsal : ((c.emite ahora dst).1.estado = .synEnviado ∨
        (c.emite ahora dst).1.estado = .synRecibido) ↔
        (c₁.estado = .synEnviado ∨ c₁.estado = .synRecibido) := by
      rw [hs1, hs2, he]
    rcases hd with ⟨hn, hc⟩ | ⟨x, hx, s, hs, hw⟩
    · refine ⟨fun _ ↦ ⟨m, h₁.calla hm' hsal hc⟩, fun r hr ↦ ?_⟩
      rw [hn] at hr
      cases hr
    · obtain ⟨hem, hdicho, hack⟩ := h₁.dice hm' hsal (by rw [hm.finPedido]; exact hf) hs
      refine ⟨fun _ ↦ hem, fun r hr ↦ ?_⟩
      obtain rfl : x = r := Option.some.inj (hx.symm.trans hr)
      rw [hm.miIp, hm.suIp] at hw
      rw [he, hm.rcvNxt] at hack
      exact ⟨s, hw, hs.admitida, hs.puertos.1.trans hm.miPuerto, hs.puertos.2.trans hm.suPuerto,
        hdicho, hack⟩

/-! ### A segment comes -/

/-- The acknowledgement of a segment is a counter of the stream up to `tope`, not older than half
the circle. -/
def AckCierto (d : Diario) (tope : Nat) (s : Segmento) : Prop :=
  s.banderas &&& ack ≠ 0 → ∃ a, s.ack = serial d.isn a ∧ 1 ≤ a ∧ a ≤ d.aceptado.length + 2 ∧
    d.una < a + 2147483648 ∧ a ≤ tope

/-- What a segment does to the numbers: the oldest one without acknowledgement is `u`, as before
or up to `tope`. -/
structure Avanza (d : Diario) (c c' : Conexion) (tope u : Nat) : Prop where
  resta : (c'.sndUna - c.sndUna).toNat = u - d.una
  una : d.una ≤ u
  tope : u = d.una ∨ u ≤ tope
  emisor : c'.viva = true → ∃ m, Emisor { d with una := u } c' m

namespace Emisor

variable {d : Diario} {c c' : Conexion} {n tope : Nat} {s : Segmento}

theorem avanza_igual (hu : c'.sndUna = c.sndUna) (he : c'.viva = true → ∃ m, Emisor d c' m) :
    Avanza d c c' tope d.una :=
  ⟨by rw [hu, UInt32.sub_self, Nat.sub_self]; rfl, Nat.le_refl _, .inl rfl, he⟩

/-- The numbers after the handshake was answered. -/
theorem saludado (h : Emisor d c n) (h0 : d.una = 0) (hm : c'.isn = c.isn)
    (hnx : c'.sndNxt = c.sndNxt) (htx : c'.tx = c.tx) (hf : c'.finPedido = c.finPedido)
    (hfc : c'.finConfirmado = c.finConfirmado) (hu : c'.sndUna = c.isn + 1)
    (he : c'.estado = .establecida) (hv : c'.vence = none) (ht : 1 ≤ tope) :
    Avanza d c c' tope 1 := by
  have hn := h.saludoNxt h0
  refine ⟨?_, by omega, .inr ht, fun _ ↦ ⟨n, ?_⟩⟩
  · rw [hu, h.sndUna, h.isn, ← serial_one, h0, toNat_serial_sub _ (by omega) (by omega)]
  · refine ⟨hm.trans h.isn, by rw [hu, h.isn, serial_one], hnx.trans h.sndNxt, ?_, by
      rw [htx]; exact h.cabe, ?_, ?_, fun h1 ↦ absurd h1 Nat.one_ne_zero, ?_⟩
    · rw [htx, h.tx, h0]
      rfl
    · rw [hf]
      rcases Nat.eq_or_lt_of_le (Nat.zero_le n) with h1 | h1
      · exact .inr ⟨h1.symm, rfl, hv⟩
      · exact .inl ⟨h1, by show n ≤ _; omega⟩
    · rw [he]
      constructor
      · rintro (h1 | h1) <;> cases h1
      · intro h1
        cases h1
    · rw [hfc, h.fin, h0]
      constructor
      · intro h1
        omega
      · intro h1
        have : (1 : Nat) = d.aceptado.length + 2 := h1
        omega

/-- The numbers after something new was acknowledged. -/
theorem acusado (h : Emisor d c n) (ho : d.una ≤ n) (ho' : n ≤ d.aceptado.length + 1 +
      (if c.finPedido then 1 else 0)) (h0 : d.una ≠ 0) {a : Nat} (hlt : d.una < a) (hle : a ≤ n)
    (ha : s.ack = serial d.isn a) (ht : a ≤ tope) (hm : c'.isn = c.isn)
    (hnx : c'.sndNxt = c.sndNxt)
    (htx : c'.tx = c.tx.drop (s.ack - c.sndUna).toNat) (hf : c'.finPedido = c.finPedido)
    (hfc : c'.finConfirmado =
      (c.finConfirmado || decide (c.tx.length < (s.ack - c.sndUna).toNat)))
    (hu : c'.sndUna = s.ack) (he : c'.estado ≠ .synEnviado ∧ c'.estado ≠ .synRecibido) :
    Avanza d c c' tope a := by
  have hb : bufer = 8192 := rfl
  have hlen := h.length_tx
  have hcabe := h.cabe
  have hac := h.length_aceptado_le
  have hnl := h.nxt_le
  have hresta : (s.ack - c.sndUna).toNat = a - d.una := by
    rw [ha, h.sndUna, toNat_serial_sub _ (by omega) (by omega)]
  have htope : n ≤ d.aceptado.length + 2 := h.nxt_le
  refine ⟨by rw [hu, hresta], by omega, .inr ht, fun _ ↦ ⟨n, ?_⟩⟩
  refine ⟨hm.trans h.isn, hu.trans ha, hnx.trans h.sndNxt, ?_, ?_, ?_, ?_, fun h1 ↦ ?_, ?_⟩
  · rw [htx, hresta, h.tx, List.drop_drop]
    congr 1
    show d.una - 1 + (a - d.una) = a - 1
    omega
  · rw [htx, List.length_drop]
    omega
  · rw [hf]
    exact .inl ⟨hle, ho'⟩
  · constructor
    · rintro (h1 | h1)
      · exact absurd h1 he.1
      · exact absurd h1 he.2
    · intro h1
      have : a = 0 := h1
      omega
  · have : a = 0 := h1
    omega
  · have hno : c.finConfirmado = false := by
      rw [← Bool.not_eq_true, h.fin]
      omega
    rw [hfc, hno, Bool.false_or, decide_eq_true_eq, hresta]
    show _ ↔ a = d.aceptado.length + 2
    omega

/-- The answer to the SYN. -/
theorem entraSynEnviado (h : Emisor d c n)
    (hack : s.banderas &&& rst = 0 → AckCierto d tope s) (he : c.estado = .synEnviado)
    (ahora : UInt64) :
    ∃ u, Avanza d c (c.entraSynEnviado s ahora).1 tope u := by
  have hviva : ∀ c' : Conexion, c'.viva = false → c'.sndUna = c.sndUna → Avanza d c c' tope d.una :=
    fun c' hv hu ↦ avanza_igual hu fun hv' ↦ by
      rw [hv] at hv'
      cases hv'
  unfold Conexion.entraSynEnviado
  dsimp only
  split
  · exact ⟨_, avanza_igual rfl fun _ ↦ ⟨n, h⟩⟩
  · split
    · split
      · exact ⟨_, hviva _ (Conexion.viva_cerrarCon c .reset) rfl⟩
      · exact ⟨_, avanza_igual rfl fun _ ↦ ⟨n, h⟩⟩
    · next hr =>
      split
      · exact ⟨_, avanza_igual rfl fun _ ↦ ⟨n, h⟩⟩
      · next hb =>
        rw [not_or, not_not] at hb
        obtain ⟨a, -, ha1, -, -, hat⟩ := hack (not_not.mp hr) hb.2.1
        exact ⟨1, h.saludado (h.saludo.mp (.inl he)) rfl rfl rfl rfl rfl hb.2.2 rfl rfl
          (ha1.trans hat)⟩

/-- The acknowledgement of a segment. -/
theorem confirma (h : Emisor d c n) (hack : AckCierto d tope s) (hne : c.estado ≠ .synEnviado)
    (hfa : s.banderas &&& ack ≠ 0) (hnx : antes c.sndNxt s.ack = false) {ahora : UInt64} {b : Bool}
    (hc : c.confirma s ahora = .ok (c', b)) : ∃ u, Avanza d c c' tope u := by
  have hb : bufer = 8192 := rfl
  have hac := h.length_aceptado_le
  have hcabe := h.cabe
  have hlen := h.length_tx
  obtain ⟨a, ha, ha1, hale, halt, hat⟩ := hack hfa
  rcases c.confirma_cases s ahora with ⟨-, -, he⟩ | ⟨he, hn, hs, heq⟩ | ⟨-, -, he⟩ | ⟨-, -, he⟩ |
    ⟨h1, h2, h3, he⟩
  · rw [he] at hc
    cases hc
  · -- the acknowledgement of the SYN
    rw [heq] at hc
    cases hc
    have h0 := h.saludo.mp (.inr he)
    have hn1 : n = 1 := by
      rcases Nat.eq_or_lt_of_le (h.saludoNxt h0) with e | e
      · exact e
      · have : n = 0 := by omega
        exact absurd (by rw [h.sndNxt, this, serial_zero, h.isn]) hn
    have hs1 : s.ack = c.isn + 1 := by rw [hs, h.sndNxt, hn1, serial_one, h.isn]
    exact ⟨1, h.saludado h0 rfl rfl rfl rfl rfl hs1 rfl rfl (ha1.trans hat)⟩
  · rw [he] at hc
    cases hc
    exact ⟨_, avanza_igual rfl fun _ ↦ ⟨n, h⟩⟩
  · rw [he] at hc
    cases hc
    exact ⟨_, avanza_igual rfl fun _ ↦
      ⟨n, h.isn, h.sndUna, h.sndNxt, h.tx, h.cabe, h.orden, h.saludo, h.saludoNxt, h.fin⟩⟩
  · have h0 : d.una ≠ 0 := by
      intro h0
      rcases h.saludo.mpr h0 with e | e
      · exact hne e
      · exact h1 e
    rcases h.orden with ⟨ho1, ho2⟩ | ⟨ho1, ho2, -⟩
    · -- it lies between the oldest number and the next one
      have hlt : d.una < a := by
        rcases Nat.lt_trichotomy a d.una with e | e | e
        · rw [ha, h.sndUna, antes_serial e (by omega)] at h2
          cases h2
        · exact absurd (by rw [ha, e, h.sndUna]) h3
        · exact e
      have hle : a ≤ n := by
        rcases Nat.lt_or_ge n a with e | e
        · rw [ha, h.sndNxt, antes_serial e (by omega)] at hnx
          cases hnx
        · exact e
      have htx : (c.avanza s ahora).tx = c.tx.drop (s.ack - c.sndUna).toNat :=
        Conexion.drop_min_length _ c.tx
      have hest : c'.estado ≠ .synEnviado ∧ c'.estado ≠ .synRecibido := by
        rcases Conexion.llegable_confirma hc with ⟨-, e⟩ | e
        · rw [e]
          exact ⟨hne, h1⟩
        · constructor <;> intro e' <;> rw [e'] at e <;> cases e
      have hm := Conexion.marco_confirma hc
      refine ⟨a, ?_⟩
      rcases he with ⟨-, -, he⟩ | ⟨-, he⟩
      · rw [he] at hc
        cases hc
        exact h.acusado ho1 ho2 h0 hlt hle ha hat hm.isn hm.sndNxt htx hm.finPedido rfl rfl hest
      · rw [he] at hc
        cases hc
        have htras : ∀ x : Conexion, x = c.avanza s ahora ∨ x = (c.avanza s ahora).trasFin ahora →
            x.tx = c.tx.drop (s.ack - c.sndUna).toNat ∧ x.finConfirmado =
              (c.finConfirmado || decide (c.tx.length < (s.ack - c.sndUna).toNat)) ∧
              x.sndUna = s.ack := by
          rintro x (rfl | rfl)
          · exact ⟨htx, rfl, rfl⟩
          · obtain ⟨hm', -⟩ := Conexion.marco_trasFin (c.avanza s ahora) ahora
            exact ⟨hm'.tx.trans htx, hm'.finConfirmado, hm'.sndUna⟩
        have hx := htras (if (c.avanza s ahora).finConfirmado then
          (c.avanza s ahora).trasFin ahora else c.avanza s ahora) (by
            split
            · exact .inr rfl
            · exact .inl rfl)
        exact h.acusado ho1 ho2 h0 hlt hle ha hat hm.isn hm.sndNxt hx.1 hm.finPedido hx.2.1 hx.2.2
          hest
    · -- a connection that sends nothing takes no acknowledgement
      exfalso
      rw [ha, h.sndNxt, ho1, antes_serial (by omega) (by omega)] at hnx
      cases hnx

/-- What a segment does to the numbers of a connection. -/
theorem entra (h : Emisor d c n) (hack : s.banderas &&& rst = 0 → AckCierto d tope s)
    (ahora : UInt64) :
    ∃ u, Avanza d c (c.entra s ahora).1 tope u := by
  rcases c.entra_cases s ahora with ⟨h1, he⟩ | ⟨-, -, -, he⟩ | ⟨h1, -, -, -, he⟩ | ⟨-, he⟩ |
    ⟨h1, h2, -, h4, h5, c', b, hc, -, he⟩
  · rw [he]
    exact h.entraSynEnviado hack h1 ahora
  · rw [he]
    refine ⟨_, avanza_igual rfl fun hv ↦ ?_⟩
    rw [Conexion.viva_cerrarCon] at hv
    cases hv
  · -- the answer to the SYN has to leave again
    rw [he]
    have h0 := h.saludo.mp (.inr h1)
    refine ⟨_, avanza_igual rfl fun _ ↦ ⟨0, h.isn, h.sndUna, ?_, h.tx, h.cabe, .inl ?_, h.saludo,
      fun _ ↦ Nat.zero_le 1, h.fin⟩⟩
    · rw [serial_zero]
      exact h.isn
    · omega
  · rw [he]
    exact ⟨_, avanza_igual rfl fun _ ↦ ⟨n, h⟩⟩
  · obtain ⟨u, ha⟩ := h.confirma (hack h2) h1 h4 h5 hc
    rw [he]
    cases b with
    | true => exact ⟨u, ha⟩
    | false =>
      have hm := Conexion.marco_toma c' s ahora
      rw [if_neg Bool.false_ne_true]
      refine ⟨u, by rw [hm.sndUna]; exact ha.resta, ha.una, ha.tope, fun hv ↦ ?_⟩
      obtain ⟨m, hem⟩ := ha.emisor (Conexion.viva_de_toma hv)
      have hno : ¬(c'.estado = .synEnviado ∨ c'.estado = .synRecibido) := by
        rcases Conexion.llegable_confirma hc with ⟨e1, e2⟩ | e
        · rw [e2]
          exact not_or.mpr ⟨h1, e1⟩
        · rintro (e' | e') <;> rw [e'] at e <;> cases e
      refine ⟨m, hm.isn.trans hem.isn, hm.sndUna.trans hem.sndUna, hm.sndNxt.trans hem.sndNxt,
        hm.tx.trans hem.tx, by rw [hm.tx]; exact hem.cabe, ?_, ?_, hem.saludoNxt, ?_⟩
      · rw [hm.finPedido]
        rcases hem.orden with ho | ⟨o1, o2, o3⟩
        · exact .inl ho
        · rcases c'.vence_toma s ahora with hve | hve
          · exact .inr ⟨o1, o2, hve.trans o3⟩
          · exact .inr ⟨o1, o2, hve⟩
      · constructor
        · intro e
          exfalso
          rcases c'.llegable_toma s ahora with e' | e'
          · rw [e'] at e
            exact hno e
          · rcases e with e | e <;> rw [e] at e' <;> cases e'
        · intro e
          exact absurd (hem.saludo.mpr e) hno
      · rw [hm.finConfirmado]
        exact hem.fin

/-- The numbers of a connection depend on three fields of its diary. -/
theorem congr {d' : Diario} (h : Emisor d c n) (hi : d'.isn = d.isn) (hu : d'.una = d.una)
    (ha : d'.aceptado = d.aceptado) : Emisor d' c n := by
  obtain ⟨fase, isn, aceptado, entregado, cerrado, una, nxt⟩ := d
  obtain ⟨fase', isn', aceptado', entregado', cerrado', una', nxt'⟩ := d'
  obtain rfl : isn' = isn := hi
  obtain rfl : una' = una := hu
  obtain rfl : aceptado' = aceptado := ha
  exact ⟨h.isn, h.sndUna, h.sndNxt, h.tx, h.cabe, h.orden, h.saludo, h.saludoNxt, h.fin⟩

/-- A call of the application keeps the numbers, with the bytes it put in the queue. -/
theorem toca (h : Emisor d c n) (hv : c.viva = true) {datos sacados : Bytes} {b : Bool}
    (ht : c.Toca datos sacados b c') (hv' : c'.viva = true) :
    c'.sndUna = c.sndUna ∧ ∃ m, Emisor { d with aceptado := d.aceptado ++ datos } c' m := by
  have hnil : Emisor { d with aceptado := d.aceptado ++ [] } c n := by
    rw [List.append_nil]
    exact h
  cases ht with
  | nada => exact ⟨rfl, n, hnil⟩
  | recoge => exact ⟨rfl, n, hnil.isn, hnil.sndUna, hnil.sndNxt, hnil.tx, hnil.cabe, hnil.orden,
      hnil.saludo, hnil.saludoNxt, hnil.fin⟩
  | pone datos hf ha hl =>
    have hle : d.una ≤ d.aceptado.length + 1 := by
      rcases h.orden with ⟨h1, h2⟩ | ⟨-, h2, -⟩
      · rw [hf, if_neg Bool.false_ne_true] at h2
        omega
      · omega
    have hcabe := h.cabe
    have hlen : (d.aceptado ++ datos).length = d.aceptado.length + datos.length :=
      List.length_append
    refine ⟨rfl, n, h.isn, h.sndUna, h.sndNxt, ?_, ?_, ?_, h.saludo, h.saludoNxt, ?_⟩
    · show c.tx ++ datos = (d.aceptado ++ datos).drop (d.una - 1)
      rw [List.drop_append_of_le_length (by omega), h.tx]
    · show (c.tx ++ datos).length ≤ bufer
      rw [List.length_append]
      omega
    · rcases h.orden with ⟨h1, h2⟩ | ho
      · refine .inl ⟨h1, ?_⟩
        show n ≤ (d.aceptado ++ datos).length + 1 + (if c.finPedido then 1 else 0)
        rw [hlen]
        omega
      · exact .inr ho
    · rw [show ({ c with tx := c.tx ++ datos } : Conexion).finConfirmado = c.finConfirmado from rfl,
        h.fin]
      show _ ↔ d.una = (d.aceptado ++ datos).length + 2
      omega
  | saca => exact ⟨rfl, n, hnil.isn, hnil.sndUna, hnil.sndNxt, hnil.tx, hnil.cabe, hnil.orden,
      hnil.saludo, hnil.saludoNxt, hnil.fin⟩
  | pideFin =>
    refine ⟨rfl, n, hnil.isn, hnil.sndUna, hnil.sndNxt, hnil.tx, hnil.cabe, ?_, hnil.saludo,
      hnil.saludoNxt, hnil.fin⟩
    rcases hnil.orden with ⟨h1, h2⟩ | ho
    · refine .inl ⟨h1, ?_⟩
      rw [if_pos rfl]
      split at h2
      · exact h2
      · exact h2.trans (Nat.le_succ _)
    · exact .inr ho
  | acaba b estado vence he =>
    rcases he with rfl | ⟨por, rfl⟩ <;> cases hv'
  | escucha hl c' hvc =>
    rw [hvc] at hv'
    cases hv'
  | conecta hl =>
    rw [Conexion.viva, hl] at hv
    cases hv

end Emisor

end BmoX.Pila
