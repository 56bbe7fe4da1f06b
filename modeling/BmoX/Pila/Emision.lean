import BmoX.Pila.Ranura

/-!
# What a connection says

`platform/shared/bmo-pila/src/tcp/mod.rs:637–732`. The segments that a connection emits, each
with the state that lets it and the number that is sent next.
-/

namespace BmoX.Pila

open BmoX.Base

namespace Conexion

/-- A segment that a connection says, and its next number after it. -/
inductive Dice (c c' : Conexion) : Segmento → Prop
  | saludo (ventana : UInt16) (he : c.estado = .synEnviado) (hn : c.sndNxt = c.isn)
      (h : c'.sndNxt = c.isn + 1) :
      Dice c c' ⟨c.miPuerto, c.suPuerto, c.isn, 0, syn, ventana, some mssMax, []⟩
  | respuesta (ventana : UInt16) (he : c.estado = .synRecibido) (hn : c.sndNxt = c.isn)
      (h : c'.sndNxt = c.isn + 1) :
      Dice c c' ⟨c.miPuerto, c.suPuerto, c.isn, c.rcvNxt, syn ||| ack, ventana, some mssMax, []⟩
  | datos (ventana : UInt16) (hm : c.manda = true) (k : Nat) (hk : 0 < k)
      (hc : k ≤ c.tx.length - c.enviados) (h : c'.sndNxt = c.sndNxt + UInt32.ofNat k) :
      Dice c c' ⟨c.miPuerto, c.suPuerto, c.sndNxt, c.rcvNxt, ack ||| psh, ventana, none,
        (c.tx.drop c.enviados).take k⟩
  | fin (ventana : UInt16) (hm : c.manda = true) (hf : c.finListo = true)
      (h : c'.sndNxt = c.sndNxt + 1) :
      Dice c c' ⟨c.miPuerto, c.suPuerto, c.sndNxt, c.rcvNxt, Pila.fin ||| ack, ventana, none, []⟩
  | acuse (ventana : UInt16) (he : c.estado ≠ .synEnviado) (h : c'.sndNxt = c.sndNxt)
      (hv : c'.vence = c.vence ∨ c.enVuelo = 0) :
      Dice c c' ⟨c.miPuerto, c.suPuerto, c.sndNxt, c.rcvNxt, ack, ventana, none, []⟩

/-- What is said has flags that are read. -/
theorem Dice.admitida {c c' : Conexion} {s : Segmento} (h : Dice c c' s) :
    Segmento.Admitida s.banderas := by
  have hadm : ∀ b ∈ [syn, syn ||| ack, ack ||| psh, Pila.fin ||| ack, ack],
      b &&& 0x3F = b ∧ Segmento.raras b = false := by decide +kernel
  have hmem : s.banderas ∈ [syn, syn ||| ack, ack ||| psh, Pila.fin ||| ack, ack] := by
    cases h <;> simp
  exact hadm _ hmem

theorem Dice.puertos {c c' : Conexion} {s : Segmento} (h : Dice c c' s) :
    s.origen = c.miPuerto ∧ s.destino = c.suPuerto := by
  cases h <;> exact ⟨rfl, rfl⟩

private theorem escribe_eq_some {c : Conexion} {dst : Bytes} {sec a : UInt32} {banderas : UInt8}
    {mss : Option UInt16} {datos : Bytes} {r : Nat × Bytes}
    (h : c.escribe dst sec a banderas mss datos = some r) :
    Segmento.escribir dst c.miIp c.suIp
      ⟨c.miPuerto, c.suPuerto, sec, a, banderas, c.ventanaRx, mss, datos⟩ = .ok r := by
  unfold escribe at h
  split at h
  · next r' he =>
    cases h
    exact he
  · cases h

/-- What leaves is something the connection says, written. -/
def Sale (c c' : Conexion) (dst : Bytes) (r : Nat × Bytes) : Prop :=
  ∃ s, Dice c c' s ∧ Segmento.escribir dst c.miIp c.suIp s = .ok r

/-- Nothing was said: the numbers stay, and the timer, but for a probe of a closed window. -/
structure Calla (c c' : Conexion) : Prop where
  sndNxt : c'.sndNxt = c.sndNxt
  vence : c'.vence = c.vence ∨ c.enVuelo = 0

/-- The timer sends everything without acknowledgement again. -/
theorem temporiza_cases {c c' : Conexion} {ahora : UInt64} (h : c.temporiza ahora = some c') :
    c' = c ∨ (c.vence ≠ none ∧ c'.sndNxt = c.sndUna) := by
  unfold temporiza at h
  split at h
  · cases h
    exact .inl rfl
  · next v hv =>
    split at h
    · cases h
      exact .inl rfl
    · split at h
      · cases h
      · cases h
        exact .inr ⟨by rw [hv]; exact Option.some_ne_none v, rfl⟩

/-- Greeting says a SYN or nothing. -/
theorem saluda_dice {c : Conexion} {ahora : UInt64} {dst : Bytes}
    {r : Conexion × Option (Nat × Bytes)} (h : c.saluda ahora dst = some r) :
    (r.2 = none ∧ r.1 = c) ∨ ∃ x, r.2 = some x ∧ Sale c r.1 dst x := by
  unfold saluda at h
  split at h
  · next he =>
    split at h
    · cases h
      exact .inl ⟨rfl, rfl⟩
    · next hn =>
      rw [ne_eq, not_not] at hn
      split at h
      · cases h
        exact .inl ⟨rfl, rfl⟩
      · next x hx =>
        cases h
        exact .inr ⟨x, rfl, _, .saludo _ he hn (sndNxt_armar _ _), escribe_eq_some hx⟩
  · split at h
    · next he =>
      split at h
      · cases h
        exact .inl ⟨rfl, rfl⟩
      · next x hx =>
        cases h
        exact .inr ⟨x, rfl, _, .respuesta _ he.1 he.2 (sndNxt_armar _ _), escribe_eq_some hx⟩
    · cases h

private theorem saluda_none {c : Conexion} {ahora : UInt64} {dst : Bytes}
    (h : c.saluda ahora dst = none) : c.estado ≠ .synEnviado := by
  intro he
  unfold saluda at h
  rw [if_pos he] at h
  split at h
  · cases h
  · split at h <;> cases h

private theorem mandaDatos_dice (c : Conexion) (ahora : UInt64) (dst : Bytes) :
    ((c.mandaDatos ahora dst).2 = none ∧ (c.mandaDatos ahora dst).1 = c ∨
      (c.mandaDatos ahora dst).2 = none ∧ (c.mandaDatos ahora dst).1 = c.armar ahora ∧
        c.enVuelo = 0) ∨
    ((c.mandaDatos ahora dst).2 = some none ∧ (c.mandaDatos ahora dst).1 = c) ∨
    ∃ x, (c.mandaDatos ahora dst).2 = some (some x) ∧ Sale c (c.mandaDatos ahora dst).1 dst x := by
  unfold mandaDatos
  split
  · next hm =>
    dsimp only
    split
    · next hk =>
      split
      · exact .inr (.inl ⟨rfl, rfl⟩)
      · next x hx =>
        have hc : c.cabe dst ≤ c.tx.length - c.enviados :=
          (Nat.min_le_left _ _).trans ((Nat.min_le_left _ _).trans (Nat.min_le_left _ _))
        exact .inr (.inr ⟨x, rfl, _, .datos _ hm.1 _ hk hc (sndNxt_armar _ _),
          escribe_eq_some hx⟩)
    · split
      · next h0 => exact .inl (.inr ⟨rfl, rfl, h0⟩)
      · exact .inl (.inl ⟨rfl, rfl⟩)
  · exact .inl (.inl ⟨rfl, rfl⟩)

private theorem mandaControl_dice {c : Conexion} (ahora : UInt64) (dst : Bytes)
    (he : c.estado ≠ .synEnviado) :
    ((c.mandaControl ahora dst).2 = none ∧ (c.mandaControl ahora dst).1 = c) ∨
    ∃ x, (c.mandaControl ahora dst).2 = some x ∧
      Sale c (c.mandaControl ahora dst).1 dst x := by
  unfold mandaControl
  split
  · next hm =>
    split
    · exact .inl ⟨rfl, rfl⟩
    · next x hx =>
      dsimp only
      split <;> exact .inr ⟨x, rfl, _, .fin _ hm.1 hm.2 (sndNxt_armar _ _), escribe_eq_some hx⟩
  · split
    · split
      · exact .inl ⟨rfl, rfl⟩
      · next x hx => exact .inr ⟨x, rfl, _, .acuse _ he rfl (.inl rfl), escribe_eq_some hx⟩
    · exact .inl ⟨rfl, rfl⟩

private theorem Sale.de_vence {c c' : Conexion} {v : Option UInt64} {dst : Bytes} {r : Nat × Bytes}
    (h : Sale { c with vence := v } c' dst r) (h0 : c.enVuelo = 0) : Sale c c' dst r := by
  obtain ⟨s, hs, hw⟩ := h
  refine ⟨s, ?_, hw⟩
  clear hw
  cases hs with
  | saludo ventana he hn h => exact .saludo ventana he hn h
  | respuesta ventana he hn h => exact .respuesta ventana he hn h
  | datos ventana hm k hk hc h => exact Dice.datos (c := c) ventana hm k hk hc h
  | fin ventana hm hf h => exact .fin ventana hm hf h
  | acuse ventana he h _ => exact .acuse ventana he h (.inr h0)

/-- Speaking says something, or nothing. -/
theorem habla_dice (c : Conexion) (ahora : UInt64) (dst : Bytes) :
    ((c.habla ahora dst).2 = none ∧ Calla c (c.habla ahora dst).1) ∨
    ∃ x, (c.habla ahora dst).2 = some x ∧ Sale c (c.habla ahora dst).1 dst x := by
  unfold habla
  split
  · next r h =>
    rcases saluda_dice h with ⟨h1, h2⟩ | h
    · exact .inl ⟨h1, by rw [h2], .inl (by rw [h2])⟩
    · exact .inr h
  · next h =>
    have he := saluda_none h
    have hd := c.mandaDatos_dice ahora dst
    split
    · next c' r hc =>
      rw [hc] at hd
      rcases hd with (⟨h1, -⟩ | ⟨h1, -⟩) | ⟨h1, h2⟩ | ⟨x, h1, h2⟩
      · cases h1
      · cases h1
      · exact .inl ⟨Option.some.inj h1, by rw [show c' = c from h2], .inl (by rw [show c' = c from h2])⟩
      · exact .inr ⟨x, Option.some.inj h1, h2⟩
    · next c' hc =>
      rw [hc] at hd
      rcases hd with (⟨-, h2⟩ | ⟨-, h2, h3⟩) | ⟨h1, -⟩ | ⟨x, h1, -⟩
      · obtain rfl : c' = c := h2
        rcases mandaControl_dice ahora dst he with ⟨h4, h5⟩ | h4
        · exact .inl ⟨h4, by rw [h5], .inl (by rw [h5])⟩
        · exact .inr h4
      · -- the timer of a probe was armed
        obtain rfl : c' = c.armar ahora := h2
        have harm : ∃ v, c.armar ahora = { c with vence := v } := by
          unfold armar
          split
          · exact ⟨_, rfl⟩
          · exact ⟨c.vence, rfl⟩
        obtain ⟨v, hv⟩ := harm
        rw [hv]
        have he' : ({ c with vence := v } : Conexion).estado ≠ .synEnviado := he
        rcases mandaControl_dice ahora dst he' with ⟨h4, h5⟩ | ⟨x, h4, h5⟩
        · exact .inl ⟨h4, by rw [h5], .inr h3⟩
        · exact .inr ⟨x, h4, h5.de_vence h3⟩
      · cases h1
      · cases h1

/-- What a live connection does when it emits: it is over, or the timer may send everything
again and then it says something or nothing. -/
theorem emite_dice {c : Conexion} {ahora : UInt64} {dst : Bytes} (hv : c.viva = true) :
    ((c.emite ahora dst).2.2 = none ∧ (c.emite ahora dst).1.viva = false ∧
      (c.emite ahora dst).1.sndNxt = c.sndNxt) ∨
    ∃ c₁, Marco c c₁ ∧ c₁.estado = c.estado ∧ (c₁ = c ∨ (c.vence ≠ none ∧ c₁.sndNxt = c.sndUna)) ∧
      (c.emite ahora dst).1.viva = true ∧ (((c.emite ahora dst).2.2 = none ∧ Calla c₁ (c.emite ahora dst).1) ∨
      ∃ x, (c.emite ahora dst).2.2 = some x ∧ Sale c₁ (c.emite ahora dst).1 dst x) := by
  rcases c.emite_cases ahora dst with ⟨h, -⟩ | ⟨-, c', r, hc, h⟩ | ⟨-, -, -, h⟩ |
    ⟨-, -, c', ht, h⟩
  · rw [hv] at h
    cases h
  · rw [h]
    refine .inl ⟨rfl, (caduca_spec hc).2, ?_⟩
    unfold caduca at hc
    split at hc
    · cases hc
      rfl
    · split at hc
      · cases hc
        rfl
      · cases hc
  · rw [h]
    exact .inl ⟨rfl, viva_cerrarCon _ _, rfl⟩
  · rw [h]
    obtain ⟨hm, he⟩ := marco_temporiza ht
    refine .inr ⟨c', hm, he, temporiza_cases ht, ?_, c'.habla_dice ahora dst⟩
    rw [viva, ← he] at hv
    show (c'.habla ahora dst).1.viva = true
    unfold viva
    rcases c'.estado_habla ahora dst with e | ⟨-, e⟩ | ⟨-, e⟩
    · rw [e]
      exact hv
    · rw [e]
    · rw [e]

end Conexion

end BmoX.Pila
