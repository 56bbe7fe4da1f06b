import BmoX.Pila.Llegada

/-!
# What a blind attacker cannot do

`platform/shared/bmo-pila/src/tcp/mod.rs:385–502, 619–636`. Which segments change a live
connection, how many challenges leave in a second, and which connections nobody took stay.
-/

namespace BmoX.Pila

open BmoX.Base

namespace Tcp

/-! ### What is remembered of a run -/

/-- Since when each slot has a connection past its handshake, and how many challenges were
given in each second of the counter. -/
structure Historia where
  establecida : Fin conexiones → Option UInt64
  retos : UInt64 → Nat

/-- Nothing happened yet. -/
def Historia.nueva : Historia := ⟨fun _ ↦ none, fun _ ↦ 0⟩

/-- A live connection whose handshake is over. -/
def pasada (c : Conexion) : Bool := c.viva && c.estado ≠ .synEnviado && c.estado ≠ .synRecibido

/-- The second in which a call gives a challenge, if it gives one. -/
def retoDado (t : Tcp) : Orden → Option UInt64
  | .entrada ipOrigen ipDestino b ahora =>
    match Segmento.leer b ipOrigen ipDestino with
    | .error _ => none
    | .ok s =>
      match t.exacta ipOrigen ipDestino s with
      | none => none
      | some i =>
        if ((t.c i).entra s ahora).2.1 = .reto ∧ (t.segundo ahora).2 < retosPorSegundo then
          some (t.segundo ahora).1
        else none
  | _ => none

/-- What is remembered after a call. -/
def Historia.sigue (h : Historia) (hmac : Bytes → Bytes → Arr 32) (t : Tcp) (o : Orden) :
    Historia where
  establecida i :=
    if pasada ((t.hace hmac o).c i) then
      match h.establecida i with
      | some desde => some desde
      | none => o.hora
    else none
  retos w := h.retos w + if t.retoDado o = some w then 1 else 0

/-- The stacks that some run of calls reaches, with what is remembered of it. -/
inductive Alcanza (hmac : Bytes → Bytes → Arr 32) : Tcp → Historia → Prop
  | nueva (secreto : Bytes) : Alcanza hmac (Tcp.nueva secreto) .nueva
  | sigue {t : Tcp} {h : Historia} (ha : Alcanza hmac t h) (o : Orden) :
      Alcanza hmac (t.hace hmac o) (h.sigue hmac t o)

/-! ### Segments and live connections -/

/-- The four addresses of a segment are those of a connection. -/
def De (c : Conexion) (ipOrigen ipDestino : Ip) (s : Segmento) : Prop :=
  c.miIp = ipDestino ∧ c.suIp = ipOrigen ∧ c.miPuerto = s.destino ∧ c.suPuerto = s.origen

/-- A live connection that a segment changes is the one it is for. -/
theorem entrada_ajena (hmac : Bytes → Bytes → Arr 32) (t : Tcp) (o d : Ip) (b : Bytes)
    (ahora : UInt64) {i : Fin conexiones} (hv : (t.c i).viva = true)
    (hd : ∀ s, Segmento.leer b o d = .ok s → ¬De (t.c i) o d s) :
    (t.entrada hmac o d b ahora).1.c i = t.c i := by
  have hm := t.hace_mueve hmac (.entrada o d b ahora) i
  rw [show t.hace hmac (.entrada o d b ahora) = (t.entrada hmac o d b ahora).1 from rfl] at hm
  generalize (t.entrada hmac o d b ahora).1.c i = c' at hm ⊢
  cases hm with
  | igual => rfl
  | llega hl _ ha => exact absurd ha (hd _ hl)
  | reta hl _ ha _ => exact absurd ha (hd _ hl)
  | nace _ _ hl =>
    rw [Conexion.viva, hl] at hv
    cases hv

/-- A segment that changes the state of a live connection has the number that allows it. -/
theorem entrada_estado (hmac : Bytes → Bytes → Arr 32) (t : Tcp) {o d : Ip} {b : Bytes}
    {ahora : UInt64} {s : Segmento} {i : Fin conexiones} (hl : Segmento.leer b o d = .ok s)
    (hv : (t.c i).viva = true)
    (he : ((t.entrada hmac o d b ahora).1.c i).estado ≠ (t.c i).estado) :
    (s.banderas &&& Pila.rst ≠ 0 →
      if (t.c i).estado = .synEnviado then s.banderas &&& ack ≠ 0 ∧ s.ack = (t.c i).isn + 1
      else s.sec = (t.c i).rcvNxt) ∧
    (s.banderas &&& syn ≠ 0 → s.banderas &&& Pila.rst = 0 →
      (t.c i).estado = .synEnviado ∧ s.banderas &&& ack ≠ 0 ∧ s.ack = (t.c i).isn + 1) := by
  have hm := t.hace_mueve hmac (.entrada o d b ahora) i
  rw [show t.hace hmac (.entrada o d b ahora) = (t.entrada hmac o d b ahora).1 from rfl] at hm
  generalize (t.entrada hmac o d b ahora).1.c i = c' at hm he
  cases hm with
  | igual => exact absurd rfl he
  | @llega _ _ _ _ s' hl' _ ha =>
    obtain rfl : s' = s := Except.ok.inj (hl'.symm.trans hl)
    rcases Conexion.entra_estado he with ⟨h1, h2, h3⟩ | ⟨h1, h2, h3⟩ | ⟨h1, h2, h3⟩
    · rw [if_pos h1]
      exact ⟨fun _ ↦ ⟨h2, h3⟩, fun _ _ ↦ ⟨h1, h2, h3⟩⟩
    · rw [if_neg h1]
      exact ⟨fun _ ↦ h3, fun _ h ↦ absurd h h2⟩
    · exact ⟨fun h ↦ absurd h2 h, fun h ↦ absurd h3 h⟩
  | reta => exact absurd rfl he
  | nace _ _ hl =>
    rw [Conexion.viva, hl] at hv
    cases hv

/-! ### Challenges in a second -/

/-- The counter of challenges says how many were given in its second, none later. -/
structure Contados (t : Tcp) (h : Historia) : Prop where
  ahora : h.retos t.retos.1 = t.retos.2.toNat
  tope : t.retos.2 ≤ retosPorSegundo
  luego : ∀ w, t.retos.1 < w → h.retos w = 0
  antes : ∀ w, h.retos w ≤ retosPorSegundo.toNat

/-- The calls that keep the counter keep what it says. -/
theorem Contados.igual {t t' : Tcp} {h h' : Historia} (hc : Contados t h)
    (ht : t'.retos = t.retos) (hh : h'.retos = h.retos) : Contados t' h' := by
  obtain ⟨h1, h2, h3, h4⟩ := hc
  rw [← ht, ← hh] at h1
  rw [← ht] at h2
  rw [← ht, ← hh] at h3
  rw [← hh] at h4
  exact ⟨h1, h2, h3, h4⟩

private theorem segundo_cases (t : Tcp) (ahora : UInt64) :
    t.segundo ahora = t.retos ∨ (t.retos.1 < ahora ∧ t.segundo ahora = (ahora, 0)) := by
  unfold segundo
  split
  · next h =>
    refine .inr ⟨?_, rfl⟩
    unfold restaSat at h
    split at h
    · next hle =>
      rw [ge_iff_le, UInt64.le_iff_toNat_le, UInt64.toNat_sub_of_le _ _ hle] at h
      rw [UInt64.lt_iff_toNat_lt]
      have : (1000 : UInt64).toNat = 1000 := rfl
      omega
    · exact absurd h (by decide)
  · exact .inl rfl

private theorem retos_ronda (t : Tcp) (ahora : UInt64) (dst : Bytes) (is : List (Fin conexiones)) :
    (t.ronda ahora dst is).1.retos = t.retos := by
  induction is generalizing t with
  | nil => rfl
  | cons i is ih =>
    have he : (t.emitir i ahora dst).1.retos = t.retos := by
      unfold emitir
      dsimp only
      split <;> rfl
    unfold ronda
    split
    · next t' n dst' h =>
      rw [h] at he
      exact he
    · next t' h =>
      rw [h] at he
      exact (ih t').trans he

/-- What a call does to the counter: the challenge it gives is counted in its second. -/
theorem retos_hace (hmac : Bytes → Bytes → Arr 32) (t : Tcp) (o : Orden) :
    (t.retoDado o = none ∧ ((t.hace hmac o).retos = t.retos ∨
      ∃ ahora, (t.hace hmac o).retos = t.segundo ahora)) ∨
    ∃ ahora, t.retoDado o = some (t.segundo ahora).1 ∧
      (t.segundo ahora).2 < retosPorSegundo ∧
      (t.hace hmac o).retos = ((t.segundo ahora).1, (t.segundo ahora).2 + 1) := by
  cases o with
  | conectar miIp suIp suPuerto ahora =>
    refine .inl ⟨rfl, .inl ?_⟩
    show (t.conectar hmac miIp suIp suPuerto ahora).1.retos = t.retos
    unfold conectar
    split
    · rfl
    · split
      · rfl
      · split
        · rfl
        · dsimp only
          split <;> rfl
  | escuchar miIp puerto =>
    refine .inl ⟨rfl, .inl ?_⟩
    show (t.escuchar miIp puerto).1.retos = t.retos
    unfold escuchar
    split
    · rfl
    · split
      · rfl
      · split <;> rfl
  | aceptar asa =>
    refine .inl ⟨rfl, .inl ?_⟩
    show (t.aceptar asa).1.retos = t.retos
    unfold aceptar
    split <;> rfl
  | enviar asa datos =>
    refine .inl ⟨rfl, .inl ?_⟩
    show (t.enviar asa datos).1.retos = t.retos
    unfold enviar
    split
    · rfl
    · dsimp only
      split <;> rfl
  | recibir asa cuanto =>
    refine .inl ⟨rfl, .inl ?_⟩
    show (t.recibir asa cuanto).1.retos = t.retos
    unfold recibir
    split <;> rfl
  | cerrar asa =>
    refine .inl ⟨rfl, .inl ?_⟩
    show (t.cerrar asa).1.retos = t.retos
    unfold cerrar
    split
    · rfl
    · dsimp only
      split <;> rfl
  | abortar asa =>
    refine .inl ⟨rfl, .inl ?_⟩
    show (t.abortar asa).1.retos = t.retos
    unfold abortar
    split
    · rfl
    · dsimp only
      split <;> rfl
  | soltar asa =>
    refine .inl ⟨rfl, .inl ?_⟩
    show (t.soltar asa).1.retos = t.retos
    unfold soltar
    split
    · rfl
    · dsimp only
      split <;> rfl
  | entrada ipOrigen ipDestino b ahora =>
    have hh : (t.hace hmac (.entrada ipOrigen ipDestino b ahora)).retos =
        (t.entrada hmac ipOrigen ipDestino b ahora).1.retos := rfl
    rw [hh]
    cases hs : Segmento.leer b ipOrigen ipDestino with
    | error e =>
      refine .inl ⟨by simp only [retoDado, hs], .inl ?_⟩
      simp only [entrada, hs]
    | ok s =>
      cases hi : t.exacta ipOrigen ipDestino s with
      | none =>
        refine .inl ⟨by simp only [retoDado, hs, hi], .inl ?_⟩
        simp only [entrada, hs, hi]
        split
        · unfold enEscucha
          split
          · rfl
          · split
            · rfl
            · split <;> rfl
        · rfl
      | some i =>
        simp only [retoDado, entrada, hs, hi]
        unfold enConexion
        generalize (t.c i).entra s ahora = x
        obtain ⟨c, e, r⟩ := x
        cases e with
        | nada =>
          rw [if_neg (fun h ↦ Efecto.noConfusion h.1)]
          exact .inl ⟨rfl, .inl rfl⟩
        | reto =>
          dsimp only
          unfold reto
          dsimp only
          rw [show (t.pon i c).segundo ahora = t.segundo ahora from rfl]
          by_cases h : (t.segundo ahora).2 < retosPorSegundo
          · rw [if_pos ⟨rfl, h⟩, if_pos h]
            exact .inr ⟨ahora, rfl, h, rfl⟩
          · rw [if_neg (fun h' ↦ h h'.2), if_neg h]
            exact .inl ⟨rfl, .inr ⟨ahora, rfl⟩⟩
  | salida ahora dst =>
    refine .inl ⟨rfl, .inl ?_⟩
    show (t.salida ahora dst).1.retos = t.retos
    unfold salida
    split
    · dsimp only
      split <;> rfl
    · exact retos_ronda t ahora dst _

/-- The counter keeps saying how many challenges its second had. -/
theorem Contados.sigue {t : Tcp} {h : Historia} (hc : Contados t h)
    (hmac : Bytes → Bytes → Arr 32) (o : Orden) : Contados (t.hace hmac o) (h.sigue hmac t o) := by
  -- the second that a time falls in, with the same challenges
  have hseg : ∀ ahora, h.retos (t.segundo ahora).1 = (t.segundo ahora).2.toNat ∧
      (t.segundo ahora).2 ≤ retosPorSegundo ∧ ∀ w, (t.segundo ahora).1 < w → h.retos w = 0 := by
    intro ahora
    rcases t.segundo_cases ahora with he | ⟨hlt, he⟩
    · rw [he]
      exact ⟨hc.ahora, hc.tope, hc.luego⟩
    · rw [he]
      have h0 : (0 : UInt32) ≤ retosPorSegundo := by decide
      exact ⟨hc.luego _ hlt, h0, fun w hw ↦ hc.luego w (UInt64.lt_trans hlt hw)⟩
  rcases t.retos_hace hmac o with ⟨hn, he⟩ | ⟨ahora, hs, hlt, he⟩
  · have hr : (h.sigue hmac t o).retos = h.retos := by
      funext w
      show h.retos w + (if t.retoDado o = some w then 1 else 0) = h.retos w
      rw [hn, if_neg (Option.some_ne_none w).symm]
      rfl
    rcases he with he | ⟨ahora, he⟩
    · exact hc.igual he hr
    · obtain ⟨h1, h2, h3⟩ := hseg ahora
      rw [← he] at h1 h2 h3
      rw [← hr] at h1 h3
      exact ⟨h1, h2, h3, fun w ↦ hr ▸ hc.antes w⟩
  · obtain ⟨h1, h2, h3⟩ := hseg ahora
    have hr : ∀ w, (h.sigue hmac t o).retos w =
        h.retos w + if (t.segundo ahora).1 = w then 1 else 0 := by
      intro w
      show h.retos w + (if t.retoDado o = some w then 1 else 0) = _
      rw [hs]
      simp only [Option.some.injEq]
    have hn : (t.segundo ahora).2.toNat < 10 := UInt32.lt_iff_toNat_lt.mp hlt
    have hsuc : ((t.segundo ahora).2 + 1).toNat = (t.segundo ahora).2.toNat + 1 := by
      rw [UInt32.toNat_add, UInt32.toNat_one]
      omega
    refine ⟨?_, ?_, fun w hw ↦ ?_, fun w ↦ ?_⟩
    · rw [he, hr, if_pos rfl, h1, hsuc]
    · rw [he, UInt32.le_iff_toNat_le, hsuc]
      exact hn
    · rw [he] at hw
      rw [hr, h3 w hw, if_neg]
      rintro rfl
      exact absurd hw (UInt64.lt_irrefl _)
    · rw [hr]
      by_cases hw : (t.segundo ahora).1 = w
      · rw [if_pos hw, ← hw, h1]
        exact hn
      · rw [if_neg hw]
        exact hc.antes w

private theorem Alcanza.contados {hmac : Bytes → Bytes → Arr 32} {t : Tcp} {h : Historia}
    (ha : Alcanza hmac t h) : Contados t h := by
  induction ha with
  | nueva secreto =>
    have h0 : (0 : UInt32) ≤ retosPorSegundo := by decide
    exact ⟨rfl, h0, fun _ _ ↦ rfl, fun _ ↦ Nat.zero_le _⟩
  | sigue _ o ih => exact ih.sigue hmac o

/-! ### Connections that nobody took -/

/-- A connection that the stack accepted and the application never took. -/
def sinRecoger (c : Conexion) : Bool := c.viva && c.huerfana && c.escucha.isSome

/-- A call establishes a connection from the handshake only, at its time. -/
theorem mueve_establecida {c c' : Conexion} {o : Orden} (hm : Mueve c o c')
    (h : c'.estado = .establecida) : (c.estado = .establecida ∧ c'.desde = c.desde) ∨
      (pasada c = false ∧ o.hora = some c'.desde) := by
  have hcierra : ∀ por, (c.cerrarCon por).estado ≠ .establecida := by
    intro por
    unfold Conexion.cerrarCon
    dsimp only
    split <;> exact Estado.noConfusion
  cases hm with
  | igual => exact .inl ⟨h, rfl⟩
  | conecta => cases h
  | escucha => cases h
  | acepta => exact .inl ⟨h, rfl⟩
  | envia => exact .inl ⟨h, rfl⟩
  | saca => exact .inl ⟨h, rfl⟩
  | pideFin => exact .inl ⟨h, rfl⟩
  | cierraSyn => exact absurd h (hcierra _)
  | calla => cases h
  | aborta => exact absurd h (hcierra _)
  | suelta => cases h
  | deja he => exact absurd (he.symm.trans h) Estado.noConfusion
  | llega =>
    rcases Conexion.entra_establecida h with h' | ⟨hs, hd⟩
    · exact .inl h'
    · refine .inr ⟨?_, congrArg some hd.symm⟩
      unfold pasada
      rcases hs with hs | hs <;> rw [hs] <;> simp
  | reta => exact .inl ⟨h, rfl⟩
  | nace => cases h
  | @habla ahora dst =>
    have hv : (c.emite ahora dst).1.viva = true := by rw [Conexion.viva, h]
    rcases c.estado_emite ahora dst hv with he | ⟨-, he⟩ | ⟨-, he⟩
    · exact .inl ⟨he.symm.trans h, (c.marco_emite ahora dst).1.desde⟩
    · exact absurd (he.symm.trans h) Estado.noConfusion
    · exact absurd (he.symm.trans h) Estado.noConfusion

/-- An established connection is so since the time it holds; what is not past its handshake is
remembered as nothing. -/
structure Fechadas (t : Tcp) (h : Historia) : Prop where
  establecida : ∀ i, (t.c i).estado = .establecida → h.establecida i = some (t.c i).desde
  ninguna : ∀ i, pasada (t.c i) = false → h.establecida i = none

/-- The times stay right. -/
theorem Fechadas.sigue {t : Tcp} {h : Historia} (hf : Fechadas t h)
    (hmac : Bytes → Bytes → Arr 32) (o : Orden) : Fechadas (t.hace hmac o) (h.sigue hmac t o) := by
  refine ⟨fun i he ↦ ?_, fun i hp ↦ if_neg (by rw [hp]; exact Bool.false_ne_true)⟩
  have hp : pasada ((t.hace hmac o).c i) = true := by
    unfold pasada Conexion.viva
    rw [he]
    rfl
  refine (if_pos hp).trans ?_
  rcases mueve_establecida (t.hace_mueve hmac o i) he with ⟨h1, h2⟩ | ⟨h1, h2⟩
  · rw [hf.establecida i h1, h2]
  · rw [hf.ninguna i h1, h2]

private theorem Alcanza.fechadas {hmac : Bytes → Bytes → Arr 32} {t : Tcp} {h : Historia}
    (ha : Alcanza hmac t h) : Fechadas t h := by
  induction ha with
  | nueva secreto =>
    refine ⟨fun i he ↦ ?_, fun _ _ ↦ rfl⟩
    cases he
  | sigue _ o ih => exact ih.sigue hmac o

/-- What the clock ends when the stack has nothing to send: an established connection, the end
of TIME-WAIT, or the last retry without an answer. -/
def Vencida (c : Conexion) (ahora : UInt64) : Prop :=
  c.estado = .establecida ∨
  (c.estado = .tiempoEspera ∧ restaSat ahora c.desde ≥ tiempoEsperaMs) ∨
  ∃ v, c.vence = some v ∧ v ≤ ahora ∧ c.reintentos ≥ reintentosMax

/-- A connection that nobody took, established that long ago, ends if its time came, and else
stays alive. -/
theorem emite_sinRecoger {c : Conexion} {ahora : UInt64} {dst : Bytes}
    (hs : sinRecoger c = true) (hd : c.estado = .establecida → restaSat ahora c.desde ≥ tiempoEsperaMs)
    (hn : (c.emite ahora dst).2.2 = none) :
    (c.emite ahora dst).1.viva = false ↔ Vencida c ahora := by
  unfold sinRecoger at hs
  rw [Bool.and_eq_true, Bool.and_eq_true] at hs
  obtain ⟨⟨hv, hh⟩, he⟩ := hs
  constructor
  · intro hm
    rcases c.emite_cases ahora dst with ⟨h, -⟩ | ⟨-, c', r, hc, -⟩ | ⟨-, -, ht, -⟩ |
      ⟨-, -, c', ht, h⟩
    · rw [hv] at h
      cases h
    · unfold Conexion.caduca at hc
      split at hc
      · next h => exact .inr (.inl h)
      · split at hc
        · next h => exact .inl h.2.2.1
        · cases hc
    · unfold Conexion.temporiza at ht
      split at ht
      · cases ht
      · next v hvence =>
        split at ht
        · cases ht
        · next hle =>
          split at ht
          · next hr => exact .inr (.inr ⟨v, hvence, UInt64.not_lt.mp hle, hr⟩)
          · cases ht
    · rw [h] at hm hn
      have hest := ((c'.marco_habla ahora dst).2 hn).trans (Conexion.marco_temporiza ht).2
      rw [Conexion.viva, hest, ← Conexion.viva, hv] at hm
      cases hm
  · intro hven
    have hcad : ∀ x, c.caduca ahora = some x → (c.emite ahora dst).1.viva = false := by
      intro x hx
      unfold Conexion.emite
      rw [if_neg (by rw [hv]; exact Bool.false_ne_true), hx]
      exact (Conexion.caduca_spec hx).2
    cases hx : c.caduca ahora with
    | some x => exact hcad x hx
    | none =>
      unfold Conexion.caduca at hx
      split at hx
      · cases hx
      · next h1 =>
        split at hx
        · cases hx
        · next h2 =>
          rcases hven with h | h | ⟨v, hvence, hle, hr⟩
          · exact absurd ⟨hh, he, h, hd h⟩ h2
          · exact absurd h h1
          · have ht : c.temporiza ahora = none := by
              unfold Conexion.temporiza
              rw [hvence]
              dsimp only
              rw [if_neg (UInt64.not_lt.mpr hle), if_pos hr]
            unfold Conexion.emite
            rw [if_neg (by rw [hv]; exact Bool.false_ne_true)]
            unfold Conexion.caduca
            rw [if_neg h1, if_neg h2, ht]
            exact Conexion.viva_cerrarCon _ _

/-- When nothing has to leave, the stack has no reset pending and every slot had its chance. -/
theorem salida_none {t : Tcp} {ahora : UInt64} {dst : Bytes} (hd : Segmento.cabecera ≤ dst.length)
    (h : (t.salida ahora dst).2 = none) (i : Fin conexiones) :
    ((t.c i).emite ahora dst).2.2 = none ∧
      (t.salida ahora dst).1.c i = ((t.c i).emite ahora dst).1 := by
  unfold salida at h ⊢
  split at h
  · next r hr =>
    obtain ⟨x, hx⟩ := @Segmento.escribir_cabe dst r.miIp r.suIp
      ⟨r.miPuerto, r.suPuerto, r.sec, r.ack, Pila.rst ||| ack, 0, none, []⟩
      (show 20 + 0 ≤ Segmento.maximo by decide) hd
    dsimp only at h
    rw [hx] at h
    cases h
  · exact (ronda_none (turnos_nodup t.turno) h).1 i (mem_turnos t.turno i)

/-- Which segments change a live connection, how many challenges a second has, and that after
the stack has nothing to send no connection that nobody took has been established for long,
exactly if every one that was had its end in sight. -/
theorem blindado {hmac : Bytes → Bytes → Arr 32} {t : Tcp} {h : Historia}
    (ha : Alcanza hmac t h) :
    (∀ o d b ahora i, (t.c i).viva = true →
      (∀ s, Segmento.leer b o d = .ok s → ¬De (t.c i) o d s) →
      (t.entrada hmac o d b ahora).1.c i = t.c i) ∧
    (∀ o d b ahora s i, Segmento.leer b o d = .ok s → (t.c i).viva = true →
      ((t.entrada hmac o d b ahora).1.c i).estado ≠ (t.c i).estado →
      (s.banderas &&& Pila.rst ≠ 0 →
        if (t.c i).estado = .synEnviado then s.banderas &&& ack ≠ 0 ∧ s.ack = (t.c i).isn + 1
        else s.sec = (t.c i).rcvNxt) ∧
      (s.banderas &&& syn ≠ 0 → s.banderas &&& Pila.rst = 0 →
        (t.c i).estado = .synEnviado ∧ s.banderas &&& ack ≠ 0 ∧ s.ack = (t.c i).isn + 1)) ∧
    (∀ w, h.retos w ≤ retosPorSegundo.toNat) ∧
    ∀ ahora dst, Segmento.cabecera ≤ dst.length → (t.salida ahora dst).2 = none →
      ((∀ i desde, sinRecoger ((t.salida ahora dst).1.c i) = true →
        (h.sigue hmac t (.salida ahora dst)).establecida i = some desde →
        restaSat ahora desde < tiempoEsperaMs) ↔
      ∀ i desde, sinRecoger (t.c i) = true → h.establecida i = some desde →
        restaSat ahora desde ≥ tiempoEsperaMs → Vencida (t.c i) ahora) := by
  refine ⟨fun o d b ahora i hv hd ↦ entrada_ajena hmac t o d b ahora hv hd,
    fun o d b ahora s i hl hv he ↦ entrada_estado hmac t hl hv he, ha.contados.antes,
    fun ahora dst hd hn ↦ ?_⟩
  have hf := ha.fechadas
  have hf' := hf.sigue hmac (.salida ahora dst)
  constructor
  · intro hp i desde hs he hle
    obtain ⟨hnone, hc⟩ := salida_none hd hn i
    by_contra hven
    -- it stays alive, in its state, and is remembered since then
    have hage : (t.c i).estado = .establecida → restaSat ahora (t.c i).desde ≥ tiempoEsperaMs := by
      intro h1
      have := hf.establecida i h1
      rw [he] at this
      rw [← Option.some.inj this]
      exact hle
    have hv : ((t.c i).emite ahora dst).1.viva = true := by
      rw [← Bool.not_eq_false]
      exact fun h0 ↦ hven ((emite_sinRecoger hs hage hnone).mp h0)
    obtain ⟨hm, hest⟩ := (t.c i).marco_emite ahora dst
    have hest := hest hnone hv
    have hs' : sinRecoger ((t.salida ahora dst).1.c i) = true := by
      rw [hc]
      unfold sinRecoger at hs ⊢
      rw [hm.huerfana, hm.escucha, hv]
      rw [Bool.and_eq_true, Bool.and_eq_true] at hs
      rw [hs.1.2, hs.2]
      rfl
    have hpas : pasada ((t.hace hmac (.salida ahora dst)).c i) = true := by
      have h0 : pasada (t.c i) = true := by
        rw [← Bool.not_eq_false]
        intro h0
        rw [hf.ninguna i h0] at he
        cases he
      show pasada ((t.salida ahora dst).1.c i) = true
      rw [hc]
      unfold pasada at h0 ⊢
      rw [hest, hv]
      rw [Bool.and_eq_true, Bool.and_eq_true] at h0
      rw [h0.1.2, h0.2]
      rfl
    have hlt := hp i desde hs' ((if_pos hpas).trans (by rw [he]))
    exact absurd hle (UInt64.not_le.mpr hlt)
  · intro hp i desde hs he
    obtain ⟨hnone, hc⟩ := salida_none hd hn i
    rw [hc] at hs
    obtain ⟨hm, hest⟩ := (t.c i).marco_emite ahora dst
    unfold sinRecoger at hs
    rw [Bool.and_eq_true, Bool.and_eq_true, hm.huerfana, hm.escucha] at hs
    obtain ⟨⟨hv, hh⟩, hes⟩ := hs
    have hest := hest hnone hv
    have hv0 : (t.c i).viva = true := by
      rw [Conexion.viva, ← hest]
      exact hv
    have hs0 : sinRecoger (t.c i) = true := by
      unfold sinRecoger
      rw [hv0, hh, hes]
      rfl
    rw [← UInt64.not_le]
    intro hle
    have he0 : h.establecida i = some desde := by
      have hif : (if pasada ((t.hace hmac (.salida ahora dst)).c i) then
        (match h.establecida i with
        | some desde => some desde
        | none => some ahora) else none) = some desde := he
      split at hif
      · split at hif
        · next d hd => rw [hd, hif]
        · obtain rfl := Option.some.inj hif
          unfold restaSat at hle
          rw [if_pos (UInt64.le_refl _), UInt64.sub_self] at hle
          exact absurd hle (by decide)
      · cases hif
    have hven := hp i desde hs0 he0 hle
    have hage : (t.c i).estado = .establecida → restaSat ahora (t.c i).desde ≥ tiempoEsperaMs := by
      intro h1
      have := hf.establecida i h1
      rw [he0] at this
      rw [← Option.some.inj this]
      exact hle
    have := (emite_sinRecoger hs0 hage hnone).mpr hven
    rw [hv] at this
    cases this

/-- A stack and what is remembered of it, after a list of calls. -/
def recuerda (hmac : Bytes → Bytes → Arr 32) (x : Tcp × Historia) (os : List Orden) :
    Tcp × Historia :=
  os.foldl (fun x o ↦ (x.1.hace hmac o, x.2.sigue hmac x.1 o)) x

private theorem Alcanza.recuerda {hmac : Bytes → Bytes → Arr 32} {x : Tcp × Historia}
    (ha : Alcanza hmac x.1 x.2) (os : List Orden) :
    Alcanza hmac (Tcp.recuerda hmac x os).1 (Tcp.recuerda hmac x os).2 := by
  induction os generalizing x with
  | nil => exact ha
  | cons o os ih => exact ih (ha.sigue o)

/-- The bytes of a segment on its way. -/
def enCable (ipOrigen ipDestino : Ip) (s : Segmento) : Bytes :=
  match Segmento.escribir (zeros (s.desp + s.datos.length)) ipOrigen ipDestino s with
  | .ok (n, b) => b.take n
  | .error _ => []

/-- A server at 10.0.0.1 and its client at 10.0.0.2. -/
def servidor : Ip := Arr.pad 4 [10, 0, 0, 1]

def cliente : Ip := Arr.pad 4 [10, 0, 0, 2]

/-- The keyed hash, under the key 1, 2, …, 32, of the server's port 80 and the client's 40000. -/
def hmacFijo : Bytes → Bytes → Arr 32 := fun _ _ ↦ Arr.pad 32
  [40, 202, 214, 117, 122, 3, 55, 52, 228, 194, 105, 198, 61, 170, 115, 46, 200, 139, 63, 140, 115,
    191, 105, 18, 173, 59, 30, 64, 34, 32, 149, 36]

/-- The client's segments come in; the server listens and answers. -/
def saludo : List Orden :=
  [.escuchar servidor 80,
    .entrada cliente servidor (enCable cliente servidor ⟨40000, 80, 100, 0, syn, 1000, none, []⟩) 0,
    .salida 0 (zeros 24),
    .entrada cliente servidor (enCable cliente servidor
      ⟨40000, 80, 101, 0x28CAD676, ack, 1000, none, []⟩) 0]

/-- After the greeting, and after the client closed its side. -/
def saludada : Tcp × Historia :=
  recuerda hmacFijo (Tcp.nueva ((List.range 32).map fun i ↦ UInt8.ofNat (i + 1)), .nueva) saludo

def despedida : Tcp × Historia :=
  recuerda hmacFijo saludada
    [.entrada cliente servidor (enCable cliente servidor
      ⟨40000, 80, 101, 0x28CAD676, fin ||| ack, 1000, none, []⟩) 1, .salida 1 (zeros 24)]

private theorem alcanza_saludada : Alcanza hmacFijo saludada.1 saludada.2 :=
  Alcanza.recuerda (x := (Tcp.nueva _, .nueva)) (.nueva _) saludo

/-- A minute after the greeting the stack ends the connection that nobody took, and it has answered
few segments. -/
theorem blindado_saludada : saludada.2.retos 0 ≤ retosPorSegundo.toNat ∧
    ∀ i desde, sinRecoger ((saludada.1.salida 60000 (zeros 24)).1.c i) = true →
      (saludada.2.sigue hmacFijo saludada.1 (.salida 60000 (zeros 24))).establecida i = some desde →
      restaSat 60000 desde < tiempoEsperaMs := by
  obtain ⟨-, -, hretos, hfecha⟩ := blindado alcanza_saludada
  have hest : ∀ i, sinRecoger (saludada.1.c i) = true →
      (saludada.1.c i).estado = .establecida := by decide +kernel
  refine ⟨hretos 0, (hfecha 60000 (zeros 24) (by decide) (by decide +kernel)).mpr ?_⟩
  exact fun i _ hs _ _ ↦ .inl (hest i hs)

/-- A minute after its peer closed, a connection that nobody took is still there. -/
theorem huerfana_olvidada : Alcanza hmacFijo despedida.1 despedida.2 ∧
    (despedida.1.salida 60001 (zeros 24)).2 = none ∧
    sinRecoger ((despedida.1.salida 60001 (zeros 24)).1.c 1) = true ∧
    ((despedida.1.salida 60001 (zeros 24)).1.c 1).estado = .cierreEspera ∧
    (despedida.2.sigue hmacFijo despedida.1 (.salida 60001 (zeros 24))).establecida 1 = some 0 ∧
    restaSat 60001 0 ≥ tiempoEsperaMs :=
  ⟨alcanza_saludada.recuerda _, by decide +kernel, by decide +kernel, by decide +kernel,
    by decide +kernel, by decide⟩

end Tcp

end BmoX.Pila
