import BmoX.Pila.Receptor

/-!
# What is received is what was sent

What each step of one end does to its numbers and to how they agree with those of the other, and
what is true of a segment on its way.
-/

namespace BmoX.Pila

open BmoX.Base

/-! ### A diary that goes on -/

/-- A diary goes on: the stream grows, unless it was closed, and the numbers move on. -/
structure Diario.Crece (d d' : Diario) : Prop where
  fase : d.fase ≠ .antes → d'.fase ≠ .antes ∧ d'.isn = d.isn
  aceptado : d.aceptado <+: d'.aceptado
  cerrado : d.cerrado = some d.aceptado → d'.aceptado = d.aceptado ∧ d'.cerrado = d.cerrado
  una : d.una ≤ d'.una
  nxt : d.nxt ≤ d'.nxt

theorem Diario.Crece.refl (d : Diario) : Diario.Crece d d :=
  ⟨fun h ↦ ⟨h, rfl⟩, List.prefix_refl _, fun _ ↦ ⟨rfl, rfl⟩, Nat.le_refl _, Nat.le_refl _⟩

/-- A connection whose FIN was asked for is closed, and takes nothing more once it is. -/
structure Firme (d : Diario) (c : Conexion) : Prop where
  pedido : c.finPedido = true → d.cerrado = some d.aceptado
  cerrado : d.cerrado ≠ none →
    d.cerrado = some d.aceptado ∧ (c.finPedido = true ∨ c.abierta = false)

/-- The diaries of both ends agree: nobody expects what was not sent, nor has an acknowledgement
of what was not received. -/
structure Cuadra (d p : Diario) : Prop where
  nxt : d.nxt ≤ p.aceptado.length + 2
  una : p.una ≤ d.nxt
  nace : p.fase = .antes → d.nxt = 0
  entregado : d.entregado <+: p.aceptado

/-- A connection in its slot. -/
structure Vigente (c : Conexion) (d p : Diario) : Prop where
  estado : c.viva = true ∨ ∃ por, c.estado = .cerrada por
  emisor : c.viva = true → ∃ n, Emisor d c n
  firme : Firme d c
  receptor : c.viva = true → Receptor d c p
  prefijo : d.entregado ++ c.rx <+: p.aceptado

/-- What a step of one end does, to its diary and to how it agrees with the other. -/
structure Avance (c' : Conexion) (d d' p : Diario) : Prop where
  crece : Diario.Crece d d'
  cuadra : Cuadra d' p
  una : d'.una ≤ p.nxt
  vigente : d'.fase = .vigente → Vigente c' d' p

/-- A receiver does not mind that the other end goes on. -/
theorem Receptor.crece {d p p' : Diario} {c : Conexion} (h : Receptor d c p)
    (hc : Diario.Crece p p') : Receptor d c p' := by
  refine ⟨h.callado, fun he ↦ ?_, fun he ↦ ?_, fun he he' ↦ ?_⟩
  · obtain ⟨h1, h2, h3⟩ := h.rcvNxt he
    obtain ⟨h4, h5⟩ := hc.fase h2
    exact ⟨h1, h4, by rw [h3, h5]⟩
  · obtain ⟨h1, h2⟩ := h.espera he
    obtain ⟨z, hz⟩ := hc.aceptado
    refine ⟨?_, h2.trans (Nat.succ_le_succ hc.aceptado.length_le)⟩
    rw [h1, ← hz, List.take_append_of_le_length (by omega)]
  · obtain ⟨h1, h2, h3⟩ := h.acabado he he'
    obtain ⟨h4, h5⟩ := hc.cerrado (by rw [h1, h2])
    exact ⟨h5.trans h1, h4.trans h2, by rw [h3, h4]⟩

theorem Vigente.crece {c : Conexion} {d p p' : Diario} (h : Vigente c d p)
    (hc : Diario.Crece p p') : Vigente c d p' :=
  ⟨h.estado, h.emisor, h.firme, fun hv ↦ (h.receptor hv).crece hc, h.prefijo.trans hc.aceptado⟩

/-- A receiver depends on two fields of its diary and three of its connection. -/
theorem Receptor.congr {d d' p : Diario} {c c' : Conexion} (h : Receptor d c p)
    (hn : d'.nxt = d.nxt) (he : d'.entregado ++ c'.rx = d.entregado ++ c.rx)
    (hr : c'.rcvNxt = c.rcvNxt) (hw : c'.espera = c.espera)
    (hs : c'.estado = .synEnviado ↔ c.estado = .synEnviado) : Receptor d' c' p := by
  refine ⟨fun e ↦ ?_, fun e ↦ ?_, fun e ↦ ?_, fun e e' ↦ ?_⟩
  · rw [hn, he]
    exact h.callado (hs.mp e)
  · rw [hn, hr]
    exact h.rcvNxt fun e' ↦ e (hs.mpr e')
  · rw [hn, he]
    exact h.espera (hw.symm.trans e)
  · rw [hn, he]
    exact h.acabado (hw.symm.trans e) fun e'' ↦ e' (hs.mpr e'')

/-! ### A connection in its slot -/

private theorem Diario.pasa_eq {d : Diario} {ac en : Bytes} {b : Bool} {c c' : Conexion} {u q : Nat}
    (hu : (c'.sndUna - c.sndUna).toNat = u - d.una) (hle : d.una ≤ u)
    (hq : (if c.estado = .synEnviado then if c'.estado = .establecida then 1 else 0
      else d.nxt + (c'.rcvNxt - c.rcvNxt).toNat) = q) :
    d.pasa ac en b c c' = { d with
      fase := if c'.estado = .libre then .despues else .vigente
      aceptado := d.aceptado ++ ac
      entregado := d.entregado ++ en
      cerrado := if b ∧ d.cerrado = none then some d.aceptado else d.cerrado
      una := u
      nxt := q } := by
  unfold Diario.pasa
  rw [hu, hq, Nat.add_sub_cancel' hle]

/-- A step of a connection in its slot, put together. -/
theorem avance_vigente {d p : Diario} {ac en : Bytes} {b : Bool} {c c' : Conexion} {u q : Nat}
    (hcu : Cuadra d p) (hu : (c'.sndUna - c.sndUna).toNat = u - d.una) (hle : d.una ≤ u) (hup : u ≤ p.nxt)
    (hq : (if c.estado = .synEnviado then if c'.estado = .establecida then 1 else 0
      else d.nxt + (c'.rcvNxt - c.rcvNxt).toNat) = q) (hqle : d.nxt ≤ q)
    (hqt : q ≤ p.aceptado.length + 2) (hnace : p.fase = .antes → q = 0)
    (hac : d.cerrado = some d.aceptado → ac = [])
    (hest : c'.viva = true ∨ c'.estado = .libre ∨ ∃ por, c'.estado = .cerrada por)
    (hfirme : Firme (d.pasa ac en b c c') c')
    (hem : c'.viva = true → ∃ n, Emisor { d with aceptado := d.aceptado ++ ac, una := u } c' n)
    (hrec : c'.viva = true → Receptor { d with entregado := d.entregado ++ en, nxt := q } c' p)
    (hpre : d.entregado ++ en ++ c'.rx <+: p.aceptado) :
    Avance c' d (d.pasa ac en b c c') p := by
  rw [Diario.pasa_eq hu hle hq] at hfirme ⊢
  refine ⟨⟨fun _ ↦ ⟨?_, rfl⟩, List.prefix_append _ _, fun h ↦ ?_, hle, hqle⟩,
    ⟨hqt, hcu.una.trans hqle, hnace, (List.prefix_append _ _).trans hpre⟩, hup, fun hfv ↦ ?_⟩
  · show (if c'.estado = .libre then Fase.despues else .vigente) ≠ .antes
    split <;> exact Fase.noConfusion
  · have hno : ¬(b = true ∧ d.cerrado = none) := fun h' ↦ by
      rw [h] at h'
      cases h'.2
    show d.aceptado ++ ac = d.aceptado ∧ (if _ then _ else d.cerrado) = d.cerrado
    rw [hac h, List.append_nil, if_neg hno]
    exact ⟨rfl, rfl⟩
  · have hnl : c'.estado ≠ .libre := fun e ↦ by
      have hfv : (if c'.estado = .libre then Fase.despues else .vigente) = .vigente := hfv
      rw [if_pos e] at hfv
      cases hfv
    refine ⟨?_, fun hv ↦ ?_, hfirme, fun hv ↦ ?_, hpre⟩
    · rcases hest with h | h | h
      · exact .inl h
      · exact absurd h hnl
      · exact .inr h
    · obtain ⟨n, hn⟩ := hem hv
      exact ⟨n, hn.congr rfl rfl rfl⟩
    · exact (hrec hv).congr rfl rfl rfl rfl Iff.rfl

/-- What a call of the application leaves alone. -/
theorem Conexion.Toca.marco {c c' : Conexion} {ac en : Bytes} {b : Bool}
    (h : c.Toca ac en b c') (hl : c.estado ≠ .libre) (he : c.estado ≠ .escucha) :
    c'.sndUna = c.sndUna ∧ c'.rcvNxt = c.rcvNxt ∧ en ++ c'.rx = c.rx ∧
      (c'.estado = c.estado ∨ c'.estado = .libre ∨ ∃ por, c'.estado = .cerrada por) := by
  cases h with
  | nada => exact ⟨rfl, rfl, rfl, .inl rfl⟩
  | recoge => exact ⟨rfl, rfl, rfl, .inl rfl⟩
  | pone => exact ⟨rfl, rfl, rfl, .inl rfl⟩
  | saca n => exact ⟨rfl, rfl, List.take_append_drop n c.rx, .inl rfl⟩
  | pideFin => exact ⟨rfl, rfl, rfl, .inl rfl⟩
  | acaba b estado vence hest => exact ⟨rfl, rfl, rfl, .inr hest⟩
  | escucha hle =>
    rcases hle with e | e
    · exact absurd e hl
    · exact absurd e he
  | conecta e => exact absurd e hl

/-- A call of the application keeps a stream that was closed as it was. -/
theorem Firme.toca {c c' : Conexion} {d : Diario} {ac en : Bytes} {b : Bool} (h : Firme d c)
    (ht : c.Toca ac en b c') (hl : c.estado ≠ .libre) (he : c.estado ≠ .escucha) :
    Firme (d.pasa ac en b c c') c' ∧ (d.cerrado = some d.aceptado → ac = []) := by
  -- the stream and its end, when no bytes go in
  have hnada : ∀ b : Bool, (d.cerrado ≠ none → (if b ∧ d.cerrado = none then some d.aceptado
      else d.cerrado) = some (d.aceptado ++ [])) ∧
      (b = true → (if b ∧ d.cerrado = none then some d.aceptado else d.cerrado) =
        some (d.aceptado ++ [])) := by
    intro b
    rw [List.append_nil]
    refine ⟨fun hn ↦ ?_, fun hb ↦ ?_⟩
    · rw [if_neg (fun h' ↦ hn h'.2)]
      exact (h.cerrado hn).1
    · by_cases hn : d.cerrado = none
      · rw [if_pos ⟨hb, hn⟩]
      · rw [if_neg (fun h' ↦ hn h'.2)]
        exact (h.cerrado hn).1
  have hsome : c.finPedido = true → d.cerrado ≠ none := fun hp e ↦ by
    rw [h.pedido hp] at e
    cases e
  -- the end after the call was there before it, or comes from it
  have hviejo : ∀ b : Bool, (if b ∧ d.cerrado = none then some d.aceptado else d.cerrado) ≠ none →
      d.cerrado ≠ none ∨ b = true := by
    intro b hne
    cases b with
    | true => exact .inr rfl
    | false => exact .inl fun e ↦ hne (by rw [if_neg (fun h' ↦ Bool.false_ne_true h'.1), e])
  cases ht with
  | nada b hb =>
    refine ⟨⟨fun hp ↦ (hnada b).1 (hsome hp), fun hne ↦ ?_⟩, fun _ ↦ rfl⟩
    rcases hviejo b hne with hv | hv
    · exact ⟨(hnada b).1 hv, (h.cerrado hv).2⟩
    · exact ⟨(hnada b).2 hv, .inr (hb hv)⟩
  | recoge =>
    refine ⟨⟨fun hp ↦ (hnada false).1 (hsome hp), fun hne ↦ ?_⟩, fun _ ↦ rfl⟩
    have hv := (hviejo false hne).resolve_right Bool.false_ne_true
    exact ⟨(hnada false).1 hv, (h.cerrado hv).2⟩
  | pone datos hf ha hlen =>
    have hab : c.abierta = true := by
      unfold Conexion.abierta
      rcases ha with e | e | e <;> rw [e]
    have hno : d.cerrado = none := by
      by_contra hne
      rcases (h.cerrado hne).2 with e | e
      · rw [hf] at e
        cases e
      · rw [hab] at e
        cases e
    refine ⟨⟨fun hp ↦ ?_, fun hne ↦ ?_⟩, fun e ↦ ?_⟩
    · rw [show ({ c with tx := c.tx ++ ac } : Conexion).finPedido = c.finPedido from rfl, hf] at hp
      cases hp
    · exact absurd hno ((hviejo false hne).resolve_right Bool.false_ne_true)
    · rw [hno] at e
      cases e
  | saca =>
    refine ⟨⟨fun hp ↦ (hnada false).1 (hsome hp), fun hne ↦ ?_⟩, fun _ ↦ rfl⟩
    have hv := (hviejo false hne).resolve_right Bool.false_ne_true
    exact ⟨(hnada false).1 hv, (h.cerrado hv).2⟩
  | pideFin =>
    exact ⟨⟨fun _ ↦ (hnada true).2 rfl, fun _ ↦ ⟨(hnada true).2 rfl, .inl rfl⟩⟩, fun _ ↦ rfl⟩
  | acaba b estado vence hest =>
    have hab : ({ c with estado, vence } : Conexion).abierta = false := by
      rcases hest with rfl | ⟨por, rfl⟩ <;> rfl
    refine ⟨⟨fun hp ↦ (hnada b).1 (hsome hp), fun hne ↦ ?_⟩, fun _ ↦ rfl⟩
    rcases hviejo b hne with hv | hv
    · exact ⟨(hnada b).1 hv, .inr hab⟩
    · exact ⟨(hnada b).2 hv, .inr hab⟩
  | escucha hle =>
    rcases hle with e | e
    · exact absurd e hl
    · exact absurd e he
  | conecta e => exact absurd e hl

/-- A connection in its slot is neither free nor a listener. -/
theorem Vigente.ocupada {c : Conexion} {d p : Diario} (h : Vigente c d p) :
    c.estado ≠ .libre ∧ c.estado ≠ .escucha := by
  rcases h.estado with hv | ⟨por, hv⟩
  · unfold Conexion.viva at hv
    constructor <;> intro e <;> rw [e] at hv <;> cases hv
  · rw [hv]
    exact ⟨Estado.noConfusion, Estado.noConfusion⟩

theorem Vigente.callado {c : Conexion} {d p : Diario} (h : Vigente c d p)
    (he : c.estado = .synEnviado) : d.nxt = 0 := by
  refine ((h.receptor ?_).callado he).1
  rw [Conexion.viva, he]

/-- A call of the application. -/
theorem Vigente.toca {c c' : Conexion} {d p : Diario} {ac en : Bytes} {b : Bool}
    (h : Vigente c d p) (hcu : Cuadra d p) (hup : d.una ≤ p.nxt)
    (ht : c.Toca ac en b c') : Avance c' d (d.pasa ac en b c c') p := by
  obtain ⟨hl, he⟩ := h.ocupada
  obtain ⟨hu, hr, hrx, hest⟩ := ht.marco hl he
  obtain ⟨hfir, hac⟩ := h.firme.toca ht hl he
  have hrec : d.entregado ++ en ++ c'.rx = d.entregado ++ c.rx := by
    rw [List.append_assoc, hrx]
  have hviva : c'.viva = true → c'.estado = c.estado := by
    intro hv
    rcases hest with e | e | ⟨por, e⟩
    · exact e
    · rw [Conexion.viva, e] at hv
      cases hv
    · rw [Conexion.viva, e] at hv
      cases hv
  have hvc : c'.viva = true → c.viva = true := fun hv ↦ by
    have e := hviva hv
    unfold Conexion.viva at hv ⊢
    rwa [e] at hv
  refine avance_vigente (u := d.una) (q := d.nxt) hcu
    (by rw [hu, UInt32.sub_self, Nat.sub_self]; rfl) (Nat.le_refl _) hup ?_ (Nat.le_refl _) hcu.nxt hcu.nace hac ?_ hfir
    (fun hv ↦ (((h.emisor (hvc hv)).choose_spec).toca (hvc hv) ht hv).2) (fun hv ↦ ?_) ?_
  · by_cases e : c.estado = .synEnviado
    · have hne : c'.estado ≠ .establecida := by
        intro e'
        rcases hest with h' | h' | ⟨por, h'⟩
        · exact absurd (e.symm.trans (h'.symm.trans e')) Estado.noConfusion
        · exact absurd (h'.symm.trans e') Estado.noConfusion
        · exact absurd (h'.symm.trans e') Estado.noConfusion
      rw [if_pos e, if_neg hne, h.callado e]
    · rw [if_neg e, hr, UInt32.sub_self]
      rfl
  · rcases hest with e | e | e
    · rcases h.estado with hv | ⟨por, hv⟩
      · refine .inl ?_
        unfold Conexion.viva at hv ⊢
        rwa [e]
      · exact .inr (.inr ⟨por, e.trans hv⟩)
    · exact .inr (.inl e)
    · exact .inr (.inr e)
  · have e := hviva hv
    refine (h.receptor (hvc hv)).congr rfl hrec hr ?_ (by rw [e])
    unfold Conexion.espera Conexion.recibe
    rw [e]
  · rw [hrec]
    exact h.prefijo

private theorem Conexion.estado_cerrarCon (c : Conexion) (por : Cierre) :
    (c.cerrarCon por).estado = .libre ∨ (c.cerrarCon por).estado = .cerrada por := by
  unfold cerrarCon
  dsimp only
  split
  · exact .inl rfl
  · exact .inr rfl

/-- What emitting leaves of a live connection. -/
theorem Conexion.estado_de_emite (c : Conexion) (ahora : UInt64) (dst : Bytes)
    (hv : c.viva = true) : (c.emite ahora dst).1.viva = true ∨
      (c.emite ahora dst).1.estado = .libre ∨
      ∃ por, (c.emite ahora dst).1.estado = .cerrada por := by
  rcases c.emite_cases ahora dst with ⟨h, -⟩ | ⟨-, c', r, hc, h⟩ | ⟨-, -, -, h⟩ |
    ⟨-, -, c', ht, h⟩
  · rw [hv] at h
    cases h
  · rw [h]
    have hcad : ∃ por, c' = c.cerrarCon por := by
      unfold caduca at hc
      split at hc
      · cases hc
        exact ⟨_, rfl⟩
      · split at hc
        · cases hc
          exact ⟨_, rfl⟩
        · cases hc
    obtain ⟨por, rfl⟩ := hcad
    rcases c.estado_cerrarCon por with e | e
    · exact .inr (.inl e)
    · exact .inr (.inr ⟨_, e⟩)
  · rw [h]
    rcases c.estado_cerrarCon .agotada with e | e
    · exact .inr (.inl e)
    · exact .inr (.inr ⟨_, e⟩)
  · rw [h]
    refine .inl ?_
    rw [viva, ← (marco_temporiza ht).2] at hv
    unfold viva
    rcases c'.estado_habla ahora dst with e | ⟨-, e⟩ | ⟨-, e⟩
    · rw [e]
      exact hv
    · rw [e]
    · rw [e]

/-- A step that asks for no FIN keeps a stream that was closed as it was. -/
theorem Firme.igual {c c' : Conexion} {d : Diario} (h : Firme d c)
    (hp : c'.finPedido = c.finPedido) (ha : c.abierta = false → c'.abierta = false) :
    Firme (d.pasa [] [] false c c') c' := by
  have hc : (d.pasa [] [] false c c').cerrado = d.cerrado := by
    have hno : ¬(false = true ∧ d.cerrado = none) := fun h' ↦ Bool.false_ne_true h'.1
    show (if false = true ∧ d.cerrado = none then some d.aceptado else d.cerrado) = d.cerrado
    exact if_neg hno
  have hac : (d.pasa [] [] false c c').aceptado = d.aceptado := List.append_nil _
  refine ⟨fun h' ↦ ?_, fun hne ↦ ?_⟩
  · rw [hc, hac]
    exact h.pedido (hp.symm.trans h')
  · rw [hc] at hne
    rw [hc, hac, hp]
    exact ⟨(h.cerrado hne).1, (h.cerrado hne).2.imp_right ha⟩

/-- Emitting. -/
theorem Vigente.emite {c : Conexion} {d p : Diario} (h : Vigente c d p) (hcu : Cuadra d p)
    (hup : d.una ≤ p.nxt) (ahora : UInt64) (dst : Bytes) :
    Avance (c.emite ahora dst).1 d (d.pasa [] [] false c (c.emite ahora dst).1) p ∧
    ∀ r, (c.emite ahora dst).2.2 = some r → ∃ s, Segmento.escribir dst c.miIp c.suIp s = .ok r ∧
      Segmento.Admitida s.banderas ∧ s.origen = c.miPuerto ∧ s.destino = c.suPuerto ∧
      (∃ pos, Dicho d s pos) ∧ d.aceptado.length ≤ d.una + bufer ∧
      (s.banderas &&& ack ≠ 0 → 1 ≤ d.nxt ∧ p.fase ≠ .antes ∧ s.ack = serial p.isn d.nxt) := by
  cases hv : c.viva with
  | false =>
    have he : c.emite ahora dst = (c, none, none) := by
      unfold Conexion.emite
      rw [hv]
      rfl
    rw [he]
    refine ⟨h.toca hcu hup (.nada false Bool.noConfusion), fun r hr ↦ ?_⟩
    cases hr
  | true =>
    obtain ⟨n, hn⟩ := h.emisor hv
    have hrec := h.receptor hv
    obtain ⟨hm, -⟩ := c.marco_emite ahora dst
    have hest := c.estado_emite ahora dst
    -- the FIN of the peer stays as it was
    have hesp : (c.emite ahora dst).1.viva = true →
        (c.emite ahora dst).1.espera = c.espera := by
      intro hv'
      unfold Conexion.espera Conexion.recibe
      rcases hest hv' with e | ⟨e, e'⟩ | ⟨e, e'⟩
      · rw [e]
      · rw [e, e']
        rfl
      · rw [e, e']
        rfl
    have hab : c.abierta = false → (c.emite ahora dst).1.abierta = false := by
      intro ha
      rcases c.estado_de_emite ahora dst hv with hv' | e | ⟨por, e⟩
      · unfold Conexion.abierta at ha ⊢
        rcases hest hv' with e | ⟨-, e⟩ | ⟨-, e⟩
        · rwa [e]
        · rw [e]
        · rw [e]
      · rw [Conexion.abierta, e]
      · rw [Conexion.abierta, e]
    have hrecoge : Recoge d c (c.emite ahora dst).1 p d.nxt := by
      refine hrec.recoge_igual hm.rx hm.rcvNxt (fun e e' ↦ ?_) fun hv' ↦
        ⟨hesp hv', (saludo_emite_iff hv').1⟩
      have hv' : (c.emite ahora dst).1.viva = true := by rw [Conexion.viva, e']
      rw [(saludo_emite_iff hv').1.mpr e] at e'
      cases e'
    have hdice := hn.emite hv h.firme.pedido ahora dst
    refine ⟨avance_vigente (u := d.una) (q := d.nxt) hcu ?_ (Nat.le_refl _) hup hrecoge.suma
      (Nat.le_refl _) hcu.nxt hcu.nace (fun _ ↦ rfl) (c.estado_de_emite ahora dst hv)
      (h.firme.igual hm.finPedido hab) (fun hv' ↦ ?_) (fun hv' ↦ ?_) ?_, fun r hr ↦ ?_⟩
    · rw [hm.sndUna, UInt32.sub_self, Nat.sub_self]
      rfl
    · obtain ⟨m, hem⟩ := hdice.1 hv'
      exact ⟨m, hem.congr rfl rfl (List.append_nil _)⟩
    · exact (hrecoge.receptor hv').congr rfl (by rw [List.append_nil]) rfl rfl Iff.rfl
    · rw [List.append_nil]
      exact hrecoge.prefijo
    · obtain ⟨s, h1, h2, h3, h4, h5, h6⟩ := hdice.2 r hr
      refine ⟨s, h1, h2, h3, h4, h5, hn.length_aceptado_le, fun ha ↦ ?_⟩
      obtain ⟨h7, h8⟩ := h6 ha
      obtain ⟨h9, h10, h11⟩ := hrec.rcvNxt h7
      exact ⟨h9, h10, h8.trans h11⟩

namespace Conexion

/-- The fields that a segment never changes: who talks with whom, and whether the FIN was asked
for. -/
structure Fijo (c c' : Conexion) : Prop where
  miIp : c'.miIp = c.miIp
  suIp : c'.suIp = c.suIp
  miPuerto : c'.miPuerto = c.miPuerto
  suPuerto : c'.suPuerto = c.suPuerto
  finPedido : c'.finPedido = c.finPedido

theorem fijo_entra (c : Conexion) (s : Segmento) (ahora : UInt64) :
    Fijo c (c.entra s ahora).1 := by
  rcases c.entra_cases s ahora with ⟨-, he⟩ | ⟨-, -, -, he⟩ | ⟨-, -, -, -, he⟩ | ⟨-, he⟩ |
    ⟨-, -, -, -, -, c', b, hc, -, he⟩
  · rw [he]
    unfold entraSynEnviado
    dsimp only
    split
    · exact ⟨rfl, rfl, rfl, rfl, rfl⟩
    · split
      · split <;> exact ⟨rfl, rfl, rfl, rfl, rfl⟩
      · split <;> exact ⟨rfl, rfl, rfl, rfl, rfl⟩
  · rw [he]
    exact ⟨rfl, rfl, rfl, rfl, rfl⟩
  · rw [he]
    exact ⟨rfl, rfl, rfl, rfl, rfl⟩
  · rw [he]
    exact ⟨rfl, rfl, rfl, rfl, rfl⟩
  · rw [he]
    have hm := marco_confirma hc
    cases b with
    | true => exact ⟨hm.miIp, hm.suIp, hm.miPuerto, hm.suPuerto, hm.finPedido⟩
    | false =>
      have hm' := marco_toma c' s ahora
      rw [if_neg Bool.false_ne_true]
      exact ⟨hm'.miIp.trans hm.miIp, hm'.suIp.trans hm.suIp, hm'.miPuerto.trans hm.miPuerto,
        hm'.suPuerto.trans hm.suPuerto, hm'.finPedido.trans hm.finPedido⟩

/-- A segment does not open again what was closing. -/
theorem abierta_entra {c : Conexion} {s : Segmento} {ahora : UInt64} (h : c.abierta = false) :
    (c.entra s ahora).1.abierta = false := by
  have hcierra : ∀ (c : Conexion) por, (c.cerrarCon por).abierta = false := by
    intro c por
    unfold abierta
    rcases c.estado_cerrarCon por with e | e <;> rw [e]
  rcases c.entra_cases s ahora with ⟨h1, -⟩ | ⟨-, -, -, he⟩ | ⟨h1, -, -, -, -⟩ | ⟨-, he⟩ |
    ⟨-, -, -, -, -, c', b, hc, -, he⟩
  · rw [abierta, h1] at h
    cases h
  · rw [he]
    exact hcierra _ _
  · rw [abierta, h1] at h
    cases h
  · rw [he]
    exact h
  · have hcon : c'.abierta = false := by
      rcases c.confirma_cases s ahora with ⟨-, -, hx⟩ | ⟨h1, -, -, -⟩ | ⟨-, -, hx⟩ | ⟨-, -, hx⟩ |
        ⟨-, -, -, ⟨-, -, hx⟩ | ⟨-, hx⟩⟩
      · rw [hx] at hc
        cases hc
      · rw [abierta, h1] at h
        cases h
      · rw [hx] at hc
        cases hc
        exact h
      · rw [hx] at hc
        cases hc
        exact h
      · rw [hx] at hc
        cases hc
        exact hcierra _ _
      · rw [hx] at hc
        cases hc
        have hav : (c.avanza s ahora).abierta = false := by
          unfold abierta at h ⊢
          rwa [(c.estado_avanza s ahora).1]
        show (if (c.avanza s ahora).finConfirmado then (c.avanza s ahora).trasFin ahora
          else c.avanza s ahora).abierta = false
        split
        · unfold trasFin
          split
          · rfl
          · rfl
          · exact hcierra _ _
          · exact hav
        · exact hav
    rw [he]
    cases b with
    | true => exact hcon
    | false =>
      show (c'.toma s ahora).abierta = false
      rcases c'.toma_cases s ahora with ⟨b, ht⟩ | ⟨-, ht⟩ | ⟨-, -, -, -, ht⟩
      · rw [ht]
        exact hcon
      · rw [ht]
        unfold abierta at hcon ⊢
        rwa [(estado_conDatos ..).1]
      · rw [ht]
        unfold traeFin
        dsimp only
        have hest := (c'.estado_conDatos (c'.nuevos s) (c'.tomados s)).1
        split
        · next e =>
          rw [hest] at e
          rw [abierta, e] at hcon
          cases hcon
        · split <;> rfl
        · rfl
        · unfold abierta at hcon ⊢
          rwa [hest]

/-- What a segment leaves of a live connection. -/
theorem estado_de_entra (c : Conexion) (s : Segmento) (ahora : UInt64) (hv : c.viva = true) :
    (c.entra s ahora).1.viva = true ∨ (c.entra s ahora).1.estado = .libre ∨
      ∃ por, (c.entra s ahora).1.estado = .cerrada por := by
  rcases c.llegable_entra s ahora with e | e
  · refine .inl ?_
    unfold viva at hv ⊢
    rwa [e]
  · unfold llegable at e
    unfold viva
    split at e
    · next h => exact .inr (.inl h)
    · next h => exact .inl (by rw [h])
    · next h => exact .inl (by rw [h])
    · next h => exact .inl (by rw [h])
    · next h => exact .inl (by rw [h])
    · next h => exact .inl (by rw [h])
    · next h => exact .inr (.inr ⟨_, h⟩)
    · next h => exact .inr (.inr ⟨_, h⟩)
    · cases e

end Conexion

/-- A segment that comes. -/
theorem Vigente.entra {c : Conexion} {d p : Diario} (h : Vigente c d p) (hv : c.viva = true)
    (hcu : Cuadra d p) (hup : d.una ≤ p.nxt) {s : Segmento}
    (hack : s.banderas &&& rst = 0 → AckCierto d p.nxt s)
    (ho : s.banderas &&& rst ≠ 0 ∨ ∃ pos, Oido p d.nxt s pos)
    (ahora : UInt64) (debe : Bool) :
    Avance { (c.entra s ahora).1 with ackDebido := debe } d
      (d.pasa [] [] false c { (c.entra s ahora).1 with ackDebido := debe }) p := by
  obtain ⟨n, hn⟩ := h.emisor hv
  obtain ⟨u, hu⟩ := hn.entra hack ahora
  obtain ⟨q, hq⟩ := (h.receptor hv).entra ho ahora
  have hup' : u ≤ p.nxt := by
    rcases hu.tope with e | e
    · rw [e]
      exact hup
    · exact e
  have hnace : p.fase = .antes → q = 0 := by
    intro hp
    rcases hq.nacida with e | e
    · rw [e]
      exact hcu.nace hp
    · exact absurd hp e
  refine avance_vigente (u := u) (q := q) hcu hu.resta hu.una hup' hq.suma hq.crece hq.tope hnace
    (fun _ ↦ rfl) (c.estado_de_entra s ahora hv)
    (h.firme.igual (c.fijo_entra s ahora).finPedido Conexion.abierta_entra)
    (fun hv' ↦ ?_) (fun hv' ↦ ?_) ?_
  · obtain ⟨m, hm⟩ := hu.emisor hv'
    exact ⟨m, hm.isn, hm.sndUna, hm.sndNxt, by rw [List.append_nil]; exact hm.tx, hm.cabe,
      by rw [List.append_nil]; exact hm.orden, hm.saludo, hm.saludoNxt,
      by rw [List.append_nil]; exact hm.fin⟩
  · exact (hq.receptor hv').congr rfl (by rw [List.append_nil]) rfl rfl Iff.rfl
  · rw [List.append_nil]
    exact hq.prefijo

/-! ### A connection is born -/

theorem Extremos.Suya.de {e : Extremos} {x : Bool} {c c' : Conexion} (h : e.Suya x c')
    (hv : c.viva = true) (h1 : c'.miIp = c.miIp) (h2 : c'.suIp = c.suIp)
    (h3 : c'.miPuerto = c.miPuerto) (h4 : c'.suPuerto = c.suPuerto) : e.Suya x c := by
  obtain ⟨-, g1, g2, g3, g4⟩ := h
  exact ⟨hv, h1.symm.trans g1, h2.symm.trans g2, h3.symm.trans g3, h4.symm.trans g4⟩

private theorem avance_nace {c' : Conexion} {p : Diario} {q : Nat} (hcu : Cuadra .nuevo p)
    (hq : q ≤ 1) (hn : p.fase = .antes → q = 0) (hv : c'.viva = true)
    (hs : c'.estado = .synEnviado ∨ c'.estado = .synRecibido) (hu : c'.sndUna = c'.isn)
    (hx : c'.sndNxt = c'.isn) (htx : c'.tx = []) (hrx : c'.rx = []) (hf : c'.finPedido = false)
    (hfc : c'.finConfirmado = false)
    (hr : Receptor { Diario.nuevo with fase := .vigente, isn := c'.isn, nxt := q } c' p) :
    Avance c' .nuevo { Diario.nuevo with fase := .vigente, isn := c'.isn, nxt := q } p := by
  have hu0 : p.una = 0 := Nat.le_zero.mp hcu.una
  refine ⟨⟨fun h ↦ absurd rfl h, List.prefix_refl _, fun h ↦ (by cases h), Nat.le_refl _,
    Nat.zero_le _⟩, ⟨hq.trans (Nat.le_add_left _ _), by rw [hu0]; exact Nat.zero_le _, hn,
      List.nil_prefix⟩, Nat.zero_le _, fun _ ↦ ⟨.inl hv, fun _ ↦ ⟨0, ?_⟩,
      ⟨fun h ↦ ?_, fun h ↦ absurd rfl h⟩, fun _ ↦ hr, ?_⟩⟩
  · refine ⟨rfl, hu.trans (serial_zero _).symm, hx.trans (serial_zero _).symm, htx, ?_,
      .inl ⟨Nat.le_refl 0, Nat.zero_le _⟩, ⟨fun _ ↦ rfl, fun _ ↦ hs⟩, fun _ ↦ Nat.zero_le 1, ?_⟩
    · rw [htx]
      exact Nat.zero_le _
    · rw [hfc]
      exact ⟨fun h ↦ (by cases h), fun h ↦ (by cases h)⟩
  · rw [hf] at h
    cases h
  · rw [hrx]
    exact List.nil_prefix

/-- What the application opens. -/
theorem avance_conecta {c c' : Conexion} {p : Diario} {e : Extremos} {x : Bool} {ac en : Bytes}
    {b : Bool} (hcu : Cuadra .nuevo p) (hns : ¬e.Suya x c) (hs : e.Suya x c')
    (ht : c.Toca ac en b c') : Avance c' .nuevo { Diario.nuevo with
      fase := .vigente, isn := c'.isn, nxt := if c'.estado = .synEnviado then 0 else 1 } p := by
  cases ht with
  | nada => exact absurd hs hns
  | recoge => exact absurd (hs.de hs.1 rfl rfl rfl rfl) hns
  | pone => exact absurd (hs.de hs.1 rfl rfl rfl rfl) hns
  | saca => exact absurd (hs.de hs.1 rfl rfl rfl rfl) hns
  | pideFin => exact absurd (hs.de hs.1 rfl rfl rfl rfl) hns
  | acaba b estado vence hest =>
    have hv := hs.1
    rcases hest with rfl | ⟨por, rfl⟩ <;> cases hv
  | escucha hl c' hv =>
    rw [hs.1] at hv
    cases hv
  | conecta hl =>
    rw [if_pos rfl]
    exact avance_nace hcu (Nat.zero_le 1) (fun _ ↦ rfl) rfl (.inl rfl) rfl rfl rfl rfl rfl rfl
      ⟨fun _ ↦ ⟨rfl, rfl⟩, fun h ↦ absurd rfl h, fun h ↦ (by cases h), fun _ h ↦ absurd rfl h⟩

/-- What a SYN opens. -/
theorem avance_syn {c c' : Conexion} {p : Diario} {e : Extremos} {x : Bool} {o d : Ip} {b : Bytes}
    {ahora : UInt64} (hcu : Cuadra .nuevo p) (hns : ¬e.Suya x c) (hs : e.Suya x c')
    (hm : Mueve c (.entrada o d b ahora) c')
    (ho : ∀ s, Segmento.leer b o d = .ok s → e.Para x o d s →
      s.banderas &&& rst ≠ 0 ∨ ∃ pos, Oido p 0 s pos) : Avance c' .nuevo { Diario.nuevo with
      fase := .vigente, isn := c'.isn, nxt := if c'.estado = .synEnviado then 0 else 1 } p := by
  cases hm with
  | igual => exact absurd hs hns
  | @llega _ _ _ _ s hl hv ha =>
    have hf := c.fijo_entra s ahora
    exact absurd (hs.de hv hf.miIp hf.suIp hf.miPuerto hf.suPuerto) hns
  | reta hl hv ha he => exact absurd (hs.de hv rfl rfl rfl rfl) hns
  | @nace _ _ _ _ s hl hsyn hli isn esc =>
    have hpara : e.Para x o d s := ⟨hs.2.2.1, hs.2.1, hs.2.2.2.2, hs.2.2.2.1⟩
    obtain ⟨pos, hoi⟩ := (ho s hl hpara).resolve_left (not_not.mpr hsyn.1)
    have hflag : s.banderas &&& syn ≠ 0 := by
      intro h0
      have h1 : s.banderas &&& (syn ||| ack) &&& syn = syn &&& syn := by rw [hsyn.2]
      rw [UInt8.and_assoc, show (syn ||| ack) &&& syn = syn by decide, h0] at h1
      exact absurd h1 (by decide)
    have hpos := hoi.syn hflag
    have hsec : s.sec + 1 = serial p.isn 1 := by rw [hoi.sec, hpos, serial_zero, serial_one]
    rw [if_neg (by exact Estado.noConfusion)]
    exact avance_nace hcu (Nat.le_refl 1) (fun h ↦ absurd h hoi.nacida) rfl (.inr rfl) rfl rfl rfl
      rfl rfl rfl ⟨fun h ↦ (by cases h), fun _ ↦ ⟨Nat.le_refl 1, hoi.nacida, hsec⟩,
        fun _ ↦ ⟨(List.take_zero).symm, Nat.le_add_left 1 _⟩, fun h ↦ (by cases h)⟩

/-! ### What is on its way -/

/-- What was sent tells the stream of its sender, from a number near the one its receiver
expected, and acknowledges what was received. -/
structure Veraz (d p : Diario) (q : Paquete) (s : Segmento) (pos : Nat) : Prop where
  nacida : d.fase ≠ .antes
  sec : s.sec = serial d.isn pos
  delante : pos ≤ q.nxt + 16384
  detras : q.nxt ≤ pos + 16384
  datos : s.datos <+: d.aceptado.drop (pos - 1)
  primero : s.datos ≠ [] → 1 ≤ pos
  fin : s.banderas &&& fin ≠ 0 → s.datos = [] ∧ d.cerrado = some d.aceptado ∧
    pos = d.aceptado.length + 1
  syn : s.banderas &&& syn ≠ 0 → pos = 0
  ack : s.banderas &&& ack ≠ 0 → p.fase ≠ .antes ∧ ∃ a, s.ack = serial p.isn a ∧ 1 ≤ a ∧
    q.una ≤ a ∧ a ≤ d.nxt

namespace Veraz

variable {d p : Diario} {q : Paquete} {s : Segmento} {pos : Nat}

/-- What was true when it was sent stays true. -/
theorem crece {d' p' : Diario} (h : Veraz d p q s pos) (hd : Diario.Crece d d')
    (hp : Diario.Crece p p') : Veraz d' p' q s pos := by
  obtain ⟨h1, h2⟩ := hd.fase h.nacida
  refine ⟨h1, by rw [h.sec, h2], h.delante, h.detras, ?_, h.primero, fun hf ↦ ?_, h.syn,
    fun ha ↦ ?_⟩
  · obtain ⟨z, hz⟩ := hd.aceptado
    refine h.datos.trans ?_
    rw [← hz, List.drop_append]
    exact List.prefix_append _ _
  · obtain ⟨f1, f2, f3⟩ := h.fin hf
    obtain ⟨f4, f5⟩ := hd.cerrado f2
    exact ⟨f1, by rw [f5, f4, f2], by rw [f4, f3]⟩
  · obtain ⟨a1, a, a2, a3, a4, a5⟩ := h.ack ha
    obtain ⟨b1, b2⟩ := hp.fase a1
    exact ⟨b1, a, by rw [a2, b2], a3, a4, a5.trans hd.nxt⟩

theorem oido (h : Veraz d p q s pos) (hm : q.nxt ≤ p.nxt) (hv : p.nxt < q.nxt + 2147483648) :
    Oido d p.nxt s pos := by
  have h1 := h.delante
  have h2 := h.detras
  exact ⟨h.nacida, h.sec, by omega, by omega, h.datos, h.primero, h.fin, h.syn⟩

theorem ackCierto (h : Veraz d p q s pos) (hcu : Cuadra d p)
    (hv : p.una < q.una + 2147483648) : AckCierto p d.nxt s := by
  intro ha
  obtain ⟨-, a, a2, a3, a4, a5⟩ := h.ack ha
  exact ⟨a, a2, a3, a5.trans hcu.nxt, by omega, a5⟩

/-- What a connection says is true. -/
theorem de_dicho (hf : d.fase ≠ .antes) (h : Dicho d s pos)
    (hl : d.aceptado.length ≤ d.una + bufer) (hcd : Cuadra d p) (hcp : Cuadra p d)
    (ha : s.banderas &&& Pila.ack ≠ 0 → 1 ≤ d.nxt ∧ p.fase ≠ .antes ∧ s.ack = serial p.isn d.nxt)
    {x : Bool} {o e : Ip} {b : Bytes} : Veraz d p ⟨x, o, e, b, p.una, p.nxt⟩ s pos := by
  have hb : bufer = 8192 := rfl
  have h1 := h.tope
  have h2 := h.una
  have h3 := hcp.una
  have h4 := hcp.nxt
  refine ⟨hf, h.sec, ?_, ?_, h.datos, h.primero, h.fin, h.syn, fun hk ↦ ?_⟩
  · show pos ≤ p.nxt + 16384
    omega
  · show p.nxt ≤ pos + 16384
    omega
  · obtain ⟨k1, k2, k3⟩ := ha hk
    exact ⟨k2, d.nxt, k3, k1, hcd.una, Nat.le_refl _⟩

end Veraz

end BmoX.Pila
