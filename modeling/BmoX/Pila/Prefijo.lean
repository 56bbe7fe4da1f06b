import BmoX.Pila.Entrega

/-!
# A prefix of the stream

The numbers of both ends of a connection and all that is on its way between them agree in every
run, so what one end received is a prefix of what the other accepted.
-/

namespace BmoX.Pila

open BmoX.Base

/-! ### Runs -/

namespace Red

variable {e : Extremos} {hmac : Bytes → Bytes → Arr 32} {r : Red}

/-- Both ends agree, and all that was sent is true. -/
structure Vale (e : Extremos) (r : Red) : Prop where
  unica : ∀ x k, e.Suya x ((r.t x).c k) → k = e.ranura x ∧ (r.d x).fase = .vigente
  suya : ∀ x, (r.d x).fase = .vigente → (r.c e x).viva = true → e.Suya x (r.c e x)
  antes : ∀ x, (r.d x).fase = .antes → r.d x = .nuevo
  cuadra : ∀ x, Cuadra (r.d x) (r.d !x)
  vigente : ∀ x, (r.d x).fase = .vigente → Vigente (r.c e x) (r.d x) (r.d !x)
  red : ∀ q ∈ r.red, (q.una ≤ (r.d !q.de).una ∧ q.nxt ≤ (r.d !q.de).nxt) ∧
    ∀ s, Segmento.leer q.b q.ipOrigen q.ipDestino = .ok s →
      e.Para (!q.de) q.ipOrigen q.ipDestino s → s.banderas &&& rst ≠ 0 ∨
        ∃ pos, Veraz (r.d q.de) (r.d !q.de) q s pos

/-- What a step does at the end it happens at. -/
structure Local (e : Extremos) (x : Bool) (c' : Conexion) (d d' p : Diario) : Prop where
  avance : Avance c' d d' p
  antes : d'.fase = .antes → d' = .nuevo
  suya : d'.fase = .vigente → c'.viva = true → e.Suya x c'
  vigente : e.Suya x c' → d'.fase = .vigente

private theorem Vale.una_le (h : r.Vale e) (x : Bool) : (r.d x).una ≤ (r.d !x).nxt := by
  have := (h.cuadra !x).una
  rwa [Bool.not_not] at this

/-- What comes to an end of a run is heard right. -/
def Oye (e : Extremos) (r : Red) (x : Bool) (o : Tcp.Orden) : Prop :=
  ∀ ipOrigen ipDestino b ahora s, o = .entrada ipOrigen ipDestino b ahora →
    Segmento.leer b ipOrigen ipDestino = .ok s → e.Para x ipOrigen ipDestino s →
    (s.banderas &&& rst = 0 → AckCierto (r.d x) (r.d !x).nxt s) ∧
      (s.banderas &&& rst ≠ 0 ∨ ∃ pos, Oido (r.d !x) (r.d x).nxt s pos)

/-- A call of the application, a segment or a chance to emit leaves the addresses alone, and
brings nothing back to life. -/
theorem suya_de_vigente {x : Bool} {o : Tcp.Orden} (h : r.Vale e)
    (hf : (r.d x).fase = .vigente)
    (hv : (((r.t x).hace hmac o).c (e.ranura x)).viva = true) :
    e.Suya x (((r.t x).hace hmac o).c (e.ranura x)) := by
  have hvig := h.vigente x hf
  have hocu := hvig.ocupada
  have hm := (r.t x).hace_mueve hmac o (e.ranura x)
  change Mueve (r.c e x) o _ at hm
  generalize ((r.t x).hace hmac o).c (e.ranura x) = c' at hm hv ⊢
  have hcon : ∀ c' : Conexion, c'.viva = true → (c'.viva = true → (r.c e x).viva = true) →
      c'.miIp = (r.c e x).miIp → c'.suIp = (r.c e x).suIp → c'.miPuerto = (r.c e x).miPuerto →
      c'.suPuerto = (r.c e x).suPuerto → e.Suya x c' := by
    intro c' hv' hvc h1 h2 h3 h4
    obtain ⟨-, g1, g2, g3, g4⟩ := h.suya x hf (hvc hv')
    exact ⟨hv', h1.trans g1, h2.trans g2, h3.trans g3, h4.trans g4⟩
  cases hm with
  | igual => exact h.suya x hf hv
  | conecta hl => exact absurd hl hocu.1
  | escucha hl => exact absurd hl hocu.1
  | acepta => exact hcon _ hv id rfl rfl rfl rfl
  | envia => exact hcon _ hv id rfl rfl rfl rfl
  | saca => exact hcon _ hv id rfl rfl rfl rfl
  | pideFin => exact hcon _ hv id rfl rfl rfl rfl
  | cierraSyn =>
    rw [Conexion.viva_cerrarCon] at hv
    cases hv
  | calla he => exact absurd he hocu.2
  | aborta =>
    rw [Conexion.viva_cerrarCon] at hv
    cases hv
  | suelta => cases hv
  | deja => exact hcon _ hv id rfl rfl rfl rfl
  | @llega _ _ _ ahora s _ hvc _ =>
    have hfi := (r.c e x).fijo_entra s ahora
    exact hcon _ hv (fun _ ↦ hvc) hfi.miIp hfi.suIp hfi.miPuerto hfi.suPuerto
  | reta => exact hcon _ hv id rfl rfl rfl rfl
  | nace _ _ hl => exact absurd hl hocu.1
  | @habla ahora dst =>
    have hma := ((r.c e x).marco_emite ahora dst).1
    refine hcon _ hv (fun hv' ↦ ?_) hma.miIp hma.suIp hma.miPuerto hma.suPuerto
    rcases (r.c e x).emite_cases ahora dst with ⟨-, he⟩ | ⟨h', -⟩ | ⟨h', -⟩ | ⟨h', -⟩
    · rw [he] at hv'
      exact hv'
    · exact h'
    · exact h'
    · exact h'

private theorem llegado_spec {t : Tcp} {o : Tcp.Orden} {i : Fin conexiones} {s : Segmento}
    (h : t.llegado o i = some s) : ∃ ipOrigen ipDestino b ahora,
      o = .entrada ipOrigen ipDestino b ahora ∧ Segmento.leer b ipOrigen ipDestino = .ok s ∧
      (t.c i).miIp = ipDestino ∧ (t.c i).suIp = ipOrigen ∧ (t.c i).miPuerto = s.destino ∧
      (t.c i).suPuerto = s.origen := by
  unfold Tcp.llegado at h
  split at h
  · next ipOrigen ipDestino b ahora =>
    split at h
    · cases h
    · next s' hl =>
      split at h
      · next hx =>
        obtain rfl := Option.some.inj h
        exact ⟨ipOrigen, ipDestino, b, ahora, rfl, hl, (Tcp.exacta_spec hx).2⟩
      · cases h
  · cases h

/-- A segment that arrives at the stack of a connection in its slot. -/
theorem avance_entrada {x : Bool} {ipOrigen ipDestino : Ip} {b : Bytes} {ahora : UInt64}
    (h : r.Vale e) (hf : (r.d x).fase = .vigente)
    (ho : Oye e r x (.entrada ipOrigen ipDestino b ahora)) :
    Avance (((r.t x).hace hmac (.entrada ipOrigen ipDestino b ahora)).c (e.ranura x)) (r.d x)
      ((r.d x).pasa [] [] false (r.c e x)
        (((r.t x).hace hmac (.entrada ipOrigen ipDestino b ahora)).c (e.ranura x))) (r.d !x) := by
  have hvig := h.vigente x hf
  have hup := h.una_le x
  have hquieta : ((r.t x).hace hmac (.entrada ipOrigen ipDestino b ahora)).c (e.ranura x) =
      r.c e x → Avance (((r.t x).hace hmac (.entrada ipOrigen ipDestino b ahora)).c (e.ranura x))
        (r.d x) ((r.d x).pasa [] [] false (r.c e x)
          (((r.t x).hace hmac (.entrada ipOrigen ipDestino b ahora)).c (e.ranura x))) (r.d !x) := by
    intro hc
    rw [hc]
    exact hvig.toca (h.cuadra x) hup (.nada false Bool.noConfusion)
  cases hl : (r.t x).llegado (.entrada ipOrigen ipDestino b ahora) (e.ranura x) with
  | some s =>
    obtain ⟨hv, ahora', debe, hc⟩ := @Tcp.hace_llegado hmac _ _ _ _ hl
    obtain ⟨o, d, b', ahora'', heq, hle, h1, h2, h3, h4⟩ := llegado_spec hl
    obtain ⟨-, g1, g2, g3, g4⟩ := h.suya x hf hv
    have hpara : e.Para x o d s :=
      ⟨h2.symm.trans g2, h1.symm.trans g1, h4.symm.trans g4, h3.symm.trans g3⟩
    obtain ⟨hack, hoi⟩ := ho o d b' ahora'' s heq hle hpara
    rw [hc]
    exact hvig.entra hv (h.cuadra x) hup hack hoi ahora' debe
  | none =>
    refine hquieta ?_
    cases hv : (r.c e x).viva with
    | true => exact Tcp.hace_sin_llegado hl hv rfl
    | false =>
      have hm := (r.t x).hace_mueve hmac (.entrada ipOrigen ipDestino b ahora) (e.ranura x)
      change Mueve (r.c e x) _ _ at hm
      generalize ((r.t x).hace hmac (.entrada ipOrigen ipDestino b ahora)).c (e.ranura x) = c'
        at hm ⊢
      cases hm with
      | igual => rfl
      | llega _ hv' _ =>
        rw [hv] at hv'
        cases hv'
      | reta _ hv' _ _ =>
        rw [hv] at hv'
        cases hv'
      | nace _ _ hli => exact absurd hli hvig.ocupada.1

/-- What a step does at the end it happens at. -/
theorem Vale.local (h : r.Vale e) {x : Bool} {o : Tcp.Orden} (hr : ¬r.Reabre e hmac x o)
    (ho : Oye e r x o) : Local e x (((r.t x).hace hmac o).c (e.ranura x)) (r.d x)
      ((r.d x).sigue e x (r.t x) o (r.c e x) (((r.t x).hace hmac o).c (e.ranura x))) (r.d !x) := by
  have hcu := h.cuadra x
  cases hf : (r.d x).fase with
  | despues =>
    have hd : (r.d x).sigue e x (r.t x) o (r.c e x) (((r.t x).hace hmac o).c (e.ranura x)) =
        r.d x := by
      unfold Diario.sigue
      rw [hf]
    have hno : r.d x ≠ .nuevo := fun he ↦ by
      rw [he] at hf
      cases hf
    rw [hd]
    refine ⟨⟨.refl _, hcu, h.una_le x, fun h' ↦ ?_⟩, fun h' ↦ ?_, fun h' ↦ ?_, fun h' ↦ ?_⟩
    · rw [hf] at h'
      cases h'
    · rw [hf] at h'
      cases h'
    · rw [hf] at h'
      cases h'
    · exfalso
      refine hr ⟨e.ranura x, fun hs ↦ ?_, h', .inr ?_⟩
      · have := (h.unica x _ hs).2
        rw [hf] at this
        cases this
      · rw [hf]
        exact Fase.noConfusion
  | antes =>
    have hnu := h.antes x hf
    have hns : ¬e.Suya x (r.c e x) := fun hs ↦ by
      have := (h.unica x _ hs).2
      rw [hf] at this
      cases this
    rw [hnu] at hcu ⊢
    by_cases hs : e.Suya x (((r.t x).hace hmac o).c (e.ranura x))
    · -- the connection is born
      have hd : Diario.nuevo.sigue e x (r.t x) o (r.c e x)
          (((r.t x).hace hmac o).c (e.ranura x)) = { Diario.nuevo with
            fase := .vigente
            isn := (((r.t x).hace hmac o).c (e.ranura x)).isn
            nxt := if (((r.t x).hace hmac o).c (e.ranura x)).estado = .synEnviado then 0
              else 1 } := if_pos hs
      rw [hd]
      refine ⟨?_, fun h' ↦ (by cases h'), fun _ _ ↦ hs, fun _ ↦ rfl⟩
      cases o with
      | entrada ipOrigen ipDestino b ahora =>
        refine avance_syn hcu hns hs
          ((r.t x).hace_mueve hmac (.entrada ipOrigen ipDestino b ahora) (e.ranura x))
          fun s hl hp ↦ ?_
        have := (ho ipOrigen ipDestino b ahora s rfl hl hp).2
        rwa [hnu] at this
      | salida ahora dst =>
        exfalso
        have hm := (r.t x).hace_mueve hmac (.salida ahora dst) (e.ranura x)
        change Mueve (r.c e x) _ _ at hm
        generalize ((r.t x).hace hmac (.salida ahora dst)).c (e.ranura x) = c' at hm hs
        cases hm with
        | igual => exact hns hs
        | habla =>
          have hma := ((r.c e x).marco_emite ahora dst).1
          refine hns (hs.de ?_ hma.miIp hma.suIp hma.miPuerto hma.suPuerto)
          rcases (r.c e x).emite_cases ahora dst with ⟨-, he⟩ | ⟨h', -⟩ | ⟨h', -⟩ | ⟨h', -⟩
          · have hv := hs.1
            rw [he] at hv
            exact hv
          · exact h'
          · exact h'
          · exact h'
      | _ =>
        exact avance_conecta hcu hns hs ((r.t x).hace_toca hmac _ (e.ranura x)
          (fun _ _ _ _ ↦ Tcp.Orden.noConfusion) fun _ _ ↦ Tcp.Orden.noConfusion)
    · have hd : Diario.nuevo.sigue e x (r.t x) o (r.c e x)
          (((r.t x).hace hmac o).c (e.ranura x)) = .nuevo := if_neg hs
      rw [hd]
      refine ⟨⟨.refl _, hcu, Nat.zero_le _, fun h' ↦ (by cases h')⟩, fun _ ↦ rfl,
        fun h' ↦ (by cases h'), fun h' ↦ absurd h' hs⟩
  | vigente =>
    have hvig := h.vigente x hf
    have hup := h.una_le x
    have hd : (r.d x).sigue e x (r.t x) o (r.c e x) (((r.t x).hace hmac o).c (e.ranura x)) =
        (r.d x).pasa ((r.t x).aceptados (e.ranura x) o) ((r.t x).entregados (e.ranura x) o)
          ((r.t x).cierra (e.ranura x) o) (r.c e x) (((r.t x).hace hmac o).c (e.ranura x)) := by
      unfold Diario.sigue
      rw [hf]
    rw [hd]
    refine ⟨?_, fun h' ↦ ?_, fun _ hv ↦ suya_de_vigente h hf hv, fun hs ↦ ?_⟩
    · cases o with
      | entrada ipOrigen ipDestino b ahora => exact avance_entrada h hf ho
      | salida ahora dst =>
        show Avance _ _ ((r.d x).pasa [] [] false (r.c e x) _) _
        rcases (r.t x).salida_ranura hmac ahora dst (e.ranura x) with ⟨hc | ⟨hc, -⟩, -⟩ | ⟨hc, -⟩
        · rw [hc]
          exact hvig.toca hcu hup (.nada false Bool.noConfusion)
        · rw [hc]
          exact (hvig.emite hcu hup ahora dst).1
        · rw [hc]
          exact (hvig.emite hcu hup ahora dst).1
      | _ =>
        exact hvig.toca hcu hup ((r.t x).hace_toca hmac _ (e.ranura x)
          (fun _ _ _ _ ↦ Tcp.Orden.noConfusion) fun _ _ ↦ Tcp.Orden.noConfusion)
    · have h' : (if (((r.t x).hace hmac o).c (e.ranura x)).estado = .libre then Fase.despues
        else .vigente) = .antes := h'
      split at h' <;> cases h'
    · have hne : (((r.t x).hace hmac o).c (e.ranura x)).estado ≠ .libre := fun he ↦ by
        have hv := hs.1
        rw [Conexion.viva, he] at hv
        cases hv
      exact if_neg hne

/-! ### A step of the network -/

section tras

variable (e : Extremos) (hmac : Bytes → Bytes → Arr 32) (r : Red) (x : Bool) (o : Tcp.Orden)

@[simp] theorem tras_d_self : (r.tras e hmac x o).d x =
    (r.d x).sigue e x (r.t x) o (r.c e x) (((r.t x).hace hmac o).c (e.ranura x)) :=
  Function.update_self ..

@[simp] theorem tras_d_not : (r.tras e hmac x o).d (!x) = r.d !x :=
  Function.update_of_ne (Bool.not_ne_self x) ..

@[simp] theorem tras_t_self : (r.tras e hmac x o).t x = (r.t x).hace hmac o :=
  Function.update_self ..

@[simp] theorem tras_t_not : (r.tras e hmac x o).t (!x) = r.t !x :=
  Function.update_of_ne (Bool.not_ne_self x) ..

end tras

private theorem forall_end {P : Bool → Prop} (x : Bool) (h : P x) (h' : P !x) : ∀ y, P y := by
  intro y
  rcases Bool.eq_or_eq_not y x with rfl | rfl
  · exact h
  · exact h'

/-- What is on its way after a call was on its way, or was just emitted. -/
theorem mem_tras {x : Bool} {o : Tcp.Orden} {q : Paquete} (h : q ∈ (r.tras e hmac x o).red) :
    q ∈ r.red ∨ ∃ p, (r.t x).emitido o = some p ∧
      q = ⟨x, p.1, p.2.1, p.2.2, (r.d !x).una, (r.d !x).nxt⟩ := by
  rcases List.mem_append.mp h with h | h
  · exact .inl h
  · obtain ⟨p, hp, rfl⟩ := List.mem_map.mp h
    exact .inr ⟨p, Option.mem_toList.mp hp, rfl⟩

private theorem emite_some {c : Conexion} {ahora : UInt64} {dst : Bytes} {r : Nat × Bytes}
    (h : (c.emite ahora dst).2.2 = some r) : c.viva = true ∧
      ∃ s, Segmento.escribir dst c.miIp c.suIp s = .ok r ∧ Segmento.Admitida s.banderas ∧
        s.origen = c.miPuerto ∧ s.destino = c.suPuerto := by
  have hv : c.viva = true := by
    rcases c.emite_cases ahora dst with ⟨-, he⟩ | ⟨hv, -⟩ | ⟨hv, -⟩ | ⟨hv, -⟩
    · rw [he] at h
      cases h
    · exact hv
    · exact hv
    · exact hv
  refine ⟨hv, ?_⟩
  rcases Conexion.emite_dice hv with ⟨hn, -⟩ | ⟨c₁, hm, -, -, -, ⟨hn, -⟩ | ⟨y, hy, s, hs, hw⟩⟩
  · rw [hn] at h
    cases h
  · rw [hn] at h
    cases h
  · obtain rfl := Option.some.inj (hy.symm.trans h)
    rw [hm.miIp, hm.suIp] at hw
    exact ⟨s, hw, hs.admitida, hs.puertos.1.trans hm.miPuerto, hs.puertos.2.trans hm.suPuerto⟩

/-- What a call emits is a reset or is what the connection of a slot emits. -/
theorem emitido_spec {t : Tcp} {o : Tcp.Orden} {p : Ip × Ip × Bytes} (h : t.emitido o = some p) :
    ∃ ahora dst, Tcp.DeRst dst p ∨ ∃ k, t.DeRanura k ahora dst p := by
  cases o with
  | salida ahora dst =>
    refine ⟨ahora, dst, ?_⟩
    rcases t.salida_ranura (fun _ _ ↦ Arr.pad 32 []) ahora dst 0 with
      ⟨-, hp⟩ | ⟨-, p', hp', hk⟩
    · exact (hp p h).imp_right fun ⟨k, _, hk⟩ ↦ ⟨k, hk⟩
    · obtain rfl := Option.some.inj (hp'.symm.trans h)
      exact .inr ⟨0, hk⟩
  | _ => cases h

/-- What a stack emits between the ends is a reset, or is true. -/
theorem Vale.emitido (h : r.Vale e) {x : Bool} {o : Tcp.Orden} {p : Ip × Ip × Bytes}
    (hp : (r.t x).emitido o = some p) {s : Segmento}
    (hl : Segmento.leer p.2.2 p.1 p.2.1 = .ok s) (hpa : e.Para (!x) p.1 p.2.1 s) :
    s.banderas &&& rst ≠ 0 ∨ ∃ pos,
      Veraz (r.d x) (r.d !x) ⟨x, p.1, p.2.1, p.2.2, (r.d !x).una, (r.d !x).nxt⟩ s pos := by
  obtain ⟨ahora, dst, ⟨s', n, dst', hb, hw, hp2⟩ | ⟨k, y, hy, rfl⟩⟩ := emitido_spec hp
  · -- a reset reads as a reset
    have hadm : Segmento.Admitida (rst ||| ack) := ⟨by decide, by decide⟩
    rw [hp2] at hl
    rw [Segmento.leer_de_escribir hw (by rwa [hb]) hl, hb]
    exact .inl (by decide)
  · -- only the connection of these ends emits between them
    obtain ⟨hv, s', hw, hadm, ho, hd⟩ := emite_some hy
    obtain rfl := @Segmento.leer_de_escribir _ y.2 _ _ _ _ y.1 hw hadm hl
    obtain ⟨h1, h2, h3, h4⟩ := hpa
    rw [Bool.not_not] at h1 h3
    have hs : e.Suya x ((r.t x).c k) := ⟨hv, h1, h2, ho.symm.trans h3, hd.symm.trans h4⟩
    obtain ⟨rfl, hf⟩ := h.unica x k hs
    obtain ⟨s', hw', hadm', -, -, ⟨pos, hpos⟩, hlen, hack⟩ :=
      ((h.vigente x hf).emite (h.cuadra x) (h.una_le x) ahora dst).2 y hy
    obtain rfl := @Segmento.leer_de_escribir _ y.2 _ _ _ _ y.1 hw' hadm' hl
    have hcp := h.cuadra !x
    rw [Bool.not_not] at hcp
    have hne : (r.d x).fase ≠ .antes := fun h0 ↦ by
      rw [hf] at h0
      cases h0
    exact .inr ⟨pos, .de_dicho hne hpos hlen (h.cuadra x) hcp hack⟩

/-- A step at one end keeps both ends in agreement and what was sent true. -/
theorem Vale.tras (h : r.Vale e) {x : Bool} {o : Tcp.Orden} (hr : ¬r.Reabre e hmac x o)
    (ho : Oye e r x o) : (r.tras e hmac x o).Vale e := by
  have hloc := h.local hr ho
  rw [← tras_d_self] at hloc
  have hcr : ∀ y, Diario.Crece (r.d y) ((r.tras e hmac x o).d y) := by
    refine forall_end x hloc.avance.crece ?_
    rw [tras_d_not]
    exact .refl _
  refine ⟨forall_end x (fun k hs ↦ ?_) ?_, forall_end x ?_ ?_, forall_end x hloc.antes ?_,
    forall_end x ?_ ?_, forall_end x ?_ ?_, fun q hq ↦ ?_⟩
  · -- the only connection of these ends is that of the slot
    rw [tras_t_self] at hs
    have hk : k = e.ranura x := by
      by_contra hk
      by_cases hv : e.Suya x ((r.t x).c k)
      · exact hk (h.unica x k hv).1
      · exact hr ⟨k, hv, hs, .inl hk⟩
    rw [hk] at hs
    exact ⟨hk, hloc.vigente hs⟩
  · rw [tras_t_not, tras_d_not]
    exact h.unica !x
  · unfold Red.c
    rw [tras_t_self]
    exact hloc.suya
  · unfold Red.c
    rw [tras_t_not, tras_d_not]
    exact h.suya !x
  · rw [tras_d_not]
    exact h.antes !x
  · rw [tras_d_not]
    exact hloc.avance.cuadra
  · -- the other end agrees with what goes on
    have hcu := h.cuadra !x
    rw [Bool.not_not] at hcu
    rw [tras_d_not, Bool.not_not]
    have hcx := hcr x
    refine ⟨hcu.nxt.trans (Nat.add_le_add_right hcx.aceptado.length_le 2), hloc.avance.una,
      fun h0 ↦ hcu.nace ?_, hcu.entregado.trans hcx.aceptado⟩
    by_contra hne
    exact (hcx.fase hne).1 h0
  · unfold Red.c
    rw [tras_t_self, tras_d_not]
    exact hloc.avance.vigente
  · unfold Red.c
    rw [tras_t_not, tras_d_not, Bool.not_not]
    intro hf
    have hvig := h.vigente (!x) hf
    rw [Bool.not_not] at hvig
    exact hvig.crece (hcr x)
  · rcases mem_tras hq with hq | ⟨p, hp, rfl⟩
    · obtain ⟨⟨h1, h2⟩, h3⟩ := h.red q hq
      refine ⟨⟨h1.trans (hcr _).una, h2.trans (hcr _).nxt⟩, fun s hl hpa ↦ ?_⟩
      exact (h3 s hl hpa).imp_right fun ⟨pos, hv⟩ ↦ ⟨pos, hv.crece (hcr _) (hcr _)⟩
    · refine ⟨⟨(hcr _).una, (hcr _).nxt⟩, fun s hl hpa ↦ ?_⟩
      exact (h.emitido hp hl hpa).imp_right fun ⟨pos, hv⟩ ↦ ⟨pos, hv.crece (hcr _) (hcr _)⟩

/-- Both ends agree after a step. -/
theorem Vale.paso {r' : Red} (h : r.Vale e) (hp : r.Paso e hmac r') : r'.Vale e := by
  cases hp with
  | llama x o ho hr => exact h.tras hr fun ipOrigen ipDestino b ahora _ he ↦ absurd he (ho _ _ _ _)
  | ajeno x ipOrigen ipDestino b ahora ha hr =>
    refine h.tras hr fun _ _ _ _ s he hl hpa ↦ ?_
    cases he
    exact absurd hpa (ha s hl)
  | trae p ahora hp hv hr =>
    refine h.tras hr fun _ _ _ _ s he hl hpa ↦ ?_
    cases he
    obtain ⟨⟨-, hm⟩, hq⟩ := h.red p hp
    rw [Bool.not_not]
    rcases hq s hl hpa with hrst | ⟨pos, hver⟩
    · exact ⟨fun h0 ↦ absurd h0 hrst, .inl hrst⟩
    · exact ⟨fun _ ↦ hver.ackCierto (h.cuadra p.de) hv.1, .inr ⟨pos, hver.oido hm hv.2⟩⟩

/-- Both ends agree in every run. -/
theorem Corre.vale (h : Corre e hmac r) : r.Vale e := by
  induction h with
  | inicio t hs =>
    refine ⟨fun x k h ↦ absurd h (hs x k), fun x h ↦ (by cases h), fun _ _ ↦ rfl, fun x ↦ ?_,
      fun x h ↦ (by cases h), fun q h ↦ (by cases h)⟩
    exact ⟨Nat.zero_le _, Nat.le_refl 0, fun _ ↦ rfl, List.prefix_refl _⟩
  | paso _ hp ih => exact ih.paso hp

/-- What an end received is at every moment a prefix of what `enviar` accepted at the other, and
it is in `cierreEspera` only when it is all that the other sent before `cerrar`. -/
theorem entrega_un_prefijo (e : Extremos) (hmac : Bytes → Bytes → Arr 32) (r : Red)
    (h : Corre e hmac r) (x : Bool) :
    r.recibido e x <+: (r.d !x).aceptado ∧
      ((r.d x).fase = .vigente → (r.c e x).estado = .cierreEspera →
        (r.d !x).cerrado = some (r.recibido e x)) := by
  have hv := h.vale
  unfold recibido
  refine ⟨?_, fun hf he ↦ ?_⟩
  · split
    · next hf => exact (hv.vigente x hf).prefijo
    · rw [List.append_nil]
      exact (hv.cuadra x).entregado
  · rw [if_pos hf]
    have hvi : (r.c e x).viva = true := by rw [Conexion.viva, he]
    have hrec := (hv.vigente x hf).receptor hvi
    have hesp : (r.c e x).espera = false := by
      unfold Conexion.espera Conexion.recibe
      rw [he]
      rfl
    exact (hrec.acabado hesp (by rw [he]; exact Estado.noConfusion)).1

/-! ### A run -/

/-- A call at one end, or the arrival of what was sent in the `n`-th place. -/
inductive Jugada
  | llama (x : Bool) (o : Tcp.Orden)
  | trae (n : Nat) (ahora : UInt64)

/-- A call that is not the arrival of a segment. -/
def deLaAplicacion : Tcp.Orden → Bool
  | .entrada .. => false
  | _ => true

/-- The step of a play, if it is one. -/
def juega (e : Extremos) (hmac : Bytes → Bytes → Arr 32) (r : Red) : Jugada → Option Red
  | .llama x o =>
    if deLaAplicacion o ∧ ¬r.Reabre e hmac x o then some (r.tras e hmac x o) else none
  | .trae n ahora =>
    match r.red[n]? with
    | none => none
    | some p =>
      if r.Vive p ∧ ¬r.Reabre e hmac (!p.de) (.entrada p.ipOrigen p.ipDestino p.b ahora) then
        some (r.tras e hmac (!p.de) (.entrada p.ipOrigen p.ipDestino p.b ahora))
      else none

/-- A play that is made is a step. -/
theorem paso_of_juega {r' : Red} {j : Jugada} (h : juega e hmac r j = some r') :
    r.Paso e hmac r' := by
  cases j with
  | llama x o =>
    unfold juega at h
    dsimp only at h
    split at h
    · next hc =>
      obtain rfl := Option.some.inj h
      refine .llama x o (fun _ _ _ _ he ↦ ?_) hc.2
      rw [he] at hc
      cases hc.1
    · cases h
  | trae n ahora =>
    unfold juega at h
    dsimp only at h
    split at h
    · cases h
    · next p hp =>
      split at h
      · next hc =>
        obtain rfl := Option.some.inj h
        exact .trae p ahora (List.mem_of_getElem? hp) hc.1 hc.2
      · cases h

/-- The plays one after the other. -/
def juegan (e : Extremos) (hmac : Bytes → Bytes → Arr 32) (r : Red) : List Jugada → Option Red
  | [] => some r
  | j :: js => (juega e hmac r j).bind fun r' ↦ juegan e hmac r' js

private theorem Corre.juegan {r' : Red} {js : List Jugada} (h : Corre e hmac r)
    (hj : juegan e hmac r js = some r') : Corre e hmac r' := by
  induction js generalizing r with
  | nil =>
    obtain rfl := Option.some.inj hj
    exact h
  | cons j js ih =>
    obtain ⟨r₁, h1, h2⟩ := Option.bind_eq_some_iff.mp hj
    exact ih (h.paso (paso_of_juega h1)) h2

/-- The client at its port 57800 and the server at its port 80. -/
def dosExtremos : Extremos where
  ip x := if x then Tcp.cliente else Tcp.servidor
  puerto x := if x then 57800 else 80
  ranura x := if x then 0 else 1

/-- The keyed hash of what these ends ask of it, under the keys 1, 2, …, 32 of the client and 33,
34, …, 64 of the server: for the client's port, for its first number, and for the server's. -/
def hmacDeDos (_ m : Bytes) : Arr 32 :=
  Arr.pad 32 <|
    if m.length = 6 then
      [158, 122, 161, 200, 219, 214, 27, 31, 88, 184, 180, 155, 195, 72, 35, 113, 239, 108, 161,
        23, 116, 31, 148, 112, 130, 168, 188, 89, 79, 83, 222, 224]
    else if m.take 4 = Tcp.cliente.1 then
      [150, 229, 33, 140, 177, 205, 109, 110, 232, 175, 249, 148, 203, 28, 122, 203, 94, 118, 102,
        136, 86, 178, 14, 40, 161, 145, 205, 232, 184, 17, 35, 209]
    else
      [225, 188, 200, 24, 221, 86, 189, 229, 149, 148, 179, 47, 232, 222, 224, 116, 30, 113, 68,
        110, 172, 219, 133, 205, 216, 21, 67, 98, 43, 73, 83, 228]

/-- Two stacks where nothing happened. -/
def dosPilas : Red where
  t x := Tcp.nueva ((List.range 32).map fun i ↦ UInt8.ofNat (i + if x then 1 else 33))
  d _ := .nuevo
  red := []

/-- The client greets, sends two bytes and closes. The segment with the bytes comes twice, the
first time before the greeting is over, and the server takes one byte. -/
def jugadas : List Jugada :=
  [.llama false (.escuchar Tcp.servidor 80),
    .llama true (.conectar Tcp.cliente Tcp.servidor 80 0),
    .llama true (.salida 0 (zeros 64)), .trae 0 0,
    .llama false (.salida 0 (zeros 64)), .trae 1 0,
    .llama true (.enviar 0 [7, 8]), .llama true (.salida 0 (zeros 64)), .trae 2 0, .trae 2 1,
    .llama false (.recibir 1 1),
    .llama true (.cerrar 0), .llama true (.salida 1 (zeros 64)), .trae 3 1]

/-- The network after those plays. -/
def jugada : Red := (juegan dosExtremos hmacDeDos dosPilas jugadas).get (by decide +kernel)

private theorem corre_jugada : Corre dosExtremos hmacDeDos jugada := by
  have h0 : Corre dosExtremos hmacDeDos dosPilas :=
    .inicio _ fun _ _ h ↦ Bool.false_ne_true h.1
  refine @Corre.juegan _ _ _ _ jugadas h0 ?_
  unfold jugada
  rw [Option.some_get]

/-- The server received both bytes, which are all that the client sent. -/
theorem entrega_dos_bytes : jugada.recibido dosExtremos false = [7, 8] ∧
    jugada.recibido dosExtremos false <+: (jugada.d true).aceptado ∧
    (jugada.d true).cerrado = some (jugada.recibido dosExtremos false) := by
  obtain ⟨h1, h2⟩ := entrega_un_prefijo dosExtremos hmacDeDos jugada corre_jugada false
  rw [Bool.not_false] at h1 h2
  exact ⟨by decide +kernel, h1, h2 (by decide +kernel) (by decide +kernel)⟩

end Red

end BmoX.Pila
