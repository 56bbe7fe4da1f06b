import BmoX.Antena.Conversada

/-!
# Every run keeps to the protocol

The calls of a conversation in any order, with what of them was accepted.
-/

namespace BmoX.Antena

open BmoX.Base

/-! ### Runs -/

/-- What is called. -/
inductive Llamada
  | pedir (p : Pedido)
  | oir (linea : Bytes)
  | bytes (n : UInt64)

/-- It came from the antenna. -/
def Llamada.deLaAntena : Llamada → Bool
  | .pedir _ => false
  | _ => true

/-- A call, and what happened where it was accepted. -/
def Conversacion.atiende (c : Conversacion) : Llamada → Except Rechazo Evento × Conversacion
  | .pedir p => ((c.pedir p).1.map fun _ ↦ .pidio p, (c.pedir p).2)
  | .oir linea => ((c.oir linea).1.map .oyo, (c.oir linea).2)
  | .bytes n => ((c.bytes n).1.map fun _ ↦ .recibio n, (c.bytes n).2)

/-- A conversation, what was accepted in it, and whether anything of the antenna was refused. -/
structure Sesion where
  conv : Conversacion
  historia : List Evento
  rechazada : Bool
  deriving DecidableEq

/-- The session after a call. -/
def Sesion.tras (s : Sesion) (l : Llamada) : Sesion :=
  match s.conv.atiende l with
  | (.ok e, c) => ⟨c, s.historia ++ [e], s.rechazada⟩
  | (.error _, c) => ⟨c, s.historia, s.rechazada || l.deLaAntena⟩

/-- The session after some calls. -/
def sesion (ls : List Llamada) : Sesion := ls.foldl Sesion.tras ⟨.nueva, [], false⟩

/-- The lines that were accepted, but those of a lamina. -/
def lineasDe (h : List Evento) : Nat := (h.map fun
  | .oyo r => r.cuesta
  | _ => 0).sum

/-- The bytes of video that were accepted. -/
def recibidos (h : List Evento) : Nat := (h.map fun
  | .recibio n => n.toNat
  | _ => 0).sum

/-- How many bytes there may be of a video, by its header. -/
def tope (bytes : UInt64) : Nat := (if bytes = 0 then videoMax else bytes).toNat

section

variable {h : List Evento} {e : Evento}

private theorem lineasDe_concat : lineasDe (h ++ [e]) = lineasDe h + lineasDe [e] := by
  rw [lineasDe, List.map_append, List.sum_append]
  rfl

private theorem recibidos_concat : recibidos (h ++ [e]) = recibidos h + recibidos [e] := by
  rw [recibidos, List.map_append, List.sum_append]
  rfl

end

/-! ### What holds after every call -/

/-- A video was announced, and so much of it came. -/
def Visto (h : List Evento) (bytes : UInt64) (post : List Evento) : Prop :=
  ∃ pre ancho alto, h = pre ++ .oyo (.video bytes ancho alto) :: post

/-- Phase, count and video go with what was accepted. -/
structure Sesion.Vale (s : Sesion) : Prop where
  cerrada : s.rechazada = true → s.conv.fase = .cerrada
  sigue : s.rechazada = false →
    ∃ m, s.conv.fase.Es m ∧ s.historia.foldlM Momento.tras .inicio = some m
  lineas : lineasDe s.historia ≤ lineasMax
  cuenta : s.rechazada = false → s.conv.lineas = lineasDe s.historia
  tope : ∀ bytes post, Visto s.historia bytes post → bytes.toNat ≠ 2 ^ 64 - 1 →
    recibidos post ≤ tope bytes
  video : s.rechazada = false → ∀ bytes post, Visto s.historia bytes post →
    ∃ r, s.conv.fase = .video bytes r ∧ r.toNat = min (recibidos post) (2 ^ 64 - 1)

section

variable {s : Sesion} {h post : List Evento} {e : Evento} {bytes : UInt64} {m : Momento}

private theorem visto_concat (hv : Visto (h ++ [e]) bytes post) :
    (post = [] ∧ ∃ ancho alto, e = .oyo (.video bytes ancho alto)) ∨
      ∃ post', post = post' ++ [e] ∧ Visto h bytes post' := by
  obtain ⟨pre, ancho, alto, heq⟩ := hv
  rcases List.eq_nil_or_concat post with rfl | ⟨post', e', rfl⟩
  · obtain ⟨rfl, he⟩ := List.append_inj' heq rfl
    cases he
    exact .inl ⟨rfl, ancho, alto, rfl⟩
  · have heq' : h ++ [e] = (pre ++ .oyo (.video bytes ancho alto) :: post') ++ [e'] := by
      rw [heq, List.concat_eq_append]
      simp
    obtain ⟨rfl, he⟩ := List.append_inj' heq' rfl
    cases he
    exact .inr ⟨post', List.concat_eq_append .., pre, ancho, alto, rfl⟩

private theorem foldlM_concat {m' : Momento} (hm : h.foldlM Momento.tras .inicio = some m)
    (ht : m.tras e = some m') : (h ++ [e]).foldlM Momento.tras .inicio = some m' := by
  rw [List.foldlM_append, hm]
  simpa using ht

private theorem atiende_cerrada {c : Conversacion} (hc : c.fase = .cerrada) (l : Llamada) :
    ∃ r n, c.atiende l = (.error r, ⟨.cerrada, n⟩) := by
  obtain ⟨fase, lineas⟩ := c
  simp only at hc
  subst hc
  cases l with
  | pedir p => exact ⟨_, _, rfl⟩
  | oir linea => exact ⟨_, _, rfl⟩
  | bytes n => exact ⟨_, _, rfl⟩

/-- Something is refused and the conversation closed. -/
theorem Sesion.Vale.rechaza (hs : s.Vale) (n : Nat) : Vale ⟨⟨.cerrada, n⟩, s.historia, true⟩ where
  cerrada _ := rfl
  sigue h0 := by cases h0
  lineas := hs.lineas
  cuenta h0 := by cases h0
  tope := hs.tope
  video h0 := by cases h0

/-- An event that is no video and comes when there is none. -/
theorem Sesion.Vale.acepta (hs : s.Vale) (hr : s.rechazada = false) {c : Conversacion} {m' : Momento}
    (hm : s.historia.foldlM Momento.tras .inicio = some m) (ht : m.tras e = some m')
    (hes : c.fase.Es m') (hnum : c.lineas = s.conv.lineas + lineasDe [e])
    (hmax : c.lineas ≤ lineasMax) (hv : ∀ d r, s.conv.fase ≠ .video d r)
    (hvideo : ∀ bytes ancho alto, e = .oyo (.video bytes ancho alto) → c.fase = .video bytes 0) :
    Vale ⟨c, s.historia ++ [e], s.rechazada⟩ := by
  have hlin : lineasDe (s.historia ++ [e]) = c.lineas := by
    rw [lineasDe_concat, hnum, hs.cuenta hr]
  -- no video was there before
  have hno : ∀ bytes post, ¬Visto s.historia bytes post := fun bytes post hvis ↦
    (hs.video hr bytes post hvis).elim fun r h ↦ hv bytes r h.1
  refine ⟨fun h0 ↦ absurd (hr.symm.trans h0) Bool.false_ne_true, fun _ ↦ ⟨m', hes, foldlM_concat hm ht⟩,
    hlin.trans_le hmax, fun _ ↦ hlin.symm, fun bytes post hvis _ ↦ ?_, fun _ bytes post hvis ↦ ?_⟩
  · rcases visto_concat hvis with ⟨rfl, -⟩ | ⟨post', -, hvis'⟩
    · exact Nat.zero_le _
    · exact absurd hvis' (hno bytes post')
  · rcases visto_concat hvis with ⟨rfl, ancho, alto, he⟩ | ⟨post', -, hvis'⟩
    · exact ⟨0, hvideo _ _ _ he, rfl⟩
    · exact absurd hvis' (hno bytes post')

/-- A question is at its turn, or it is not asked. -/
theorem pedir_cases {c : Conversacion} (hm : c.fase.Es m) (p : Pedido) :
    (∃ f m', c.pedir p = (.ok (), ⟨f, c.lineas⟩) ∧ m.tras (.pidio p) = some m' ∧ f.Es m' ∧
      ∀ d r, c.fase ≠ .video d r) ∨
    ∃ e, c.pedir p = (.error e, c) ∧ m.tras (.pidio p) = none := by
  obtain ⟨fase, lineas⟩ := c
  cases hm with
  | inicio =>
    cases p with
    | hola => exact .inl ⟨_, _, rfl, rfl, .saludo, nofun⟩
    | _ => exact .inr ⟨_, rfl, rfl⟩
  | charla =>
    cases p with
    | hola => exact .inr ⟨_, rfl, rfl⟩
    | lista => exact .inl ⟨_, _, rfl, rfl, .lista 0, nofun⟩
    | pide id =>
      by_cases hid : idValido id = true
      · exact .inl ⟨_, _, if_pos hid, if_pos hid, .pidiendo, nofun⟩
      · exact .inr ⟨_, if_neg hid, if_neg hid⟩
    | pagina url =>
      by_cases hurl : urlValida url = true
      · exact .inl ⟨_, _, if_pos hurl, if_pos hurl, .pidiendo, nofun⟩
      · exact .inr ⟨_, if_neg hurl, if_neg hurl⟩
  | _ => exact .inr ⟨.orden, by cases p <;> rfl, by cases p <;> rfl⟩

theorem tras_cerrada (hs : s.Vale) (hr : s.rechazada = true) (l : Llamada) : (s.tras l).Vale := by
  obtain ⟨r, n, ha⟩ := atiende_cerrada (hs.cerrada hr) l
  rw [Sesion.tras, ha, hr, Bool.true_or]
  exact hs.rechaza n

private theorem pedir_vale (hs : s.Vale) (hr : s.rechazada = false) (p : Pedido) :
    (s.tras (.pedir p)).Vale := by
  obtain ⟨m, hes, hm⟩ := hs.sigue hr
  rw [Sesion.tras, Conversacion.atiende]
  rcases pedir_cases hes p with ⟨f, m', hp, ht, hes', hv⟩ | ⟨e, hp, -⟩
  · rw [hp]
    refine hs.acepta hr hm ht hes' rfl ?_ hv nofun
    rw [hs.cuenta hr]
    exact hs.lineas
  · rw [hp]
    simpa [Except.map, Llamada.deLaAntena] using hs

private theorem oir_video {c : Conversacion} {linea : Bytes} {ancho alto n : Nat} {f : Fase}
    (hf : c.fase = .pidiendo) (ho : c.oir linea = (.ok (.video bytes ancho alto), ⟨f, n⟩)) :
    f = .video bytes 0 := by
  simp only [Conversacion.oir, hf] at ho
  split at ho
  · cases ho
  · cases hl : leer linea with
    | error e =>
      rw [hl] at ho
      cases ho
    | ok r =>
      simp only [hl] at ho
      cases hs : Conversacion.siguiente linea .pidiendo r with
      | none =>
        rw [hs] at ho
        cases ho
      | some f' =>
        rw [hs] at ho
        cases ho
        cases hs
        rfl

/-- A line of the antenna. -/
theorem oir_vale (hs : s.Vale) (hr : s.rechazada = false) (linea : Bytes) :
    (s.tras (.oir linea)).Vale := by
  obtain ⟨m, hes, hm⟩ := hs.sigue hr
  rw [Sesion.tras, Conversacion.atiende]
  rcases oir_cases hes linea with ⟨r, f, m', ho, -, ht, hes', hmax⟩ | ⟨e, n, ho, -⟩
  · rw [ho]
    refine hs.acepta hr hm ht hes' rfl ?_ ?_ ?_
    · rcases cuesta_eq r with h1 | ⟨p, rfl⟩
      · have := hmax h1
        simp only [h1]
        omega
      · change s.conv.lineas ≤ lineasMax
        rw [hs.cuenta hr]
        exact hs.lineas
    · intro d r' hf
      rw [hf] at hes
      cases hes
      cases ht
    · rintro bytes ancho alto ⟨⟩
      refine oir_video ?_ ho
      generalize s.conv.fase = fase at hes
      cases hes with
      | pidiendo => rfl
      | _ => cases ht
  · rw [ho]
    simpa [Except.map, Llamada.deLaAntena] using hs.rechaza n

private theorem recibidos_recibio {n : UInt64} (h : List Evento) :
    recibidos (h ++ [Evento.recibio n]) = recibidos h + n.toNat := by
  rw [recibidos_concat]
  rfl

/-- Bytes where there is a video, within what was declared. -/
theorem Sesion.Vale.recibe (hs : s.Vale) (hr : s.rechazada = false) {d r n : UInt64}
    (hm : s.historia.foldlM Momento.tras .inicio = some .video) (hf : s.conv.fase = .video d r)
    (htope : (sumaSat r n).toNat ≤ Antena.tope d) :
    Vale ⟨{ s.conv with fase := .video d (sumaSat r n) }, s.historia ++ [Evento.recibio n],
      s.rechazada⟩ := by
  have hlin : lineasDe (s.historia ++ [Evento.recibio n]) = lineasDe s.historia := by
    rw [lineasDe_concat]
    rfl
  -- the video is the one of the phase, and the bytes are counted up to the end of the type
  have hvis : ∀ bytes post, Visto (s.historia ++ [Evento.recibio n]) bytes post →
      ∃ post', post = post' ++ [Evento.recibio n] ∧ bytes = d ∧
        r.toNat = min (recibidos post') (2 ^ 64 - 1) := by
    intro bytes post hv
    rcases visto_concat hv with ⟨-, ancho, alto, he⟩ | ⟨post', rfl, hv'⟩
    · cases he
    · obtain ⟨r', hf', hr'⟩ := hs.video hr bytes post' hv'
      rw [hf] at hf'
      cases hf'
      exact ⟨post', rfl, rfl, hr'⟩
  rw [toNat_sumaSat] at htope
  refine ⟨fun h0 ↦ absurd (hr.symm.trans h0) Bool.false_ne_true,
    fun _ ↦ ⟨.video, .video d _, foldlM_concat hm rfl⟩, hlin.trans_le hs.lineas,
    fun _ ↦ (hs.cuenta hr).trans hlin.symm, fun bytes post hv hmax ↦ ?_, fun _ bytes post hv ↦ ?_⟩
  · obtain ⟨post', rfl, rfl, hr'⟩ := hvis bytes post hv
    have hlt : Antena.tope bytes < 2 ^ 64 - 1 := by
      have := bytes.toNat_lt
      rw [Antena.tope]
      split
      · decide
      · omega
    rw [recibidos_recibio]
    omega
  · obtain ⟨post', rfl, rfl, hr'⟩ := hvis bytes post hv
    refine ⟨_, rfl, ?_⟩
    rw [toNat_sumaSat, recibidos_recibio]
    omega

private theorem bytes_vale (hs : s.Vale) (hr : s.rechazada = false) (n : UInt64) :
    (s.tras (.bytes n)).Vale := by
  obtain ⟨m, hes, hm⟩ := hs.sigue hr
  rw [Sesion.tras, Conversacion.atiende]
  cases hf : s.conv.fase with
  | video d r =>
    rw [hf] at hes
    cases hes
    by_cases htope : sumaSat r n > (if d = 0 then videoMax else d)
    · have hb : s.conv.bytes n = s.conv.cerrar .largo := by
        simp only [Conversacion.bytes, hf]
        rw [if_pos htope]
      rw [hb]
      simpa [Except.map, Llamada.deLaAntena, Conversacion.cerrar] using hs.rechaza s.conv.lineas
    · have hb : s.conv.bytes n = (.ok (), { s.conv with fase := .video d (sumaSat r n) }) := by
        simp only [Conversacion.bytes, hf]
        rw [if_neg htope]
      rw [hb]
      exact hs.recibe hr hm hf (UInt64.le_iff_toNat_le.mp (UInt64.not_lt.mp htope))
  | _ =>
    have hb : s.conv.bytes n = s.conv.cerrar .orden := by simp only [Conversacion.bytes, hf]
    rw [hb]
    simpa [Except.map, Llamada.deLaAntena, Conversacion.cerrar] using hs.rechaza s.conv.lineas

/-- Any call. -/
theorem tras_vale (hs : s.Vale) (l : Llamada) : (s.tras l).Vale := by
  cases hr : s.rechazada with
  | true => exact tras_cerrada hs hr l
  | false =>
    cases l with
    | pedir p => exact pedir_vale hs hr p
    | oir linea => exact oir_vale hs hr linea
    | bytes n => exact bytes_vale hs hr n

private theorem vale_nueva : Sesion.Vale ⟨.nueva, [], false⟩ := by
  have hno : ∀ bytes post, ¬Visto [] bytes post := by
    rintro bytes post ⟨pre, ancho, alto, h⟩
    cases pre <;> cases h
  exact ⟨nofun, fun _ ↦ ⟨.inicio, .inicio, rfl⟩, Nat.zero_le _, fun _ ↦ rfl,
    fun bytes post h ↦ absurd h (hno bytes post), fun _ bytes post h ↦ absurd h (hno bytes post)⟩

private theorem sesion_vale (ls : List Llamada) : (sesion ls).Vale := by
  induction ls using List.reverseRecOn with
  | nil => exact vale_nueva
  | append_singleton ls l ih =>
    rw [sesion, List.foldl_append]
    exact tras_vale ih l

end

/-! ### What is accepted -/

/-- What a line of the antenna and the bytes of a video may do after some calls. -/
structure Conforme (s : Sesion) : Prop where
  oir : ∀ linea r, (s.conv.oir linea).1 = .ok r ↔ s.rechazada = false ∧ Dicho linea r ∧
    (∃ w, s.historia ++ .oyo r :: w ∈ conversaciones (listado + negado)) ∧
      (r.cuesta = 1 → lineasDe s.historia < lineasMax)
  cerrada : s.rechazada = true → ∀ l, ∃ e, (s.conv.atiende l).1 = .error e
  video : ∀ bytes post, Visto s.historia bytes post → bytes.toNat ≠ 2 ^ 64 - 1 →
    recibidos post ≤ tope bytes
  lineas : lineasDe s.historia ≤ lineasMax

/-- The lines of any stream, however it is cut, and any calls in any order. -/
theorem antena_conforme :
    (∀ ts : List Bytes, (Lineas.nueva.trozos ts).1 = entregas ts.flatten) ∧
      ∀ ls : List Llamada, Conforme (sesion ls) := by
  refine ⟨Lineas.trozos_nueva, fun ls ↦ ?_⟩
  have hs := sesion_vale ls
  refine ⟨fun linea r ↦ ?_, fun hr l ↦ ?_, hs.tope, hs.lineas⟩
  · cases hr : (sesion ls).rechazada with
    | true =>
      have hno : (sesion ls).conv.oir linea = (.error .cerrada, (sesion ls).conv) := by
        simp only [Conversacion.oir, hs.cerrada hr]
      rw [hno]
      constructor
      · intro h
        cases h
      · rintro ⟨h, -⟩
        cases h
    | false =>
      obtain ⟨m, hes, hm⟩ := hs.sigue hr
      rw [oir_eq_ok hes, ← hs.cuenta hr]
      have hnext := Momento.residual.next (e := .oyo r) hm
      simp only [true_and]
      exact and_congr_right fun _ ↦ and_congr_left fun _ ↦ hnext.symm
  · obtain ⟨e, n, ha⟩ := atiende_cerrada (hs.cerrada hr) l
    exact ⟨e, by rw [ha]⟩

/-! ### A list that is refused -/

/-- The first calls of a conversation, up to `LISTA`. -/
def unaLista : List Llamada :=
  [.pedir .hola, .oir (letras ['H', 'O', 'L', 'A', ' ', 'A', 'N', 'T', 'E', 'N', 'A', '/', '1', ' ',
    'm']), .pedir .lista]

/-- A list may be refused, without any entry. -/
theorem lista_negada :
    ¬∀ ls linea r, ((sesion ls).conv.oir linea).1 = .ok r →
      ∃ w, (sesion ls).historia ++ .oyo r :: w ∈ conversaciones listado := by
  intro h
  have hses : sesion unaLista = ⟨⟨.lista 0 false, 1⟩,
      [.pidio .hola, .oyo (.hola (letras ['m'])), .pidio .lista], false⟩ := by decide
  obtain ⟨w, hw⟩ := h unaLista (letras ['N', 'O', ' ', 'x']) (.no (letras ['x']))
    (by rw [hses]; decide)
  rw [hses] at hw
  obtain ⟨-, hw⟩ := cons_mem_letter_mul.mp hw
  obtain ⟨-, hw⟩ := cons_mem_letter_mul.mp hw
  rcases Momento.cons_mem_sigue.mp hw with ⟨-, hw⟩ | ⟨hp, -⟩
  · obtain ⟨n, hn, -⟩ := Momento.cons_mem_listado_mul.mp hw
    cases hn
  · rcases hp with ⟨id, hid, -⟩ | ⟨url, hurl, -⟩
    · cases hid
    · cases hurl

end BmoX.Antena
