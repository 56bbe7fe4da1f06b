import BmoX.Antena.Charla
import BmoX.Antena.Orden

/-!
# The conversation accepts the protocol

However the stream is cut, what is delivered are its segments between line ends. The phases follow
the machine of the language, line by line; then over every run.
-/

namespace BmoX.Antena

open BmoX.Base

/-! ### What there is to deliver -/

/-- A segment that came to its end. -/
def juzgado (seg : Bytes) : Except Rechazo Bytes :=
  if seg.length ≤ lineaMax + 2 then .ok seg else .error .largo

/-- The last segment, which is still open: only that it is too long. -/
def abierto (seg : Bytes) : List (Except Rechazo Bytes) :=
  if seg.length ≤ lineaMax + 2 then [] else [.error .largo]

/-- The maximal segments without a line end, each once. -/
def entregas (flujo : Bytes) : List (Except Rechazo Bytes) :=
  let segs := flujo.splitOn salto
  segs.dropLast.map juzgado ++ (segs.getLast?.map abierto).getD []

/-! ### The splitter -/

/-- The splitter with an open segment. -/
def Lineas.con (seg : Bytes) : Lineas :=
  if seg.length ≤ lineaMax + 2 then ⟨seg, false⟩ else ⟨[], true⟩

namespace Lineas

section

variable {seg flujo : Bytes} {b : UInt8} {segs : List Bytes}

theorem empujar_salto (seg : Bytes) : (abierto seg ++ ((con seg).empujar salto).1.toList) = [juzgado seg] ∧
    ((con seg).empujar salto).2 = con [] := by
  unfold abierto con juzgado
  split <;> simp [empujar]

private theorem empujar_otro (seg : Bytes) (hb : b ≠ salto) :
    abierto seg ++ ((con seg).empujar b).1.toList = abierto (seg ++ [b]) ∧
      ((con seg).empujar b).2 = con (seg ++ [b]) := by
  unfold abierto con
  rw [List.length_append, List.length_singleton]
  rcases Nat.lt_trichotomy seg.length (lineaMax + 2) with h | h | h
  · rw [if_pos h.le, if_pos h.le, if_pos (by omega), if_pos (by omega)]
    simp [empujar, hb, h.ne]
  · rw [if_pos h.le, if_pos h.le, if_neg (by omega), if_neg (by omega)]
    simp [empujar, hb, h]
  · rw [if_neg (by omega), if_neg (by omega), if_neg (by omega), if_neg (by omega)]
    simp [empujar, hb]

private theorem entregas_eq (h : flujo.splitOn salto = segs ++ [seg]) :
    entregas flujo = segs.map juzgado ++ abierto seg := by
  simp [entregas, h]

private theorem trozo_append {l : Lineas} {flujo' : Bytes} : l.trozo (flujo ++ flujo') =
    ((l.trozo flujo).1 ++ ((l.trozo flujo).2.trozo flujo').1, ((l.trozo flujo).2.trozo flujo').2) := by
  induction flujo generalizing l with
  | nil => rfl
  | cons b flujo ih => rw [List.cons_append, trozo_cons, ih, trozo_cons, List.append_assoc]

private theorem trozo_nueva (flujo : Bytes) : ∃ segs seg, flujo.splitOn salto = segs ++ [seg] ∧
    nueva.trozo flujo = (segs.map juzgado ++ abierto seg, con seg) := by
  induction flujo using List.reverseRecOn with
  | nil => exact ⟨[], [], rfl, rfl⟩
  | append_singleton flujo b ih =>
    obtain ⟨segs, seg, hs, ht⟩ := ih
    have hcon := splitOn_concat (a := b) hs
    rw [trozo_append, ht, trozo_cons, trozo, List.append_nil]
    by_cases hb : b = salto
    · rw [if_pos hb] at hcon
      subst hb
      obtain ⟨h1, h2⟩ := empujar_salto seg
      refine ⟨segs ++ [seg], [], hcon, ?_⟩
      rw [List.append_assoc, h1, h2, List.map_append]
      simp [abierto]
    · rw [if_neg hb] at hcon
      obtain ⟨h1, h2⟩ := empujar_otro seg hb
      exact ⟨segs, seg ++ [b], hcon, by rw [List.append_assoc, h1, h2]⟩

private theorem trozos_eq {l : Lineas} {ts : List Bytes} : l.trozos ts = l.trozo ts.flatten := by
  induction ts generalizing l with
  | nil => rfl
  | cons t ts ih => rw [trozos_cons, ih, List.flatten_cons, trozo_append]

theorem trozos_nueva (ts : List Bytes) : (nueva.trozos ts).1 = entregas ts.flatten := by
  obtain ⟨segs, seg, hs, ht⟩ := trozo_nueva ts.flatten
  rw [trozos_eq, ht, entregas_eq hs]

end

end Lineas

/-! ### The conversation accepts the protocol -/

/-! ### What a line says -/

/-- What a line says, wherever in the conversation it comes. -/
def Dicho (linea : Bytes) : Respuesta → Prop
  | .elemento (.elemento e) =>
    (sinFin linea).length ≤ lineaMax ∧ Lamina.DiceElemento (sinFin linea) e
  | .elemento _ => False
  | r => (sinFin linea).length ≤ lineaMax ∧ (sinFin linea).all imprimible = true ∧
    Dice (sinFin linea) r

/-- A line of a lamina counts for nothing. -/
def Respuesta.cuesta : Respuesta → Nat
  | .elemento _ => 0
  | _ => 1

section

variable {linea : Bytes} {r : Respuesta}

private theorem cuesta_of_leer (h : leer linea = .ok r) : r.cuesta = 1 := by
  obtain ⟨-, -, h⟩ := leer_eq_ok.mp h
  cases h with
  | video _ h =>
    cases h
    rfl
  | _ => rfl

private theorem leer_iff_dicho (h : r.cuesta = 1) : leer linea = .ok r ↔ Dicho linea r := by
  rw [leer_eq_ok]
  cases r with
  | elemento => cases h
  | _ => rfl

end

/-! ### The phases -/

/-- The phase of a moment. -/
inductive Fase.Es : Fase → Momento → Prop
  | inicio : Es .inicio .inicio
  | saludo : Es .saludo .saludo
  | charla : Es .charla .charla
  | lista (k : Nat) : Es (.lista k false) .lista
  | entradas (n : Nat) : Es (.lista (n + 1) true) (.entradas n)
  | pidiendo : Es .pidiendo .pidiendo
  | video (d r : UInt64) : Es (.video d r) .video
  | lamina {l : Lector} {cab : Cabecera} {n : Nat} (hcab : l.cab = some cab)
      (hfaltan : l.faltan = n + 1) (htotal : l.cuenta.total + (n + 1) = cab.elementos)
      (habierto : l.cerrado = false) : Es (.lamina l) (.lamina cab n)

private theorem Lector.fase_es {l : Lector} {cab : Cabecera} {n : Nat} (hcab : l.cab = some cab)
    (hfaltan : l.faltan = n) (htotal : l.cuenta.total + n = cab.elementos)
    (habierto : l.cerrado = false) :
    (if l.completa then Fase.charla else .lamina l).Es (.conElementos cab n) := by
  have hcomp : l.completa = true ↔ n = 0 := by
    simp only [completa, hcab, decide_eq_true_eq]
    omega
  cases n with
  | zero =>
    rw [if_pos (hcomp.mpr rfl)]
    exact .charla
  | succ n =>
    rw [if_neg fun h ↦ absurd (hcomp.mp h) (Nat.succ_ne_zero n)]
    exact .lamina hcab hfaltan htotal habierto

private theorem Cuenta.total_con (c : Cuenta) (e : Elemento) : (c.con e).total = c.total + 1 := by
  cases e <;> simp only [con, total] <;> omega

section

variable {linea : Bytes} {r : Respuesta} {f : Fase} {m : Momento} {c : Conversacion}

/-- A line that was read, at its turn or not. -/
theorem siguiente_cases (h : f.Es m) (hf : ∀ l, f ≠ .lamina l) (hr : leer linea = .ok r) :
    (∃ f' m', Conversacion.siguiente linea f r = some f' ∧ m.tras (.oyo r) = some m' ∧ f'.Es m') ∨
      (Conversacion.siguiente linea f r = none ∧ m.tras (.oyo r) = none) := by
  cases h with
  | inicio => exact .inr ⟨by cases r <;> rfl, by cases r <;> rfl⟩
  | saludo =>
    cases r with
    | hola nombre => exact .inl ⟨_, _, rfl, rfl, .charla⟩
    | _ => exact .inr ⟨rfl, rfl⟩
  | charla => exact .inr ⟨by cases r <;> rfl, by cases r <;> rfl⟩
  | lista k =>
    cases r with
    | lista n =>
      cases n with
      | zero => exact .inl ⟨_, _, rfl, rfl, .charla⟩
      | succ n => exact .inl ⟨_, _, rfl, rfl, .entradas n⟩
    | no motivo => exact .inl ⟨_, _, rfl, rfl, .charla⟩
    | _ => exact .inr ⟨rfl, rfl⟩
  | entradas n =>
    cases r with
    | entrada id titulo =>
      cases n with
      | zero => exact .inl ⟨_, _, rfl, rfl, .charla⟩
      | succ n => exact .inl ⟨_, _, rfl, rfl, .entradas n⟩
    | _ => exact .inr ⟨rfl, rfl⟩
  | pidiendo =>
    cases r with
    | video bytes ancho alto => exact .inl ⟨_, _, rfl, rfl, .video bytes 0⟩
    | no motivo => exact .inl ⟨_, _, rfl, rfl, .charla⟩
    | lamina cab =>
      -- the reader of the lamina reads the same header again
      obtain ⟨hlen, hall, hd⟩ := leer_eq_ok.mp hr
      have hcab : Lamina.leerCabecera linea = .ok cab := by
        refine Lamina.leerCabecera_eq_ok.mpr ⟨hlen, hall, ?_⟩
        cases hd with
        | video _ h => cases h
        | lamina h => exact h
      refine .inl ⟨_, _, ?_, rfl, Lector.fase_es (l := ⟨some cab, cab.elementos,
        ⟨0, 0, 0, 0, 0, 0 + linea.length⟩, false⟩) rfl rfl (Nat.zero_add _) rfl⟩
      simp [Conversacion.siguiente, Lector.nuevo, Lector.empujar, hcab]
    | _ => exact .inr ⟨rfl, rfl⟩
  | video d r' => exact .inr ⟨by cases r <;> rfl, by cases r <;> rfl⟩
  | lamina => exact absurd rfl (hf _)

/-- A line is accepted, or the conversation is closed. -/
def Oida (c : Conversacion) (m : Momento) (linea : Bytes) : Prop :=
  (∃ r f m', c.oir linea = (.ok r, ⟨f, c.lineas + r.cuesta⟩) ∧ Dicho linea r ∧
    m.tras (.oyo r) = some m' ∧ f.Es m' ∧ (r.cuesta = 1 → c.lineas < lineasMax)) ∨
  ∃ e n, c.oir linea = (.error e, ⟨.cerrada, n⟩) ∧
    ∀ r m', Dicho linea r → m.tras (.oyo r) = some m' → r.cuesta = 1 ∧ lineasMax ≤ c.lineas

theorem cuesta_eq (r : Respuesta) : r.cuesta = 1 ∨ ∃ p, r = .elemento p := by
  cases r <;> simp [Respuesta.cuesta]

theorem tras_elemento {p : Paso} {m' : Momento} (h : m.tras (.oyo (.elemento p)) = some m') :
    ∃ cab n e, m = .lamina cab n ∧ p = .elemento e ∧ Lamina.Dentro e.zona cab ∧
      m' = .conElementos cab n := by
  cases m with
  | lamina cab n =>
    cases p with
    | elemento e =>
      obtain ⟨hd, ⟨⟩⟩ := Option.ite_none_right_eq_some.mp h
      exact ⟨cab, n, e, rfl, rfl, hd, rfl⟩
    | _ => cases h
  | _ => cases h

private theorem oir_de_charla (h : c.fase.Es m) (hf : ∀ l, c.fase ≠ .lamina l) :
    c.oir linea =
      if c.lineas + 1 > lineasMax then (.error .charla, ⟨.cerrada, c.lineas + 1⟩)
      else
        match leer linea with
        | .error e => (.error e, ⟨.cerrada, c.lineas + 1⟩)
        | .ok r =>
          match Conversacion.siguiente linea c.fase r with
          | none => (.error .orden, ⟨.cerrada, c.lineas + 1⟩)
          | some f => (.ok r, ⟨f, c.lineas + 1⟩) := by
  obtain ⟨fase, lineas⟩ := c
  cases h <;> first | rfl | exact absurd rfl (hf _)

/-- Outside of a lamina. -/
theorem oir_charla (h : c.fase.Es m) (hf : ∀ l, c.fase ≠ .lamina l) : Oida c m linea := by
  have hm : ∀ cab n, m ≠ .lamina cab n := by
    rintro cab n rfl
    generalize c.fase = f at h hf
    cases h
    exact hf _ rfl
  have hcue : ∀ r m', m.tras (.oyo r) = some m' → r.cuesta = 1 := by
    intro r m' ht
    rcases cuesta_eq r with h1 | ⟨p, rfl⟩
    · exact h1
    · obtain ⟨cab, n, -, hl, -⟩ := tras_elemento ht
      exact absurd hl (hm cab n)
  rw [Oida, oir_de_charla h hf]
  split
  · next hmax => exact .inr ⟨_, _, rfl, fun r m' _ ht ↦ ⟨hcue r m' ht, by omega⟩⟩
  · next hmax =>
    cases hl : leer linea with
    | error e =>
      refine .inr ⟨_, _, rfl, fun r m' hd ht ↦ ?_⟩
      rw [(leer_iff_dicho (hcue r m' ht)).mpr hd] at hl
      cases hl
    | ok r =>
      have hr := cuesta_of_leer hl
      rcases siguiente_cases h hf hl with ⟨f', m', hs, ht, hes⟩ | ⟨hs, ht⟩
      · simp only [hs]
        exact .inl ⟨r, f', m', by rw [hr], (leer_iff_dicho hr).mp hl, ht, hes, fun _ ↦ by omega⟩
      · simp only [hs]
        refine .inr ⟨_, _, rfl, fun r' m' hd ht' ↦ ?_⟩
        rw [(leer_iff_dicho (hcue r' m' ht')).mpr hd] at hl
        cases hl
        rw [ht] at ht'
        cases ht'

/-- In a lamina. -/
theorem oir_lamina {l : Lector} (h : c.fase.Es m) (hf : c.fase = .lamina l) : Oida c m linea := by
  obtain ⟨fase, lineas⟩ := c
  simp only at h hf
  subst hf
  cases h with
  | @lamina _ cab n hcab hfaltan htotal habierto =>
    rw [Oida, Conversacion.oir]
    cases hl : Lamina.leerElemento linea cab with
    | error e =>
      refine .inr ⟨e, lineas, by simp [Lector.empujar, habierto, hcab, hfaltan, hl, Lector.cerrar,
        Conversacion.cerrar], fun r m' hd ht ↦ ?_⟩
      cases r with
      | elemento p =>
        obtain ⟨_, _, e', ⟨⟩, rfl, hin, -⟩ := tras_elemento ht
        rw [Lamina.leerElemento_eq_ok.mpr ⟨hd.1, hd.2, hin⟩] at hl
        cases hl
      | _ => cases ht
    | ok e =>
      obtain ⟨hlen, hd, hin⟩ := Lamina.leerElemento_eq_ok.mp hl
      have htot := Cuenta.total_con { l.cuenta with bytes := l.cuenta.bytes + linea.length } e
      refine .inl ⟨.elemento (.elemento e), _, _, ?_, ⟨hlen, hd⟩, if_pos hin,
        Lector.fase_es (l := ⟨some cab, n, Cuenta.con { l.cuenta with
          bytes := l.cuenta.bytes + linea.length } e, false⟩) rfl rfl ?_ rfl, fun h0 ↦ by cases h0⟩
      · simp [Lector.empujar, habierto, hcab, hfaltan, hl, Respuesta.cuesta]
      · rw [htot]
        simp only [Cuenta.total] at htotal ⊢
        omega

theorem oir_cases (h : c.fase.Es m) (linea : Bytes) : Oida c m linea := by
  by_cases hf : ∃ l, c.fase = .lamina l
  · exact oir_lamina h hf.choose_spec
  · exact oir_charla h fun l hl ↦ hf ⟨l, hl⟩

/-- A line says one thing only, when it is its turn. -/
theorem Dicho.unico {r' : Respuesta} {m₁ m₂ : Momento} (h : Dicho linea r) (h' : Dicho linea r')
    (ht : m.tras (.oyo r) = some m₁) (ht' : m.tras (.oyo r') = some m₂) : r = r' := by
  rcases cuesta_eq r with h1 | ⟨p, rfl⟩
  · rcases cuesta_eq r' with h1' | ⟨p', rfl⟩
    · have hl := (leer_iff_dicho h1).mpr h
      rw [(leer_iff_dicho h1').mpr h'] at hl
      exact (Except.ok.inj hl).symm
    · obtain ⟨cab, n, e, rfl, -⟩ := tras_elemento ht'
      cases r with
      | elemento p => cases h1
      | _ => cases ht
  · obtain ⟨cab, n, e, rfl, rfl, hin, -⟩ := tras_elemento ht
    cases r' with
    | elemento p' =>
      obtain ⟨_, _, e', ⟨⟩, rfl, hin', -⟩ := tras_elemento ht'
      have hl := Lamina.leerElemento_eq_ok.mpr ⟨h.1, h.2, hin⟩
      rw [Lamina.leerElemento_eq_ok.mpr ⟨h'.1, h'.2, hin'⟩] at hl
      cases hl
      rfl
    | _ => cases ht'

/-- When a line is accepted. -/
theorem oir_eq_ok (h : c.fase.Es m) : (c.oir linea).1 = .ok r ↔
    Dicho linea r ∧ (∃ m', m.tras (.oyo r) = some m') ∧ (r.cuesta = 1 → c.lineas < lineasMax) := by
  rcases oir_cases h linea with ⟨r', f, m', ho, hd, ht, -, hmax⟩ | ⟨e, n, ho, hno⟩
  · rw [ho]
    constructor
    · rintro ⟨⟩
      exact ⟨hd, ⟨m', ht⟩, hmax⟩
    · rintro ⟨hd', ⟨m'', ht'⟩, -⟩
      rw [hd.unico hd' ht ht']
  · rw [ho]
    constructor
    · intro h0
      cases h0
    · rintro ⟨hd, ⟨m', ht⟩, hmax⟩
      obtain ⟨h1, h2⟩ := hno r m' hd ht
      exact absurd (hmax h1) (by omega)

end

end BmoX.Antena
