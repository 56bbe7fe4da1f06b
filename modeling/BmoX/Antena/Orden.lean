import BmoX.Antena.Charla
import BmoX.Antena.Gramatica
import BmoX.Base.Runs
import Mathlib.Order.CompletePartialOrder

/-!
# The order of the conversation

The language of what may be asked for and answered, and the machine that follows it.
-/

namespace BmoX.Antena

open BmoX.Base Computability

/-! ### The language -/

/-- What was asked for, heard or taken. -/
inductive Evento
  | pidio (p : Pedido)
  | oyo (r : Respuesta)
  | recibio (n : UInt64)
  deriving DecidableEq

namespace Evento

/-- A greeting. -/
def EsHola (e : Evento) : Prop := ∃ nombre, e = .oyo (.hola nombre)

/-- A refusal of what was asked for. -/
def EsNo (e : Evento) : Prop := ∃ motivo, e = .oyo (.no motivo)

/-- An entry of the list. -/
def EsEntrada (e : Evento) : Prop := ∃ id titulo, e = .oyo (.entrada id titulo)

/-- The header of a video. -/
def EsVideo (e : Evento) : Prop := ∃ bytes ancho alto, e = .oyo (.video bytes ancho alto)

/-- An element inside the lamina that was announced. -/
def EsElemento (cab : Cabecera) (e : Evento) : Prop :=
  ∃ el, e = .oyo (.elemento (.elemento el)) ∧ Lamina.Dentro el.zona cab

/-- Something is asked for by its identifier or by its url. -/
def EsPide (e : Evento) : Prop :=
  (∃ id, e = .pidio (.pide id) ∧ idValido id = true) ∨
    ∃ url, e = .pidio (.pagina url) ∧ urlValida url = true

/-- Bytes of a video. -/
def EsRecibo (e : Evento) : Prop := ∃ n, e = .recibio n

end Evento

/-- A list is announced and comes with as many entries. -/
def listado : Language Evento :=
  ⨆ n, letter (· = .oyo (.lista n)) * letter Evento.EsEntrada ^ n

/-- A lamina is announced and comes with as many elements. -/
def paginado : Language Evento :=
  ⨆ cab : Cabecera, letter (· = .oyo (.lamina cab)) * letter (Evento.EsElemento cab) ^ cab.elementos

/-- The antenna will not. -/
def negado : Language Evento := letter Evento.EsNo

/-- A video, which is the end of the conversation. -/
def visto : Language Evento := letter Evento.EsVideo * (letter Evento.EsRecibo)∗

/-- What is asked for, with its answer; `lista` is what may be answered to `LISTA`. -/
def consulta (lista : Language Evento) : Language Evento :=
  letter (· = .pidio .lista) * lista + letter Evento.EsPide * (paginado + negado)

/-- The rest of a conversation. -/
def sigue (lista : Language Evento) : Language Evento :=
  (consulta lista)∗ * (1 + letter Evento.EsPide * visto)

/-- The conversations. -/
def conversaciones (lista : Language Evento) : Language Evento :=
  letter (· = .pidio .hola) * (letter Evento.EsHola * sigue lista)

/-! ### The machine -/

/-- Where the conversation is: how many entries or elements more than one are to come. -/
inductive Momento
  | inicio
  | saludo
  | charla
  | lista
  | entradas (mas : Nat)
  | pidiendo
  | lamina (cab : Cabecera) (mas : Nat)
  | video

namespace Momento

/-- So many entries are to come. -/
def conEntradas : Nat → Momento
  | 0 => .charla
  | n + 1 => .entradas n

/-- So many elements are to come. -/
def conElementos (cab : Cabecera) : Nat → Momento
  | 0 => .charla
  | n + 1 => .lamina cab n

/-- After an event, if it is its turn. -/
def tras : Momento → Evento → Option Momento
  | .inicio, .pidio .hola => some .saludo
  | .saludo, .oyo (.hola _) => some .charla
  | .charla, .pidio .lista => some .lista
  | .charla, .pidio (.pide id) => if idValido id then some .pidiendo else none
  | .charla, .pidio (.pagina url) => if urlValida url then some .pidiendo else none
  | .lista, .oyo (.lista n) => some (conEntradas n)
  | .lista, .oyo (.no _) => some .charla
  | .entradas n, .oyo (.entrada ..) => some (conEntradas n)
  | .pidiendo, .oyo (.video ..) => some .video
  | .pidiendo, .oyo (.no _) => some .charla
  | .pidiendo, .oyo (.lamina cab) => some (conElementos cab cab.elementos)
  | .lamina cab n, .oyo (.elemento (.elemento e)) =>
    if e.zona.x + e.zona.ancho ≤ cab.ancho ∧ e.zona.y + e.zona.alto ≤ cab.alto then
      some (conElementos cab n)
    else none
  | .video, .recibio _ => some .video
  | _, _ => none

/-- The words that are left. -/
def resto : Momento → Language Evento
  | .inicio => conversaciones (listado + negado)
  | .saludo => letter Evento.EsHola * sigue (listado + negado)
  | .charla => sigue (listado + negado)
  | .lista => (listado + negado) * sigue (listado + negado)
  | .entradas n => letter Evento.EsEntrada ^ (n + 1) * sigue (listado + negado)
  | .pidiendo => (paginado + negado) * sigue (listado + negado) + visto
  | .lamina cab n => letter (Evento.EsElemento cab) ^ (n + 1) * sigue (listado + negado)
  | .video => (letter Evento.EsRecibo)∗

private theorem resto_conEntradas (n : Nat) :
    (conEntradas n).resto = letter Evento.EsEntrada ^ n * sigue (listado + negado) := by
  cases n with
  | zero => simp [conEntradas, resto]
  | succ n => rfl

private theorem resto_conElementos (cab : Cabecera) (n : Nat) :
    (conElementos cab n).resto = letter (Evento.EsElemento cab) ^ n * sigue (listado + negado) := by
  cases n with
  | zero => simp [conElementos, resto]
  | succ n => rfl

section

variable {e : Evento} {w : List Evento} {l m : Language Evento}

theorem cons_mem_listado_mul : e :: w ∈ listado * m ↔
    ∃ n, e = .oyo (.lista n) ∧ w ∈ letter Evento.EsEntrada ^ n * m := by
  simp only [listado, Language.iSup_mul, Language.mem_iSup, mul_assoc, cons_mem_letter_mul]

private theorem cons_mem_paginado_mul : e :: w ∈ paginado * m ↔
    ∃ cab, e = .oyo (.lamina cab) ∧ w ∈ letter (Evento.EsElemento cab) ^ cab.elementos * m := by
  simp only [paginado, Language.iSup_mul, Language.mem_iSup, mul_assoc, cons_mem_letter_mul]

private theorem cons_mem_visto : e :: w ∈ visto ↔ e.EsVideo ∧ w ∈ (letter Evento.EsRecibo)∗ :=
  cons_mem_letter_mul

/-- Between two questions. -/
theorem cons_mem_sigue : e :: w ∈ sigue l ↔
    (e = .pidio .lista ∧ w ∈ l * sigue l) ∨
      (e.EsPide ∧ w ∈ (paginado + negado) * sigue l + visto) := by
  have hone : e :: w ∉ (1 : Language Evento) := by simp [Language.mem_one]
  have hstar : sigue l = 1 + letter Evento.EsPide * visto + consulta l * sigue l := kstar_mul
  have hmem : e :: w ∈ sigue l ↔
      e :: w ∈ 1 + letter Evento.EsPide * visto + consulta l * sigue l := by conv_lhs => rw [hstar]
  rw [hmem, consulta]
  simp only [add_mul, mul_assoc, Language.mem_add, cons_mem_letter_mul, hone]
  tauto

private theorem cons_mem_recibos : e :: w ∈ (letter Evento.EsRecibo)∗ ↔
    e.EsRecibo ∧ w ∈ (letter Evento.EsRecibo)∗ := by
  have hone : e :: w ∉ (1 : Language Evento) := by simp [Language.mem_one]
  conv_lhs => rw [← Language.one_add_self_mul_kstar_eq_kstar]
  rw [Language.mem_add, cons_mem_letter_mul, or_iff_right hone]

private theorem nil_mem_sigue : [] ∈ sigue l :=
  Language.mem_mul.mpr ⟨[], Language.nil_mem_kstar _, [], .inl rfl, rfl⟩

/-- Every state can come to an end. -/
theorem resto_live (m : Momento) : ∃ w, w ∈ m.resto := by
  have hcons : ∀ {p : Evento → Prop} {l : Language Evento} {e : Evento}, p e → (∃ w, w ∈ l) →
      ∃ w, w ∈ letter p * l := fun he hl ↦ hl.elim fun w hw ↦ ⟨_ :: w, cons_mem_letter_mul.mpr ⟨he, hw⟩⟩
  have hpow : ∀ {p : Evento → Prop} {l : Language Evento} {e : Evento}, p e → (∃ w, w ∈ l) →
      ∀ n, ∃ w, w ∈ letter p ^ n * l := by
    intro p l e he hl n
    induction n with
    | zero => rwa [pow_zero, one_mul]
    | succ n ih =>
      rw [letter_pow_succ_mul]
      exact hcons he ih
  have hsigue : ∃ w, w ∈ sigue (listado + negado) := ⟨[], nil_mem_sigue⟩
  have hno : ∃ w, w ∈ negado * sigue (listado + negado) := hcons ⟨[], rfl⟩ hsigue
  cases m with
  | inicio => exact hcons rfl (hcons ⟨[], rfl⟩ hsigue)
  | saludo => exact hcons ⟨[], rfl⟩ hsigue
  | charla => exact hsigue
  | lista =>
    obtain ⟨w, hw⟩ := hno
    exact ⟨w, by rw [resto, add_mul]; exact .inr hw⟩
  | entradas n => exact hpow ⟨[], [], rfl⟩ hsigue _
  | pidiendo =>
    obtain ⟨w, hw⟩ := hno
    exact ⟨w, by rw [resto, add_mul]; exact .inl (.inr hw)⟩
  | lamina cab n =>
    refine hpow ⟨.caja ⟨0, 0, 0, 0⟩ 0, rfl, ?_⟩ hsigue _
    exact ⟨Nat.zero_le _, Nat.zero_le _⟩
  | video => exact ⟨[], Language.nil_mem_kstar _⟩

/-- The machine follows the language. -/
theorem resto_cons {m : Momento} :
    e :: w ∈ m.resto ↔ ∃ t, tras m e = some t ∧ w ∈ t.resto := by
  cases m with
  | inicio =>
    rw [resto, conversaciones, cons_mem_letter_mul]
    constructor
    · rintro ⟨rfl, hw⟩
      exact ⟨.saludo, rfl, hw⟩
    · rintro ⟨t, ht, hw⟩
      cases e with
      | pidio p =>
        cases p with
        | hola =>
          cases ht
          exact ⟨rfl, hw⟩
        | _ => cases ht
      | _ => cases ht
  | saludo =>
    rw [resto, cons_mem_letter_mul]
    constructor
    · rintro ⟨⟨nombre, rfl⟩, hw⟩
      exact ⟨.charla, rfl, hw⟩
    · rintro ⟨t, ht, hw⟩
      cases e with
      | oyo r =>
        cases r with
        | hola nombre =>
          cases ht
          exact ⟨⟨nombre, rfl⟩, hw⟩
        | _ => cases ht
      | _ => cases ht
  | charla =>
    rw [resto, cons_mem_sigue]
    constructor
    · rintro (⟨rfl, hw⟩ | ⟨⟨id, rfl, hid⟩ | ⟨url, rfl, hurl⟩, hw⟩)
      · exact ⟨.lista, rfl, hw⟩
      · exact ⟨.pidiendo, by simp [tras, hid], hw⟩
      · exact ⟨.pidiendo, by simp [tras, hurl], hw⟩
    · rintro ⟨t, ht, hw⟩
      cases e with
      | pidio p =>
        cases p with
        | hola => cases ht
        | lista =>
          cases ht
          exact .inl ⟨rfl, hw⟩
        | pide id =>
          obtain ⟨hid, ⟨⟩⟩ := Option.ite_none_right_eq_some.mp ht
          exact .inr ⟨.inl ⟨id, rfl, hid⟩, hw⟩
        | pagina url =>
          obtain ⟨hurl, ⟨⟩⟩ := Option.ite_none_right_eq_some.mp ht
          exact .inr ⟨.inr ⟨url, rfl, hurl⟩, hw⟩
      | _ => cases ht
  | lista =>
    rw [resto, add_mul, Language.mem_add, cons_mem_listado_mul, negado, cons_mem_letter_mul]
    constructor
    · rintro (⟨n, rfl, hw⟩ | ⟨⟨motivo, rfl⟩, hw⟩)
      · exact ⟨conEntradas n, rfl, by rwa [resto_conEntradas]⟩
      · exact ⟨.charla, rfl, hw⟩
    · rintro ⟨t, ht, hw⟩
      cases e with
      | oyo r =>
        cases r with
        | lista n =>
          cases ht
          rw [resto_conEntradas] at hw
          exact .inl ⟨n, rfl, hw⟩
        | no motivo =>
          cases ht
          exact .inr ⟨⟨motivo, rfl⟩, hw⟩
        | _ => cases ht
      | _ => cases ht
  | entradas n =>
    rw [resto, letter_pow_succ_mul, cons_mem_letter_mul, ← resto_conEntradas]
    constructor
    · rintro ⟨⟨id, titulo, rfl⟩, hw⟩
      exact ⟨_, rfl, hw⟩
    · rintro ⟨t, ht, hw⟩
      cases e with
      | oyo r =>
        cases r with
        | entrada id titulo =>
          cases ht
          exact ⟨⟨id, titulo, rfl⟩, hw⟩
        | _ => cases ht
      | _ => cases ht
  | pidiendo =>
    rw [resto, Language.mem_add, add_mul, Language.mem_add, cons_mem_paginado_mul, negado,
      cons_mem_letter_mul, cons_mem_visto]
    constructor
    · rintro ((⟨cab, rfl, hw⟩ | ⟨⟨motivo, rfl⟩, hw⟩) | ⟨⟨bytes, ancho, alto, rfl⟩, hw⟩)
      · exact ⟨conElementos cab cab.elementos, rfl, by rwa [resto_conElementos]⟩
      · exact ⟨.charla, rfl, hw⟩
      · exact ⟨.video, rfl, hw⟩
    · rintro ⟨t, ht, hw⟩
      cases e with
      | oyo r =>
        cases r with
        | lamina cab =>
          cases ht
          rw [resto_conElementos] at hw
          exact .inl (.inl ⟨cab, rfl, hw⟩)
        | no motivo =>
          cases ht
          exact .inl (.inr ⟨⟨motivo, rfl⟩, hw⟩)
        | video bytes ancho alto =>
          cases ht
          exact .inr ⟨⟨bytes, ancho, alto, rfl⟩, hw⟩
        | _ => cases ht
      | _ => cases ht
  | lamina cab n =>
    rw [resto, letter_pow_succ_mul, cons_mem_letter_mul, ← resto_conElementos]
    constructor
    · rintro ⟨⟨el, rfl, hd⟩, hw⟩
      exact ⟨_, if_pos hd, hw⟩
    · rintro ⟨t, ht, hw⟩
      cases e with
      | oyo r =>
        cases r with
        | elemento paso =>
          cases paso with
          | elemento el =>
            obtain ⟨hd, ⟨⟩⟩ := Option.ite_none_right_eq_some.mp ht
            exact ⟨⟨el, rfl, hd⟩, hw⟩
          | _ => cases ht
        | _ => cases ht
      | _ => cases ht
  | video =>
    rw [resto, cons_mem_recibos]
    constructor
    · rintro ⟨⟨n, rfl⟩, hw⟩
      exact ⟨.video, rfl, hw⟩
    · rintro ⟨t, ht, hw⟩
      cases e with
      | recibio n =>
        cases ht
        exact ⟨⟨n, rfl⟩, hw⟩
      | _ => cases ht

theorem residual : Residual tras resto := ⟨resto_cons, resto_live⟩

end

end Momento

end BmoX.Antena
