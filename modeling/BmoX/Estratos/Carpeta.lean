import BmoX.Estratos.Objetos
import Mathlib.Data.List.InsertIdx

/-!
# A directory as a list of entries

What the four transformations of `escritura/guardar.rs` mean for the list of entries their
bytes spell, and the names such a list can hold. The byte functions refine the list ones.

`platform/drivers/storage/estratos/src/escritura/guardar.rs`. The four transformations of an
entry list fill a block `dst` of the caller and answer how many of its bytes count; here the
block is the state that survives an error.
-/

namespace BmoX.Estratos

open BmoX.Base BmoX.Blake3

/-! ### What to write: file nodes, directory nodes and entry lists -/

/-- `ENTRADAS_POR_BLOQUE`; `guardar.rs:68`. -/
abbrev entradasPorBloque : Nat := bloque / entradaLen

/-- A function that fills a caller's block: an error leaves it as it is by then. -/
abbrev SobreBloque := ExceptT FormatError (StateM Bloque)

/-! ### Entry lists -/

theorem SobreBloque.ok_bind {α β : Type} (a : α) (f : α → SobreBloque β) :
    (liftM (Except.ok a : Except FormatError α) >>= f) = f a := rfl

/-- Reject a name already there, spelled alike; the loop of `guardar.rs:121–126`. -/
def sinRepetir (nombre : String) : List Bytes → Except FormatError Unit
  | [] => .ok ()
  | r :: rs => do
    let e ← Entrada.decode r
    if e.nombreStr = nombre then .error .badField else sinRepetir nombre rs

/-- The first entry with that name, ignoring case; the loop of `guardar.rs:190–196`
and `244–250`. -/
def primera (nombre : String) : List Bytes → Except FormatError (Option Nat)
  | [] => .ok none
  | r :: rs => do
    let e ← Entrada.decode r
    if e.seLlama nombre then .ok (some 0)
    else do
      let i ← primera nombre rs
      return i.map (· + 1)

/-- The last entry named `viejo`, unless another one is named `nuevo`; the loop of
`guardar.rs:294–302`. -/
def ultima (viejo nuevo : String) :
    Nat → Option (Nat × BlockPtr) → List Bytes → Except FormatError (Option (Nat × BlockPtr))
  | _, cual, [] => .ok cual
  | i, cual, r :: rs => do
    let e ← Entrada.decode r
    if e.seLlama nuevo && !e.seLlama viejo then .error .badField
    else ultima viejo nuevo (i + 1) (if e.seLlama viejo then some (i, e.nodo) else cual) rs

/-- The entry list with one more entry; `guardar.rs:105–131`. -/
def entradasCon (previas : Bytes) (nombre : String) (nodo : BlockPtr) : SobreBloque Nat :=
  let cuantas := previas.length / entradaLen
  if previas.length % entradaLen ≠ 0 then throw .badField
  else if cuantas + 1 > entradasPorBloque then throw .badField
  else do
    let nueva ← Entrada.nueva nombre nodo
    sinRepetir nombre (records entradaLen previas)
    let fin := cuantas * entradaLen
    set (Arr.pad bloque (splice previas fin nueva.encode))
    return fin + entradaLen

/-- The entry list with one entry pointing elsewhere; `guardar.rs:179–207`. -/
def entradasRepuntando (previas : Bytes) (nombre : String) (nodo : BlockPtr) : SobreBloque Nat :=
  let cuantas := previas.length / entradaLen
  if previas.length % entradaLen ≠ 0 then throw .badField
  else do
    match ← primera nombre (records entradaLen previas) with
    | none => throw .badField
    | some cual =>
      let nueva ← Entrada.nueva nombre nodo
      set (Arr.pad bloque (splice previas (entradaLen * cual) nueva.encode))
      return cuantas * entradaLen

/-- The entry list with one entry less, the others in order; `guardar.rs:232–264`. -/
def entradasSin (previas : Bytes) (nombre : String) : SobreBloque Nat :=
  let registros := records entradaLen previas
  if previas.length % entradaLen ≠ 0 then throw .badField
  else do
    match ← primera nombre registros with
    | none => throw .badField
    | some quitar =>
      let quedan := (registros.eraseIdx quitar).flatten
      set (Arr.pad bloque quedan)
      return quedan.length

/-- The entry list with one entry renamed in its place; `guardar.rs:283–312`. -/
def entradasRenombrando (previas : Bytes) (viejo nuevo : String) : SobreBloque Nat :=
  let cuantas := previas.length / entradaLen
  if previas.length % entradaLen ≠ 0 then throw .badField
  else do
    match ← ultima viejo nuevo 0 none (records entradaLen previas) with
    | none => throw .badField
    | some (cual, nodo) =>
      let renombrada ← Entrada.nueva nuevo nodo
      set (Arr.pad bloque (splice previas (entradaLen * cual) renombrada.encode))
      return cuantas * entradaLen

/-! ### Nodes -/

/-- The node of a small file, with its content inside; `guardar.rs:80–86`. -/
def nodoDeFichero (datos : Bytes) : Except FormatError Bytes :=
  if datos.length > residenteMax then .error .badField
  else do
    let a ← Attr.residente attrDatos datos
    return (← (Nodo.nuevo .archivo).con a).encode

/-- The node of a large file, whose content lives in blocks; `guardar.rs:151–158`. -/
def nodoDeFicheroGrande (size : UInt64) (niveles : UInt8) (raiz : BlockPtr) :
    Except FormatError Bytes := do
  let a ← Attr.enBloques attrDatos size niveles raiz
  return (← (Nodo.nuevo .archivo).con a).encode

/-- The node of a newborn directory; `guardar.rs:325–327`. -/
def nodoDeDirectorioVacio : Bytes := (Nodo.nuevo .directorio).encode

/-- The node of a directory that points at its block of entries; `guardar.rs:335–338`. -/
def nodoDeDirectorio (entradas : BlockPtr) (bytes : UInt64) : Except FormatError Bytes := do
  let a ← Attr.enBloques attrEntradas bytes 0 entradas
  return (← (Nodo.nuevo .directorio).con a).encode

/-! ### A directory as a list of entries -/

namespace Carpeta

/-- The bytes of the `:entradas` stream of a directory. -/
def bytes (es : List Entrada) : Bytes := es.flatMap Entrada.encode

@[simp] theorem length_bytes (es : List Entrada) : (bytes es).length = entradaLen * es.length :=
  length_flatMap_const Entrada.length_encode es

@[simp] theorem records_bytes (es : List Entrada) :
    records entradaLen (bytes es) = es.map Entrada.encode :=
  records_flatMap (by decide) Entrada.length_encode es

/-- The name of an entry as a lookup sees it. -/
def clave (e : Entrada) : Bytes := e.nombre.prefijo.map baja

/-- No two entries have the same name for a lookup. -/
def Unicas (es : List Entrada) : Prop := (es.map clave).Nodup

/-- The pointer of the first record with that name; the loop of `cursor.rs:453–456`. -/
def buscar (name : String) : List Bytes → Option BlockPtr
  | [] => none
  | r :: rs =>
    match Entrada.decode r with
    | .error _ => none
    | .ok e => if e.seLlama name then some e.nodo else buscar name rs

/-! ### The list transformations -/

/-- The first entry with that name, when it and the ones before it can be read. -/
def primera (nombre : String) : List Entrada → Option Nat
  | [] => none
  | e :: es =>
    if ¬ e.nodo.EnBloque then none
    else if e.seLlama nombre then some 0
    else (primera nombre es).map (· + 1)

/-- The last entry with that name. -/
def ultima (nombre : String) : List Entrada → Option (Nat × BlockPtr)
  | [] => none
  | e :: es =>
    match ultima nombre es with
    | some (i, p) => some (i + 1, p)
    | none => if e.seLlama nombre then some (0, e.nodo) else none

/-- One more entry, at the end. -/
def con (es : List Entrada) (nombre : String) (nodo : BlockPtr) : Option (List Entrada) :=
  if h : Entrada.NombreVale nombre ∧ es.length < entradasPorBloque ∧
      ∀ e ∈ es, e.nodo.EnBloque ∧ e.nombreStr ≠ nombre then
    some (es ++ [Entrada.deTexto nombre nodo h.1])
  else none

/-- One entry less. -/
def sin (es : List Entrada) (nombre : String) : Option (List Entrada) :=
  (primera nombre es).map es.eraseIdx

/-- One entry that points elsewhere, under the name given. -/
def repuntando (es : List Entrada) (nombre : String) (nodo : BlockPtr) : Option (List Entrada) :=
  if h : Entrada.NombreVale nombre then
    (primera nombre es).map fun i ↦ es.set i (.deTexto nombre nodo h)
  else none

/-- One entry with another name, in its place. -/
def renombrando (es : List Entrada) (viejo nuevo : String) : Option (List Entrada) :=
  if h : Entrada.NombreVale nuevo ∧
      ∀ e ∈ es, e.nodo.EnBloque ∧ (e.seLlama nuevo = true → e.seLlama viejo = true) then
    (ultima viejo es).map fun (i, p) ↦ es.set i (.deTexto nuevo p h.1)
  else none

/-- What a byte function answers when the list one gives `r`: the whole block rewritten, or
the block as it was. -/
def respuesta (dst : Bloque) : Option (List Entrada) → Except FormatError Nat × Bloque
  | none => (.error .badField, dst)
  | some es => (.ok (bytes es).length, Arr.pad bloque (bytes es))

/-- What the first match is: an entry with that name that can be read, and no such entry
before it. -/
theorem primera_eq_some {nombre : String} {es : List Entrada} {i : Nat}
    (h : primera nombre es = some i) :
    ∃ e, es[i]? = some e ∧ e.nodo.EnBloque ∧ e.seLlama nombre = true ∧
      ∀ j e', j < i → es[j]? = some e' → e'.nodo.EnBloque ∧ ¬ e'.seLlama nombre = true := by
  induction es generalizing i with
  | nil => cases h
  | cons e es ih =>
    rw [primera] at h
    split at h
    · cases h
    next he =>
    have he := not_not.mp he
    split at h
    · next hn =>
      cases h
      exact ⟨e, rfl, he, hn, fun j e' hj ↦ absurd hj (Nat.not_lt_zero j)⟩
    · next hn =>
      obtain ⟨i, hi, rfl⟩ := Option.map_eq_some_iff.mp h
      obtain ⟨x, hx, hb, hs, hant⟩ := ih hi
      refine ⟨x, hx, hb, hs, fun j e' hj hj' ↦ ?_⟩
      cases j with
      | zero =>
        cases hj'
        exact ⟨he, hn⟩
      | succ j => exact hant j e' (Nat.lt_of_succ_lt_succ hj) hj'

/-- What the last match is: an entry with that name, with its pointer. -/
theorem ultima_eq_some {nombre : String} {es : List Entrada} {i : Nat} {p : BlockPtr}
    (h : ultima nombre es = some (i, p)) :
    ∃ e, es[i]? = some e ∧ e.nodo = p ∧ e.seLlama nombre = true := by
  induction es generalizing i with
  | nil => cases h
  | cons e es ih =>
    rw [ultima] at h
    split at h
    · next hu =>
      cases h
      obtain ⟨x, hx, hp, hs⟩ := ih hu
      exact ⟨x, hx, hp, hs⟩
    · split at h
      · next hn =>
        cases h
        exact ⟨e, rfl, rfl, hn⟩
      · cases h

/-! ### Refinement -/

private theorem splice_bytes {es : List Entrada} {i : Nat} {e : Entrada} (x : Entrada)
    (h : es[i]? = some e) :
    splice (bytes es) (entradaLen * i) x.encode = bytes (es.set i x) :=
  splice_flatMap Entrada.length_encode es x (List.getElem?_eq_some_iff.mp h).1

private theorem sinRepetir_map (nombre : String) (es : List Entrada) :
    sinRepetir nombre (es.map Entrada.encode) =
      if ∀ e ∈ es, e.nodo.EnBloque ∧ e.nombreStr ≠ nombre then .ok () else .error .badField := by
  induction es with
  | nil => rfl
  | cons e es ih =>
    rw [List.map_cons, sinRepetir, Entrada.decode_encode_eq]
    by_cases he : e.nodo.EnBloque
    · by_cases hn : e.nombreStr = nombre
      · rw [if_pos he, if_neg (by simp [hn])]
        exact if_pos hn
      · rw [if_pos he]
        simp only [List.forall_mem_cons, he, hn, ne_eq, not_false_eq_true, and_self, true_and]
        exact (if_neg hn).trans ih
    · rw [if_neg he, if_neg (by simp [he])]
      rfl

private theorem primera_map (nombre : String) (es : List Entrada) :
    Estratos.primera nombre (es.map Entrada.encode) = .ok (primera nombre es) ∨
      Estratos.primera nombre (es.map Entrada.encode) = .error .badField ∧
        primera nombre es = none := by
  induction es with
  | nil => exact .inl rfl
  | cons e es ih =>
    rw [List.map_cons, Estratos.primera, Entrada.decode_encode_eq, primera]
    by_cases he : e.nodo.EnBloque
    · rw [if_pos he, if_neg (not_not.mpr he)]
      by_cases hn : e.seLlama nombre = true
      · rw [if_pos hn]
        exact .inl (if_pos hn)
      · rw [if_neg hn]
        rcases ih with ih | ⟨ih, hnone⟩
        · refine .inl ((if_neg hn).trans ?_)
          rw [ih]
          rfl
        · refine .inr ⟨(if_neg hn).trans ?_, by rw [hnone]; rfl⟩
          rw [ih]
          rfl
    · rw [if_neg he, if_pos he]
      exact .inr ⟨rfl, rfl⟩

/-- A lookup finds the first match. -/
theorem buscar_map (nombre : String) (es : List Entrada) :
    buscar nombre (es.map Entrada.encode) =
      (primera nombre es).bind fun i ↦ es[i]?.map Entrada.nodo := by
  induction es with
  | nil => rfl
  | cons e es ih =>
    rw [List.map_cons, buscar, Entrada.decode_encode_eq, primera]
    by_cases he : e.nodo.EnBloque
    · rw [if_pos he, if_neg (not_not.mpr he)]
      by_cases hn : e.seLlama nombre = true
      · rw [if_pos hn]
        exact if_pos hn
      · rw [if_neg hn]
        refine (if_neg hn).trans (ih.trans ?_)
        cases primera nombre es <;> rfl
    · rw [if_neg he, if_pos he]
      rfl

private theorem ultima_map (viejo nuevo : String) (es : List Entrada) (k : Nat)
    (cual : Option (Nat × BlockPtr)) :
    Estratos.ultima viejo nuevo k cual (es.map Entrada.encode) =
      if ∀ e ∈ es, e.nodo.EnBloque ∧ (e.seLlama nuevo = true → e.seLlama viejo = true) then
        .ok (((ultima viejo es).map fun (i, p) ↦ (k + i, p)).or cual)
      else .error .badField := by
  induction es generalizing k cual with
  | nil => rfl
  | cons e es ih =>
    rw [List.map_cons, Estratos.ultima, Entrada.decode_encode_eq, ultima]
    by_cases he : e.nodo.EnBloque
    · rw [if_pos he]
      by_cases hc : e.seLlama nuevo = true ∧ ¬ e.seLlama viejo = true
      · rw [if_neg fun h ↦ hc.2 ((h e List.mem_cons_self).2 hc.1)]
        exact if_pos (by simp [hc.1, hc.2])
      · have hc' : (e.seLlama nuevo && !e.seLlama viejo) = false := by
          simpa using hc
        refine Eq.trans (if_neg (by rw [hc']; exact Bool.false_ne_true)) ?_
        rw [ih]
        have hcab : (∀ x ∈ e :: es, x.nodo.EnBloque ∧
            (x.seLlama nuevo = true → x.seLlama viejo = true)) ↔
            ∀ x ∈ es, x.nodo.EnBloque ∧ (x.seLlama nuevo = true → x.seLlama viejo = true) := by
          simp only [List.forall_mem_cons, he, true_and, and_iff_right_iff_imp]
          exact fun _ hn ↦ by_contra fun hv ↦ hc ⟨hn, hv⟩
        simp only [hcab]
        congr 2
        cases ultima viejo es with
        | some x => simp [Nat.add_assoc, Nat.add_comm 1]
        | none => cases e.seLlama viejo <;> simp
    · rw [if_neg he, if_neg fun h ↦ he (h e List.mem_cons_self).1]
      rfl

private theorem cuantas (es : List Entrada) :
    (bytes es).length % entradaLen = 0 ∧ (bytes es).length / entradaLen = es.length := by
  rw [length_bytes]
  exact ⟨Nat.mul_mod_right .., Nat.mul_div_cancel_left _ (by decide)⟩

private theorem length_set (es : List Entrada) (i : Nat) (x : Entrada) :
    (bytes (es.set i x)).length = es.length * entradaLen := by
  rw [length_bytes, List.length_set, Nat.mul_comm]

/-- `entradas_con` adds one entry to the list, or leaves the block as it was. -/
theorem entradasCon_run (es : List Entrada) (nombre : String) (nodo : BlockPtr) (dst : Bloque) :
    entradasCon (bytes es) nombre nodo dst = respuesta dst (con es nombre nodo) := by
  obtain ⟨hmod, hdiv⟩ := cuantas es
  rw [entradasCon, if_neg (not_not.mpr hmod), hdiv]
  by_cases hl : es.length + 1 > entradasPorBloque
  · rw [if_pos hl, con, dif_neg fun h ↦ Nat.not_le.mpr hl h.2.1]
    rfl
  rw [if_neg hl]
  by_cases hn : Entrada.NombreVale nombre
  · have hnueva : Entrada.nueva nombre nodo = .ok (.deTexto nombre nodo hn) := dif_pos hn
    rw [hnueva, records_bytes, sinRepetir_map]
    by_cases hr : ∀ e ∈ es, e.nodo.EnBloque ∧ e.nombreStr ≠ nombre
    · have hfin : es.length * entradaLen = (bytes es).length := by
        rw [length_bytes, Nat.mul_comm]
      have hbytes : bytes (es ++ [Entrada.deTexto nombre nodo hn]) =
          bytes es ++ (Entrada.deTexto nombre nodo hn).encode := by
        simp [bytes]
      rw [if_pos hr, con, dif_pos ⟨hn, Nat.not_lt.mp hl, hr⟩, respuesta, hbytes,
        List.length_append, Entrada.length_encode, ← hfin, ← splice_length hfin]
      rfl
    · rw [if_neg hr, con, dif_neg fun h ↦ hr h.2.2]
      rfl
  · have hnueva : Entrada.nueva nombre nodo = .error .badField := dif_neg hn
    rw [hnueva, con, dif_neg fun h ↦ hn h.1]
    rfl

/-- `entradas_sin` drops one entry of the list, or leaves the block as it was. -/
theorem entradasSin_run (es : List Entrada) (nombre : String) (dst : Bloque) :
    entradasSin (bytes es) nombre dst = respuesta dst (sin es nombre) := by
  rw [entradasSin, if_neg (not_not.mpr (cuantas es).1), records_bytes, sin]
  rcases primera_map nombre es with h | ⟨h, hnone⟩
  · rw [h]
    cases hp : primera nombre es with
    | none => rfl
    | some i =>
      have hq : ((es.map Entrada.encode).eraseIdx i).flatten = bytes (es.eraseIdx i) := by
        rw [List.eraseIdx_map, bytes, List.flatMap_def]
      simp only [Option.map_some, respuesta, ← hq]
      rfl
  · rw [h, hnone]
    rfl

/-- `entradas_repuntando` replaces one entry of the list, or leaves the block as it was. -/
theorem entradasRepuntando_run (es : List Entrada) (nombre : String) (nodo : BlockPtr)
    (dst : Bloque) :
    entradasRepuntando (bytes es) nombre nodo dst = respuesta dst (repuntando es nombre nodo) := by
  obtain ⟨hmod, hdiv⟩ := cuantas es
  rw [entradasRepuntando, if_neg (not_not.mpr hmod), records_bytes, hdiv, repuntando]
  rcases primera_map nombre es with h | ⟨h, hnone⟩
  · rw [h]
    cases hp : primera nombre es with
    | none => split <;> rfl
    | some i =>
      obtain ⟨e, he, -⟩ := primera_eq_some hp
      by_cases hn : Entrada.NombreVale nombre
      · have hnueva : Entrada.nueva nombre nodo = .ok (.deTexto nombre nodo hn) := dif_pos hn
        rw [hnueva, dif_pos hn, Option.map_some, respuesta, length_set, ← splice_bytes _ he]
        rfl
      · have hnueva : Entrada.nueva nombre nodo = .error .badField := dif_neg hn
        rw [hnueva, dif_neg hn]
        rfl
  · rw [h, hnone]
    split <;> rfl

/-- `entradas_renombrando` renames one entry of the list, or leaves the block as it was. -/
theorem entradasRenombrando_run (es : List Entrada) (viejo nuevo : String) (dst : Bloque) :
    entradasRenombrando (bytes es) viejo nuevo dst = respuesta dst (renombrando es viejo nuevo) := by
  obtain ⟨hmod, hdiv⟩ := cuantas es
  rw [entradasRenombrando, if_neg (not_not.mpr hmod), records_bytes, hdiv, ultima_map, renombrando]
  by_cases hr : ∀ e ∈ es, e.nodo.EnBloque ∧ (e.seLlama nuevo = true → e.seLlama viejo = true)
  · rw [if_pos hr, Option.or_none]
    cases hu : ultima viejo es with
    | none => split <;> rfl
    | some x =>
      obtain ⟨i, p⟩ := x
      obtain ⟨e, he, -⟩ := ultima_eq_some hu
      simp only [Option.map_some, Nat.zero_add, SobreBloque.ok_bind]
      by_cases hn : Entrada.NombreVale nuevo
      · have hnueva : Entrada.nueva nuevo p = .ok (.deTexto nuevo p hn) := dif_pos hn
        rw [hnueva, dif_pos ⟨hn, hr⟩, respuesta, length_set, ← splice_bytes _ he]
        rfl
      · have hnueva : Entrada.nueva nuevo p = .error .badField := dif_neg hn
        rw [hnueva, dif_neg fun h ↦ hn h.1]
        rfl
  · rw [if_neg hr, dif_neg fun h ↦ hr h.2]
    rfl

end Carpeta

end BmoX.Estratos
