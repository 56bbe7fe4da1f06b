import BmoX.Estratos.Carpeta
import Mathlib.Data.List.Nodup

/-!
# Names in a directory stay unambiguous

Runs of the four transformations of `escritura/guardar.rs`, each over the bytes the last one
to succeed left, from the empty list. `entradas_con` compares names to the letter where the
other three ignore case, so a run keeps names apart only while no new name folds to one
already there.
-/

namespace BmoX.Estratos

open BmoX.Base BmoX.Blake3

namespace Carpeta

/-- A call to one of the four transformations. -/
inductive Orden
  | con (nombre : String) (nodo : BlockPtr)
  | sin (nombre : String)
  | renombrando (viejo nuevo : String)
  | repuntando (nombre : String) (nodo : BlockPtr)

namespace Orden

/-- The call on the bytes of a directory. -/
def aplica (previas : Bytes) : Orden → SobreBloque Nat
  | con nombre nodo => entradasCon previas nombre nodo
  | sin nombre => entradasSin previas nombre
  | renombrando viejo nuevo => entradasRenombrando previas viejo nuevo
  | repuntando nombre nodo => entradasRepuntando previas nombre nodo

/-- The call on the list of entries. -/
def enLista (es : List Entrada) : Orden → Option (List Entrada)
  | con nombre nodo => Carpeta.con es nombre nodo
  | sin nombre => Carpeta.sin es nombre
  | renombrando viejo nuevo => Carpeta.renombrando es viejo nuevo
  | repuntando nombre nodo => Carpeta.repuntando es nombre nodo

/-- On bytes a call does what it does on the list. -/
theorem aplica_bytes (es : List Entrada) (o : Orden) (dst : Bloque) :
    o.aplica (bytes es) dst = respuesta dst (o.enLista es) := by
  cases o with
  | con nombre nodo => exact entradasCon_run es nombre nodo dst
  | sin nombre => exact entradasSin_run es nombre dst
  | renombrando viejo nuevo => exact entradasRenombrando_run es viejo nuevo dst
  | repuntando nombre nodo => exact entradasRepuntando_run es nombre nodo dst

end Orden

/-- The `i`-th entry that the bytes of a directory spell. -/
def entradaEn (b : Bytes) (i : Nat) : Except FormatError Entrada :=
  Entrada.decode (slice b (entradaLen * i) entradaLen)

/-- No two entries at different positions have the same name for a lookup. -/
def SinAmbiguos (b : Bytes) : Prop :=
  ∀ i j e e', i ≠ j → entradaEn b i = .ok e → entradaEn b j = .ok e' →
    ¬ e.seLlama e'.nombreStr = true

/-- A call that creates no name that folds to one already there, unless spelled alike. -/
def Orden.Prudente (b : Bytes) : Orden → Prop
  | con nombre _ => ∀ i e, entradaEn b i = .ok e → e.seLlama nombre = true → e.nombreStr = nombre
  | _ => True

/-- The bytes that a run of calls can leave, every call meeting `C` where it is made. -/
inductive Recorrido (C : Bytes → Orden → Prop) : Bytes → Prop
  | vacio : Recorrido C []
  | paso {b : Bytes} {o : Orden} {dst b' : Bloque} {n : Nat} (h : Recorrido C b) (hc : C b o)
    (ho : o.aplica b dst = (.ok n, b')) : Recorrido C (b'.1.take n)

/-- What a run keeps of the list of entries. -/
structure Buena (es : List Entrada) : Prop where
  unicas : Unicas es
  textos : ∀ e ∈ es, ∃ s, e.nombre.prefijo = utf8 s
  caben : es.length ≤ entradasPorBloque

/-- The entry at a position of the bytes is the one of the list. -/
theorem entradaEn_bytes {es : List Entrada} {i : Nat} {e : Entrada} :
    entradaEn (bytes es) i = .ok e ↔ es[i]? = some e ∧ e.nodo.EnBloque := by
  by_cases hi : i < es.length
  · have hs := slice_flatMap Entrada.length_encode es [] hi
    rw [List.append_nil] at hs
    rw [entradaEn, bytes, hs, Entrada.decode_encode_eq, List.getElem?_eq_getElem hi]
    constructor
    · intro h
      split at h
      · next hb =>
        cases h
        exact ⟨rfl, hb⟩
      · cases h
    · rintro ⟨he, hb⟩
      cases he
      exact if_pos hb
  · have hs : (slice (bytes es) (entradaLen * i) entradaLen).length < entradaLen := by
      rw [length_slice, length_bytes, ← Nat.mul_sub, Nat.sub_eq_zero_of_le (Nat.not_lt.mp hi)]
      decide
    rw [entradaEn, Entrada.decode, if_pos hs, List.getElem?_eq_none (Nat.not_lt.mp hi)]
    constructor
    · intro h
      cases h
    · intro h
      cases h.1

private theorem aplica_ok {es : List Entrada} {o : Orden} {dst b' : Bloque} {n : Nat}
    (ho : o.aplica (bytes es) dst = (.ok n, b')) :
    ∃ es', o.enLista es = some es' ∧ n = (bytes es').length ∧ b' = Arr.pad bloque (bytes es') := by
  rw [Orden.aplica_bytes] at ho
  cases hes : o.enLista es with
  | none =>
    rw [hes] at ho
    cases ho
  | some es' =>
    rw [hes] at ho
    cases ho
    exact ⟨es', rfl, rfl, rfl⟩

/-! ### One call -/

private theorem clave_deTexto {nombre : String} {nodo : BlockPtr} (h : Entrada.NombreVale nombre) :
    clave (.deTexto nombre nodo h) = plegado nombre :=
  congrArg _ (Nombre.prefijo_deTexto h.2)

private theorem seLlama_iff_clave {e : Entrada} {nombre : String} :
    e.seLlama nombre = true ↔ clave e = plegado nombre := Entrada.seLlama_iff

private theorem unicas_set {es : List Entrada} {i : Nat} {e x : Entrada} (h : Unicas es)
    (he : es[i]? = some e) (hx : clave x = clave e ∨ clave x ∉ es.map clave) :
    Unicas (es.set i x) := by
  rw [Unicas, List.map_set]
  rcases hx with hx | hx
  · obtain ⟨hi, rfl⟩ := List.getElem?_eq_some_iff.mp he
    rw [hx, ← List.getElem_map clave (h := by rwa [List.length_map]), List.set_getElem_self]
    exact h
  · exact List.Nodup.set h hx

private theorem textos_deTexto {nombre : String} {nodo : BlockPtr} (h : Entrada.NombreVale nombre) :
    ∃ s, (Entrada.deTexto nombre nodo h).nombre.prefijo = utf8 s :=
  ⟨nombre, Nombre.prefijo_deTexto h.2⟩

private theorem buena_set {es : List Entrada} {i : Nat} {e : Entrada} {nombre : String}
    {nodo : BlockPtr} (hn : Entrada.NombreVale nombre) (h : Buena es) (he : es[i]? = some e)
    (hx : plegado nombre = clave e ∨ plegado nombre ∉ es.map clave) :
    Buena (es.set i (.deTexto nombre nodo hn)) where
  unicas := unicas_set h.unicas he (by rwa [clave_deTexto])
  textos x hx := by
    rcases List.mem_or_eq_of_mem_set hx with hx | rfl
    · exact h.textos x hx
    · exact textos_deTexto hn
  caben := by
    rw [List.length_set]
    exact h.caben

/-- Adding a name that folds to none already there keeps a list good. -/
theorem Buena.con {es es' : List Entrada} {nombre : String} {nodo : BlockPtr} (h : Buena es)
    (hc : Orden.Prudente (bytes es) (.con nombre nodo)) (ho : con es nombre nodo = some es') :
    Buena es' := by
  simp only [Carpeta.con] at ho
  split at ho
  · next hn =>
    cases ho
    obtain ⟨hn, hlen, hes⟩ := hn
    have hnew : ∀ e ∈ es, clave e ≠ plegado nombre := by
      intro e he heq
      obtain ⟨i, hi⟩ := List.getElem?_of_mem he
      have hi' := entradaEn_bytes.mpr ⟨hi, (hes e he).1⟩
      exact (hes e he).2 (hc i e hi' (seLlama_iff_clave.mpr heq))
    refine ⟨?_, ?_, ?_⟩
    · rw [Unicas, List.map_append, List.map_singleton, clave_deTexto]
      refine List.nodup_append.mpr ⟨h.unicas, List.pairwise_singleton _ _, ?_⟩
      intro x hx y hy
      obtain ⟨e, he, rfl⟩ := List.mem_map.mp hx
      rw [List.mem_singleton.mp hy]
      exact hnew e he
    · intro e he
      rcases List.mem_append.mp he with he | he
      · exact h.textos e he
      · rw [List.mem_singleton.mp he]
        exact textos_deTexto hn
    · rw [List.length_append]
      exact hlen
  · cases ho

/-- Dropping an entry keeps a list good. -/
theorem Buena.sin {es es' : List Entrada} {nombre : String} (h : Buena es)
    (ho : sin es nombre = some es') : Buena es' := by
  obtain ⟨i, -, rfl⟩ := Option.map_eq_some_iff.mp ho
  have hsub := List.eraseIdx_sublist es i
  exact ⟨h.unicas.sublist (hsub.map clave), fun e he ↦ h.textos e (hsub.subset he),
    hsub.length_le.trans h.caben⟩

/-- Repointing an entry keeps a list good. -/
theorem Buena.repuntando {es es' : List Entrada} {nombre : String} {nodo : BlockPtr}
    (h : Buena es) (ho : repuntando es nombre nodo = some es') : Buena es' := by
  simp only [Carpeta.repuntando] at ho
  split at ho
  · next hn =>
    obtain ⟨i, hi, rfl⟩ := Option.map_eq_some_iff.mp ho
    obtain ⟨e, he, -, hs, -⟩ := primera_eq_some hi
    exact buena_set hn h he (.inl (seLlama_iff_clave.mp hs).symm)
  · cases ho

/-- Renaming an entry keeps a list good. -/
theorem Buena.renombrando {es es' : List Entrada} {viejo nuevo : String} (h : Buena es)
    (ho : renombrando es viejo nuevo = some es') : Buena es' := by
  simp only [Carpeta.renombrando] at ho
  split at ho
  · next hn =>
    obtain ⟨⟨i, p⟩, hi, rfl⟩ := Option.map_eq_some_iff.mp ho
    obtain ⟨e, he, rfl, hs⟩ := ultima_eq_some hi
    refine buena_set hn.1 h he (or_iff_not_imp_right.mpr fun hin ↦ ?_)
    -- an entry already named `nuevo` is named `viejo` too, so the two names fold alike
    obtain ⟨x, hx, hxk⟩ := List.mem_map.mp (not_not.mp hin)
    have hxv := (hn.2 x hx).2 (seLlama_iff_clave.mpr hxk)
    rw [← hxk, seLlama_iff_clave.mp hxv, seLlama_iff_clave.mp hs]
  · cases ho

/-- A prudent call keeps a list good. -/
theorem Buena.enLista {es es' : List Entrada} {o : Orden} (h : Buena es)
    (hc : o.Prudente (bytes es)) (ho : o.enLista es = some es') : Buena es' := by
  cases o with
  | con nombre nodo => exact h.con hc ho
  | sin nombre => exact h.sin ho
  | renombrando viejo nuevo => exact h.renombrando ho
  | repuntando nombre nodo => exact h.repuntando ho

theorem take_pad_bytes {es : List Entrada} (h : es.length ≤ entradasPorBloque) :
    (Arr.pad bloque (bytes es)).1.take (bytes es).length = bytes es := by
  refine Arr.take_pad ?_
  rw [length_bytes]
  exact (Nat.mul_le_mul_left _ h).trans (by decide)

/-! ### Whole runs -/

/-- The bytes a prudent run leaves spell a good list. -/
theorem Recorrido.buena {b : Bytes} (h : Recorrido (fun b o ↦ o.Prudente b) b) :
    ∃ es, b = bytes es ∧ Buena es := by
  induction h with
  | vacio => exact ⟨[], rfl, List.nodup_nil, List.forall_mem_nil _, Nat.zero_le _⟩
  | paso h hc ho ih =>
    obtain ⟨es, rfl, hes⟩ := ih
    obtain ⟨es', hes', rfl, rfl⟩ := aplica_ok ho
    have hb := hes.enLista hc hes'
    exact ⟨es', take_pad_bytes hb.caben, hb⟩

/-- The entry a name selects: it answers to the name, no other does, and a lookup finds it. -/
structure Selecciona (b : Bytes) (nombre : String) (i : Nat) (e : Entrada) : Prop where
  entrada : entradaEn b i = .ok e
  llama : e.seLlama nombre = true
  unica : ∀ j e', entradaEn b j = .ok e' → e'.seLlama nombre = true → j = i
  busca : buscar nombre (records entradaLen b) = some e.nodo

private theorem indice_unico {es : List Entrada} (h : Unicas es) {i j : Nat} {e e' : Entrada}
    (hi : es[i]? = some e) (hj : es[j]? = some e') (hk : clave e = clave e') : i = j := by
  refine (List.getElem?_inj ?_ h).mp ?_
  · rw [List.length_map]
    exact (List.getElem?_eq_some_iff.mp hi).1
  · rw [List.getElem?_map, List.getElem?_map, hi, hj, Option.map_some, Option.map_some, hk]

private theorem unica_de {es : List Entrada} (h : Unicas es) {nombre : String} {i j : Nat}
    {e e' : Entrada} (hi : entradaEn (bytes es) i = .ok e) (hj : entradaEn (bytes es) j = .ok e')
    (he : e.seLlama nombre = true) (he' : e'.seLlama nombre = true) : i = j :=
  indice_unico h (entradaEn_bytes.mp hi).1 (entradaEn_bytes.mp hj).1
    ((seLlama_iff_clave.mp he).trans (seLlama_iff_clave.mp he').symm)

private theorem selecciona_primera {es : List Entrada} (h : Unicas es) {nombre : String} {i : Nat}
    (hi : primera nombre es = some i) :
    ∃ e, es[i]? = some e ∧ Selecciona (bytes es) nombre i e := by
  obtain ⟨e, he, hb, hs, -⟩ := primera_eq_some hi
  have hent := entradaEn_bytes.mpr ⟨he, hb⟩
  refine ⟨e, he, hent, hs, fun j e' hj hs' ↦ unica_de h hj hent hs' hs, ?_⟩
  rw [records_bytes, buscar_map, hi, Option.bind_some, he, Option.map_some]

/-- A name that some entry answers to has a first match, when the list can be read whole. -/
theorem exists_primera {es : List Entrada} {nombre : String} {e : Entrada}
    (hleg : ∀ e ∈ es, e.nodo.EnBloque) (he : e ∈ es) (hs : e.seLlama nombre = true) :
    ∃ i, primera nombre es = some i := by
  induction es with
  | nil => cases he
  | cons x es ih =>
    rw [primera, if_neg (not_not.mpr (hleg x List.mem_cons_self))]
    split
    · exact ⟨0, rfl⟩
    · next hx =>
      rcases List.mem_cons.mp he with rfl | he
      · exact absurd hs hx
      · obtain ⟨i, hi⟩ := ih (fun y hy ↦ hleg y (List.mem_cons_of_mem x hy)) he
        exact ⟨i + 1, by rw [hi]; rfl⟩

private theorem primera_of_ultima {es : List Entrada} (h : Unicas es) {nombre : String} {i : Nat}
    {p : BlockPtr} (hleg : ∀ e ∈ es, e.nodo.EnBloque) (hu : ultima nombre es = some (i, p)) :
    primera nombre es = some i := by
  obtain ⟨e, he, -, hs⟩ := ultima_eq_some hu
  obtain ⟨j, hj⟩ := exists_primera hleg (List.mem_of_getElem? he) hs
  obtain ⟨e', he', -, hs', -⟩ := primera_eq_some hj
  rw [hj, indice_unico h he he' ((seLlama_iff_clave.mp hs).trans (seLlama_iff_clave.mp hs').symm)]

/-- A directory built by calls that add no name folding to one already there has no ambiguous
name, and delete, rename and repoint act on the entry that a lookup finds. -/
theorem nombres_sin_ambiguedad {b : Bytes} (h : Recorrido (fun b o ↦ o.Prudente b) b) :
    SinAmbiguos b ∧
    (∀ nombre i j e e', entradaEn b i = .ok e → entradaEn b j = .ok e' →
      e.seLlama nombre = true → e'.seLlama nombre = true → i = j) ∧
    (∀ nombre dst b' n, entradasSin b nombre dst = (.ok n, b') →
      ∃ i e, Selecciona b nombre i e ∧
        records entradaLen (b'.1.take n) = (records entradaLen b).eraseIdx i) ∧
    (∀ viejo nuevo dst b' n, entradasRenombrando b viejo nuevo dst = (.ok n, b') →
      ∃ i e, ∃ e' : Entrada, Selecciona b viejo i e ∧ e'.nombreStr = nuevo ∧ e'.nodo = e.nodo ∧
        records entradaLen (b'.1.take n) = (records entradaLen b).set i e'.encode) ∧
    (∀ nombre nodo dst b' n, entradasRepuntando b nombre nodo dst = (.ok n, b') →
      ∃ i e, ∃ e' : Entrada, Selecciona b nombre i e ∧ e'.nodo = nodo ∧
        records entradaLen (b'.1.take n) = (records entradaLen b).set i e'.encode) := by
  obtain ⟨es, rfl, hes⟩ := h.buena
  refine ⟨?_, fun nombre i j e e' hi hj ↦ unica_de hes.unicas hi hj, ?_, ?_, ?_⟩
  · intro i j e e' hij hi hj hs
    obtain ⟨s, hs'⟩ := hes.textos e' (List.mem_of_getElem? (entradaEn_bytes.mp hj).1)
    have hstr : utf8 e'.nombreStr = e'.nombre.prefijo := by
      rw [Entrada.nombreStr, Nombre.str, hs', utf8D_utf8]
    refine hij (unica_de hes.unicas hi hj hs (seLlama_iff_clave.mpr ?_))
    rw [clave, plegado, hstr]
  · intro nombre dst b' n ho
    obtain ⟨es', hes', rfl, rfl⟩ := aplica_ok (o := .sin nombre) ho
    have hb := hes.sin hes'
    obtain ⟨i, hi, rfl⟩ := Option.map_eq_some_iff.mp hes'
    obtain ⟨e, -, hsel⟩ := selecciona_primera hes.unicas hi
    refine ⟨i, e, hsel, ?_⟩
    rw [take_pad_bytes hb.caben, records_bytes, records_bytes, List.eraseIdx_map]
  · intro viejo nuevo dst b' n ho
    obtain ⟨es', hes', rfl, rfl⟩ := aplica_ok (o := .renombrando viejo nuevo) ho
    have hb := hes.renombrando hes'
    simp only [Orden.enLista, renombrando] at hes'
    split at hes'
    · next hn =>
      obtain ⟨⟨i, p⟩, hu, rfl⟩ := Option.map_eq_some_iff.mp hes'
      obtain ⟨e, he, hsel⟩ := selecciona_primera hes.unicas
        (primera_of_ultima hes.unicas (fun x hx ↦ (hn.2 x hx).1) hu)
      obtain ⟨e', he', rfl, -⟩ := ultima_eq_some hu
      rw [he] at he'
      cases he'
      refine ⟨i, e, .deTexto nuevo e.nodo hn.1, hsel, Entrada.nombreStr_deTexto hn.1, rfl, ?_⟩
      rw [take_pad_bytes hb.caben, records_bytes, records_bytes, List.map_set]
    · cases hes'
  · intro nombre nodo dst b' n ho
    obtain ⟨es', hes', rfl, rfl⟩ := aplica_ok (o := .repuntando nombre nodo) ho
    have hb := hes.repuntando hes'
    simp only [Orden.enLista, repuntando] at hes'
    split at hes'
    · next hn =>
      obtain ⟨i, hi, rfl⟩ := Option.map_eq_some_iff.mp hes'
      obtain ⟨e, -, hsel⟩ := selecciona_primera hes.unicas hi
      refine ⟨i, e, .deTexto nombre nodo hn, hsel, rfl, ?_⟩
      rw [take_pad_bytes hb.caben, records_bytes, records_bytes, List.map_set]
    · cases hes'

private theorem Recorrido.paso_lista {C : Bytes → Orden → Prop} {es es' : List Entrada} {o : Orden}
    (h : Recorrido C (bytes es)) (hc : C (bytes es) o) (ho : o.enLista es = some es')
    (hlen : es'.length ≤ entradasPorBloque) : Recorrido C (bytes es') := by
  have hrun := Orden.aplica_bytes es o (Arr.pad bloque [])
  rw [ho] at hrun
  rw [← take_pad_bytes hlen]
  exact h.paso hc hrun

private theorem recorrido_dos {C : Bytes → Orden → Prop} {n m : String}
    (hn : Entrada.NombreVale n) (hm : Entrada.NombreVale m) (hnm : n ≠ m)
    (h1 : C [] (.con n .nulo)) (h2 : C (bytes [.deTexto n .nulo hn]) (.con m .nulo)) :
    Recorrido C (bytes [.deTexto n .nulo hn, .deTexto m .nulo hm]) := by
  have he1 : con [] n .nulo = some [.deTexto n .nulo hn] :=
    dif_pos ⟨hn, by decide, List.forall_mem_nil _⟩
  have he2 : con [.deTexto n .nulo hn] m .nulo =
      some [.deTexto n .nulo hn, .deTexto m .nulo hm] := by
    refine dif_pos ⟨hm, by rw [List.length_singleton]; decide, fun e he ↦ ?_⟩
    rw [List.mem_singleton.mp he, Entrada.nombreStr_deTexto]
    exact ⟨show BlockPtr.EnBloque .nulo by decide, hnm⟩
  have hr1 : Recorrido C (bytes [.deTexto n .nulo hn]) :=
    @Recorrido.paso_lista C [] _ _ .vacio h1 he1 (by rw [List.length_singleton]; decide)
  exact hr1.paso_lista h2 he2 (by rw [List.length_cons, List.length_singleton]; decide)

/-- A run that creates `hola` and then `adios` leaves no ambiguous name. -/
theorem hola_y_adios_no_se_confunden :
    SinAmbiguos (bytes [.deTexto "hola" .nulo (by decide), .deTexto "adios" .nulo (by decide)]) := by
  refine (nombres_sin_ambiguedad (recorrido_dos (by decide) (by decide) (by decide) ?_ ?_)).1
  · intro i e he
    have he := ((@entradaEn_bytes [] i e).mp he).1
    cases he
  · intro i e he hs
    have he := (entradaEn_bytes.mp he).1
    rw [List.mem_singleton.mp (List.mem_of_getElem? he)] at hs
    exact absurd hs (by decide)

/-- A run that creates `Hola` and then `hola` leaves two entries that answer to one name. -/
theorem hola_dos_veces_es_ambiguo :
    ¬ ∀ b, Recorrido (fun _ _ ↦ True) b → SinAmbiguos b := by
  intro h
  have hrun := recorrido_dos (C := fun _ _ ↦ True) (n := "Hola") (m := "hola") (by decide)
    (by decide) (by decide) trivial trivial
  refine h _ hrun 0 1 _ _ (by decide) (entradaEn_bytes.mpr ⟨rfl, by decide⟩)
    (entradaEn_bytes.mpr ⟨rfl, by decide⟩) (by decide)

end Carpeta

end BmoX.Estratos
