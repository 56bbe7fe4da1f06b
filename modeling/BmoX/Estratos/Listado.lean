import BmoX.Base.Chunks
import BmoX.Estratos.Nombres

/-!
# Each transformation of a directory is exact

What the four transformations of `escritura/guardar.rs` do to the records of one list, whatever
bytes the list was written with. Three of them keep their frame always; `entradas_repuntando`
writes the name of the caller over the one it found, which it looked up ignoring case.
-/

namespace BmoX.Estratos

open BmoX.Base BmoX.Blake3

/-- A pointer that was read is written back as it was. -/
theorem BlockPtr.encode_of_decode {b : Bytes} {p : BlockPtr} (hl : b.length = ptrLen)
    (h : decode b = .ok p) : p.encode = b := by
  have hlen : ∀ o n, o + n ≤ ptrLen → (slice b o n).length = n := by
    intro o n hon
    rw [length_slice, hl, Nat.min_eq_left (by omega)]
  have hparte : ∀ o n, slice b o n ++ b.drop (o + n) = b.drop o := by
    intro o n
    rw [slice, ← List.drop_drop]
    exact List.take_append_drop n _
  simp only [decode] at h
  split at h
  · cases h
  split at h
  · cases h
  cases h
  have hhash : slice b 16 32 = b.drop 16 := by
    apply List.take_of_length_le
    rw [List.length_drop, hl]
    decide
  simp only [encode]
  rw [u64Le_u64De (hlen 0 8 (by decide)), u32Le_u32De (hlen 8 4 (by decide)),
    u32Le_u32De (hlen 12 4 (by decide)), Arr.val_pad_self (hlen 16 32 (by decide)), hhash,
    List.append_assoc, List.append_assoc, hparte 12 4, hparte 8 4, hparte 0 8, List.drop_zero]

/-- An entry that was read is written back as it was. -/
theorem Entrada.encode_of_decode {b : Bytes} {e : Entrada} (hl : b.length = entradaLen)
    (h : decode b = .ok e) : e.encode = b := by
  simp only [decode, conNombreLen] at h
  split at h
  · cases h
  split at h
  · cases h
  cases hp : BlockPtr.decode (slice b 64 ptrLen) with
  | error err =>
    rw [hp] at h
    cases h
  | ok p =>
    rw [hp] at h
    cases h
    have hnombre : (slice b 1 nombreMax).length = nombreMax := by
      rw [length_slice, hl]
      rfl
    have hnodo : (slice b 64 ptrLen).length = ptrLen := by
      rw [length_slice, hl]
      rfl
    cases b with
    | nil => cases hl
    | cons x b =>
      have hfin : slice (x :: b) 64 ptrLen = b.drop nombreMax := by
        apply List.take_of_length_le
        rw [List.length_drop, hl]
        decide
      simp only [encode]
      rw [Arr.val_pad_self hnombre, BlockPtr.encode_of_decode hnodo hp, hfin,
        List.getD_cons_zero, UInt8.ofNat_toNat, List.singleton_append, List.cons_append]
      exact congrArg _ (List.take_append_drop nombreMax b)

namespace Carpeta

/-- A well-formed entry list of at most one block. -/
structure Listado where
  previas : Bytes
  enteras : previas.length % entradaLen = 0
  caben : previas.length ≤ bloque
  legibles : ∀ r ∈ records entradaLen previas, ∃ e, Entrada.decode r = .ok e

/-! ### Records -/

/-- The name of a record: its length and its array. -/
def ficha (r : Bytes) : Bytes := r.take 64

/-- The node of a record. -/
def punteroEn (r : Bytes) : Bytes := r.drop 64

/-- The record answers to this name. -/
def Llamada (r : Bytes) (nombre : String) : Prop :=
  ∃ e, Entrada.decode r = .ok e ∧ e.seLlama nombre = true

/-- The record holds this name, to the letter. -/
def Rotulada (r : Bytes) (nombre : String) : Prop :=
  ∃ e, Entrada.decode r = .ok e ∧ e.nombreStr = nombre

/-- What a call that succeeds does to the records of the list. -/
def Hecha (viejos nuevos : List Bytes) : Orden → Prop
  | .con nombre nodo => ∃ h, nuevos = viejos ++ [(Entrada.deTexto nombre nodo h).encode]
  | .sin nombre => ∃ i r, viejos[i]? = some r ∧ Llamada r nombre ∧ nuevos = viejos.eraseIdx i
  | .renombrando viejo nuevo => ∃ i r r', viejos[i]? = some r ∧ Llamada r viejo ∧
      nuevos = viejos.set i r' ∧ Rotulada r' nuevo ∧ punteroEn r' = punteroEn r
  | .repuntando nombre nodo => ∃ i r r', viejos[i]? = some r ∧ Llamada r nombre ∧
      nuevos = viejos.set i r' ∧ ficha r' = ficha r ∧ punteroEn r' = nodo.encode

/-- A call is exact and atomic: on success the block starts with the records that it must hold,
on error it is as it was. -/
def Exacta (l : Listado) (dst : Bloque) (o : Orden) : Prop :=
  match o.aplica l.previas dst with
  | (.error _, dst') => dst' = dst
  | (.ok n, dst') => n ≤ bloque ∧ n % entradaLen = 0 ∧
      Hecha (records entradaLen l.previas) (records entradaLen (dst'.1.take n)) o

/-- The first entry that answers to the name to repoint was stored spelled like it. -/
def Literal (l : Listado) : Orden → Prop
  | .repuntando nombre _ => ∀ i e, entradaEn l.previas i = .ok e → e.seLlama nombre = true →
      (∀ j e', j < i → entradaEn l.previas j = .ok e' → ¬ e'.seLlama nombre = true) →
      e.nombre.bytes = Arr.pad nombreMax (utf8 nombre)
  | _ => True

/-! ### The list behind the bytes -/

private theorem exists_map {rs : List Bytes} (hl : ∀ r ∈ rs, r.length = entradaLen)
    (h : ∀ r ∈ rs, ∃ e, Entrada.decode r = .ok e) :
    ∃ es : List Entrada, rs = es.map Entrada.encode ∧ ∀ e ∈ es, e.nodo.EnBloque := by
  induction rs with
  | nil => exact ⟨[], rfl, List.forall_mem_nil _⟩
  | cons r rs ih =>
    obtain ⟨hr, hrs⟩ := List.forall_mem_cons.mp hl
    obtain ⟨⟨e, he⟩, hes⟩ := List.forall_mem_cons.mp h
    obtain ⟨es, rfl, hb⟩ := ih hrs hes
    refine ⟨e :: es, ?_, List.forall_mem_cons.mpr ⟨Entrada.enBloque_of_decode he, hb⟩⟩
    rw [List.map_cons, Entrada.encode_of_decode hr he]

private theorem Listado.exists_bytes (l : Listado) :
    ∃ es, l.previas = bytes es ∧ (∀ e ∈ es, e.nodo.EnBloque) ∧ es.length ≤ entradasPorBloque := by
  have hlen : ∀ r ∈ records entradaLen l.previas, r.length = entradaLen := by
    intro r hr
    obtain ⟨i, hi, rfl⟩ := List.mem_map.mp hr
    have hi := List.mem_range.mp hi
    have hdiv := Nat.mul_div_le l.previas.length entradaLen
    have hmul := Nat.mul_le_mul_left entradaLen (Nat.succ_le_of_lt hi)
    rw [Nat.mul_succ] at hmul
    rw [length_slice, Nat.min_eq_left (by omega)]
  obtain ⟨es, hes, hb⟩ := exists_map hlen l.legibles
  have hbytes : l.previas = bytes es := by
    rw [← flatten_records l.enteras, hes, bytes, List.flatMap_def]
  refine ⟨es, hbytes, hb, ?_⟩
  have hc := l.caben
  rw [hbytes, length_bytes] at hc
  exact (Nat.le_div_iff_mul_le (by decide)).mpr (by rwa [Nat.mul_comm])

/-- A call does not leave more entries than fit in a block. -/
theorem Orden.length_enLista {es es' : List Entrada} {o : Orden} (ho : o.enLista es = some es')
    (h : es.length ≤ entradasPorBloque) : es'.length ≤ entradasPorBloque := by
  cases o with
  | con nombre nodo =>
    simp only [enLista, Carpeta.con] at ho
    split at ho
    · next hc =>
      cases ho
      rw [List.length_append]
      exact hc.2.1
    · cases ho
  | sin nombre =>
    obtain ⟨i, -, rfl⟩ := Option.map_eq_some_iff.mp ho
    exact (List.length_eraseIdx_le es i).trans h
  | renombrando viejo nuevo =>
    simp only [enLista, Carpeta.renombrando] at ho
    split at ho
    · obtain ⟨⟨i, p⟩, -, rfl⟩ := Option.map_eq_some_iff.mp ho
      rwa [List.length_set]
    · cases ho
  | repuntando nombre nodo =>
    simp only [enLista, Carpeta.repuntando] at ho
    split at ho
    · obtain ⟨i, -, rfl⟩ := Option.map_eq_some_iff.mp ho
      rwa [List.length_set]
    · cases ho

private theorem exacta_iff_enLista {l : Listado} {es : List Entrada} (hl : l.previas = bytes es)
    (hlen : es.length ≤ entradasPorBloque) (dst : Bloque) (o : Orden) :
    Exacta l dst o ↔ ∀ es', o.enLista es = some es' →
      Hecha (es.map Entrada.encode) (es'.map Entrada.encode) o := by
  rw [Exacta, hl, Orden.aplica_bytes, records_bytes]
  cases hes : o.enLista es with
  | none => simp [respuesta]
  | some es' =>
    have hlen' := Orden.length_enLista hes hlen
    have hcabe : entradaLen * es'.length ≤ bloque :=
      (Nat.mul_le_mul_left _ hlen').trans (by decide)
    simp only [respuesta, take_pad_bytes hlen', records_bytes]
    constructor
    · rintro ⟨-, -, h⟩ _ ⟨⟩
      exact h
    · intro h
      refine ⟨?_, ?_, h es' rfl⟩
      · rwa [length_bytes]
      · rw [length_bytes, Nat.mul_mod_right]

/-! ### Each call -/

private theorem getElem?_encode {es : List Entrada} {i : Nat} {e : Entrada} (h : es[i]? = some e) :
    (es.map Entrada.encode)[i]? = some e.encode := by
  rw [List.getElem?_map, h, Option.map_some]

private theorem llamada_encode {e : Entrada} {nombre : String} (hb : e.nodo.EnBloque)
    (hs : e.seLlama nombre = true) : Llamada e.encode nombre :=
  ⟨e, Entrada.decode_encode hb, hs⟩

private theorem encode_partes (e : Entrada) :
    ficha e.encode = UInt8.ofNat e.nombre.len :: e.nombre.bytes.1 ∧
    punteroEn e.encode = e.nodo.encode := by
  have hl : (UInt8.ofNat e.nombre.len :: e.nombre.bytes.1).length = 64 := by
    rw [List.length_cons, Arr.length_val]
  exact ⟨List.take_left' hl, List.drop_left' hl⟩

private theorem hecha_con {es es' : List Entrada} {nombre : String} {nodo : BlockPtr}
    (h : con es nombre nodo = some es') :
    Hecha (es.map Entrada.encode) (es'.map Entrada.encode) (.con nombre nodo) := by
  simp only [con] at h
  split at h
  · next hc =>
    cases h
    exact ⟨hc.1, List.map_append⟩
  · cases h

private theorem hecha_sin {es es' : List Entrada} {nombre : String} (h : sin es nombre = some es') :
    Hecha (es.map Entrada.encode) (es'.map Entrada.encode) (.sin nombre) := by
  obtain ⟨i, hi, rfl⟩ := Option.map_eq_some_iff.mp h
  obtain ⟨e, he, hb, hs, -⟩ := primera_eq_some hi
  refine ⟨i, e.encode, getElem?_encode he, llamada_encode hb hs, ?_⟩
  rw [List.eraseIdx_map]

private theorem hecha_renombrando {es es' : List Entrada} {viejo nuevo : String}
    (h : renombrando es viejo nuevo = some es') :
    Hecha (es.map Entrada.encode) (es'.map Entrada.encode) (.renombrando viejo nuevo) := by
  simp only [renombrando] at h
  split at h
  · next hc =>
    obtain ⟨⟨i, p⟩, hu, rfl⟩ := Option.map_eq_some_iff.mp h
    obtain ⟨e, he, rfl, hs⟩ := ultima_eq_some hu
    have hb := (hc.2 e (List.mem_of_getElem? he)).1
    refine ⟨i, e.encode, (Entrada.deTexto nuevo e.nodo hc.1).encode, getElem?_encode he,
      llamada_encode hb hs, List.map_set,
      ⟨_, Entrada.decode_encode hb, Entrada.nombreStr_deTexto hc.1⟩, ?_⟩
    rw [(encode_partes _).2, (encode_partes _).2]
    rfl
  · cases h

/-- The first entry that answers to a name. -/
structure Primera (es : List Entrada) (nombre : String) (i : Nat) (e : Entrada) : Prop where
  entrada : es[i]? = some e
  llama : e.seLlama nombre = true
  antes : ∀ j e', j < i → es[j]? = some e' → ¬ e'.seLlama nombre = true

/-- The search finds the first entry that answers. -/
theorem Primera.busca {es : List Entrada} {nombre : String} {i : Nat} {e : Entrada}
    (h : Primera es nombre i e) (hleg : ∀ e ∈ es, e.nodo.EnBloque) :
    primera nombre es = some i := by
  obtain ⟨j, hj⟩ := exists_primera hleg (List.mem_of_getElem? h.entrada) h.llama
  obtain ⟨e', he', -, hs', hantes⟩ := primera_eq_some hj
  rcases Nat.lt_trichotomy i j with hij | rfl | hij
  · exact absurd h.llama (hantes i e hij h.entrada).2
  · exact hj
  · exact absurd hs' (h.antes j e' hij he')

/-- A name that an entry answers to fits in an entry. -/
theorem nombreVale_of_seLlama {e : Entrada} {nombre : String} (h : e.seLlama nombre = true) :
    Entrada.NombreVale nombre ∧ e.nombre.len = (utf8 nombre).length := by
  have hlen : e.nombre.len = (utf8 nombre).length := by
    have hk := congrArg List.length (Entrada.seLlama_iff.mp h)
    rwa [plegado, List.length_map, List.length_map, Nombre.length_prefijo] at hk
  refine ⟨⟨?_, ?_⟩, hlen⟩
  · apply List.length_pos_iff.mp
    rw [← hlen]
    exact e.nombre_pos
  · rw [← hlen]
    exact e.nombre.len_le

/-- Repointing keeps the name exactly when the first entry found was spelled like the name
given. -/
theorem hecha_repuntando_iff {es : List Entrada} (hleg : ∀ e ∈ es, e.nodo.EnBloque)
    (nombre : String) (nodo : BlockPtr) :
    (∀ es', repuntando es nombre nodo = some es' →
      Hecha (es.map Entrada.encode) (es'.map Entrada.encode) (.repuntando nombre nodo)) ↔
    ∀ i e, Primera es nombre i e → e.nombre.bytes = Arr.pad nombreMax (utf8 nombre) := by
  constructor
  · intro h i e hp
    obtain ⟨hn, hlen⟩ := nombreVale_of_seLlama hp.llama
    have hrep : repuntando es nombre nodo = some (es.set i (.deTexto nombre nodo hn)) := by
      rw [repuntando, dif_pos hn, hp.busca hleg, Option.map_some]
    obtain ⟨k, r, r', hr, -, hset, hficha, -⟩ := h _ hrep
    -- the names of the records are what they were, also at the entry found
    have hfichas := congrArg (List.map ficha) hset
    rw [List.map_set, List.map_set, List.map_set, hficha] at hfichas
    have hk : ((es.map Entrada.encode).map ficha).set k (ficha r) =
        (es.map Entrada.encode).map ficha := by
      obtain ⟨hklt, rfl⟩ := List.getElem?_eq_some_iff.mp hr
      rw [← List.map_set, List.set_getElem_self]
    rw [hk] at hfichas
    have hi := congrArg (·[i]?) hfichas
    have hlt : i < ((es.map Entrada.encode).map ficha).length := by
      rw [List.length_map, List.length_map]
      exact (List.getElem?_eq_some_iff.mp hp.entrada).1
    simp only [List.getElem?_set_self hlt, List.getElem?_map, hp.entrada, Option.map_some,
      Option.some.injEq] at hi
    rw [(encode_partes _).1, (encode_partes _).1] at hi
    exact (Subtype.ext (List.cons.inj hi).2).symm
  · intro h es' hes'
    simp only [repuntando] at hes'
    split at hes'
    · next hn =>
      obtain ⟨i, hi, rfl⟩ := Option.map_eq_some_iff.mp hes'
      obtain ⟨e, he, hb, hs, hantes⟩ := primera_eq_some hi
      have hbytes := h i e ⟨he, hs, fun j e' hj hj' ↦ (hantes j e' hj hj').2⟩
      refine ⟨i, e.encode, (Entrada.deTexto nombre nodo hn).encode, getElem?_encode he,
        llamada_encode hb hs, List.map_set, ?_, (encode_partes _).2⟩
      rw [(encode_partes _).1, (encode_partes _).1, hbytes, (nombreVale_of_seLlama hs).2]
      rfl
    · cases hes'

private theorem literal_iff {l : Listado} {es : List Entrada} (hl : l.previas = bytes es)
    (hleg : ∀ e ∈ es, e.nodo.EnBloque) (nombre : String) (nodo : BlockPtr) :
    Literal l (.repuntando nombre nodo) ↔
      ∀ i e, Primera es nombre i e → e.nombre.bytes = Arr.pad nombreMax (utf8 nombre) := by
  have hent : ∀ i e, entradaEn l.previas i = .ok e ↔ es[i]? = some e := by
    intro i e
    rw [hl, entradaEn_bytes]
    exact ⟨And.left, fun h ↦ ⟨h, hleg e (List.mem_of_getElem? h)⟩⟩
  simp only [Literal, hent]
  constructor
  · intro h i e hp
    exact h i e hp.entrada hp.llama hp.antes
  · intro h i e he hs hantes
    exact h i e ⟨he, hs, hantes⟩

/-- Every transformation of every well-formed list is exact, and leaves the block as it was on
error, but a repointing; and that one is when the first entry that answers to the name was
stored spelled like it. -/
theorem exacta_iff_literal (l : Listado) (dst : Bloque) (o : Orden) :
    Exacta l dst o ↔ Literal l o := by
  obtain ⟨es, hl, hleg, hlen⟩ := l.exists_bytes
  rw [exacta_iff_enLista hl hlen]
  cases o with
  | con nombre nodo => exact iff_of_true (fun es' ↦ hecha_con) trivial
  | sin nombre => exact iff_of_true (fun es' ↦ hecha_sin) trivial
  | renombrando viejo nuevo => exact iff_of_true (fun es' ↦ hecha_renombrando) trivial
  | repuntando nombre nodo =>
    rw [literal_iff hl hleg]
    exact hecha_repuntando_iff hleg nombre nodo

/-- A list with one entry, `sub`. -/
def soloSub : Listado where
  previas := bytes [.deTexto "sub" .nulo (by decide)]
  enteras := by rw [length_bytes]; decide
  caben := by rw [length_bytes]; decide
  legibles := by
    intro r hr
    rw [records_bytes, List.map_singleton, List.mem_singleton] at hr
    rw [hr]
    exact ⟨_, Entrada.decode_encode (by decide)⟩

/-- Repointing `SUB` renames the entry `sub`. -/
theorem sub_renombrada : ¬ ∀ (l : Listado) (dst : Bloque) (o : Orden), Exacta l dst o := by
  intro h
  have hlen : [Entrada.deTexto "sub" .nulo (by decide)].length ≤ entradasPorBloque := by
    rw [List.length_singleton]
    decide
  have hleg : ∀ e ∈ [Entrada.deTexto "sub" .nulo (by decide)], e.nodo.EnBloque := by
    intro e he
    rw [List.mem_singleton.mp he]
    decide
  have hp : Primera [.deTexto "sub" .nulo (by decide)] "SUB" 0 (.deTexto "sub" .nulo (by decide)) :=
    ⟨rfl, by decide, fun j e' hj ↦ absurd hj (Nat.not_lt_zero j)⟩
  have hsub := h soloSub (Arr.pad bloque []) (.repuntando "SUB" .nulo)
  rw [exacta_iff_enLista rfl hlen] at hsub
  have hbytes := (hecha_repuntando_iff hleg "SUB" .nulo).mp hsub 0 _ hp
  exact absurd hbytes (by decide)

end Carpeta

end BmoX.Estratos
