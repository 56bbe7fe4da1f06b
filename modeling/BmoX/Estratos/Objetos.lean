import BmoX.Estratos.Formato

/-!
# The object model: attributes, nodes and directory entries

`platform/drivers/storage/estratos/src/objects.rs:128–426`. A name and its length travel
together, so that no length can leave its array.
-/

namespace BmoX.Estratos

open BmoX.Base BmoX.Blake3

/-! ### Names -/

/-- A zero-padded name and how many of its bytes count; the `name` and `nombre_len` fields
of `objects.rs:149–150` and `366–368`. -/
structure Nombre (n : Nat) where
  bytes : Arr n
  len : Nat
  len_le : len ≤ n
  deriving DecidableEq

namespace Nombre

variable {n : Nat}

/-- The bytes that count, `&self.name[..self.nombre_len]`. -/
def prefijo (x : Nombre n) : Bytes := x.bytes.1.take x.len

/-- `nombre_str`; `objects.rs:186–188` and `384–386`. -/
def str (x : Nombre n) : String := utf8D x.prefijo

/-- A text that fits, padded with zeros; `objects.rs:258–264` and `374–378`. -/
def deTexto (s : String) (h : (utf8 s).length ≤ n) : Nombre n :=
  ⟨Arr.pad n (utf8 s), (utf8 s).length, h⟩

/-- The name an array spells up to its first zero; `objects.rs:217`. -/
def hastaCero (a : Arr n) : Nombre n :=
  ⟨a, a.1.findIdx (· == 0), by
    have := a.1.findIdx_le_length (p := (· == 0))
    rwa [a.2] at this⟩

@[simp] theorem length_prefijo (x : Nombre n) : x.prefijo.length = x.len := by
  rw [prefijo, List.length_take, x.bytes.2, Nat.min_eq_left x.len_le]

@[simp] theorem prefijo_deTexto {s : String} (h : (utf8 s).length ≤ n) :
    (deTexto s h).prefijo = utf8 s := Arr.take_pad h

@[simp] theorem str_deTexto {s : String} (h : (utf8 s).length ≤ n) : (deTexto s h).str = s := by
  rw [str, prefijo_deTexto, utf8D_utf8]

/-- A stored text without zero bytes is found again by scanning for the first zero. -/
theorem hastaCero_deTexto {s : String} (h : (utf8 s).length ≤ n) (h0 : 0 ∉ utf8 s) :
    hastaCero (deTexto s h).bytes = deTexto s h := by
  have hf : (Arr.pad n (utf8 s)).1.findIdx (· == 0) = (utf8 s).length := by
    have hs : (utf8 s).findIdx (· == 0) = (utf8 s).length :=
      List.findIdx_eq_length_of_false fun x hx ↦ by
        simpa using fun hx0 : x = 0 ↦ h0 (hx0 ▸ hx)
    have hz : (zeros (n - (utf8 s).length)).findIdx (· == 0) = 0 := by
      cases n - (utf8 s).length <;> simp [zeros, List.replicate_succ, List.findIdx_cons]
    rw [Arr.val_pad h, List.findIdx_append, hs, hz, if_neg (Nat.lt_irrefl _), Nat.zero_add]
  simp only [hastaCero, deTexto, hf]

end Nombre

/-! ### Attributes -/

/-- `ATTR_LEN`; `objects.rs:130`. -/
abbrev attrLen : Nat := 128

/-- `ATTR_NOMBRE_LEN`; `objects.rs:132`. -/
abbrev attrNombreLen : Nat := 16

/-- `RESIDENTE_MAX`; `objects.rs:134`. -/
abbrev residenteMax : Nat := 96

/-- `NIVELES_MAX`; `objects.rs:240`. -/
abbrev nivelesMax : Nat := 4

/-- `ATTR_DATOS`; `objects.rs:141`. -/
def attrDatos : String := ":datos"

/-- `ATTR_ENTRADAS`; `objects.rs:142`. -/
def attrEntradas : String := ":entradas"

/-- `ATTR_FIRMA`; `objects.rs:143`. -/
def attrFirma : String := ":firma"

/-- A named stream inside a node; `objects.rs:149–159`. -/
structure Attr where
  nombre : Nombre attrNombreLen
  size : UInt64
  levels : UInt8
  esResidente : Bool
  cuerpo : Arr residenteMax
  puntero : BlockPtr
  deriving DecidableEq

namespace Attr

/-- `nombre_a_bytes`; `objects.rs:258–264`. -/
def nombreABytes (name : String) : Except FormatError (Nombre attrNombreLen) :=
  if h : utf8 name = [] ∨ (utf8 name).length > attrNombreLen then .error .badField
  else .ok (.deTexto name (Nat.not_lt.mp (not_or.mp h).2))

/-- An attribute whose content fits inside; `objects.rs:163–173`. -/
def residente (name : String) (datos : Bytes) : Except FormatError Attr :=
  if datos.length > residenteMax then .error .badField
  else do
    let n ← nombreABytes name
    return ⟨n, UInt64.ofNat datos.length, 0, true, Arr.pad residenteMax datos, .nulo⟩

/-- An attribute whose content lives under `levels` levels; `objects.rs:176–184`. -/
def enBloques (name : String) (size : UInt64) (levels : UInt8) (raiz : BlockPtr) :
    Except FormatError Attr := do
  let n ← nombreABytes name
  if levels.toNat > nivelesMax then .error .badField
  else .ok ⟨n, size, levels, false, Arr.pad residenteMax [], raiz⟩

/-- `objects.rs:186–188`. -/
def nombreStr (a : Attr) : String := a.nombre.str

/-- `objects.rs:191–193`. -/
def datosResidentes (a : Attr) : Option Bytes :=
  if a.esResidente then some (a.cuerpo.1.take a.size.toNat) else none

/-- `objects.rs:195–197`. -/
def raiz (a : Attr) : Option BlockPtr := if a.esResidente then none else some a.puntero

/-- `objects.rs:199–211`. -/
def encode (a : Attr) : Bytes :=
  a.nombre.bytes.1 ++ u64Le a.size ++ [a.levels] ++ [if a.esResidente then 1 else 0] ++
    zeros 6 ++ if a.esResidente then a.cuerpo.1 else a.puntero.encode ++ zeros 48

/-- `objects.rs:213–234`. -/
def decode (b : Bytes) : Except FormatError Attr :=
  if b.length < attrLen then .error .shortBuffer
  else
    let nombre := Nombre.hastaCero (Arr.pad attrNombreLen (slice b 0 16))
    let size := u64De (slice b 16 8)
    let levels := b.getD 24 0
    if b.getD 25 0 &&& 1 ≠ 0 then
      if size.toNat > residenteMax then .error .badField
      else if levels ≠ 0 then .error .badField
      else .ok ⟨nombre, size, levels, true, Arr.pad residenteMax (slice b 32 residenteMax), .nulo⟩
    else if levels.toNat > nivelesMax then .error .badField
    else do
      let raiz ← BlockPtr.decode (slice b 32 ptrLen)
      return ⟨nombre, size, levels, false, Arr.pad residenteMax [], raiz⟩

@[simp] theorem length_encode (a : Attr) : a.encode.length = 128 := by
  cases h : a.esResidente <;> simp [encode, h, attrNombreLen, residenteMax]

private theorem campos (a : Attr) :
    slice a.encode 0 16 = a.nombre.bytes.1 ∧ slice a.encode 16 8 = u64Le a.size ∧
    a.encode.getD 24 0 = a.levels ∧
    a.encode.getD 25 0 = (if a.esResidente then 1 else 0) := by
  refine ⟨?_, ?_, ?_, ?_⟩
  · simp (disch := simp) only [encode, List.append_assoc, slice_append_self]
  · simp (disch := simp) only [encode, List.append_assoc, slice_append_right, slice_append_self,
      Arr.length_val, attrNombreLen, Nat.sub_self]
  · simp (disch := simp) only [encode, List.append_assoc, List.getD_append_right, Arr.length_val,
      length_u64Le, attrNombreLen, Nat.reduceSub, List.cons_append, List.nil_append,
      List.getD_cons_zero]
  · simp (disch := simp) only [encode, List.append_assoc, List.getD_append_right, Arr.length_val,
      length_u64Le, attrNombreLen, Nat.reduceSub, List.cons_append, List.nil_append,
      List.getD_cons_succ, List.getD_cons_zero]

private theorem ventana_cuerpo {a : Attr} (h : a.esResidente = true) :
    slice a.encode 32 96 = a.cuerpo.1 := by
  simp (disch := simp) only [encode, h, if_true, List.append_assoc, slice_append_right,
    slice_self, Arr.length_val, length_u64Le, attrNombreLen, Nat.reduceSub, List.length_singleton,
    length_zeros]

private theorem ventana_puntero {a : Attr} (h : a.esResidente = false) :
    slice a.encode 32 48 = a.puntero.encode := by
  simp (disch := simp) only [encode, h, if_false, List.append_assoc, slice_append_right,
    slice_append_self, Arr.length_val, length_u64Le, attrNombreLen, Nat.reduceSub,
    List.length_singleton, length_zeros, Bool.false_eq_true]

/-- The values an attribute can have on disk: those `decode` accepts, with the fields the
other kind leaves unused at their defaults. -/
structure Valido (a : Attr) : Prop where
  residente : a.esResidente = true →
    a.size.toNat ≤ residenteMax ∧ a.levels = 0 ∧ a.puntero = .nulo
  enBloques : a.esResidente = false →
    a.levels.toNat ≤ nivelesMax ∧ a.puntero.EnBloque ∧ a.cuerpo = Arr.pad residenteMax []

/-- What is read back of an attribute: its name ends at its first zero byte. -/
def releido (a : Attr) : Attr := { a with nombre := .hastaCero a.nombre.bytes }

/-- A valid attribute survives its bytes, but for the end of its name. -/
theorem decode_encode {a : Attr} (h : a.Valido) : decode a.encode = .ok a.releido := by
  obtain ⟨hname, hsize, hlev, hres⟩ := campos a
  have hlen : ¬ a.encode.length < attrLen := by
    simp
  rw [decode, if_neg hlen]
  simp only [hname, hsize, hlev, hres, Arr.pad_val, u64De_u64Le]
  cases hr : a.esResidente with
  | true =>
    obtain ⟨hsz, hl, hp⟩ := h.residente hr
    rw [if_pos (by decide), if_neg (Nat.not_lt.mpr hsz), if_neg (not_not.mpr hl),
      ventana_cuerpo hr, Arr.pad_val, ← hr, ← hp]
    rfl
  | false =>
    obtain ⟨hl, hp, hc⟩ := h.enBloques hr
    rw [if_neg (by decide), if_neg (Nat.not_lt.mpr hl), ventana_puntero hr,
      BlockPtr.decode_encode hp, ← hr, ← hc]
    rfl

end Attr

/-! ### Nodes -/

/-- `ATTRS_MAX`; `objects.rs:270`. -/
abbrev attrsMax : Nat := 4

/-- `NODO_LEN`; `objects.rs:272`. -/
abbrev nodoLen : Nat := 560

/-- `NODO_MAGIC`; `objects.rs:274`. -/
def nodoMagic : Bytes := utf8 "NODO"

/-- What a node is; `objects.rs:280`. -/
inductive Tipo
  | archivo
  | directorio
  deriving DecidableEq

namespace Tipo

/-- The byte of a kind; `objects.rs:328`. -/
def byte : Tipo → UInt8
  | archivo => 0
  | directorio => 1

/-- The kind of a byte; `objects.rs:345`. -/
def ofByte? (b : UInt8) : Option Tipo :=
  if b = 0 then some archivo else if b = 1 then some directorio else none

private theorem ofByte?_byte (t : Tipo) : ofByte? t.byte = some t := by
  cases t <;> rfl

end Tipo

/-- A file or a directory: a set of attributes. The source fills its four slots in order;
`objects.rs:289–292`. -/
structure Nodo where
  tipo : Tipo
  attrs : List Attr
  length_le : attrs.length ≤ attrsMax
  deriving DecidableEq

namespace Nodo

/-- `objects.rs:295–297`. -/
def nuevo (tipo : Tipo) : Nodo := ⟨tipo, [], Nat.zero_le _⟩

/-- The attribute with that name; `objects.rs:309–311`. -/
def attr (n : Nodo) (name : String) : Option Attr := n.attrs.find? (·.nombreStr == name)

/-- Add an attribute with a new name; `objects.rs:300–306`. -/
def con (n : Nodo) (a : Attr) : Except FormatError Nodo :=
  if (n.attr a.nombreStr).isSome then .error .badField
  else if h : n.attrs.length < attrsMax then
    .ok ⟨n.tipo, n.attrs ++ [a], by rw [List.length_append]; exact h⟩
  else .error .badField

/-- Everything the checksum covers; `objects.rs:326–334`. -/
def cuerpo (n : Nodo) : Bytes :=
  nodoMagic ++ [n.tipo.byte] ++ [UInt8.ofNat n.attrs.length] ++ zeros 10 ++
    n.attrs.flatMap Attr.encode ++ zeros (512 - attrLen * n.attrs.length)

/-- `objects.rs:325–338`. -/
def encode (n : Nodo) : Bytes := n.cuerpo ++ (blake3 n.cuerpo).1

/-- The first attributes of a node, in order; the loop of `objects.rs:349–352`. -/
def attrsDe (b : Bytes) : (n : Nat) → Except FormatError (List.Vector Attr n)
  | 0 => .ok .nil
  | n + 1 => do
    let l ← attrsDe b n
    let a ← Attr.decode (slice b (16 + attrLen * n) attrLen)
    return ⟨l.1 ++ [a], by rw [List.length_append, l.2]; rfl⟩

/-- The node of a kind with its first `n` attributes; `objects.rs:346–353`. -/
def conAttrsDe (tipo : Tipo) (b : Bytes) (n : Nat) : Except FormatError Nodo :=
  if h : n > attrsMax then .error .badField
  else do
    let attrs ← attrsDe b n
    return ⟨tipo, attrs.1, by rw [attrs.2]; exact Nat.not_lt.mp h⟩

/-- `objects.rs:340–354`. -/
def decode (b : Bytes) : Except FormatError Nodo :=
  if b.length < nodoLen then .error .shortBuffer
  else if slice b 0 4 ≠ nodoMagic then .error .badMagic
  else if slice b 528 32 ≠ (blake3 (slice b 0 528)).1 then .error .badChecksum
  else
    match Tipo.ofByte? (b.getD 4 0) with
    | none => .error .badField
    | some tipo => conAttrsDe tipo b (b.getD 5 0).toNat

/-- The values a node can have on disk: those `decode` accepts. -/
def Valido (n : Nodo) : Prop := ∀ a ∈ n.attrs, a.Valido

@[simp] theorem length_cuerpo (n : Nodo) : n.cuerpo.length = 528 := by
  have hm : nodoMagic.length = 4 := by decide
  have := n.length_le
  simp only [cuerpo, List.length_append, hm, length_zeros, List.length_singleton,
    length_flatMap_const Attr.length_encode, attrLen, attrsMax] at *
  omega

@[simp] theorem length_encode (n : Nodo) : n.encode.length = 560 := by
  simp [encode]

private theorem ventana_cuerpo (n : Nodo) {o k : Nat} (h : o + k ≤ 528) :
    slice n.encode o k = slice n.cuerpo o k := by
  rw [encode, slice_append_left (by rw [length_cuerpo]; exact h)]

private theorem ventana_suma (n : Nodo) : slice n.encode 528 32 = (blake3 n.cuerpo).1 := by
  simp (disch := simp) only [encode, slice_append_right, length_cuerpo, Nat.sub_self, slice_self]

private theorem ventana_magic (n : Nodo) : slice n.encode 0 4 = nodoMagic := by
  rw [ventana_cuerpo n (by decide)]
  simp only [cuerpo, List.append_assoc]
  exact slice_append_self (by decide)

private theorem bytes_cabecera (n : Nodo) :
    n.encode.getD 4 0 = n.tipo.byte ∧ n.encode.getD 5 0 = UInt8.ofNat n.attrs.length := by
  have hm : nodoMagic.length = 4 := by decide
  constructor <;>
    simp (disch := simp [hm]) only [encode, cuerpo, List.append_assoc, List.getD_append_right, hm,
      Nat.reduceSub, List.cons_append, List.nil_append, List.getD_cons_succ, List.getD_cons_zero]

private theorem ventana_attr (n : Nodo) {i : Nat} (hi : i < n.attrs.length) :
    slice n.encode (16 + attrLen * i) attrLen = n.attrs[i].encode := by
  have hm : nodoMagic.length = 4 := by decide
  have hc : (nodoMagic ++ [n.tipo.byte] ++ [UInt8.ofNat n.attrs.length] ++ zeros 10).length = 16 := by
    simp [hm]
  rw [encode, cuerpo, List.append_assoc, List.append_assoc, slice_append_right (by omega), hc,
    Nat.add_sub_cancel_left, slice_flatMap Attr.length_encode _ _ hi]

private theorem attrsDe_encode {n : Nodo} (h : n.Valido) {k : Nat} (hk : k ≤ n.attrs.length) :
    ∃ hl, attrsDe n.encode k = .ok ⟨(n.attrs.map Attr.releido).take k, hl⟩ := by
  induction k with
  | zero => exact ⟨rfl, rfl⟩
  | succ k ih =>
    obtain ⟨hl, ih⟩ := ih (by omega)
    refine ⟨by rw [List.length_take, List.length_map]; omega, ?_⟩
    have ha := Attr.decode_encode (h n.attrs[k] (List.getElem_mem _))
    have hk' : k < (n.attrs.map Attr.releido).length := by
      rwa [List.length_map]
    have ht := List.take_append_getElem hk'
    rw [List.getElem_map] at ht
    rw [attrsDe, ih, ventana_attr n hk, ha]
    exact congrArg Except.ok (Subtype.ext ht)

/-- What is read back of a node: its attributes, each with its name up to the first zero. -/
def releido (n : Nodo) : Nodo :=
  ⟨n.tipo, n.attrs.map Attr.releido, by rw [List.length_map]; exact n.length_le⟩

/-- A valid node survives its bytes, but for the end of the names of its attributes. -/
theorem decode_encode {n : Nodo} (h : n.Valido) : decode n.encode = .ok n.releido := by
  have hlen : ¬ n.encode.length < nodoLen := by
    simp
  obtain ⟨htipo, hn⟩ := bytes_cabecera n
  have hcount : (UInt8.ofNat n.attrs.length).toNat = n.attrs.length := by
    have := n.length_le
    simp only [UInt8.toNat_ofNat', attrsMax] at *
    omega
  have hattrs : attrsDe n.encode n.attrs.length =
      .ok ⟨n.attrs.map Attr.releido, List.length_map _⟩ := by
    obtain ⟨hl, hattrs⟩ := attrsDe_encode h (Nat.le_refl n.attrs.length)
    rw [hattrs]
    exact congrArg Except.ok (Subtype.ext (List.take_of_length_le (by simp)))
  rw [decode, if_neg hlen, ventana_magic, ventana_suma, ventana_cuerpo n (by decide),
    slice_self (length_cuerpo n).le]
  simp only [htipo, hn, hcount, Tipo.ofByte?_byte, ne_eq, not_true_eq_false, if_false]
  rw [conAttrsDe, dif_neg (Nat.not_lt.mpr n.length_le), hattrs]
  rfl

end Nodo

/-! ### Directory entries -/

/-- `ENTRADA_LEN`; `objects.rs:360`. -/
abbrev entradaLen : Nat := 112

/-- `NOMBRE_MAX`; `objects.rs:362`. -/
abbrev nombreMax : Nat := 63

/-- Lower case in Latin-1, skipping the multiplication sign; `objects.rs:422–426`. -/
def baja (c : UInt8) : UInt8 :=
  if c ≥ 0x41 ∧ c ≤ 0x5A then c + 32
  else if c ≥ 0xC0 ∧ c ≤ 0xDE ∧ c ≠ 0xD7 then c + 32
  else c

/-- The fold of a name: its bytes in lower case. -/
def plegado (s : String) : Bytes := (utf8 s).map baja

/-- A name and its node; `objects.rs:366–370`. -/
structure Entrada where
  nombre : Nombre nombreMax
  nodo : BlockPtr
  nombre_pos : 0 < nombre.len
  deriving DecidableEq

namespace Entrada

/-- A name that an entry can hold; the check of `objects.rs:375`. -/
def NombreVale (name : String) : Prop := utf8 name ≠ [] ∧ (utf8 name).length ≤ nombreMax

instance (name : String) : Decidable (NombreVale name) := inferInstanceAs (Decidable (_ ∧ _))

/-- The entry of a name that fits. -/
def deTexto (name : String) (nodo : BlockPtr) (h : NombreVale name) : Entrada :=
  ⟨.deTexto name h.2, nodo, List.length_pos_iff.mpr h.1⟩

/-- `objects.rs:373–379`. -/
def nueva (name : String) (nodo : BlockPtr) : Except FormatError Entrada :=
  if h : NombreVale name then .ok (deTexto name nodo h) else .error .badField

/-- The name as it was written; `objects.rs:384–386`. -/
def nombreStr (e : Entrada) : String := e.nombre.str

/-- Is this its name, ignoring case? `objects.rs:395–400`. -/
def seLlama (e : Entrada) (otro : String) : Bool :=
  let a := e.nombre.prefijo
  let b := utf8 otro
  if a.length ≠ b.length then false
  else (a.zip b).all fun (x, y) ↦ baja x == baja y

/-- `objects.rs:402–408`. -/
def encode (e : Entrada) : Bytes :=
  [UInt8.ofNat e.nombre.len] ++ e.nombre.bytes.1 ++ e.nodo.encode

/-- The entry whose name has the given length; `objects.rs:413–416`. -/
def conNombreLen (b : Bytes) (nombreLen : Nat) : Except FormatError Entrada :=
  if h : nombreLen = 0 ∨ nombreLen > nombreMax then .error .badField
  else do
    let name := Arr.pad nombreMax (slice b 1 nombreMax)
    let nodo ← BlockPtr.decode (slice b 64 ptrLen)
    return ⟨⟨name, nombreLen, Nat.not_lt.mp (not_or.mp h).2⟩, nodo,
      Nat.pos_of_ne_zero (not_or.mp h).1⟩

/-- `objects.rs:410–417`. -/
def decode (b : Bytes) : Except FormatError Entrada :=
  if b.length < entradaLen then .error .shortBuffer
  else conNombreLen b (b.getD 0 0).toNat

@[simp] theorem length_encode (e : Entrada) : e.encode.length = 112 := by
  simp [encode, nombreMax]

private theorem campos (e : Entrada) :
    e.encode.getD 0 0 = UInt8.ofNat e.nombre.len ∧
    slice e.encode 1 63 = e.nombre.bytes.1 ∧ slice e.encode 64 48 = e.nodo.encode := by
  refine ⟨rfl, ?_, ?_⟩ <;>
    simp (disch := simp) only [encode, List.append_assoc, slice_append_right, slice_append_self,
      slice_self, Arr.length_val, nombreMax, List.length_singleton, Nat.reduceSub, Nat.sub_self]

/-- An entry survives its bytes exactly when its pointer stays inside its block. -/
theorem decode_encode_eq (e : Entrada) :
    decode e.encode = if e.nodo.EnBloque then .ok e else .error .badField := by
  have hlen : ¬ e.encode.length < entradaLen := by
    simp
  obtain ⟨hlen0, hname, hnodo⟩ := campos e
  have hn : (UInt8.ofNat e.nombre.len).toNat = e.nombre.len := by
    have := e.nombre.len_le
    simp only [UInt8.toNat_ofNat', nombreMax] at *
    omega
  have hok : ¬ (e.nombre.len = 0 ∨ e.nombre.len > nombreMax) :=
    not_or.mpr ⟨Nat.ne_of_gt e.nombre_pos, Nat.not_lt.mpr e.nombre.len_le⟩
  have hp := BlockPtr.decode_encode_append e.nodo []
  rw [List.append_nil] at hp
  rw [decode, if_neg hlen, hlen0, hn, conNombreLen, dif_neg hok]
  simp only [hname, hnodo, hp, Arr.pad_val]
  split <;> rfl

theorem decode_encode {e : Entrada} (h : e.nodo.EnBloque) : decode e.encode = .ok e := by
  rw [decode_encode_eq, if_pos h]

/-- The pointer of a decoded entry stays inside its block. -/
theorem enBloque_of_decode {b : Bytes} {e : Entrada} (h : decode b = .ok e) :
    e.nodo.EnBloque := by
  simp only [decode, conNombreLen] at h
  split at h
  · cases h
  split at h
  · cases h
  cases hp : BlockPtr.decode (slice b 64 ptrLen) with
  | error err =>
    rw [hp] at h
    cases h
  | ok p =>
    rw [hp] at h
    cases h
    exact BlockPtr.enBloque_of_decode hp

@[simp] theorem nombreStr_deTexto {name : String} {nodo : BlockPtr} (h : NombreVale name) :
    (deTexto name nodo h).nombreStr = name := Nombre.str_deTexto h.2

private theorem zip_all_iff {f : UInt8 → UInt8} {a b : Bytes} (h : a.length = b.length) :
    ((a.zip b).all fun (x, y) ↦ f x == f y) = true ↔ a.map f = b.map f := by
  induction a generalizing b with
  | nil => simp [List.length_eq_zero_iff.mp h.symm]
  | cons x a ih =>
    cases b with
    | nil => cases h
    | cons y b =>
      rw [List.zip_cons_cons, List.all_cons, Bool.and_eq_true, ih (Nat.succ.inj h), beq_iff_eq,
        List.map_cons, List.map_cons, List.cons.injEq]

/-- Two names are the same for a lookup exactly when they fold to the same bytes. -/
theorem seLlama_iff {e : Entrada} {otro : String} :
    e.seLlama otro = true ↔ e.nombre.prefijo.map baja = plegado otro := by
  simp only [seLlama, plegado]
  split
  · next h =>
    constructor
    · intro h'
      cases h'
    · intro h'
      exact absurd (by simpa using congrArg List.length h') h
  · next h => exact zip_all_iff (not_not.mp h)

end Entrada

end BmoX.Estratos
