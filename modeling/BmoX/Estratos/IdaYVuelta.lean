import BmoX.Estratos.Objetos

/-!
# Objects survive their bytes

What the constructors of `platform/drivers/storage/estratos/src/objects.rs` and `lib.rs` can
build, and what `decode` answers to its bytes.
-/

namespace BmoX.Estratos

open BmoX.Base BmoX.Blake3

/-! ### Built attributes and nodes -/

/-- How an attribute can be built: by one of the two constructors, with a root inside its
block and a name without zero bytes. -/
inductive Attr.Construido : Attr → Prop
  | residente {name : String} {datos : Bytes} {a : Attr} (h0 : 0 ∉ utf8 name)
    (h : Attr.residente name datos = .ok a) : Construido a
  | enBloques {name : String} {size : UInt64} {levels : UInt8} {raiz : BlockPtr} {a : Attr}
    (h0 : 0 ∉ utf8 name) (hr : raiz.EnBloque)
    (h : Attr.enBloques name size levels raiz = .ok a) : Construido a

/-- How a node can be built: empty, then one attribute at a time. -/
inductive Nodo.Construido : Nodo → Prop
  | nuevo (tipo : Tipo) : Construido (Nodo.nuevo tipo)
  | con {n n' : Nodo} {a : Attr} (hn : Construido n) (ha : a.Construido)
    (h : n.con a = .ok n') : Construido n'

private theorem Attr.nombreABytes_eq_ok {name : String} {x : Nombre attrNombreLen}
    (h : nombreABytes name = .ok x) : ∃ hl, x = .deTexto name hl := by
  simp only [nombreABytes] at h
  split at h
  · cases h
  · cases h
    exact ⟨_, rfl⟩

private theorem Attr.residente_eq_ok {name : String} {datos : Bytes} {a : Attr}
    (h : residente name datos = .ok a) :
    datos.length ≤ residenteMax ∧ ∃ hl, a = ⟨.deTexto name hl, UInt64.ofNat datos.length, 0, true,
      Arr.pad residenteMax datos, .nulo⟩ := by
  simp only [residente] at h
  split at h
  · cases h
  · next hd =>
    cases hn : nombreABytes name with
    | error e =>
      rw [hn] at h
      cases h
    | ok x =>
      rw [hn] at h
      cases h
      obtain ⟨hl, rfl⟩ := nombreABytes_eq_ok hn
      exact ⟨Nat.not_lt.mp hd, hl, rfl⟩

/-- What `en_bloques` builds. -/
theorem Attr.enBloques_eq_ok {name : String} {size : UInt64} {levels : UInt8} {raiz : BlockPtr}
    {a : Attr} (h : enBloques name size levels raiz = .ok a) :
    levels.toNat ≤ nivelesMax ∧ ∃ hl, a = ⟨.deTexto name hl, size, levels, false,
      Arr.pad residenteMax [], raiz⟩ := by
  simp only [enBloques] at h
  cases hn : nombreABytes name with
  | error e =>
    rw [hn] at h
    cases h
  | ok x =>
    obtain ⟨hl, rfl⟩ := nombreABytes_eq_ok hn
    rw [hn] at h
    simp only [bind, Except.bind] at h
    split at h
    · cases h
    · next hlev =>
      cases h
      exact ⟨Nat.not_lt.mp hlev, hl, rfl⟩

/-- A built attribute is one that `decode` accepts, and its name reads back whole. -/
theorem Attr.Construido.valido {a : Attr} (h : a.Construido) : a.Valido ∧ a.releido = a := by
  cases h with
  | residente h0 h =>
    obtain ⟨hd, hl, rfl⟩ := Attr.residente_eq_ok h
    refine ⟨⟨fun _ ↦ ⟨?_, rfl, rfl⟩, (fun hr ↦ by cases hr)⟩, ?_⟩
    · rw [UInt64.toNat_ofNat']
      exact (Nat.mod_le ..).trans hd
    · rw [Attr.releido, Nombre.hastaCero_deTexto hl h0]
  | enBloques h0 hr h =>
    obtain ⟨hlev, hl, rfl⟩ := Attr.enBloques_eq_ok h
    refine ⟨⟨(fun hr ↦ by cases hr), fun _ ↦ ⟨hlev, hr, rfl⟩⟩, ?_⟩
    rw [Attr.releido, Nombre.hastaCero_deTexto hl h0]

private theorem Nodo.con_eq_ok {n n' : Nodo} {a : Attr} (h : n.con a = .ok n') :
    n.attr a.nombreStr = none ∧ n'.tipo = n.tipo ∧ n'.attrs = n.attrs ++ [a] := by
  simp only [con] at h
  split at h
  · cases h
  · next hn =>
    split at h
    · cases h
      exact ⟨by simpa using hn, rfl, rfl⟩
    · cases h

/-- Every attribute of a built node was built. -/
theorem Nodo.Construido.attrs {n : Nodo} (h : n.Construido) : ∀ a ∈ n.attrs, a.Construido := by
  induction h with
  | nuevo tipo => exact fun a ha ↦ by cases ha
  | con hn ha h ih =>
    obtain ⟨-, -, hattrs⟩ := Nodo.con_eq_ok h
    intro b hb
    rw [hattrs, List.mem_append, List.mem_singleton] at hb
    rcases hb with hb | rfl
    · exact ih b hb
    · exact ha

/-- No two attributes of a built node share a name. -/
theorem Nodo.Construido.nodup {n : Nodo} (h : n.Construido) :
    (n.attrs.map Attr.nombreStr).Nodup := by
  induction h with
  | nuevo tipo => exact List.nodup_nil
  | @con n n' a hn ha h ih =>
    obtain ⟨hnew, -, hattrs⟩ := Nodo.con_eq_ok h
    have hnot : a.nombreStr ∉ n.attrs.map Attr.nombreStr := by
      simpa [Nodo.attr] using hnew
    rw [hattrs, List.map_append, List.map_singleton]
    exact List.nodup_append.mpr ⟨ih, List.pairwise_singleton _ _, fun x hx y hy hxy ↦
      hnot (List.mem_singleton.mp hy ▸ hxy ▸ hx)⟩

/-- A built node reads back as it was. -/
theorem Nodo.Construido.decode_encode {n : Nodo} (h : n.Construido) :
    Nodo.decode n.encode = .ok n := by
  have hr : n.attrs.map Attr.releido = n.attrs := by
    conv_rhs => rw [← List.map_id n.attrs]
    exact List.map_congr_left fun a ha ↦ (h.attrs a ha).valido.2
  rw [Nodo.decode_encode fun a ha ↦ (h.attrs a ha).valido.1]
  simp only [Nodo.releido, hr]

private theorem Entrada.nueva_eq_ok {name : String} {nodo : BlockPtr} {e : Entrada}
    (h : nueva name nodo = .ok e) : ∃ hn, e = deTexto name nodo hn := by
  simp only [nueva] at h
  split at h
  · cases h
    exact ⟨_, rfl⟩
  · cases h

/-! ### The round trip -/

/-- A built node reads back with the same answer for every name and no name twice; a built
entry or estrato reads back exactly when its pointers stay inside their blocks, and a
superblock with its log in place exactly when it is of this format as well. -/
theorem objetos_sobreviven_a_sus_bytes :
    (∀ n : Nodo, n.Construido → ∃ n', Nodo.decode n.encode = .ok n' ∧
      (∀ name, n'.attr name = n.attr name) ∧ (n'.attrs.map Attr.nombreStr).Nodup) ∧
    (∀ name nodo e, Entrada.nueva name nodo = .ok e →
      (Entrada.decode e.encode = .ok e ↔ nodo.EnBloque)) ∧
    (∀ raiz padre tiempo autor motivo,
      Estrato.decode (Estrato.new raiz padre tiempo autor motivo).encode =
        .ok (Estrato.new raiz padre tiempo autor motivo) ↔ raiz.EnBloque ∧ padre.EnBloque) ∧
    (∀ s : Superblock, 2 ≤ s.logHead → s.logHead ≤ s.totalBlocks →
      (Superblock.decode s.encode = .ok s ↔
        s.version = version ∧ s.blockSize = blockSize ∧ s.estrato.EnBloque)) := by
  refine ⟨fun n hn ↦ ⟨n, hn.decode_encode, fun _ ↦ rfl, hn.nodup⟩, ?_, ?_, ?_⟩
  · intro name nodo e he
    obtain ⟨hn, rfl⟩ := Entrada.nueva_eq_ok he
    exact ⟨Entrada.enBloque_of_decode, fun hp ↦ Entrada.decode_encode hp⟩
  · intro raiz padre tiempo autor motivo
    exact ⟨Estrato.enBloque_of_decode, fun hp ↦ Estrato.decode_encode hp.1 hp.2⟩
  · intro s h2 hl
    constructor
    · intro h
      have hv := Superblock.valido_of_decode h
      exact ⟨hv.version, hv.blockSize, hv.estrato⟩
    · rintro ⟨hv, hb, he⟩
      have h := Superblock.decode_encode ⟨hv, hb, ⟨h2, .inr hl⟩, he⟩ []
      rwa [List.append_nil] at h

/-- A pointer that leaves its block. -/
def punteroFuera : BlockPtr := ⟨9, 4086, 20, noHash⟩

/-- An empty resident attribute. -/
def attrVacio (name : String) (h : (utf8 name).length ≤ attrNombreLen) : Attr :=
  ⟨.deTexto name h, 0, 0, true, Arr.pad residenteMax [], .nulo⟩

/-- A file node with one attribute. -/
def nodoDe (a : Attr) : Nodo := ⟨.archivo, [a], by rw [List.length_singleton]; decide⟩

/-- The round trip at a node with one resident attribute, an entry, an estrato and a freshly
formatted volume. -/
theorem objetos_sobreviven_en_un_volumen_nuevo :
    (∃ n', Nodo.decode (nodoDe (attrVacio ":origen" (by decide))).encode = .ok n' ∧
      n'.attr ":origen" = some (attrVacio ":origen" (by decide))) ∧
    Entrada.decode (Entrada.deTexto "docs" .nulo (by decide)).encode =
      .ok (Entrada.deTexto "docs" .nulo (by decide)) ∧
    Estrato.decode (Estrato.new .nulo .nulo 7 .kernel "formato").encode =
      .ok (Estrato.new .nulo .nulo 7 .kernel "formato") ∧
    Superblock.decode (Superblock.new noHash 100).encode = .ok (Superblock.new noHash 100) := by
  obtain ⟨hnodo, hentrada, hestrato, hsuper⟩ := objetos_sobreviven_a_sus_bytes
  refine ⟨?_, ?_, ?_, ?_⟩
  · have ha : (attrVacio ":origen" (by decide)).Construido :=
      @Attr.Construido.residente ":origen" [] _ (by decide) rfl
    obtain ⟨n', hn', hattr, -⟩ := hnodo (nodoDe (attrVacio ":origen" (by decide)))
      (.con (.nuevo .archivo) ha rfl)
    exact ⟨n', hn', by rw [hattr]; decide⟩
  · exact (hentrada "docs" .nulo _ rfl).mpr (by decide)
  · exact (hestrato _ _ _ _ _).mpr ⟨by decide, by decide⟩
  · exact (hsuper _ (by decide) (by decide)).mpr ⟨rfl, rfl, by decide⟩

/-- The round trip fails for an attribute name with a zero byte, for pointers that leave
their block and for a superblock of another version. -/
theorem no_todo_objeto_sobrevive_a_sus_bytes :
    (∃ a n n', Attr.residente "a\x00b" [] = .ok a ∧ (Nodo.nuevo .archivo).con a = .ok n ∧
      Nodo.decode n.encode = .ok n' ∧ n'.attr "a\x00b" ≠ n.attr "a\x00b") ∧
    (∃ e, Entrada.nueva "docs" punteroFuera = .ok e ∧
      Entrada.decode e.encode = .error .badField) ∧
    Estrato.decode (Estrato.new punteroFuera .nulo 7 .kernel "").encode = .error .badField ∧
    Superblock.decode ({ Superblock.new noHash 100 with version := 2 }).encode =
      .error .badVersion := by
  refine ⟨?_, ?_, ?_, ?_⟩
  · let a := attrVacio "a\x00b" (by decide)
    have ha : (nodoDe a).Valido := fun x hx ↦ by
      rw [List.mem_singleton.mp hx]
      exact ⟨fun _ ↦ by decide, fun h ↦ absurd h (by decide)⟩
    exact ⟨a, nodoDe a, _, rfl, rfl, Nodo.decode_encode ha, by decide⟩
  · refine ⟨.deTexto "docs" punteroFuera (by decide), rfl, ?_⟩
    rw [Entrada.decode_encode_eq]
    decide
  · rw [Estrato.decode_encode_eq]
    decide
  · have h := Superblock.decode_encode_append { Superblock.new noHash 100 with version := 2 } []
    rw [List.append_nil] at h
    rw [h]
    decide

end BmoX.Estratos
