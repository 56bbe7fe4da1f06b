import BmoX.Pila.Dns

/-!
# What a DNS answer is an answer to

The answer section as records with names split into labels, and the names that a chain of
CNAME records reaches, compared label by label: `igual`. The code compares the dotted texts,
`texto`, and seeks one name at a time, the target of the last CNAME record it followed.
-/

namespace BmoX.Pila.Dns

open BmoX.Base

/-! ### Comparing names -/

/-- The same labels but for the case. -/
def igual (ls ms : List Bytes) : Prop :=
  ls.map (List.map minuscula) = ms.map (List.map minuscula)

instance (ls ms : List Bytes) : Decidable (igual ls ms) :=
  inferInstanceAs (Decidable (_ = _))

/-- The same dotted text but for the case. -/
def mismoTexto (ls ms : List Bytes) : Prop := texto ls = texto ms

private theorem minuscula_eq_punto {c : UInt8} : minuscula c = punto ↔ c = punto := by
  have h : ∀ c : Fin 256, minuscula (UInt8.ofNat c.val) = punto ↔ UInt8.ofNat c.val = punto := by
    decide +kernel
  have := h ⟨c.toNat, c.toNat_lt⟩
  simpa using this

private theorem map_intercalate (f : UInt8 → UInt8) (s : Bytes) (ls : List Bytes) :
    (s.intercalate ls).map f = (s.map f).intercalate (ls.map (List.map f)) := by
  induction ls with
  | nil => rfl
  | cons e ls ih =>
    cases ls with
    | nil => simp
    | cons e' ls =>
      rw [List.intercalate_cons_cons, List.map_append, List.map_append, ih, List.map_cons,
        List.map_cons, List.map_cons, List.intercalate_cons_cons]

private theorem texto_etiquetas (nombre : Bytes) :
    texto (etiquetas nombre) = (sinPunto nombre).map minuscula := by
  have h := map_intercalate minuscula [punto] (etiquetas nombre)
  rw [etiquetas, List.intercalate_splitOn] at h
  exact h.symm

/-- What a name that may be asked looks like. -/
theorem normalizar_eq_ok {nombre t : Bytes} (h : normalizar nombre = .ok t) :
    t = texto (etiquetas nombre) ∧ t.length ≤ nombreMax ∧ sinPunto nombre ≠ [] ∧
      ∀ e ∈ etiquetas nombre, e ≠ [] ∧ e.length ≤ 63 ∧ e.all admitido = true := by
  have hvalida : ∀ ls, valida ls = .ok () →
      ∀ e ∈ ls, e ≠ [] ∧ e.length ≤ 63 ∧ e.all admitido = true := by
    intro ls
    induction ls with
    | nil => exact fun _ e he ↦ absurd he List.not_mem_nil
    | cons x ls ih =>
      intro h e he
      rw [valida, ite_rechaza_eq_ok] at h
      obtain ⟨hx, h⟩ := h
      split at h
      · next ha =>
        rcases List.mem_cons.mp he with rfl | he
        · exact ⟨fun h0 ↦ hx (.inl h0), Nat.le_of_not_lt fun h0 ↦ hx (.inr h0), ha⟩
        · exact ih h e he
      · cases h
  simp only [normalizar, ite_rechaza_eq_ok, bind_eq_ok, not_or, Except.ok.injEq] at h
  obtain ⟨⟨h0, hl⟩, ⟨⟩, hv, rfl⟩ := h
  refine ⟨(texto_etiquetas nombre).symm, ?_, h0, hvalida _ hv⟩
  rw [List.length_map]
  omega

private theorem punto_not_mem {e : Bytes} (h : e.all admitido = true) : punto ∉ e := by
  intro hp
  have := List.all_eq_true.mp h punto hp
  exact absurd this (by decide)

/-- Only the name without labels has an empty text. -/
theorem texto_eq_nil {ls : List Bytes} (hls : ∀ e ∈ ls, e ≠ []) : texto ls = [] ↔ ls = [] := by
  constructor
  · intro h
    cases ls with
    | nil => rfl
    | cons e ls =>
      have he : e.map minuscula = [] := by
        rw [texto, List.map_cons] at h
        cases hm : ls.map (List.map minuscula) with
        | nil => rwa [hm, List.intercalate_singleton] at h
        | cons e' ls' =>
          rw [hm, List.intercalate_cons_cons, List.append_assoc] at h
          exact (List.append_eq_nil_iff.mp h).1
      exact absurd (List.map_eq_nil_iff.mp he) (hls e (List.mem_cons_self ..))
  · rintro rfl
    rfl

/-- Labels without dots are told apart by their text. -/
theorem igual_of_mismoTexto {ls ms : List Bytes} (h : mismoTexto ls ms) (hl : ∀ e ∈ ls, e ≠ [])
    (hm : ∀ e ∈ ms, e ≠ []) (hls : ∀ e ∈ ls, punto ∉ e) (hms : ∀ e ∈ ms, punto ∉ e) :
    igual ls ms := by
  have hlow : ∀ ls : List Bytes, (∀ e ∈ ls, punto ∉ e) →
      ∀ e ∈ ls.map (List.map minuscula), punto ∉ e := by
    intro ls hls e he hp
    obtain ⟨x, hx, rfl⟩ := List.mem_map.mp he
    obtain ⟨c, hc, hcp⟩ := List.mem_map.mp hp
    exact hls x hx (minuscula_eq_punto.mp hcp ▸ hc)
  rw [mismoTexto] at h
  by_cases h0 : ls = []
  · rw [h0, (texto_eq_nil hm).mp (h ▸ (texto_eq_nil hl).mpr h0)]
    rfl
  · have h0' : ms ≠ [] := fun he ↦ h0 ((texto_eq_nil hl).mp (h.trans ((texto_eq_nil hm).mpr he)))
    have h1 := List.splitOn_intercalate punto (hlow ls hls) (by simpa using h0)
    have h2 := List.splitOn_intercalate punto (hlow ms hms) (by simpa using h0')
    rw [texto, texto] at h
    rw [igual, ← h1, h, h2]

/-- The asked name and a name with the same text are the same exactly when no label of the
second has a dot. -/
theorem igual_etiquetas_iff {nombre t : Bytes} (hn : normalizar nombre = .ok t)
    {ls : List Bytes} (hl : ∀ e ∈ ls, e ≠ []) (h : mismoTexto ls (etiquetas nombre)) :
    igual ls (etiquetas nombre) ↔ ∀ e ∈ ls, punto ∉ e := by
  obtain ⟨-, -, -, he⟩ := normalizar_eq_ok hn
  have hpunto : ∀ e ∈ etiquetas nombre, punto ∉ e := fun e h ↦ punto_not_mem (he e h).2.2
  constructor
  · intro hi e hmem hp
    have hm : e.map minuscula ∈ (etiquetas nombre).map (List.map minuscula) :=
      hi ▸ List.mem_map_of_mem hmem
    obtain ⟨x, hx, hxe⟩ := List.mem_map.mp hm
    have hpx : punto ∈ x.map minuscula := by
      rw [hxe]
      exact List.mem_map.mpr ⟨punto, hp, rfl⟩
    obtain ⟨c, hc, hcp⟩ := List.mem_map.mp hpx
    exact hpunto x hx (minuscula_eq_punto.mp hcp ▸ hc)
  · intro hls
    exact igual_of_mismoTexto h hl (fun e h ↦ (he e h).1) hls hpunto

/-! ### The answer section -/

/-- A record, its owner split into labels and its data where it lies. -/
structure Registro where
  dueno : List Bytes
  tipo : UInt16
  clase : UInt16
  ttl : UInt32
  datos : Nat
  largo : Nat

/-- The record at `i`, and where the next one is. -/
def EsRegistro (b : Bytes) (i : Nat) (r : Registro) (j : Nat) : Prop :=
  ∃ ps k, Nombre b i r.dueno ps k ∧ r.tipo = be16 b k ∧ r.clase = be16 b (k + 2) ∧
    r.ttl = be32 b (k + 4) ∧ r.largo = (be16 b (k + 8)).toNat ∧ r.datos = k + 10 ∧
    j = r.datos + r.largo ∧ j ≤ b.length

/-- The records from `i` to `j`. -/
inductive Seccion (b : Bytes) (i : Nat) : List Registro → Nat → Prop
  | vacia : Seccion b i [] i
  | sigue {rs : List Registro} {j : Nat} {r : Registro} {k : Nat} (h : Seccion b i rs j)
      (hr : EsRegistro b j r k) : Seccion b i (rs ++ [r]) k

/-- A message has one record at each place. -/
theorem EsRegistro.unico {b : Bytes} {i j j' : Nat} {r r' : Registro} (h : EsRegistro b i r j)
    (h' : EsRegistro b i r' j') : r = r' ∧ j = j' := by
  obtain ⟨d, t, c, ttl, datos, largo⟩ := r
  obtain ⟨d', t', c', ttl', datos', largo'⟩ := r'
  obtain ⟨ps, k, hn, rfl, rfl, rfl, rfl, rfl, rfl, -⟩ := h
  obtain ⟨ps', k', hn', rfl, rfl, rfl, rfl, rfl, rfl, -⟩ := h'
  obtain ⟨rfl, -, rfl⟩ := hn.unico hn'
  exact ⟨rfl, rfl⟩

/-- As many records from one place are the same. -/
theorem Seccion.unica {b : Bytes} {i j j' : Nat} {rs rs' : List Registro} (h : Seccion b i rs j)
    (h' : Seccion b i rs' j') (hl : rs.length = rs'.length) : rs = rs' ∧ j = j' := by
  induction h generalizing rs' j' with
  | vacia =>
    cases h' with
    | vacia => exact ⟨rfl, rfl⟩
    | sigue => simp at hl
  | sigue h hr ih =>
    cases h' with
    | vacia => simp at hl
    | sigue h' hr' =>
      obtain ⟨rfl, rfl⟩ := ih h' (by simpa using hl)
      obtain ⟨rfl, rfl⟩ := hr.unico hr'
      exact ⟨rfl, rfl⟩

/-- No label of an owner is empty. -/
theorem Seccion.ne_nil {b : Bytes} {i : Nat} {rs : List Registro} {j : Nat}
    (h : Seccion b i rs j) : ∀ r ∈ rs, ∀ e ∈ r.dueno, e ≠ [] := by
  induction h with
  | vacia => exact fun r hr ↦ absurd hr List.not_mem_nil
  | sigue _ hr ih =>
    intro r hmem
    rcases List.mem_append.mp hmem with hmem | hmem
    · exact ih r hmem
    · obtain ⟨ps, k, hn, -⟩ := hr
      rw [List.mem_singleton.mp hmem]
      exact hn.ne_nil

/-- The names that the first `n` records reach from the asked one, label by label: the asked
one, and what a CNAME record of a name reached before it points to. -/
inductive Llega (b : Bytes) (preguntado : List Bytes) (rs : List Registro) :
    Nat → List Bytes → Prop
  | preguntado (n : Nat) : Llega b preguntado rs n preguntado
  | cname {m n : Nat} {r : Registro} {ls ms : List Bytes} {ps : List Nat} {j : Nat} (hm : m < n)
      (hr : rs[m]? = some r) (ht : r.tipo = tipoCname) (hc : r.clase = claseIn)
      (h : Llega b preguntado rs m ls) (hd : igual r.dueno ls)
      (hn : Nombre b r.datos ms ps j) : Llega b preguntado rs n ms

/-- The record is taken by a reader that seeks `ls` and has `k` addresses: its owner has the
text sought, and it is a CNAME record or an address there is room for. -/
def Toma (r : Registro) (ls : List Bytes) (k : Nat) : Prop :=
  r.clase = claseIn ∧ mismoTexto r.dueno ls ∧ (r.tipo = tipoA ∧ k < ipsMax ∨ r.tipo = tipoCname)

/-- The name sought after the first `n` records and how many addresses were taken from them,
names being compared by their text. -/
inductive Busca (b : Bytes) (preguntado : List Bytes) (rs : List Registro) :
    Nat → List Bytes → Nat → Prop
  | inicio : Busca b preguntado rs 0 preguntado 0
  | cname {n : Nat} {r : Registro} {ls ms : List Bytes} {k : Nat} {ps : List Nat} {j : Nat}
      (h : Busca b preguntado rs n ls k) (hr : rs[n]? = some r) (ht : Toma r ls k)
      (hc : r.tipo = tipoCname) (hn : Nombre b r.datos ms ps j) :
      Busca b preguntado rs (n + 1) ms k
  | direccion {n : Nat} {r : Registro} {ls : List Bytes} {k : Nat}
      (h : Busca b preguntado rs n ls k) (hr : rs[n]? = some r) (ht : Toma r ls k)
      (ha : r.tipo = tipoA) : Busca b preguntado rs (n + 1) ls (k + 1)
  | otro {n : Nat} {r : Registro} {ls : List Bytes} {k : Nat} (h : Busca b preguntado rs n ls k)
      (hr : rs[n]? = some r) (ht : ¬Toma r ls k) : Busca b preguntado rs (n + 1) ls k

instance (r : Registro) (ls : List Bytes) (k : Nat) : Decidable (Toma r ls k) :=
  inferInstanceAs (Decidable (_ ∧ texto _ = texto _ ∧ _))

/-- The record `n` is taken, with `ls` the name sought there. -/
def Tomado (b : Bytes) (preguntado : List Bytes) (rs : List Registro) (n : Nat) (r : Registro)
    (ls : List Bytes) : Prop :=
  ∃ k, Busca b preguntado rs n ls k ∧ rs[n]? = some r ∧ Toma r ls k

/-- The owner `d` of the record `n` is, label by label, a name reached by the records before. -/
def Alcanzado (b : Bytes) (preguntado : List Bytes) (rs : List Registro) (n : Nat)
    (d : List Bytes) : Prop :=
  ∃ ls, Llega b preguntado rs n ls ∧ igual d ls

/-- The addresses are those of A/IN records, in the order of the section, each with an owner
that is one of `suyo` there; the TTL is the least of theirs. -/
def Respaldada (suyo : Nat → List Bytes → Prop) (b : Bytes) (rs : List Registro) (ips : List Ip)
    (ttl : UInt32) : Prop :=
  ∃ us : List (Nat × Registro), us.Pairwise (fun u v ↦ u.1 < v.1) ∧
    (∀ u ∈ us, rs[u.1]? = some u.2 ∧ u.2.tipo = tipoA ∧ u.2.clase = claseIn ∧ u.2.largo = 4 ∧
      suyo u.1 u.2.dueno) ∧
    ips = us.map (fun u ↦ Arr.pad 4 (slice b u.2.datos 4)) ∧
    (∀ u ∈ us, ttl.toNat ≤ u.2.ttl.toNat) ∧ (us ≠ [] → ∃ u ∈ us, ttl = u.2.ttl)

/-- The message answers the question: its id, its one question and every address it gives. -/
def Fiel (mismo : List Bytes → List Bytes → Prop)
    (suyo : List Registro → Nat → List Bytes → Prop) (b : Bytes) (id : UInt16)
    (preguntado : List Bytes) (ips : List Ip) (ttl : UInt32) : Prop :=
  cabecera ≤ b.length ∧ be16 b 0 = id ∧ be16 b 4 = 1 ∧
    ∃ ls ps i, Nombre b cabecera ls ps i ∧ mismo ls preguntado ∧ i + 4 ≤ b.length ∧
      be16 b i = tipoA ∧ be16 b (i + 2) = claseIn ∧
      ∃ rs j, Seccion b (i + 4) rs j ∧ rs.length = (be16 b 6).toNat ∧ ips ≠ [] ∧
        ips.length ≤ ipsMax ∧ Respaldada (suyo rs) b rs ips ttl

/-! ### What the reader takes, by dotted text -/

/-- A record added does not change what is sought after the ones before it. -/
theorem Busca.append {b : Bytes} {preguntado : List Bytes} {rs : List Registro} {n : Nat}
    {ls : List Bytes} {k : Nat} (h : Busca b preguntado rs n ls k) (rs' : List Registro) :
    Busca b preguntado (rs ++ rs') n ls k := by
  have hsigue : ∀ {n : Nat} {r : Registro}, rs[n]? = some r → (rs ++ rs')[n]? = some r := by
    intro n r hr
    rwa [List.getElem?_append_left (List.getElem?_eq_some_iff.mp hr).1]
  induction h with
  | inicio => exact .inicio
  | cname _ hr ht hc hn ih => exact .cname ih (hsigue hr) ht hc hn
  | direccion _ hr ht ha ih => exact .direccion ih (hsigue hr) ht ha
  | otro _ hr ht ih => exact .otro ih (hsigue hr) ht

/-- The owner of an address that is taken. -/
def DelBuscado (b : Bytes) (preguntado : List Bytes) (rs : List Registro) (n : Nat)
    (d : List Bytes) : Prop :=
  ∃ ls k, Busca b preguntado rs n ls k ∧ k < ipsMax ∧ mismoTexto d ls

private theorem lee16_eq_ok {b : Bytes} {i : Nat} {v : UInt16} (h : lee16 b i = .ok v) :
    v = be16 b i ∧ i + 2 ≤ b.length := by
  simp only [lee16, bind_eq_ok, byte_eq_ok, Except.ok.injEq] at h
  obtain ⟨x, hx, y, hy, rfl⟩ := h
  have := (List.getElem?_eq_some_iff.mp hy).1
  rw [be16, List.getD_eq_getElem?_getD, List.getD_eq_getElem?_getD, hx, hy]
  exact ⟨rfl, by omega⟩

theorem lee32_eq_ok {b : Bytes} {i : Nat} {v : UInt32} (h : lee32 b i = .ok v) : v = be32 b i := by
  simp only [lee32, bind_eq_ok, Except.ok.injEq] at h
  obtain ⟨x, hx, y, hy, rfl⟩ := h
  rw [(lee16_eq_ok hx).1, (lee16_eq_ok hy).1, be32]

/-- What the loop over the records knows after the records `rs`. -/
structure Lleva (b : Bytes) (preguntado : List Bytes) (i : Nat) (rs : List Registro)
    (c : Cuenta) : Prop where
  seccion : Seccion b i rs c.i
  buscado : ∃ ls, Busca b preguntado rs rs.length ls c.ips.length ∧ c.buscado = texto ls
  pocas : c.ips.length ≤ ipsMax
  inicial : c.ips = [] → c.ttl = 0xFFFFFFFF
  respaldada : Respaldada (DelBuscado b preguntado rs) b rs c.ips c.ttl

/-- A record that adds no address keeps the ones there are. -/
theorem Respaldada.append {b : Bytes} {preguntado : List Bytes} {rs : List Registro}
    {ips : List Ip} {ttl : UInt32} (h : Respaldada (DelBuscado b preguntado rs) b rs ips ttl)
    (rs' : List Registro) :
    Respaldada (DelBuscado b preguntado (rs ++ rs')) b (rs ++ rs') ips ttl := by
  obtain ⟨us, ho, hu, hi, ht⟩ := h
  refine ⟨us, ho, fun u hmem ↦ ?_, hi, ht⟩
  obtain ⟨hr, h1, h2, h3, ls, k, hl, hk, hd⟩ := hu u hmem
  have hlt := (List.getElem?_eq_some_iff.mp hr).1
  exact ⟨by rwa [List.getElem?_append_left hlt], h1, h2, h3, ls, k, hl.append rs', hk, hd⟩

/-- An A record of the name sought adds its address. -/
theorem Respaldada.suma {b : Bytes} {preguntado : List Bytes} {rs : List Registro}
    {ips : List Ip} {ttl : UInt32} (h : Respaldada (DelBuscado b preguntado rs) b rs ips ttl)
    {r : Registro} (ht : r.tipo = tipoA) (hc : r.clase = claseIn) (hl : r.largo = 4)
    (hd : DelBuscado b preguntado rs rs.length r.dueno) (hmax : ips = [] → ttl = 0xFFFFFFFF) :
    Respaldada (DelBuscado b preguntado (rs ++ [r])) b (rs ++ [r])
      (ips ++ [Arr.pad 4 (slice b r.datos 4)]) (if r.ttl < ttl then r.ttl else ttl) := by
  obtain ⟨us, ho, hu, hi, hmin, hex⟩ := h
  have hlt : ∀ u ∈ us, u.1 < rs.length := fun u hmem ↦
    (List.getElem?_eq_some_iff.mp (hu u hmem).1).1
  obtain ⟨us', ho', hu', hi', hmin', hex'⟩ := Respaldada.append ⟨us, ho, hu, hi, hmin, hex⟩ [r]
  refine ⟨us ++ [(rs.length, r)], ?_, ?_, ?_, ?_, ?_⟩
  · rw [List.pairwise_append]
    refine ⟨ho, List.pairwise_singleton .., fun u hmem v hv ↦ ?_⟩
    rw [List.mem_singleton.mp hv]
    exact hlt u hmem
  · intro u hmem
    rcases List.mem_append.mp hmem with hmem | hmem
    · obtain ⟨hr, h1, h2, h3, ms, k, hm, hdm⟩ := hu u hmem
      exact ⟨by rwa [List.getElem?_append_left (hlt u hmem)], h1, h2, h3, ms, k, hm.append _, hdm⟩
    · obtain ⟨ms, k, hm, hdm⟩ := hd
      rw [List.mem_singleton.mp hmem]
      exact ⟨List.getElem?_concat_length .., ht, hc, hl, ms, k, hm.append _, hdm⟩
  · rw [hi, List.map_append]
    rfl
  · intro u hmem
    rcases List.mem_append.mp hmem with hmem | hmem
    · have := hmin u hmem
      split
      · next hlt => exact Nat.le_trans (Nat.le_of_lt (UInt32.lt_iff_toNat_lt.mp hlt)) this
      · exact this
    · rw [List.mem_singleton.mp hmem]
      split
      · exact Nat.le_refl _
      · next hge => exact Nat.le_of_not_lt fun h ↦ hge (UInt32.lt_iff_toNat_lt.mpr h)
  · intro _
    split
    · exact ⟨(rs.length, r), List.mem_append_right _ (List.mem_singleton_self _), rfl⟩
    · next hge =>
      by_cases hus : us = []
      · refine ⟨(rs.length, r), List.mem_append_right _ (List.mem_singleton_self _), ?_⟩
        have h0 : ttl = 0xFFFFFFFF := hmax (by rw [hi, hus]; rfl)
        have hr := r.ttl.toNat_lt
        have hge := Nat.le_of_not_lt fun h ↦ hge (UInt32.lt_iff_toNat_lt.mpr h)
        rw [h0] at hge ⊢
        rw [← UInt32.toNat_inj]
        dsimp only
        have hmaxn : (0xFFFFFFFF : UInt32).toNat = 4294967295 := rfl
        omega
      · obtain ⟨u, hmem, hu⟩ := hex hus
        exact ⟨u, List.mem_append_left _ hmem, hu⟩

private theorem Lleva.pasa {b : Bytes} {preguntado : List Bytes} {i : Nat} {rs : List Registro}
    {c : Cuenta} (h : Lleva b preguntado i rs c) {r : Registro} {k : Nat}
    (hr : EsRegistro b c.i r k) (hno : ∀ ls, c.buscado = texto ls → ¬Toma r ls c.ips.length) :
    Lleva b preguntado i (rs ++ [r]) { c with i := k } := by
  obtain ⟨ls, hll, hb⟩ := h.buscado
  have hsube := (hll.append [r]).otro (List.getElem?_concat_length ..) (hno ls hb)
  refine ⟨h.seccion.sigue hr, ⟨ls, ?_, hb⟩, h.pocas, h.inicial, h.respaldada.append _⟩
  rw [List.length_append, List.length_singleton]
  exact hsube

private theorem cuentaSuyo_lleva {b : Bytes} {preguntado : List Bytes} {i : Nat}
    {rs : List Registro} {c c' : Cuenta} (h : Lleva b preguntado i rs c) {r : Registro} {k : Nat}
    (hr : EsRegistro b c.i r k) (hc : r.clase = claseIn) (hd : texto r.dueno = c.buscado)
    (hs : cuentaSuyo b c r.tipo r.datos r.largo r.ttl = .ok c') :
    Lleva b preguntado i (rs ++ [r]) { c' with i := k } := by
  obtain ⟨ls, hll, hb⟩ := h.buscado
  have hmismo : mismoTexto r.dueno ls := hd.trans hb
  have hsec := h.seccion.sigue hr
  have hlen : (rs ++ [r]).length = rs.length + 1 := by
    rw [List.length_append, List.length_singleton]
  have hget : (rs ++ [r])[rs.length]? = some r := List.getElem?_concat_length ..
  unfold cuentaSuyo at hs
  split at hs
  · next ht =>
    unfold cuentaA at hs
    rw [ite_rechaza_eq_ok] at hs
    obtain ⟨hlargo, hs⟩ := hs
    have hlargo := not_not.mp hlargo
    split at hs
    · next hpocas =>
      have hfin : r.datos + 4 ≤ b.length := by
        obtain ⟨-, -, -, -, -, -, -, -, hj, hjb⟩ := hr
        omega
      rw [trozo, if_pos hfin] at hs
      have hs := Except.ok.inj hs
      have hresp := h.respaldada.suma ht hc hlargo ⟨ls, _, hll, hpocas, hmismo⟩ h.inicial
      have hsube := (hll.append [r]).direccion hget ⟨hc, hmismo, .inl ⟨ht, hpocas⟩⟩ ht
      subst hs
      refine ⟨hsec, ⟨ls, ?_, hb⟩, ?_, fun h0 ↦ ?_, hresp⟩
      · rw [hlen, List.length_append, List.length_singleton]
        exact hsube
      · rw [List.length_append, List.length_singleton]
        exact hpocas
      · exact absurd h0 (List.append_ne_nil_of_right_ne_nil _ (List.cons_ne_nil _ _))
    · next hllena =>
      obtain rfl := Except.ok.inj hs
      refine h.pasa hr fun ms _ hm ↦ ?_
      rcases hm.2.2 with ⟨-, hpocas⟩ | hcname
      · exact hllena hpocas
      · rw [ht] at hcname
        exact absurd hcname (by decide)
  · next hnoA =>
    split at hs
    · next ht =>
      rw [bind_eq_ok] at hs
      obtain ⟨⟨destino, j⟩, hdest, hs⟩ := hs
      obtain rfl := Except.ok.inj hs
      obtain ⟨ms, ps, hn, rfl, -, -⟩ := leerNombre_spec hdest
      refine ⟨hsec, ⟨ms, ?_, rfl⟩, h.pocas, h.inicial, h.respaldada.append _⟩
      rw [hlen]
      exact (hll.append [r]).cname hget ⟨hc, hmismo, .inr ht⟩ ht hn
    · next hnoCname =>
      obtain rfl := Except.ok.inj hs
      refine h.pasa hr fun ms _ hm ↦ ?_
      rcases hm.2.2 with ⟨hA, -⟩ | hcname
      · exact hnoA hA
      · exact hnoCname hcname

private theorem registro_lleva {b : Bytes} {preguntado : List Bytes} {i : Nat} {rs : List Registro}
    {c c' : Cuenta} (h : Lleva b preguntado i rs c) (hc : registro b c = .ok c') :
    ∃ r, Lleva b preguntado i (rs ++ [r]) c' := by
  simp only [registro, bind_eq_ok, ite_rechaza_eq_ok] at hc
  obtain ⟨⟨leido, j⟩, hname, -, tipo, htipo, clase, hclase, t, ht, largo, hlargo, hfin, c₁, hc₁,
    hc⟩ := hc
  obtain ⟨ls, ps, hn, rfl, -, -⟩ := leerNombre_spec hname
  obtain rfl := Except.ok.inj hc
  have hr : EsRegistro b c.i ⟨ls, tipo, clase, t, j + 10, largo.toNat⟩ (j + 10 + largo.toNat) :=
    ⟨ps, j, hn, (lee16_eq_ok htipo).1, (lee16_eq_ok hclase).1, lee32_eq_ok ht,
      congrArg UInt16.toNat (lee16_eq_ok hlargo).1, rfl, rfl, Nat.le_of_not_lt hfin⟩
  refine ⟨⟨ls, tipo, clase, t, j + 10, largo.toNat⟩, ?_⟩
  split at hc₁
  · next hsuyo => exact cuentaSuyo_lleva h hr hsuyo.1 hsuyo.2 hc₁
  · next hajeno =>
    obtain rfl := Except.ok.inj hc₁
    exact h.pasa hr fun ms hb hm ↦ hajeno ⟨hm.1, hm.2.1.trans hb.symm⟩

/-- The loop over the records reads as many as it is told. -/
theorem registros_lleva {b : Bytes} {preguntado : List Bytes} {i n : Nat} {rs : List Registro}
    {c c' : Cuenta} (h : Lleva b preguntado i rs c) (hc : registros b n c = .ok c') :
    ∃ rs', rs'.length = rs.length + n ∧ Lleva b preguntado i rs' c' := by
  induction n generalizing rs c with
  | zero =>
    obtain rfl := Except.ok.inj hc
    exact ⟨rs, rfl, h⟩
  | succ n ih =>
    rw [registros, bind_eq_ok] at hc
    obtain ⟨c₁, hr, hc⟩ := hc
    obtain ⟨r, h₁⟩ := registro_lleva h hr
    obtain ⟨rs', hl, h'⟩ := ih h₁ hc
    refine ⟨rs', ?_, h'⟩
    rw [hl, List.length_append, List.length_singleton]
    omega

/-- The addresses of an answer are those of the names sought, compared by their dotted text. -/
theorem fiel_texto {b : Bytes} {id : UInt16} {nombre : Bytes} {ips : List Ip} {ttl : UInt32}
    (h : leer b id nombre = .ok (.ips ips ttl)) :
    (∃ t, normalizar nombre = .ok t) ∧
      Fiel mismoTexto (DelBuscado b (etiquetas nombre)) b id (etiquetas nombre) ips ttl := by
  simp only [leer, ite_rechaza_eq_ok, bind_eq_ok] at h
  obtain ⟨hb, suId, hid, hsu, banderas, -, -, -, preguntas, hq, hq1, esperado, hn, i, hp, h⟩ := h
  obtain ⟨rfl, -, -, -⟩ := normalizar_eq_ok hn
  simp only [pregunta, ite_rechaza_eq_ok, bind_eq_ok] at hp
  obtain ⟨⟨leido, j⟩, hname, hle, -, tipo, ht, clase, hc, htc, hp⟩ := hp
  obtain ⟨ls, ps, hnom, rfl, -, -⟩ := leerNombre_spec hname
  obtain rfl := Except.ok.inj hp
  have hid := (lee16_eq_ok hid).1.symm.trans (not_not.mp hsu)
  have hq1 := (lee16_eq_ok hq).1.symm.trans (not_not.mp hq1)
  rw [not_or, not_not, not_not] at htc
  have hj := (lee16_eq_ok hc).2
  refine ⟨⟨_, hn⟩, Nat.le_of_not_lt hb, hid, hq1, ls, ps, j, hnom, not_not.mp hle, by omega,
    (lee16_eq_ok ht).1.symm.trans htc.1, (lee16_eq_ok hc).1.symm.trans htc.2, ?_⟩
  unfold respuestas at h
  dsimp only at h
  split at h
  · simp only [bind_eq_ok] at h
    obtain ⟨cuantos, hcu, c, hrs, h⟩ := h
    have h0 : Lleva b (etiquetas nombre) (j + 4) []
        ⟨j + 4, texto (etiquetas nombre), [], 0xFFFFFFFF⟩ :=
      ⟨.vacia, ⟨_, .inicio, rfl⟩, Nat.zero_le _, fun _ ↦ rfl,
        ⟨[], .nil, fun u hu ↦ absurd hu List.not_mem_nil, rfl,
          fun u hu ↦ absurd hu List.not_mem_nil, fun h ↦ absurd rfl h⟩⟩
    obtain ⟨rs, hl, hlleva⟩ := registros_lleva h0 hrs
    rw [contesta] at h
    split at h
    · cases h
    · next hne =>
      obtain ⟨rfl, rfl⟩ := Respuesta.ips.inj (Except.ok.inj h)
      refine ⟨rs, c.i, hlleva.seccion, ?_, hne, hlleva.pocas, hlleva.respaldada⟩
      rw [hl, List.length_nil, Nat.zero_add, (lee16_eq_ok hcu).1]
  · split at h <;> cases h

/-! ### When the dotted text tells names apart -/

/-- No name is taken for another that has its dotted text: the question for the asked name, or,
up to the last address taken, the owner of a record that is taken for the name sought there. -/
def Distingue (b : Bytes) (preguntado : List Bytes) : Prop :=
  ∀ ls ps i, Nombre b cabecera ls ps i → (mismoTexto ls preguntado → igual ls preguntado) ∧
    ∀ rs j, Seccion b (i + 4) rs j → rs.length = (be16 b 6).toNat → ∀ n r ms,
      Tomado b preguntado rs n r ms →
        (∃ m a os, n ≤ m ∧ Tomado b preguntado rs m a os ∧ a.tipo = tipoA) → igual r.dueno ms

/-- Without a dot in the labels of the question, of the owners and of what CNAME records point
to, the text tells every name apart. -/
theorem distingue_of_sinPuntos {b nombre t : Bytes} (hn : normalizar nombre = .ok t)
    (hq : ∀ ls ps i, Nombre b cabecera ls ps i → ∀ e ∈ ls, punto ∉ e)
    (hrs : ∀ ls ps i, Nombre b cabecera ls ps i → ∀ rs j, Seccion b (i + 4) rs j → ∀ r ∈ rs,
      (∀ e ∈ r.dueno, punto ∉ e) ∧
      ∀ ms qs k, r.tipo = tipoCname → Nombre b r.datos ms qs k → ∀ e ∈ ms, punto ∉ e) :
    Distingue b (etiquetas nombre) := by
  obtain ⟨-, -, -, he⟩ := normalizar_eq_ok hn
  have hpregunta : ∀ e ∈ etiquetas nombre, e ≠ [] ∧ punto ∉ e :=
    fun e h ↦ ⟨(he e h).1, punto_not_mem (he e h).2.2⟩
  intro ls ps i hnom
  refine ⟨fun h ↦ igual_of_mismoTexto h hnom.ne_nil (fun e h ↦ (hpregunta e h).1) (hq ls ps i hnom)
    (fun e h ↦ (hpregunta e h).2), fun rs j hs hlen n r ms ⟨k, hb, hr, ht⟩ _ ↦ ?_⟩
  have hrs := hrs ls ps i hnom rs j hs
  have hbusca : ∀ {n ls k}, Busca b (etiquetas nombre) rs n ls k → ∀ e ∈ ls, e ≠ [] ∧ punto ∉ e := by
    intro n ls k h
    induction h with
    | inicio => exact hpregunta
    | cname _ hr _ hc hn _ =>
      intro e h
      exact ⟨hn.ne_nil e h, (hrs _ (List.mem_of_getElem? hr)).2 _ _ _ hc hn e h⟩
    | direccion _ _ _ _ ih => exact ih
    | otro _ _ _ ih => exact ih
  have hms := hbusca hb
  exact igual_of_mismoTexto ht.2.1 (hs.ne_nil r (List.mem_of_getElem? hr)) (fun e h ↦ (hms e h).1)
    (hrs r (List.mem_of_getElem? hr)).1 (fun e h ↦ (hms e h).2)

/-- The records determine the name sought and the number of addresses. -/
theorem Busca.unico {b : Bytes} {preguntado : List Bytes} {rs : List Registro} {n : Nat}
    {ls ls' : List Bytes} {k k' : Nat} (h : Busca b preguntado rs n ls k)
    (h' : Busca b preguntado rs n ls' k') : ls = ls' ∧ k = k' := by
  have hajeno : tipoA ≠ tipoCname := by decide
  induction h generalizing ls' k' with
  | inicio =>
    cases h'
    exact ⟨rfl, rfl⟩
  | cname h hr ht hc hn ih =>
    cases h' with
    | cname h' hr' ht' hc' hn' =>
      obtain rfl := Option.some.inj (hr.symm.trans hr')
      exact ⟨(hn.unico hn').1, (ih h').2⟩
    | direccion h' hr' ht' ha' =>
      obtain rfl := Option.some.inj (hr.symm.trans hr')
      exact absurd (ha'.symm.trans hc) hajeno
    | otro h' hr' ht' =>
      obtain rfl := Option.some.inj (hr.symm.trans hr')
      obtain ⟨rfl, rfl⟩ := ih h'
      exact absurd ht ht'
  | direccion h hr ht ha ih =>
    cases h' with
    | cname h' hr' ht' hc' hn' =>
      obtain rfl := Option.some.inj (hr.symm.trans hr')
      exact absurd (ha.symm.trans hc') hajeno
    | direccion h' hr' ht' ha' =>
      obtain ⟨rfl, rfl⟩ := ih h'
      exact ⟨rfl, rfl⟩
    | otro h' hr' ht' =>
      obtain rfl := Option.some.inj (hr.symm.trans hr')
      obtain ⟨rfl, rfl⟩ := ih h'
      exact absurd ht ht'
  | otro h hr ht ih =>
    cases h' with
    | cname h' hr' ht' hc' hn' =>
      obtain rfl := Option.some.inj (hr.symm.trans hr')
      obtain ⟨rfl, rfl⟩ := ih h'
      exact absurd ht' ht
    | direccion h' hr' ht' ha' =>
      obtain rfl := Option.some.inj (hr.symm.trans hr')
      obtain ⟨rfl, rfl⟩ := ih h'
      exact absurd ht' ht
    | otro h' hr' ht' => exact ih h'

/-- What fewer records reach, more do. -/
theorem Llega.mono {b : Bytes} {preguntado : List Bytes} {rs : List Registro} {n n' : Nat}
    {ls : List Bytes} (h : Llega b preguntado rs n ls) (hn : n ≤ n') :
    Llega b preguntado rs n' ls := by
  cases h with
  | preguntado => exact .preguntado n'
  | cname hm hr ht hc h hd hn' => exact .cname (Nat.lt_of_lt_of_le hm hn) hr ht hc h hd hn'

/-- Where the text tells names apart, what is sought is reached label by label. -/
theorem Busca.llega {b : Bytes} {preguntado : List Bytes} {rs : List Registro} {n : Nat}
    {ls : List Bytes} {k : Nat} (h : Busca b preguntado rs n ls k)
    (hd : ∀ m r ms, m < n → Tomado b preguntado rs m r ms → igual r.dueno ms) :
    Llega b preguntado rs n ls := by
  induction h with
  | inicio => exact .preguntado 0
  | cname h hr ht hc hn ih =>
    have hll := ih fun m r ms hm ↦ hd m r ms (Nat.lt_succ_of_lt hm)
    exact .cname (Nat.lt_succ_self _) hr hc ht.1 hll
      (hd _ _ _ (Nat.lt_succ_self _) ⟨_, h, hr, ht⟩) hn
  | direccion _ _ _ _ ih =>
    exact (ih fun m r ms hm ↦ hd m r ms (Nat.lt_succ_of_lt hm)).mono (Nat.le_succ _)
  | otro _ _ _ ih =>
    exact (ih fun m r ms hm ↦ hd m r ms (Nat.lt_succ_of_lt hm)).mono (Nat.le_succ _)

/-- Where the text tells names apart, the answer is label by label what was asked. -/
theorem Fiel.porEtiquetas {b : Bytes} {id : UInt16} {preguntado : List Bytes} {ips : List Ip}
    {ttl : UInt32} (h : Fiel mismoTexto (DelBuscado b preguntado) b id preguntado ips ttl)
    (hd : Distingue b preguntado) :
    Fiel igual (Alcanzado b preguntado) b id preguntado ips ttl := by
  obtain ⟨hb, hid, hq, ls, ps, i, hn, hls, hi, ht, hc, rs, j, hs, hl, hne, hp, us, ho, hu, hrest⟩ := h
  obtain ⟨hd1, hd2⟩ := hd ls ps i hn
  have hd2 := hd2 rs j hs hl
  refine ⟨hb, hid, hq, ls, ps, i, hn, hd1 hls, hi, ht, hc, rs, j, hs, hl, hne, hp, us, ho,
    fun u hmem ↦ ?_, hrest⟩
  obtain ⟨hr, h1, h2, h3, ms, k, hms, hk, hdm⟩ := hu u hmem
  -- this address is taken, so every record taken up to it is told apart
  have htoma : Tomado b preguntado rs u.1 u.2 ms := ⟨k, hms, hr, h2, hdm, .inl ⟨h1, hk⟩⟩
  have hll := hms.llega fun m r os hm hto ↦
    hd2 m r os hto ⟨u.1, u.2, ms, Nat.le_of_lt hm, htoma, h1⟩
  exact ⟨hr, h1, h2, h3, ms, hll, hd2 _ _ _ htoma ⟨u.1, u.2, ms, Nat.le_refl _, htoma, h1⟩⟩

/-! ### What is asked is accepted -/

private theorem bucle_inl {b : Bytes} {c c' : Cursor} (h : vuelta b c = .ok (.inl c')) :
    bucle b c = bucle b c' := by
  rw [bucle]
  split
  · next h' => rw [h] at h'; cases h'
  · next h' => rw [h] at h'; cases h'
  · next h' => rw [h] at h'; cases h'; rfl

theorem bucle_inr {b : Bytes} {c : Cursor} {r : Bytes × Nat} (h : vuelta b c = .ok (.inr r)) :
    bucle b c = .ok r := by
  rw [bucle]
  split
  · next h' => rw [h] at h'; cases h'
  · next h' => rw [h] at h'; cases h'; rfl
  · next h' => rw [h] at h'; cases h'

private theorem length_le_junta (t : Bytes) (ls : List Bytes) : t.length ≤ (junta t ls).length := by
  induction ls generalizing t with
  | nil => exact Nat.le_refl _
  | cons e ls ih =>
    refine Nat.le_trans ?_ (ih _)
    rw [List.length_append]
    split
    · next h => rw [h]; exact Nat.zero_le _
    · rw [List.length_append]
      omega

private theorem largo_etiqueta {n : Nat} (h0 : n ≠ 0) (h : n ≤ 63) :
    (UInt8.ofNat n).toNat = n ∧ UInt8.ofNat n ≠ 0 ∧ UInt8.ofNat n &&& 0xC0 = 0 := by
  have hall : ∀ k : Fin 64, k.val ≠ 0 → (UInt8.ofNat k.val).toNat = k.val ∧
      UInt8.ofNat k.val ≠ 0 ∧ UInt8.ofNat k.val &&& 0xC0 = 0 := by
    decide
  exact hall ⟨n, by omega⟩ h0

/-- Labels written one after another are read back as their text. -/
theorem bucle_cable {b antes : Bytes} {ls : List Bytes} {tras : Bytes} {c : Cursor}
    (hb : b = antes ++ (cable ls ++ (0 :: tras))) (hi : c.i = antes.length)
    (hls : ∀ e ∈ ls, e ≠ [] ∧ e.length ≤ 63) (hmax : (junta c.texto ls).length ≤ nombreMax) :
    bucle b c = .ok (junta c.texto ls, c.sigue.getD (antes.length + (cable ls).length + 1)) := by
  induction ls generalizing antes c with
  | nil =>
    have hlen : ¬c.i ≥ b.length := by
      rw [hb, hi, List.length_append, List.length_append, List.length_cons]
      omega
    have hget : byte b c.i = .ok 0 := by
      rw [byte_eq_ok, hb, hi, List.getElem?_append_right (Nat.le_refl _), Nat.sub_self]
      rfl
    refine bucle_inr ?_
    rw [vuelta, if_neg hlen, hget, ok_bind, if_neg (by decide), if_neg (by decide), if_pos rfl, hi]
    rfl
  | cons e ls ih =>
    obtain ⟨he0, he63⟩ := hls e (List.mem_cons_self ..)
    obtain ⟨hl, hl0, hl1⟩ := largo_etiqueta (fun h ↦ he0 (List.eq_nil_of_length_eq_zero h)) he63
    have hcable : cable (e :: ls) = UInt8.ofNat e.length :: (e ++ cable ls) := rfl
    rw [hcable] at hb
    have hlen : c.i + 1 + e.length < b.length := by
      rw [hb, hi]
      simp only [List.length_append, List.length_cons]
      omega
    have hget : byte b c.i = .ok (UInt8.ofNat e.length) := by
      rw [byte_eq_ok, hb, hi, List.getElem?_append_right (Nat.le_refl _), Nat.sub_self]
      rfl
    have htrozo : trozo b (c.i + 1) e.length = .ok e := by
      rw [trozo, if_pos (Nat.le_of_lt hlen)]
      refine congrArg Except.ok (slice_of_eq (a := antes ++ [UInt8.ofNat e.length])
        (r := cable ls ++ (0 :: tras)) ?_ ?_ rfl)
      · rw [hb]
        simp only [List.append_assoc, List.cons_append, List.nil_append]
      · rw [hi, List.length_append, List.length_singleton]
    -- the text after this label, which the text of the whole name bounds
    have hjunta : junta c.texto (e :: ls) =
        junta ((if c.texto = [] then [] else c.texto ++ [punto]) ++ e.map minuscula) ls := rfl
    have htexto := length_le_junta
      ((if c.texto = [] then [] else c.texto ++ [punto]) ++ e.map minuscula) ls
    rw [← hjunta, List.length_append, List.length_map] at htexto
    have hpos : 0 < e.length := List.length_pos_of_ne_nil he0
    have hsepara : separa c.texto = .ok (if c.texto = [] then [] else c.texto ++ [punto]) := by
      unfold separa
      by_cases h0 : c.texto = []
      · rw [if_neg (by rw [h0]; exact fun h ↦ h rfl), if_pos h0, h0]
      · rw [if_neg h0, List.length_append, List.length_singleton] at htexto
        rw [if_pos (fun h ↦ h0 (List.eq_nil_of_length_eq_zero h)), if_neg (by omega), anota,
          if_pos (by rw [List.length_singleton]; omega), if_neg h0]
    have hvuelta : vuelta b c = .ok (.inl { c with
        texto := (if c.texto = [] then [] else c.texto ++ [punto]) ++ e.map minuscula
        i := c.i + 1 + e.length }) := by
      rw [vuelta, if_neg (by omega), hget, ok_bind, if_neg (by rw [hl1]; decide),
        if_neg (by rw [hl1]; decide), if_neg hl0, hl, etiqueta, if_neg (by omega), hsepara,
        ok_bind, if_neg (by omega), htrozo, ok_bind, anota,
        if_pos (by rw [List.length_map]; omega), ok_bind]
    rw [bucle_inl hvuelta, hjunta]
    have h := @ih (antes ++ (UInt8.ofNat e.length :: e)) { c with
        texto := (if c.texto = [] then [] else c.texto ++ [punto]) ++ e.map minuscula
        i := c.i + 1 + e.length }
      (by rw [hb]; simp only [List.append_assoc, List.cons_append])
      (by rw [List.length_append, List.length_cons, ← hi]; dsimp only; omega)
      (fun x hx ↦ hls x (List.mem_cons_of_mem _ hx)) hmax
    rw [h, hcable, List.length_append, List.length_cons, List.length_cons, List.length_append]
    dsimp only
    congr 3
    omega

private theorem minuscula_minuscula (c : UInt8) : minuscula (minuscula c) = minuscula c := by
  have h : ∀ c : Fin 256, minuscula (minuscula (UInt8.ofNat c.val)) =
      minuscula (UInt8.ofNat c.val) := by
    decide +kernel
  have := h ⟨c.toNat, c.toNat_lt⟩
  simpa using this

/-- The labels of a question, in lower case. -/
def enMinusculas (nombre : Bytes) : List Bytes := (etiquetas nombre).map (List.map minuscula)

private theorem enMinusculas_spec {nombre t : Bytes} (h : normalizar nombre = .ok t) :
    t.splitOn punto = enMinusculas nombre ∧ texto (enMinusculas nombre) = t ∧
      ∀ e ∈ enMinusculas nombre, e ≠ [] ∧ e.length ≤ 63 := by
  obtain ⟨rfl, -, -, he⟩ := normalizar_eq_ok h
  have hlabel : ∀ e ∈ enMinusculas nombre, (e ≠ [] ∧ e.length ≤ 63) ∧ punto ∉ e := by
    intro e hmem
    obtain ⟨x, hx, rfl⟩ := List.mem_map.mp hmem
    obtain ⟨h0, h63, ha⟩ := he x hx
    refine ⟨⟨fun h ↦ h0 (List.map_eq_nil_iff.mp h), by rwa [List.length_map]⟩, fun hp ↦ ?_⟩
    obtain ⟨c, hc, hcp⟩ := List.mem_map.mp hp
    exact punto_not_mem ha (minuscula_eq_punto.mp hcp ▸ hc)
  have hne : enMinusculas nombre ≠ [] := fun h ↦
    List.splitOn_ne_nil punto (sinPunto nombre) (List.map_eq_nil_iff.mp h)
  have hidem : (List.map minuscula ∘ List.map minuscula : Bytes → Bytes) = List.map minuscula := by
    funext x
    simp only [Function.comp_apply, List.map_map, Function.comp_def, minuscula_minuscula]
  refine ⟨List.splitOn_intercalate punto (fun e h ↦ (hlabel e h).2) hne, ?_,
    fun e h ↦ (hlabel e h).1⟩
  rw [texto, texto, enMinusculas, List.map_map, hidem]

/-- The question on the wire. -/
def preguntaDe (nombre : Bytes) : Bytes :=
  cable (enMinusculas nombre) ++ (0 :: (u16Be tipoA ++ u16Be claseIn))

private theorem preguntar_spec {dst nombre dst' : Bytes} {id : UInt16} {n : Nat}
    (h : preguntar dst id nombre = .ok (n, dst')) :
    normalizar nombre = .ok (texto (etiquetas nombre)) ∧
      slice dst' cabecera (n - cabecera) = preguntaDe nombre ∧
      n = cabecera + (preguntaDe nombre).length := by
  simp only [preguntar, bind_eq_ok, ite_rechaza_eq_ok, Except.ok.injEq, Prod.mk.injEq] at h
  obtain ⟨limpio, hn, -, rfl, rfl⟩ := h
  obtain ⟨hsplit, -, -⟩ := enMinusculas_spec hn
  obtain ⟨ht, -⟩ := normalizar_eq_ok hn
  have hlista : u16Be id ++ u16Be 0x0100 ++ u16Be 1 ++ zeros 6 ++ cable (limpio.splitOn punto) ++
      [0] ++ u16Be tipoA ++ u16Be claseIn =
        (u16Be id ++ u16Be 0x0100 ++ u16Be 1 ++ zeros 6) ++ preguntaDe nombre := by
    rw [hsplit, preguntaDe]
    simp only [List.append_assoc, List.cons_append, List.nil_append]
  rw [hlista]
  refine ⟨ht ▸ hn, ?_, by rw [List.length_append]; rfl⟩
  rw [List.append_assoc]
  refine slice_of_eq rfl rfl ?_
  rw [List.length_append]
  exact Nat.add_sub_cancel_left ..

/-- A response: the header, the question it repeats and what follows. -/
def ecoDe (id banderas cuantos : UInt16) (otras pregunta resto : Bytes) : Bytes :=
  u16Be id ++ (u16Be banderas ++ (u16Be 1 ++ (u16Be cuantos ++ (otras ++ (pregunta ++ resto)))))

private theorem lee16_of_eq {b a r : Bytes} {v : UInt16} {i : Nat} (h : b = a ++ (u16Be v ++ r))
    (hi : i = a.length) : lee16 b i = .ok v := by
  have h1 : b[i]? = some (UInt8.ofNat (v.toNat / 256)) := by
    rw [h, hi, List.getElem?_append_right (Nat.le_refl _), Nat.sub_self]
    rfl
  have h2 : b[i + 1]? = some (UInt8.ofNat v.toNat) := by
    have hsub : a.length + 1 - a.length = 1 := Nat.add_sub_cancel_left ..
    rw [h, hi, List.getElem?_append_right (Nat.le_succ _), hsub]
    rfl
  rw [lee16, byte_eq_ok.mpr h1, ok_bind, byte_eq_ok.mpr h2, ok_bind, u16De_u16Be]

/-- A response that repeats the question asked is taken for the answer to it: what it says is
its code and its records. -/
theorem leer_eco {dst nombre dst' : Bytes} {id : UInt16} {n : Nat}
    (h : preguntar dst id nombre = .ok (n, dst')) {banderas : UInt16}
    (hr : banderas &&& 0x8000 ≠ 0) (ho : banderas &&& 0x7800 = 0) (ht : banderas &&& 0x0200 = 0)
    (cuantos : UInt16) {otras : Bytes} (hotras : otras.length = 4) (resto : Bytes) :
    leer (ecoDe id banderas cuantos otras (slice dst' cabecera (n - cabecera)) resto) id nombre =
      respuestas (ecoDe id banderas cuantos otras (slice dst' cabecera (n - cabecera)) resto)
        banderas n (texto (etiquetas nombre)) := by
  obtain ⟨hn, hp, hlen⟩ := preguntar_spec h
  obtain ⟨-, htexto, hls⟩ := enMinusculas_spec hn
  obtain ⟨-, hmax, -, -⟩ := normalizar_eq_ok hn
  have hcab : cabecera = 12 := rfl
  rw [hp]
  generalize hb : ecoDe id banderas cuantos otras (preguntaDe nombre) resto = b
  have hb : b = u16Be id ++ (u16Be banderas ++ (u16Be 1 ++ (u16Be cuantos ++ (otras ++
      (preguntaDe nombre ++ resto))))) := hb.symm
  have h0 : lee16 b 0 = .ok id := lee16_of_eq (a := []) hb rfl
  have h2 : lee16 b 2 = .ok banderas := lee16_of_eq hb rfl
  have h4 : lee16 b 4 = .ok 1 := lee16_of_eq (a := u16Be id ++ u16Be banderas) hb rfl
  have hantes : (u16Be id ++ u16Be banderas ++ u16Be 1 ++ u16Be cuantos ++ otras).length =
      cabecera := by
    rw [List.length_append, hotras]
    rfl
  -- the question, after twelve bytes
  have hq : b = (u16Be id ++ u16Be banderas ++ u16Be 1 ++ u16Be cuantos ++ otras) ++
      (cable (enMinusculas nombre) ++ (0 :: (u16Be tipoA ++ (u16Be claseIn ++ resto)))) := by
    rw [hb, preguntaDe]
    simp only [List.append_assoc, List.cons_append]
  have hlargo : b.length = n + resto.length := by
    rw [hb, hlen]
    simp only [List.length_append, length_u16Be, hotras]
    omega
  have hn12 : n = cabecera + (cable (enMinusculas nombre)).length + 1 + 4 := by
    rw [hlen, preguntaDe, List.length_append, List.length_cons, List.length_append, length_u16Be,
      length_u16Be]
    omega
  have hjunta : junta [] (enMinusculas nombre) = texto (etiquetas nombre) := by
    rw [junta_nil fun e h ↦ (hls e h).1, htexto]
  have hnombre : leerNombre b cabecera = .ok (texto (etiquetas nombre), n - 4) := by
    have hbucle := bucle_cable (c := .inicio cabecera) hq hantes.symm hls (by
      rw [show (Cursor.inicio cabecera).texto = [] from rfl, hjunta]
      exact hmax)
    rw [leerNombre, hbucle, show (Cursor.inicio cabecera).texto = [] from rfl, hjunta, hantes, hn12]
    rfl
  have htipo : lee16 b (n - 4) = .ok tipoA :=
    lee16_of_eq (a := (u16Be id ++ u16Be banderas ++ u16Be 1 ++ u16Be cuantos ++ otras) ++
        (cable (enMinusculas nombre) ++ [0])) (r := u16Be claseIn ++ resto)
      (by rw [hq]; simp only [List.append_assoc, List.cons_append, List.nil_append])
      (by rw [List.length_append, hantes, List.length_append, List.length_singleton]; omega)
  have hclase : lee16 b (n - 4 + 2) = .ok claseIn :=
    lee16_of_eq (a := (u16Be id ++ u16Be banderas ++ u16Be 1 ++ u16Be cuantos ++ otras) ++
        (cable (enMinusculas nombre) ++ (0 :: u16Be tipoA))) (r := resto)
      (by rw [hq]; simp only [List.append_assoc, List.cons_append])
      (by
        rw [List.length_append, hantes, List.length_append, List.length_cons, length_u16Be]
        omega)
  have hpregunta : pregunta b (texto (etiquetas nombre)) = .ok n := by
    rw [pregunta, hnombre, ok_bind]
    dsimp only
    rw [if_neg (not_not.mpr rfl), if_neg (by omega), htipo, ok_bind, hclase, ok_bind,
      if_neg (not_or.mpr ⟨not_not.mpr rfl, not_not.mpr rfl⟩)]
    congr 1
    omega
  rw [leer, if_neg (by omega), h0, ok_bind, if_neg (not_not.mpr rfl), h2, ok_bind,
    if_neg (not_or.mpr ⟨hr, not_not.mpr ho⟩), if_neg (not_not.mpr ht), h4, ok_bind,
    if_neg (not_not.mpr rfl), hn, ok_bind, hpregunta, ok_bind]

/-! ### The answer is to what was asked -/

/-- No message makes the reader leave it or follow more than sixteen pointers, each before the
last; the repeated question is accepted; and an answer with addresses is, label by label, to
the question asked wherever the dotted text tells the names taken for it apart. For the question
that is where none of its labels has a dot. -/
theorem solo_lo_preguntado (b : Bytes) (id : UInt16) (nombre : Bytes) :
    Segura (leer b id nombre) ∧
    (∀ i ps c, Recorre b (.inicio i) ps c →
      ps.length ≤ saltosMax ∧ (i :: ps).Pairwise (· > ·)) ∧
    (∀ dst n dst', preguntar dst id nombre = .ok (n, dst') →
      ∀ banderas : UInt16, banderas &&& 0x8000 ≠ 0 → banderas &&& 0x7800 = 0 →
        banderas &&& 0x0200 = 0 → ∀ (cuantos : UInt16) (otras : Bytes), otras.length = 4 →
          ∀ resto : Bytes,
            leer (ecoDe id banderas cuantos otras (slice dst' cabecera (n - cabecera)) resto) id
                nombre =
              respuestas (ecoDe id banderas cuantos otras (slice dst' cabecera (n - cabecera))
                resto) banderas n (texto (etiquetas nombre)) ∧
            (cuantos = 0 → ∃ r, leer (ecoDe id banderas cuantos otras
              (slice dst' cabecera (n - cabecera)) resto) id nombre = .ok r)) ∧
    ∀ ips ttl, leer b id nombre = .ok (.ips ips ttl) →
      (Distingue b (etiquetas nombre) →
        Fiel igual (Alcanzado b (etiquetas nombre)) b id (etiquetas nombre) ips ttl) ∧
      ∀ ls ps i, Nombre b cabecera ls ps i →
        (igual ls (etiquetas nombre) ↔ ∀ e ∈ ls, punto ∉ e) := by
  refine ⟨segura_leer b id nombre, fun i ps c h ↦ recorre_inicio h, ?_, ?_⟩
  · intro dst n dst' h banderas hr ho ht cuantos otras hotras resto
    have heco := leer_eco h hr ho ht cuantos hotras resto
    refine ⟨heco, ?_⟩
    rintro rfl
    have h6 : lee16 (ecoDe id banderas 0 otras (slice dst' cabecera (n - cabecera)) resto) 6 =
        .ok 0 := lee16_of_eq (a := u16Be id ++ u16Be banderas ++ u16Be 1) rfl rfl
    rw [heco, respuestas]
    split
    · rw [h6, ok_bind]
      exact ⟨_, rfl⟩
    · split
      · exact ⟨_, rfl⟩
      · exact ⟨_, rfl⟩
  · intro ips ttl h
    obtain ⟨⟨t, hn⟩, hf⟩ := fiel_texto h
    refine ⟨hf.porEtiquetas, fun ls ps i hnom ↦ ?_⟩
    obtain ⟨-, -, -, ms, _, _, hnom', hms, -⟩ := hf
    obtain ⟨rfl, -, -⟩ := hnom.unico hnom'
    exact igual_etiquetas_iff hn hnom.ne_nil hms

/-- A response to a question for `a.b`: an alias of `a.b` is `c`, another one, not followed, is one
label with the dot inside; an address of the two labels `x` and `y`, and one of `c`. -/
def respuestaBuena : Bytes :=
  ecoDe 0xB0B0 0x8180 4 (zeros 4) [1, 97, 1, 98, 0, 0, 1, 0, 1]
    ([0xC0, 12, 0, 5, 0, 1, 0, 0, 0, 60, 0, 3, 1, 99, 0] ++
      [0xC0, 12, 0, 5, 0, 1, 0, 0, 0, 60, 0, 5, 3, 120, 46, 121, 0] ++
      [1, 120, 1, 121, 0, 0, 1, 0, 1, 0, 0, 0, 60, 0, 4, 9, 9, 9, 9] ++
      [0xC0, 33, 0, 1, 0, 1, 0, 0, 0, 60, 0, 4, 1, 2, 3, 4])

/-- Its records. -/
def registrosBuenos : List Registro :=
  [⟨[[97], [98]], tipoCname, claseIn, 60, 33, 3⟩, ⟨[[97], [98]], tipoCname, claseIn, 60, 48, 5⟩,
    ⟨[[120], [121]], tipoA, claseIn, 60, 68, 4⟩, ⟨[[99]], tipoA, claseIn, 60, 84, 4⟩]

private theorem pregunta_buena : Nombre respuestaBuena 12 [[97], [98]] [] 17 :=
  .etiqueta (l := 1) (by decide) (by decide) (by decide) (by decide)
    (.etiqueta (l := 1) (by decide) (by decide) (by decide) (by decide) (.raiz (by decide)))

private theorem alias_bueno : Nombre respuestaBuena 33 [[99]] [] 36 :=
  .etiqueta (l := 1) (by decide) (by decide) (by decide) (by decide) (.raiz (by decide))

private theorem seccion_buena : Seccion respuestaBuena 21 registrosBuenos 88 := by
  have h0 : EsRegistro respuestaBuena 21 ⟨[[97], [98]], tipoCname, claseIn, 60, 33, 3⟩ 36 :=
    ⟨[12], 23, .puntero (l := 0xC0) (m := 12) (by decide) (by decide) (by decide) pregunta_buena,
      by decide⟩
  have h1 : EsRegistro respuestaBuena 36 ⟨[[97], [98]], tipoCname, claseIn, 60, 48, 5⟩ 53 :=
    ⟨[12], 38, .puntero (l := 0xC0) (m := 12) (by decide) (by decide) (by decide) pregunta_buena,
      by decide⟩
  have h2 : EsRegistro respuestaBuena 53 ⟨[[120], [121]], tipoA, claseIn, 60, 68, 4⟩ 72 :=
    ⟨[], 58, .etiqueta (l := 1) (by decide) (by decide) (by decide) (by decide)
      (.etiqueta (l := 1) (by decide) (by decide) (by decide) (by decide) (.raiz (by decide))),
      by decide⟩
  have h3 : EsRegistro respuestaBuena 72 ⟨[[99]], tipoA, claseIn, 60, 84, 4⟩ 88 :=
    ⟨[33], 74, .puntero (l := 0xC0) (m := 33) (by decide) (by decide) (by decide) alias_bueno,
      by decide⟩
  exact (((Seccion.vacia.sigue h0).sigue h1).sigue h2).sigue h3

/-- Only the first alias is followed, so the label with a dot is compared with nothing. -/
theorem distingue_respuestaBuena : Distingue respuestaBuena (etiquetas [97, 46, 98]) := by
  have hb0 : Busca respuestaBuena (etiquetas [97, 46, 98]) registrosBuenos 0 [[97], [98]] 0 :=
    .inicio
  have hb1 := hb0.cname rfl (by decide) rfl alias_bueno
  have hb2 := hb1.otro rfl (by decide)
  have hb3 := hb2.otro rfl (by decide)
  intro ls ps i hn
  obtain ⟨rfl, -, rfl⟩ := hn.unico pregunta_buena
  refine ⟨fun _ ↦ by decide, fun rs j hs hlen n r ms ⟨k, hb, hr, ht⟩ _ ↦ ?_⟩
  obtain ⟨rfl, -⟩ := hs.unica seccion_buena (hlen.trans (by decide))
  have hn4 : n < 4 := (List.getElem?_eq_some_iff.mp hr).1
  match n with
  | 0 =>
    obtain ⟨rfl, rfl⟩ := hb.unico hb0
    obtain rfl := Option.some.inj hr
    decide
  | 1 =>
    obtain ⟨rfl, rfl⟩ := hb.unico hb1
    obtain rfl := Option.some.inj hr
    exact absurd ht (by decide)
  | 2 =>
    obtain ⟨rfl, rfl⟩ := hb.unico hb2
    obtain rfl := Option.some.inj hr
    exact absurd ht (by decide)
  | 3 =>
    obtain ⟨rfl, rfl⟩ := hb.unico hb3
    obtain rfl := Option.some.inj hr
    decide

/-- The address of `c` is one of `a.b`, the other one is not. -/
theorem solo_lo_preguntado_buena :
    Fiel igual (Alcanzado respuestaBuena (etiquetas [97, 46, 98])) respuestaBuena 0xB0B0
      (etiquetas [97, 46, 98]) [Arr.pad 4 [1, 2, 3, 4]] 60 :=
  ((solo_lo_preguntado respuestaBuena 0xB0B0 [97, 46, 98]).2.2.2 [Arr.pad 4 [1, 2, 3, 4]] 60
    (by decide +kernel)).1 distingue_respuestaBuena

/-- A response whose question has one label, `a.b` with the dot inside. -/
def respuestaConPunto : Bytes :=
  ecoDe 0xB0B0 0x8180 1 (zeros 4) [3, 97, 46, 98, 0, 0, 1, 0, 1]
    [0xC0, 12, 0, 1, 0, 1, 0, 0, 0, 60, 0, 4, 1, 2, 3, 4]

/-- The response with one label is taken for an answer about the name of two. -/
theorem punto_en_etiqueta :
    ¬ ∀ b id nombre ips ttl, leer b id nombre = .ok (.ips ips ttl) →
      Fiel igual (Alcanzado b (etiquetas nombre)) b id (etiquetas nombre) ips ttl := by
  intro h
  obtain ⟨-, -, -, ls, ps, i, hn, hi, -⟩ := h respuestaConPunto 0xB0B0 [97, 46, 98]
    [Arr.pad 4 [1, 2, 3, 4]] 60 (by decide +kernel)
  have hnombre : Nombre respuestaConPunto cabecera [[97, 46, 98]] [] 17 :=
    .etiqueta (l := 3) (by decide) (by decide) (by decide) (by decide) (.raiz (by decide))
  obtain ⟨rfl, -, -⟩ := hn.unico hnombre
  exact absurd hi (by decide)

end BmoX.Pila.Dns
