import BmoX.Pila.Suma

/-!
# DNS, client side

`platform/shared/bmo-pila/src/dns.rs`: one A/IN question, and an answer whose compressed names
are flattened to dotted text before they are compared. An index outside the message or the
254-byte buffer (a Rust panic) is `panico`.
-/

namespace BmoX.Pila.Dns

open BmoX.Base

/-! ### Reading with bounds -/

/-- Why a reader stops: a refusal, or an index out of bounds. -/
inductive Parada
  | rechazo (r : Rechazo)
  | panico
  deriving DecidableEq, Repr

/-- A reader's outcome. -/
abbrev Lee (α : Type) := Except Parada α

/-- `Err(r)`. -/
def rechaza {α : Type} (r : Rechazo) : Lee α := .error (.rechazo r)

/-- `b[i]`. -/
def byte (b : Bytes) (i : Nat) : Lee UInt8 :=
  match b[i]? with
  | some x => .ok x
  | none => .error .panico

/-- `&b[i..i + n]`. -/
def trozo (b : Bytes) (i n : Nat) : Lee Bytes :=
  if i + n ≤ b.length then .ok (slice b i n) else .error .panico

/-- `be16`. -/
def lee16 (b : Bytes) (i : Nat) : Lee UInt16 :=
  byte b i >>= fun alto ↦ byte b (i + 1) >>= fun bajo ↦ .ok (u16De alto bajo)

/-- `be32`. -/
def lee32 (b : Bytes) (i : Nat) : Lee UInt32 :=
  lee16 b i >>= fun alto ↦ lee16 b (i + 2) >>= fun bajo ↦
    .ok (UInt32.ofNat (alto.toNat * 65536 + bajo.toNat))

/-! ### Names as text -/

/-- `CABECERA`; `dns.rs:33`. -/
abbrev cabecera : Nat := 12

/-- `NOMBRE_MAX`; `dns.rs:34`. -/
abbrev nombreMax : Nat := 253

/-- `SALTOS_MAX`; `dns.rs:35`. -/
abbrev saltosMax : Nat := 16

/-- `IPS_MAX`; `dns.rs:36`. -/
abbrev ipsMax : Nat := 4

/-- `TIPO_A`; `dns.rs:37`. -/
def tipoA : UInt16 := 1

/-- `TIPO_CNAME`; `dns.rs:38`. -/
def tipoCname : UInt16 := 5

/-- `CLASE_IN`; `dns.rs:39`. -/
def claseIn : UInt16 := 1

/-- `b'.'`. -/
abbrev punto : UInt8 := 46

/-- `u8::to_ascii_lowercase`. -/
def minuscula (c : UInt8) : UInt8 := if 65 ≤ c ∧ c ≤ 90 then c + 32 else c

/-- The bytes of a label that may be asked for: letters, digits and the hyphen. -/
def admitido (c : UInt8) : Bool :=
  (48 ≤ c && c ≤ 57) || (65 ≤ c && c ≤ 90) || (97 ≤ c && c ≤ 122) || c == 45

/-- `nombre.strip_suffix(b".").unwrap_or(nombre)`. -/
def sinPunto (nombre : Bytes) : Bytes :=
  if nombre.getLast? = some punto then nombre.dropLast else nombre

/-- The labels of a name given as text. -/
def etiquetas (nombre : Bytes) : List Bytes := (sinPunto nombre).splitOn punto

/-- The checks on each label, in order; `dns.rs:58–65`. -/
def valida : List Bytes → Lee Unit
  | [] => .ok ()
  | e :: es =>
    if e = [] ∨ e.length > 63 then rechaza .largo
    else if e.all admitido then valida es
    else rechaza .cabecera

/-- The name as it is compared: lower case, no final dot, checked; `dns.rs:52–70`. -/
def normalizar (nombre : Bytes) : Lee Bytes :=
  if sinPunto nombre = [] ∨ (sinPunto nombre).length > nombreMax then rechaza .largo
  else valida (etiquetas nombre) >>= fun _ ↦ .ok ((sinPunto nombre).map minuscula)

/-- Labels on the wire, each after its length. -/
def cable (ls : List Bytes) : Bytes := ls.flatMap fun e ↦ UInt8.ofNat e.length :: e

/-- The question: how many bytes it takes, and `dst` with them in front; `dns.rs:73–94`. -/
def preguntar (dst : Bytes) (id : UInt16) (nombre : Bytes) : Lee (Nat × Bytes) :=
  normalizar nombre >>= fun limpio ↦
    if dst.length < cabecera + 1 + limpio.length + 1 + 4 then rechaza .corto
    else
      let b := u16Be id ++ u16Be 0x0100 ++ u16Be 1 ++ zeros 6 ++ cable (limpio.splitOn punto) ++
        [0] ++ u16Be tipoA ++ u16Be claseIn
      .ok (b.length, b ++ dst.drop b.length)

/-! ### Names on the wire -/

/-- The variables of the loop of `leer_nombre`; `texto` is `dst[..n]`; `dns.rs:99–104`. -/
structure Cursor where
  i : Nat
  texto : Bytes
  sigue : Option Nat
  saltos : Nat
  limite : Nat
  deriving DecidableEq

/-- Before the first turn; `dns.rs:99–104`. -/
def Cursor.inicio (i : Nat) : Cursor := ⟨i, [], none, 0, i⟩

/-- Write after the text, in a buffer of 254 bytes. -/
def anota (texto mas : Bytes) : Lee Bytes :=
  if texto.length + mas.length ≤ nombreMax + 1 then .ok (texto ++ mas) else .error .panico

/-- The dot between two labels; `dns.rs:133–139`. -/
def separa (texto : Bytes) : Lee Bytes :=
  if texto.length ≠ 0 then
    if texto.length ≥ nombreMax then rechaza .largo else anota texto [punto]
  else .ok texto

/-- A label of `l` bytes; `dns.rs:130–147`. -/
def etiqueta (b : Bytes) (c : Cursor) (l : Nat) : Lee (Cursor ⊕ Bytes × Nat) :=
  if c.i + 1 + l > b.length then rechaza .corto
  else separa c.texto >>= fun texto ↦
    if texto.length + l > nombreMax then rechaza .largo
    else trozo b (c.i + 1) l >>= fun e ↦ anota texto (e.map minuscula) >>= fun texto ↦
      .ok (.inl { c with texto, i := c.i + 1 + l })

/-- A pointer, only towards the front; `dns.rs:110–124`. -/
def puntero (b : Bytes) (c : Cursor) (l : UInt8) : Lee (Cursor ⊕ Bytes × Nat) :=
  if c.i + 1 ≥ b.length then rechaza .corto
  else byte b (c.i + 1) >>= fun m ↦
    let destino := (l &&& 0x3F).toNat <<< 8 ||| m.toNat
    if destino ≥ c.limite ∨ destino < cabecera ∨ c.saltos + 1 > saltosMax then rechaza .cabecera
    else .ok (.inl {
      c with
      saltos := c.saltos + 1
      sigue := some (c.sigue.getD (c.i + 2))
      limite := destino
      i := destino })

/-- One turn of the loop: on, or done; `dns.rs:105–148`. -/
def vuelta (b : Bytes) (c : Cursor) : Lee (Cursor ⊕ Bytes × Nat) :=
  if c.i ≥ b.length then rechaza .corto
  else byte b c.i >>= fun l ↦
    if l &&& 0xC0 = 0xC0 then puntero b c l
    else if l &&& 0xC0 ≠ 0 then rechaza .cabecera
    else if l = 0 then .ok (.inr (c.texto, c.sigue.getD (c.i + 1)))
    else etiqueta b c l.toNat

/-- How much is left to walk: a pointer lowers the limit, a label moves on. -/
def Cursor.resto (b : Bytes) (c : Cursor) : Nat := c.limite * (b.length + 1) + (b.length - c.i)

theorem ok_bind {α β : Type} (a : α) (f : α → Lee β) : ((.ok a : Lee α) >>= f) = f a := rfl

/-- A step that did not fail. -/
theorem bind_eq_ok {α β : Type} {x : Lee α} {f : α → Lee β} {v : β} :
    (x >>= f) = .ok v ↔ ∃ a, x = .ok a ∧ f a = .ok v := by
  cases x with
  | error e =>
    constructor
    · intro h
      cases h
    · rintro ⟨a, ha, -⟩
      cases ha
  | ok a =>
    constructor
    · intro h
      exact ⟨a, rfl, h⟩
    · rintro ⟨a', ha, h⟩
      cases ha
      exact h

/-- A check that did not refuse was passed. -/
theorem ite_rechaza_eq_ok {α : Type} {p : Prop} [Decidable p] {r : Rechazo} {x : Lee α} {v : α} :
    (if p then rechaza r else x) = .ok v ↔ ¬p ∧ x = .ok v := by
  split
  · next h =>
    constructor
    · intro hx
      cases hx
    · intro hx
      exact absurd h hx.1
  · next h => exact ⟨fun hx ↦ ⟨h, hx⟩, And.right⟩

/-- A byte that was read is there. -/
theorem byte_eq_ok {b : Bytes} {i : Nat} {x : UInt8} : byte b i = .ok x ↔ b[i]? = some x := by
  unfold byte
  split
  · next y hy => rw [hy, Except.ok.injEq, Option.some.injEq]
  · next hy =>
    rw [hy]
    constructor
    · intro h
      cases h
    · intro h
      cases h

/-- What a turn does when it goes on or ends: a pointer, the end, or a label. -/
theorem vuelta_cases {b : Bytes} {c : Cursor} {r : Cursor ⊕ Bytes × Nat} (h : vuelta b c = .ok r) :
    (∃ l m, b[c.i]? = some l ∧ l &&& 0xC0 = 0xC0 ∧ b[c.i + 1]? = some m ∧
      (l &&& 0x3F).toNat <<< 8 ||| m.toNat < c.limite ∧ c.saltos < saltosMax ∧
      r = .inl ⟨(l &&& 0x3F).toNat <<< 8 ||| m.toNat, c.texto, some (c.sigue.getD (c.i + 2)),
        c.saltos + 1, (l &&& 0x3F).toNat <<< 8 ||| m.toNat⟩) ∨
    (b[c.i]? = some 0 ∧ r = .inr (c.texto, c.sigue.getD (c.i + 1))) ∨
    ∃ l t, b[c.i]? = some l ∧ l ≠ 0 ∧ l &&& 0xC0 = 0 ∧ c.i + 1 + l.toNat ≤ b.length ∧
      separa c.texto = .ok t ∧ r = .inl { c with
        texto := t ++ (slice b (c.i + 1) l.toNat).map minuscula
        i := c.i + 1 + l.toNat } := by
  simp only [vuelta, ite_rechaza_eq_ok, bind_eq_ok, byte_eq_ok] at h
  obtain ⟨-, l, hl, h⟩ := h
  split at h
  · next hp =>
    simp only [puntero, ite_rechaza_eq_ok, bind_eq_ok, byte_eq_ok, Except.ok.injEq, not_or,
      not_le, not_lt] at h
    obtain ⟨-, m, hm, ⟨hlim, -, hs⟩, rfl⟩ := h
    exact .inl ⟨l, m, hl, hp, hm, hlim, hs, rfl⟩
  · split at h
    · cases h
    · next hp =>
      split at h
      · next h0 =>
        obtain rfl := h0
        rw [Except.ok.injEq] at h
        exact .inr (.inl ⟨hl, h.symm⟩)
      · next h0 =>
        simp only [etiqueta, ite_rechaza_eq_ok, bind_eq_ok, trozo, anota] at h
        obtain ⟨hlen, t, ht, -, e, he, t', ht', h⟩ := h
        split at he
        · rw [Except.ok.injEq] at he
          split at ht'
          · rw [Except.ok.injEq] at ht' h
            refine .inr (.inr ⟨l, t, hl, h0, not_not.mp hp, by omega, ht, ?_⟩)
            rw [← h, ← ht', ← he]
          · cases ht'
        · cases he

private theorem resto_lt {b : Bytes} {c c' : Cursor} (h : vuelta b c = .ok (.inl c')) :
    c'.resto b < c.resto b := by
  have hi : ∀ {i x}, b[i]? = some x → i < b.length := fun hx ↦ (List.getElem?_eq_some_iff.mp hx).1
  rcases vuelta_cases h with ⟨l, m, hl, -, -, hlim, -, hr⟩ | ⟨-, hr⟩ | ⟨l, t, hl, h0, -, -, -, hr⟩
  · rw [Sum.inl.injEq] at hr
    have hmul := Nat.mul_le_mul_right (b.length + 1) (Nat.succ_le_of_lt hlim)
    rw [hr, Cursor.resto, Cursor.resto]
    dsimp only
    rw [Nat.succ_mul] at hmul
    omega
  · cases hr
  · rw [Sum.inl.injEq] at hr
    have := hi hl
    have : l.toNat ≠ 0 := fun h ↦ h0 (UInt8.toNat_inj.mp h)
    rw [hr, Cursor.resto, Cursor.resto]
    dsimp only
    omega

/-- The loop of `leer_nombre`. -/
def bucle (b : Bytes) (c : Cursor) : Lee (Bytes × Nat) :=
  match _h : vuelta b c with
  | .error e => .error e
  | .ok (.inr r) => .ok r
  | .ok (.inl c') => bucle b c'
termination_by c.resto b
decreasing_by exact resto_lt _h

/-- Read a name from `i`: its text, and where the message goes on; `dns.rs:98–152`. -/
def leerNombre (b : Bytes) (i : Nat) : Lee (Bytes × Nat) := bucle b (.inicio i)

/-! ### The answer -/

/-- `Respuesta`; the first `cuantas` of the four addresses; `dns.rs:41–51`. -/
inductive Respuesta
  | ips (ips : List Ip) (ttl : UInt32)
  | sinIpv4
  | noExiste
  | fallo (codigo : UInt8)
  deriving DecidableEq

/-- The variables of the loop over the records; `dns.rs:190–195`. -/
structure Cuenta where
  i : Nat
  buscado : Bytes
  ips : List Ip
  ttl : UInt32

/-- An A record of the name sought; `dns.rs:207–215`. -/
def cuentaA (b : Bytes) (c : Cuenta) (datos largo : Nat) (t : UInt32) : Lee Cuenta :=
  if largo ≠ 4 then rechaza .cabecera
  else if c.ips.length < ipsMax then
    trozo b datos 4 >>= fun ip ↦
      .ok { c with ips := c.ips ++ [Arr.pad 4 ip], ttl := if t < c.ttl then t else c.ttl }
  else .ok c

/-- A record of the name sought; `dns.rs:206–222`. -/
def cuentaSuyo (b : Bytes) (c : Cuenta) (tipo : UInt16) (datos largo : Nat) (t : UInt32) :
    Lee Cuenta :=
  if tipo = tipoA then cuentaA b c datos largo t
  else if tipo = tipoCname then
    leerNombre b datos >>= fun (destino, _) ↦ .ok { c with buscado := destino }
  else .ok c

/-- A record of the answer section; `dns.rs:196–224`. -/
def registro (b : Bytes) (c : Cuenta) : Lee Cuenta :=
  leerNombre b c.i >>= fun (leido, j) ↦
    if j + 10 > b.length then rechaza .corto
    else lee16 b j >>= fun tipo ↦ lee16 b (j + 2) >>= fun clase ↦ lee32 b (j + 4) >>= fun t ↦
      lee16 b (j + 8) >>= fun largo ↦
        let datos := j + 10
        if datos + largo.toNat > b.length then rechaza .corto
        else
          (if clase = claseIn ∧ leido = c.buscado then cuentaSuyo b c tipo datos largo.toNat t
            else .ok c) >>= fun c ↦ .ok { c with i := datos + largo.toNat }

/-- The answer section; `dns.rs:196–224`. -/
def registros (b : Bytes) : Nat → Cuenta → Lee Cuenta
  | 0, c => .ok c
  | n + 1, c => registro b c >>= registros b n

/-- What the records found amount to; `dns.rs:225–229`. -/
def contesta (c : Cuenta) : Respuesta := if c.ips = [] then .sinIpv4 else .ips c.ips c.ttl

/-- The records, once the question and the code of the answer are seen; `dns.rs:183–229`. -/
def respuestas (b : Bytes) (banderas : UInt16) (i : Nat) (esperado : Bytes) : Lee Respuesta :=
  let codigo := (banderas &&& 0x000F).toUInt8
  if codigo = 0 then
    lee16 b 6 >>= fun cuantos ↦
      registros b cuantos.toNat ⟨i, esperado, [], 0xFFFFFFFF⟩ >>= fun c ↦ .ok (contesta c)
  else if codigo = 3 then .ok .noExiste
  else .ok (.fallo codigo)

/-- The question of the message, compared with the one asked; `dns.rs:170–182`. -/
def pregunta (b : Bytes) (esperado : Bytes) : Lee Nat :=
  leerNombre b cabecera >>= fun (leido, i) ↦
    if leido ≠ esperado then rechaza .noEsParaMi
    else if i + 4 > b.length then rechaza .corto
    else lee16 b i >>= fun tipo ↦ lee16 b (i + 2) >>= fun clase ↦
      if tipo ≠ tipoA ∨ clase ≠ claseIn then rechaza .noEsParaMi
      else .ok (i + 4)

/-- Read the answer to the question `id` about `nombre`; `dns.rs:155–230`. -/
def leer (b : Bytes) (id : UInt16) (nombre : Bytes) : Lee Respuesta :=
  if b.length < cabecera then rechaza .corto
  else lee16 b 0 >>= fun suId ↦
    if suId ≠ id then rechaza .noEsParaMi
    else lee16 b 2 >>= fun banderas ↦
      if banderas &&& 0x8000 = 0 ∨ banderas &&& 0x7800 ≠ 0 then rechaza .cabecera
      else if banderas &&& 0x0200 ≠ 0 then rechaza .largo
      else lee16 b 4 >>= fun preguntas ↦
        if preguntas ≠ 1 then rechaza .cabecera
        else normalizar nombre >>= fun esperado ↦ pregunta b esperado >>= fun i ↦
          respuestas b banderas i esperado

/-! ### What a name on the wire says -/

/-- The name at `i` has labels `ls`, goes through the pointers to `ps`, and the message goes on
at `j`. -/
inductive Nombre (b : Bytes) : Nat → List Bytes → List Nat → Nat → Prop
  | raiz {i : Nat} (h : b[i]? = some 0) : Nombre b i [] [] (i + 1)
  | etiqueta {i : Nat} {l : UInt8} {ls : List Bytes} {ps : List Nat} {j : Nat}
      (h : b[i]? = some l) (h0 : l ≠ 0) (hl : l &&& 0xC0 = 0)
      (hb : i + 1 + l.toNat ≤ b.length) (hr : Nombre b (i + 1 + l.toNat) ls ps j) :
      Nombre b i (slice b (i + 1) l.toNat :: ls) ps j
  | puntero {i : Nat} {l m : UInt8} {ls : List Bytes} {ps : List Nat} {j : Nat}
      (h : b[i]? = some l) (hl : l &&& 0xC0 = 0xC0) (hm : b[i + 1]? = some m)
      (hr : Nombre b ((l &&& 0x3F).toNat <<< 8 ||| m.toNat) ls ps j) :
      Nombre b i ls (((l &&& 0x3F).toNat <<< 8 ||| m.toNat) :: ps) (i + 2)

/-- A message has one name at each place. -/
theorem Nombre.unico {b : Bytes} {i : Nat} {ls ls' : List Bytes} {ps ps' : List Nat} {j j' : Nat}
    (h : Nombre b i ls ps j) (h' : Nombre b i ls' ps' j') : ls = ls' ∧ ps = ps' ∧ j = j' := by
  induction h generalizing ls' ps' j' with
  | raiz h =>
    cases h' with
    | raiz => exact ⟨rfl, rfl, rfl⟩
    | etiqueta h2 h0 => exact absurd (Option.some.inj (h2.symm.trans h)) h0
    | puntero h2 hl =>
      rw [Option.some.inj (h2.symm.trans h)] at hl
      exact absurd hl (by decide)
  | etiqueta h h0 hl hb hr ih =>
    cases h' with
    | raiz h2 => exact absurd (Option.some.inj (h.symm.trans h2)) h0
    | etiqueta h2 _ _ _ hr' =>
      obtain rfl := Option.some.inj (h.symm.trans h2)
      obtain ⟨rfl, rfl, rfl⟩ := ih hr'
      exact ⟨rfl, rfl, rfl⟩
    | puntero h2 hl' =>
      rw [Option.some.inj (h2.symm.trans h), hl] at hl'
      exact absurd hl' (by decide)
  | puntero h hl hm hr ih =>
    cases h' with
    | raiz h2 =>
      rw [Option.some.inj (h.symm.trans h2)] at hl
      exact absurd hl (by decide)
    | etiqueta h2 _ hl' =>
      rw [Option.some.inj (h2.symm.trans h), hl] at hl'
      exact absurd hl' (by decide)
    | puntero h2 _ hm' hr' =>
      obtain rfl := Option.some.inj (h.symm.trans h2)
      obtain rfl := Option.some.inj (hm.symm.trans hm')
      obtain ⟨rfl, rfl, rfl⟩ := ih hr'
      exact ⟨rfl, rfl, rfl⟩

/-- No label on the wire is empty. -/
theorem Nombre.ne_nil {b : Bytes} {i : Nat} {ls : List Bytes} {ps : List Nat} {j : Nat}
    (h : Nombre b i ls ps j) : ∀ e ∈ ls, e ≠ [] := by
  induction h with
  | raiz => exact fun e he ↦ absurd he List.not_mem_nil
  | @etiqueta i l ls ps j h h0 hl hb hr ih =>
    intro e he
    rcases List.mem_cons.mp he with rfl | he
    · have hl0 : l.toNat ≠ 0 := fun h ↦ h0 (UInt8.toNat_inj.mp h)
      intro hnil
      have hlen := congrArg List.length hnil
      rw [length_slice, List.length_nil] at hlen
      omega
    · exact ih e he
  | puntero _ _ _ _ ih => exact ih

/-- Labels added to a text, each after a dot. -/
def junta (t : Bytes) (ls : List Bytes) : Bytes :=
  ls.foldl (fun t e ↦ (if t = [] then [] else t ++ [punto]) ++ e.map minuscula) t

/-- The dotted text of a list of labels. -/
def texto (ls : List Bytes) : Bytes := [punto].intercalate (ls.map (List.map minuscula))

/-- Joining one by one is interspersing dots. -/
theorem junta_eq {t : Bytes} {ls : List Bytes} (hls : ∀ e ∈ ls, e ≠ []) (ht : t ≠ []) :
    junta t ls = [punto].intercalate (t :: ls.map (List.map minuscula)) := by
  induction ls generalizing t with
  | nil => simp [junta]
  | cons e ls ih =>
    have ht' : t ++ [punto] ++ e.map minuscula ≠ [] := by simp
    have h := ih (fun x hx ↦ hls x (List.mem_cons_of_mem _ hx)) ht'
    rw [junta, List.foldl_cons, if_neg ht]
    refine h.trans ?_
    cases ls with
    | nil => simp [List.intercalate]
    | cons e' ls => simp [List.intercalate]

/-- From the empty text the labels give their dotted text. -/
theorem junta_nil {ls : List Bytes} (hls : ∀ e ∈ ls, e ≠ []) : junta [] ls = texto ls := by
  cases ls with
  | nil => rfl
  | cons e ls =>
    have he : e.map minuscula ≠ [] := by simpa using hls e (List.mem_cons_self ..)
    exact junta_eq (fun x hx ↦ hls x (List.mem_cons_of_mem _ hx)) he

private theorem separa_eq_ok {t t' : Bytes} (h : separa t = .ok t') :
    t' = if t = [] then [] else t ++ [punto] := by
  unfold separa at h
  split at h
  · next hn =>
    rw [if_neg (fun h ↦ hn (by rw [h]; rfl))]
    rw [ite_rechaza_eq_ok, anota] at h
    obtain ⟨-, h⟩ := h
    split at h
    · exact (Except.ok.inj h).symm
    · cases h
  · next hn =>
    rw [if_pos (List.eq_nil_of_length_eq_zero (not_not.mp hn)), ← Except.ok.inj h]
    exact List.eq_nil_of_length_eq_zero (not_not.mp hn)

/-- A name that is read is a name of the wire: its dotted text, at most sixteen pointers in
all, each before the one before it. -/
theorem bucle_spec {b : Bytes} {c : Cursor} {t : Bytes} {j : Nat} (h : bucle b c = .ok (t, j)) :
    ∃ ls ps k, Nombre b c.i ls ps k ∧ t = junta c.texto ls ∧ j = c.sigue.getD k ∧
      (c.saltos ≤ saltosMax → c.saltos + ps.length ≤ saltosMax) ∧
      (c.limite :: ps).Pairwise (· > ·) := by
  fun_induction bucle b c with
  | case1 c e hv => cases h
  | case2 c r hv =>
    obtain rfl := Except.ok.inj h
    rcases vuelta_cases hv with ⟨l, m, -, -, -, -, -, hr⟩ | ⟨hl, hr⟩ | ⟨l, t', -, -, -, -, -, hr⟩
    · cases hr
    · obtain ⟨rfl, rfl⟩ := Prod.mk.inj (Sum.inr.inj hr)
      exact ⟨[], [], _, .raiz hl, rfl, rfl, id, List.pairwise_singleton ..⟩
    · cases hr
  | case3 c c' hv ih =>
    obtain ⟨ls, ps, k, hn, rfl, rfl, hs, hp⟩ := ih h
    rcases vuelta_cases hv with ⟨l, m, hl, hc, hm, hlim, hsal, hr⟩ | ⟨hl, hr⟩ |
      ⟨l, t', hl, h0, hc, hb, ht, hr⟩
    · obtain rfl := Sum.inl.inj hr
      refine ⟨ls, _ :: ps, _, .puntero hl hc hm hn, rfl, rfl, fun _ ↦ ?_, ?_⟩
      · rw [List.length_cons]
        have := hs hsal
        dsimp only at this
        omega
      · rw [List.pairwise_cons] at hp ⊢
        refine ⟨fun x hx ↦ ?_, List.pairwise_cons.mpr hp⟩
        rcases List.mem_cons.mp hx with rfl | hx
        · exact hlim
        · exact Nat.lt_trans (hp.1 x hx) hlim
    · cases hr
    · obtain rfl := Sum.inl.inj hr
      refine ⟨_, ps, _, .etiqueta hl h0 hc hb hn, ?_, rfl, hs, hp⟩
      rw [separa_eq_ok ht]
      rfl

/-- A name that is read: its labels, its text, the pointers that were followed. -/
theorem leerNombre_spec {b : Bytes} {i : Nat} {t : Bytes} {j : Nat}
    (h : leerNombre b i = .ok (t, j)) :
    ∃ ls ps, Nombre b i ls ps j ∧ t = texto ls ∧ ps.length ≤ saltosMax ∧
      (i :: ps).Pairwise (· > ·) := by
  obtain ⟨ls, ps, k, hn, rfl, rfl, hs, hp⟩ := bucle_spec h
  have hs := hs (Nat.zero_le _)
  rw [show (Cursor.inicio i).saltos = 0 from rfl, Nat.zero_add] at hs
  exact ⟨ls, ps, hn, junta_nil hn.ne_nil, hs, hp⟩

/-! ### No byte outside the message -/

/-- The outcome is not an index out of bounds. -/
def Segura {α : Type} (x : Lee α) : Prop := x ≠ .error .panico

private theorem segura_ok {α : Type} (a : α) : Segura (.ok a : Lee α) := by
  rintro ⟨⟩

private theorem segura_rechaza {α : Type} (r : Rechazo) : Segura (rechaza r : Lee α) := by
  rintro ⟨⟩

private theorem segura_bind {α β : Type} {x : Lee α} {f : α → Lee β} (hx : Segura x)
    (hf : ∀ a, x = .ok a → Segura (f a)) : Segura (x >>= f) := by
  cases x with
  | error e =>
    intro h
    exact hx (congrArg Except.error (Except.error.inj h))
  | ok a => exact hf a rfl

private theorem segura_byte {b : Bytes} {i : Nat} (h : i < b.length) : Segura (byte b i) := by
  rw [byte, List.getElem?_eq_getElem h]
  exact segura_ok _

private theorem segura_lee16 {b : Bytes} {i : Nat} (h : i + 2 ≤ b.length) : Segura (lee16 b i) :=
  segura_bind (segura_byte (by omega)) fun _ _ ↦
    segura_bind (segura_byte (by omega)) fun _ _ ↦ segura_ok _

private theorem segura_lee32 {b : Bytes} {i : Nat} (h : i + 4 ≤ b.length) : Segura (lee32 b i) :=
  segura_bind (segura_lee16 (by omega)) fun _ _ ↦
    segura_bind (segura_lee16 (by omega)) fun _ _ ↦ segura_ok _

theorem segura_trozo {b : Bytes} {i n : Nat} (h : i + n ≤ b.length) : Segura (trozo b i n) := by
  rw [trozo, if_pos h]
  exact segura_ok _

private theorem segura_vuelta {b : Bytes} {c : Cursor} (hc : c.texto.length ≤ nombreMax) :
    Segura (vuelta b c) ∧
      ∀ c', vuelta b c = .ok (.inl c') → c'.texto.length ≤ nombreMax := by
  have hsepara : Segura (separa c.texto) ∧ ∀ t, separa c.texto = .ok t →
      t.length ≤ nombreMax := by
    unfold separa
    split
    · split
      · refine ⟨segura_rechaza _, fun t ht ↦ ?_⟩
        cases ht
      · next h =>
        have h1 : c.texto.length + [punto].length ≤ nombreMax + 1 := by
          rw [List.length_singleton]
          omega
        rw [anota, if_pos h1]
        refine ⟨segura_ok _, fun t ht ↦ ?_⟩
        rw [← Except.ok.inj ht, List.length_append, List.length_singleton]
        omega
    · refine ⟨segura_ok _, fun t ht ↦ ?_⟩
      rw [← Except.ok.inj ht]
      exact hc
  have hetiqueta : ∀ l, Segura (etiqueta b c l) ∧
      ∀ c', etiqueta b c l = .ok (.inl c') → c'.texto.length ≤ nombreMax := by
    intro l
    unfold etiqueta
    split
    · refine ⟨segura_rechaza _, fun c' hc' ↦ ?_⟩
      cases hc'
    · next hb =>
      have hlen : ∀ e, trozo b (c.i + 1) l = .ok e → e.length = l := by
        intro e he
        rw [trozo, if_pos (by omega)] at he
        rw [← Except.ok.inj he, length_slice]
        omega
      constructor
      · refine segura_bind hsepara.1 fun t ht ↦ ?_
        split
        · exact segura_rechaza _
        · refine segura_bind (segura_trozo (by omega)) fun e he ↦ ?_
          rw [anota, if_pos (by rw [List.length_map, hlen e he]; omega)]
          exact segura_bind (segura_ok _) fun _ _ ↦ segura_ok _
      · intro c' h
        rw [bind_eq_ok] at h
        obtain ⟨t, ht, h⟩ := h
        rw [ite_rechaza_eq_ok, bind_eq_ok] at h
        obtain ⟨ht', e, he, h⟩ := h
        rw [anota, if_pos (by rw [List.length_map, hlen e he]; omega), bind_eq_ok] at h
        obtain ⟨t', htt, h⟩ := h
        rw [← Sum.inl.inj (Except.ok.inj h), ← Except.ok.inj htt]
        dsimp only
        rw [List.length_append, List.length_map, hlen e he]
        omega
  have hpuntero : ∀ l, Segura (puntero b c l) ∧
      ∀ c', puntero b c l = .ok (.inl c') → c'.texto.length ≤ nombreMax := by
    intro l
    unfold puntero
    split
    · refine ⟨segura_rechaza _, fun c' hc' ↦ ?_⟩
      cases hc'
    · constructor
      · refine segura_bind (segura_byte (by omega)) fun m _ ↦ ?_
        dsimp only
        split
        · exact segura_rechaza _
        · exact segura_ok _
      · intro c' h
        simp only [bind_eq_ok, ite_rechaza_eq_ok] at h
        obtain ⟨m, -, -, h⟩ := h
        rw [← Sum.inl.inj (Except.ok.inj h)]
        exact hc
  unfold vuelta
  split
  · refine ⟨segura_rechaza _, fun c' hc' ↦ ?_⟩
    cases hc'
  · next hi =>
    have hi : c.i < b.length := by omega
    rw [byte, List.getElem?_eq_getElem hi]
    show Segura (ite _ _ _) ∧ ∀ c', ite _ _ _ = _ → _
    split
    · exact hpuntero _
    · split
      · refine ⟨segura_rechaza _, fun c' hc' ↦ ?_⟩
        cases hc'
      · split
        · refine ⟨segura_ok _, fun c' hc' ↦ ?_⟩
          cases hc'
        · exact hetiqueta _

private theorem segura_leerNombre (b : Bytes) (i : Nat) : Segura (leerNombre b i) := by
  have hbucle : ∀ c : Cursor, c.texto.length ≤ nombreMax → Segura (bucle b c) := by
    intro c hc
    fun_induction bucle b c with
    | case1 c e hv =>
      have h := (segura_vuelta (b := b) hc).1
      rw [hv] at h
      exact fun he ↦ h (congrArg Except.error (Except.error.inj he))
    | case2 c r hv => exact segura_ok _
    | case3 c c' hv ih => exact ih ((segura_vuelta hc).2 c' hv)
  exact hbucle _ (Nat.zero_le _)

private theorem segura_normalizar (nombre : Bytes) : Segura (normalizar nombre) := by
  have hvalida : ∀ ls, Segura (valida ls) := by
    intro ls
    induction ls with
    | nil => exact segura_ok _
    | cons e ls ih =>
      unfold valida
      split
      · exact segura_rechaza _
      · split
        · exact ih
        · exact segura_rechaza _
  unfold normalizar
  split
  · exact segura_rechaza _
  · exact segura_bind (hvalida _) fun _ _ ↦ segura_ok _

private theorem segura_registro (b : Bytes) (c : Cuenta) : Segura (registro b c) := by
  refine segura_bind (segura_leerNombre _ _) ?_
  rintro ⟨leido, j⟩ -
  dsimp only
  split
  · exact segura_rechaza _
  · refine segura_bind (segura_lee16 (by omega)) fun tipo _ ↦ ?_
    refine segura_bind (segura_lee16 (by omega)) fun clase _ ↦ ?_
    refine segura_bind (segura_lee32 (by omega)) fun t _ ↦ ?_
    refine segura_bind (segura_lee16 (by omega)) fun largo _ ↦ ?_
    split
    · exact segura_rechaza _
    · refine segura_bind ?_ fun _ _ ↦ segura_ok _
      split
      · unfold cuentaSuyo
        split
        · unfold cuentaA
          split
          · exact segura_rechaza _
          · split
            · exact segura_bind (segura_trozo (by omega)) fun _ _ ↦ segura_ok _
            · exact segura_ok _
        · split
          · refine segura_bind (segura_leerNombre _ _) ?_
            rintro ⟨destino, -⟩ -
            exact segura_ok _
          · exact segura_ok _
      · exact segura_ok _

/-- No answer makes the reader leave the message. -/
theorem segura_leer (b : Bytes) (id : UInt16) (nombre : Bytes) : Segura (leer b id nombre) := by
  have hregistros : ∀ n c, Segura (registros b n c) := by
    intro n
    induction n with
    | zero => exact fun c ↦ segura_ok _
    | succ n ih => exact fun c ↦ segura_bind (segura_registro b c) fun c' _ ↦ ih c'
  unfold leer
  split
  · exact segura_rechaza _
  · next hb =>
    have hb : 12 ≤ b.length := Nat.le_of_not_lt hb
    refine segura_bind (segura_lee16 (by omega)) fun suId _ ↦ ?_
    split
    · exact segura_rechaza _
    · refine segura_bind (segura_lee16 (by omega)) fun banderas _ ↦ ?_
      split
      · exact segura_rechaza _
      · split
        · exact segura_rechaza _
        · refine segura_bind (segura_lee16 (by omega)) fun preguntas _ ↦ ?_
          split
          · exact segura_rechaza _
          · refine segura_bind (segura_normalizar _) fun esperado _ ↦ segura_bind ?_ fun i _ ↦ ?_
            · refine segura_bind (segura_leerNombre _ _) ?_
              rintro ⟨leido, i⟩ -
              dsimp only
              split
              · exact segura_rechaza _
              · split
                · exact segura_rechaza _
                · refine segura_bind (segura_lee16 (by omega)) fun tipo _ ↦ ?_
                  refine segura_bind (segura_lee16 (by omega)) fun clase _ ↦ ?_
                  split
                  · exact segura_rechaza _
                  · exact segura_ok _
            · unfold respuestas
              dsimp only
              split
              · refine segura_bind (segura_lee16 (by omega)) fun _ _ ↦ ?_
                exact segura_bind (hregistros _ _) fun _ _ ↦ segura_ok _
              · split
                · exact segura_ok _
                · exact segura_ok _

/-! ### The pointers a reader follows -/

/-- From one turn to a later one, following the pointers to `ps` on the way. -/
inductive Recorre (b : Bytes) (c : Cursor) : List Nat → Cursor → Prop
  | nada : Recorre b c [] c
  | sigue {ps : List Nat} {c₁ c₂ : Cursor} (h : Recorre b c ps c₁)
      (hv : vuelta b c₁ = .ok (.inl c₂)) (hs : c₂.saltos = c₁.saltos) : Recorre b c ps c₂
  | salta {ps : List Nat} {c₁ c₂ : Cursor} (h : Recorre b c ps c₁)
      (hv : vuelta b c₁ = .ok (.inl c₂)) (hs : c₂.saltos = c₁.saltos + 1) :
      Recorre b c (ps ++ [c₂.i]) c₂

/-- However the reading ends, the pointers followed are at most sixteen and each goes before
the one before it. -/
theorem recorre_inicio {b : Bytes} {i : Nat} {ps : List Nat} {c : Cursor}
    (h : Recorre b (.inicio i) ps c) : ps.length ≤ saltosMax ∧ (i :: ps).Pairwise (· > ·) := by
  have hinv : c.saltos = ps.length ∧ c.saltos ≤ saltosMax ∧ (∀ x ∈ i :: ps, c.limite ≤ x) ∧
      (i :: ps).Pairwise (· > ·) := by
    induction h with
    | nada =>
      refine ⟨rfl, Nat.zero_le _, fun x hx ↦ ?_, List.pairwise_singleton ..⟩
      rw [List.mem_singleton.mp hx]
      exact Nat.le_refl _
    | sigue h hv hs ih =>
      obtain ⟨h1, h2, h3, h4⟩ := ih
      rcases vuelta_cases hv with ⟨l, m, -, -, -, -, -, hr⟩ | ⟨-, hr⟩ | ⟨l, t, -, -, -, -, -, hr⟩
      · rw [Sum.inl.inj hr] at hs
        exact absurd hs (Nat.succ_ne_self _)
      · cases hr
      · obtain rfl := Sum.inl.inj hr
        exact ⟨h1, h2, h3, h4⟩
    | salta h hv hs ih =>
      obtain ⟨h1, h2, h3, h4⟩ := ih
      rcases vuelta_cases hv with ⟨l, m, -, -, -, hlim, hsal, hr⟩ | ⟨-, hr⟩ |
        ⟨l, t, -, -, -, -, -, hr⟩
      · obtain rfl := Sum.inl.inj hr
        dsimp only at hs ⊢
        refine ⟨by rw [List.length_append, List.length_singleton, h1], hsal, ?_, ?_⟩
        · intro x hx
          rw [← List.cons_append, List.mem_append, List.mem_singleton] at hx
          rcases hx with hx | rfl
          · exact Nat.le_trans (Nat.le_of_lt hlim) (h3 x hx)
          · exact Nat.le_refl _
        · rw [← List.cons_append, List.pairwise_append]
          refine ⟨h4, List.pairwise_singleton .., fun x hx y hy ↦ ?_⟩
          rw [List.mem_singleton.mp hy]
          exact Nat.lt_of_lt_of_le hlim (h3 x hx)
      · cases hr
      · rw [Sum.inl.inj hr] at hs
        exact absurd hs.symm (Nat.succ_ne_self _)
  exact ⟨hinv.1 ▸ hinv.2.1, hinv.2.2.2⟩

end BmoX.Pila.Dns
