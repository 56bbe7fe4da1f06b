import BmoX.Base.Interleave
import BmoX.Red.Buzon
import Mathlib.Data.List.Infix

/-!
# What the two sides of the mailbox keep

A book beside the mailbox: the frames that each side has announced with its index, and how many of
them the other has let go. `Vale` ties the book to the bytes; `CambiaNucleo` and `CambiaProceso` are
what each side may do to both.

The kernel makes `sacar` and `meter` calls, the process `enviar` and `recibir` calls, and the reads
and writes of the two sides come in any order. `Limpio` is what the order may not do.
-/

namespace BmoX.Red

open BmoX.Base

/-! ### Who is at what -/

/-- The two sides of the mailbox. -/
inductive Parte
  | nucleo | proceso
  deriving DecidableEq

/-- The other side. -/
def Parte.otra : Parte → Parte
  | nucleo => proceso
  | proceso => nucleo

/-- The mailbox, and what the reads and writes so far say each side is in the middle of: the index
it has begun to read, the one it has begun to write, and the bytes of a frame that the `sacar`
under way has yet to copy (from the first, up to the second). -/
structure Mundo where
  byte : Memory
  leyendo : Parte → Option Nat
  escribiendo : Parte → Option Nat
  copia : Nat × Nat

/-- The index that a byte belongs to. -/
def palabra (off : Nat) : Option Nat :=
  if Campo.txEscrito ≤ off ∧ off < Campo.rxSecuencia then some (off / 4 * 4) else none

/-- The index a side is in the middle of, once it reaches the byte `off`: none after the last. -/
def avanza (antes : Option Nat) (off : Nat) : Option Nat :=
  match palabra off with
  | none => antes
  | some w => if off % 4 = 3 then none else some w

/-- The bytes that a `sacar` has to copy, once it has read the byte `off`: after the length of a
frame those of the frame, and then one less at a time. -/
def quedan (byte : Memory) (copia : Nat × Nat) (off : Nat) : Nat × Nat :=
  if cabecera ≤ off ∧ off < casillaRx 0 ∧ (off - cabecera) % casilla = 1 then
    (off + 1, off + 1 + leNat [byte (off - 1), byte off])
  else if off = copia.1 then (off + 1, copia.2)
  else copia

/-- One read or write of one side. -/
def maneja (i : Parte) : Prog.Handler memoria Mundo
  | .leer8 off, m =>
    (m.byte off, { m with
      leyendo := Function.update m.leyendo i (avanza (m.leyendo i) off)
      copia := if i = .nucleo then quedan m.byte m.copia off else m.copia })
  | .escribir8 off v, m =>
    ((), { m with
      byte := Function.update m.byte off v
      escribiendo := Function.update m.escribiendo i (avanza (m.escribiendo i) off) })

/-- The indices that decide what is taken for a frame: all but `TX_LEIDO`, which only tells the
process how much room there is. -/
def Decide (w : Nat) : Prop :=
  w = Campo.txEscrito ∨ w = Campo.rxEscrito ∨ w = Campo.rxLeido

instance (w : Nat) : Decidable (Decide w) := inferInstanceAs (Decidable (_ ∨ _ ∨ _))

/-- What the order of the reads and writes may not do: to put a read of an index over a write of it
that carries out of the low byte, or to let the process write on a byte of a frame that the
kernel still has to copy. -/
def Limpio (i : Parte) : Op → Mundo → Prop
  | .leer8 off, m => ∀ w, palabra off = some w → Decide w →
    ¬(m.escribiendo i.otra = some w ∧ m.byte w = 0)
  | .escribir8 off v, m => (Decide off ∧ v = 0 → m.leyendo i.otra ≠ some off) ∧
    (i = .proceso → ¬(m.copia.1 ≤ off ∧ off < m.copia.2))

/-! ### The two sides -/

/-- The kernel: its indices, the frames that `sacar` returned, those that `meter` accepted and the
errors of both. -/
structure Nucleo where
  lado : Lado
  sacadas : List Bytes
  metidas : List Bytes
  males : List Mal

/-- The process: the frames that `enviar` accepted, and what `recibir` returned with the size of the
buffer it was given. -/
structure Proceso where
  aceptadas : List Bytes
  recibidas : List (Nat × Bytes)

/-- What the kernel asks of its side; `sacar` copies to a buffer of `TRAMA_MAXIMA` bytes,
`kernel/src/ring0/red/puerta.rs:438–443`. -/
inductive DelNucleo
  | sacar (dst : Arr tramaMaxima)
  | meter (trama : Bytes)

/-- What the process asks of its side. -/
inductive DelProceso
  | enviar (trama : Bytes)
  | recibir (dst : Bytes)

/-- A call of the kernel. -/
def Nucleo.hace (tam : Nat) (n : Nucleo) : DelNucleo → Prog memoria Nucleo
  | .sacar dst => do
    match ← n.lado.sacar tam dst.1 with
    | (.ok none, lado, _) => return { n with lado }
    | (.ok (some largo), lado, dst) =>
      return { n with lado, sacadas := n.sacadas ++ [dst.take largo] }
    | (.error e, lado, _) => return { n with lado, males := n.males ++ [e] }
  | .meter trama => do
    match ← n.lado.meter tam trama with
    | (.ok true, lado) => return { n with lado, metidas := n.metidas ++ [trama] }
    | (.ok false, lado) => return { n with lado }
    | (.error e, lado) => return { n with lado, males := n.males ++ [e] }

/-- A call of the process. -/
def Proceso.hace (tam : Nat) (p : Proceso) : DelProceso → Prog memoria Proceso
  | .enviar trama => do
    match ← Cliente.enviar tam trama with
    | .ok () => return { p with aceptadas := p.aceptadas ++ [trama] }
    | .error _ => return p
  | .recibir dst => do
    match ← Cliente.recibir tam dst with
    | (none, _) => return p
    | (some largo, lleno) =>
      return { p with recibidas := p.recibidas ++ [(dst.length, lleno.take largo)] }

/-- The mailbox with its two sides. -/
def buzon (tam : Nat) : System Parte memoria Mundo where
  Priv | .nucleo => Nucleo | .proceso => Proceso
  Call | .nucleo => DelNucleo | .proceso => DelProceso
  prog
    | .nucleo, c, n => Nucleo.hace tam n c
    | .proceso, c, p => Proceso.hace tam p c
  handle := maneja

/-- A memory alone. -/
def enMemoria : Prog.Handler memoria Memory
  | .leer8 off, m => (m off, m)
  | .escribir8 off v, m => ((), Function.update m off v)

/-- The mailbox as `preparar` leaves it, before the process can see it. -/
def preparado (tam : Nat) (l : Lado) (m : Memory) : (buzon tam).Config :=
  let r := Prog.exec enMemoria (l.preparar tam) m
  .start ⟨r.2, fun _ ↦ none, fun _ ↦ none, (0, 0)⟩ fun
    | .nucleo => ⟨r.1.2, [], [], []⟩
    | .proceso => ⟨[], []⟩

/-! ### Reads and writes of several bytes -/

section Reglas

variable {γ α : Type} {r : Role memoria Mundo γ} {D : Mundo × γ → Prop} {s : Mundo × γ}

/-- Bytes are read one at a time: `P` says what is known after some of them. -/
theorem keeps_copiar {off n : Nat} (P : Bytes → Mundo × γ → Prop)
    (hst : ∀ bs, r.Stable (P bs)) (hD : ∀ bs s, P bs s → D s)
    (hlee : ∀ bs s, bs.length < n → P bs s → r.allowed (.leer8 (off + bs.length)) s.1 →
      ∃ (v : UInt8) (m : Mundo) (g : γ), r.handle (.leer8 (off + bs.length)) s.1 = (v, m) ∧
        r.guar s (m, g) ∧ P (bs ++ [v]) (m, g))
    (hs : P [] s) : r.Keeps D (fun bs t ↦ bs.length = n ∧ P bs t) (copiar off n) s := by
  suffices h : ∀ m, ∀ bs : Bytes, bs.length + m = n → ∀ s, P bs s →
      r.Keeps D (fun l t ↦ (bs ++ l).length = n ∧ P (bs ++ l) t) (copiar (off + bs.length) m) s by
    simpa using h n [] (by simp) s hs
  intro m
  induction m with
  | zero =>
    intro bs hl s hs
    refine Role.Keeps.ret (hst bs) hs fun t ht ↦ ⟨hD bs t ht, ?_, ?_⟩
    · simpa using hl
    · simpa using ht
  | succ m ih =>
    intro bs hl s hs
    refine Role.Keeps.call (hst bs) hs (hD bs) fun t ht ha ↦ ?_
    obtain ⟨v, m', g, hm, hg, hP⟩ := hlee bs t (by omega) ht ha
    rw [hm]
    refine ⟨g, hg, ?_⟩
    have hlen : (bs ++ [v]).length = bs.length + 1 := by simp
    have hrec := ih (bs ++ [v]) (by omega) _ hP
    rw [hlen, ← Nat.add_assoc] at hrec
    refine hrec.bind fun l u hu ↦ ?_
    simp only [List.append_assoc, List.singleton_append] at hu
    exact Role.Keeps.ret (hst _) hu.2 fun v hv ↦ ⟨hD _ v hv, hu.1, hv⟩

/-- Bytes are written one at a time: `P` says what is known after some of them. -/
theorem keeps_escribirBytes {off : Nat} {b : Bytes} (P : Nat → Mundo × γ → Prop)
    (hst : ∀ k, r.Stable (P k)) (hD : ∀ k s, P k s → D s)
    (hescribe : ∀ k v s, b[k]? = some v → P k s → r.allowed (.escribir8 (off + k) v) s.1 →
      ∃ (m : Mundo) (g : γ), (r.handle (.escribir8 (off + k) v) s.1).2 = m ∧
        r.guar s (m, g) ∧ P (k + 1) (m, g))
    (hs : P 0 s) : r.Keeps D (fun _ t ↦ P b.length t) (escribirBytes off b) s := by
  suffices h : ∀ l a : Bytes, a ++ l = b → ∀ s, P a.length s →
      r.Keeps D (fun _ t ↦ P b.length t) (escribirBytes (off + a.length) l) s by
    exact h b [] rfl s hs
  intro l
  induction l with
  | nil =>
    intro a hl s hs
    rw [List.append_nil] at hl
    subst hl
    exact Role.Keeps.ret (hst _) hs fun t ht ↦ ⟨hD _ t ht, ht⟩
  | cons v l ih =>
    intro a hl s hs
    have hv : b[a.length]? = some v := by simp [← hl]
    refine Role.Keeps.call (hst _) hs (hD _) fun t ht ha ↦ ?_
    obtain ⟨m, g, hm, hg, hP⟩ := hescribe _ v t hv ht ha
    rw [hm]
    refine ⟨g, hg, ?_⟩
    have hlen : (a ++ [v]).length = a.length + 1 := by simp
    have hrec := ih (a ++ [v]) (by simp [← hl]) (m, g) (by rwa [hlen])
    rwa [hlen, ← Nat.add_assoc] at hrec

/-- Bytes written where the other side does not write stand there in the end; `F` is what is known
of the bytes before them. -/
theorem keeps_bloque {base o : Nat} {b : Bytes} {K : Mundo × γ → Prop} {F : Memory → Prop}
    (hst : ∀ s t, r.rely s t → K s → K t ∧ ∀ off, base ≤ off → off < base + o + b.length →
      t.1.byte off = s.1.byte off)
    (hF : ∀ m m' : Memory, (∀ off, base ≤ off → off < base + o → m' off = m off) → F m → F m')
    (hD : ∀ s, K s → D s)
    (hescribe : ∀ k v s, k < b.length → K s → r.allowed (.escribir8 (base + o + k) v) s.1 →
      ∃ (m : Mundo) (g : γ), (r.handle (.escribir8 (base + o + k) v) s.1).2 = m ∧
        r.guar s (m, g) ∧ K (m, g) ∧ m.byte = Function.update s.1.byte (base + o + k) v)
    (hs : K s) (hf : F s.1.byte) :
    r.Keeps D (fun _ t ↦ K t ∧ F t.1.byte ∧ ∀ j v, b[j]? = some v → t.1.byte (base + o + j) = v)
      (escribirBytes (base + o) b) s := by
  refine (keeps_escribirBytes (fun k t ↦ K t ∧ F t.1.byte ∧ ∀ j v, j < k → b[j]? = some v →
    t.1.byte (base + o + j) = v) (fun k t u htu h ↦ ?_) (fun k t h ↦ hD t h.1) ?_
    ⟨hs, hf, fun j v hj ↦ absurd hj (Nat.not_lt_zero _)⟩).mono (fun _ h ↦ h) fun _ t h ↦ ?_
  · obtain ⟨hK, hb⟩ := hst t u htu h.1
    refine ⟨hK, hF _ _ (fun off h1 h2 ↦ hb off h1 (by omega)) h.2.1, fun j v hj hv ↦ ?_⟩
    have hjb := (List.getElem?_eq_some_iff.mp hv).1
    rw [hb _ (by omega) (by omega)]
    exact h.2.2 j v hj hv
  · rintro k v t hv ⟨ht, hft, hb⟩ hallow
    obtain ⟨m, g, hm, hg, hK, hmb⟩ :=
      hescribe k v t (List.getElem?_eq_some_iff.mp hv).1 ht hallow
    refine ⟨m, g, hm, hg, hK, hF _ _ (fun off _ h2 ↦ ?_) hft, fun j w hj hw ↦ ?_⟩ <;> simp only [hmb]
    · exact Function.update_of_ne (by omega) _ _
    · by_cases hjk : j = k
      · subst hjk
        rw [hw] at hv
        cases hv
        exact Function.update_self ..
      · exact (Function.update_of_ne (by omega) _ _).trans (hb j w (by omega) hw)
  · exact ⟨h.1, h.2.1, fun j v hv ↦ h.2.2 j v (List.getElem?_eq_some_iff.mp hv).1 hv⟩

end Reglas

/-- A frame of a list with one more at its end. -/
theorem getElem?_concat {ts : List Bytes} {u w : Bytes} {k : Nat} (h : (ts ++ [u])[k]? = some w) :
    ts[k]? = some w ∨ k = ts.length ∧ w = u := by
  rcases Nat.lt_trichotomy k ts.length with hk | rfl | hk
  · exact .inl (by rwa [List.getElem?_append_left hk] at h)
  · exact .inr ⟨rfl, by simpa using h.symm⟩
  · rw [List.getElem?_eq_none (by rw [List.length_append]; exact hk)] at h
    cases h

/-! ### The book -/

/-- The frames announced to the kernel and to the process, and how many of each were let go. -/
structure Libro where
  enviadas : List Bytes
  sacadas : Nat
  metidas : List Bytes
  recibidas : Nat

/-- The mailbox and the book. -/
abbrev Estado := Mundo × Libro

/-- The four bytes of a counter. -/
def Palabra (m : Memory) (w n : Nat) : Prop := ∀ k < 4, m (w + k) = UInt8.ofNat (n / 256 ^ k)

/-- An index of the side `i`: whole, unless that side is writing a number that carries. -/
def Indice (m : Mundo) (i : Parte) (w n : Nat) : Prop :=
  m.byte w = UInt8.ofNat n ∧ (Palabra m.byte w n ∨ m.escribiendo i = some w ∧ n % 256 = 0)

/-- A slot that holds a frame. -/
structure Lleva (m : Memory) (base : Nat) (t : Bytes) : Prop where
  bajo : m base = UInt8.ofNat t.length
  alto : m (base + 1) = UInt8.ofNat (t.length / 256)
  datos : m.load (base + 2) t.length = t

/-- The mailbox says what the book says. -/
structure Vale (s : Estado) : Prop where
  ordenTx : s.2.sacadas ≤ s.2.enviadas.length
  cabenTx : s.2.enviadas.length ≤ s.2.sacadas + casillas
  ordenRx : s.2.recibidas ≤ s.2.metidas.length
  cabenRx : s.2.metidas.length ≤ s.2.recibidas + casillas
  txEscrito : Indice s.1 .proceso Campo.txEscrito s.2.enviadas.length
  txLeido : s.1.byte Campo.txLeido = UInt8.ofNat s.2.sacadas
  rxEscrito : Indice s.1 .nucleo Campo.rxEscrito s.2.metidas.length
  rxLeido : Indice s.1 .proceso Campo.rxLeido s.2.recibidas
  tx : ∀ k t, s.2.sacadas ≤ k → s.2.enviadas[k]? = some t → Lleva s.1.byte (casillaTx k) t
  rx : ∀ k t, s.2.recibidas ≤ k → s.2.metidas[k]? = some t → Lleva s.1.byte (casillaRx k) t
  largasTx : ∀ t ∈ s.2.enviadas, t.length ≤ tramaMaxima
  largasRx : ∀ t ∈ s.2.metidas, t.length ≤ tramaMaxima

/-- What the process may change. -/
structure CambiaProceso (s t : Estado) : Prop where
  vale : Vale s → Vale t
  sacadas : t.2.sacadas = s.2.sacadas
  metidas : t.2.metidas = s.2.metidas
  enviadas : s.2.enviadas <+: t.2.enviadas
  recibidas : s.2.recibidas ≤ t.2.recibidas
  byte : ∀ off, Campo.txLeido ≤ off ∧ off < Campo.rxLeido ∨ casillaRx 0 ≤ off →
    t.1.byte off = s.1.byte off
  copia : t.1.copia = s.1.copia
  porCopiar : ∀ off, s.1.copia.1 ≤ off → off < s.1.copia.2 → t.1.byte off = s.1.byte off
  leyendo : t.1.leyendo .nucleo = s.1.leyendo .nucleo
  escribiendo : t.1.escribiendo .nucleo = s.1.escribiendo .nucleo
  enteroTx : s.1.leyendo .nucleo = some Campo.txEscrito →
    t.2.enviadas.length / 256 = s.2.enviadas.length / 256
  enteroRx : s.1.leyendo .nucleo = some Campo.rxLeido → t.2.recibidas / 256 = s.2.recibidas / 256

/-- What the kernel may change. -/
structure CambiaNucleo (s t : Estado) : Prop where
  vale : Vale s → Vale t
  enviadas : t.2.enviadas = s.2.enviadas
  recibidas : t.2.recibidas = s.2.recibidas
  sacadas : s.2.sacadas ≤ t.2.sacadas
  metidas : s.2.metidas <+: t.2.metidas
  byte : ∀ off, Campo.txEscrito ≤ off ∧ off < Campo.txLeido ∨
    Campo.rxLeido ≤ off ∧ off < Campo.rxSecuencia ∨ cabecera ≤ off ∧ off < casillaRx 0 →
    t.1.byte off = s.1.byte off
  leyendo : t.1.leyendo .proceso = s.1.leyendo .proceso
  escribiendo : t.1.escribiendo .proceso = s.1.escribiendo .proceso
  entero : s.1.leyendo .proceso = some Campo.rxEscrito →
    t.2.metidas.length / 256 = s.2.metidas.length / 256

/-- The process among what the kernel does. -/
def deProceso : Role memoria Mundo Libro where
  handle := maneja .proceso
  allowed := Limpio .proceso
  rely := CambiaNucleo
  guar := CambiaProceso
  refl _ := ⟨id, rfl, rfl, le_rfl, List.prefix_refl _, fun _ _ ↦ rfl, rfl, rfl, fun _ ↦ rfl⟩
  trans h k := ⟨k.vale ∘ h.vale, k.enviadas.trans h.enviadas, k.recibidas.trans h.recibidas,
    h.sacadas.trans k.sacadas, h.metidas.trans k.metidas,
    fun off ho ↦ (k.byte off ho).trans (h.byte off ho), k.leyendo.trans h.leyendo,
    k.escribiendo.trans h.escribiendo, fun hl ↦ (k.entero (h.leyendo.trans hl)).trans (h.entero hl)⟩

/-- The kernel among what the process does. -/
def deNucleo : Role memoria Mundo Libro where
  handle := maneja .nucleo
  allowed := Limpio .nucleo
  rely := CambiaProceso
  guar := CambiaNucleo
  refl _ := ⟨id, rfl, rfl, List.prefix_refl _, le_rfl, fun _ _ ↦ rfl, rfl, fun _ _ _ ↦ rfl, rfl,
    rfl, fun _ ↦ rfl, fun _ ↦ rfl⟩
  trans h k := ⟨k.vale ∘ h.vale, k.sacadas.trans h.sacadas, k.metidas.trans h.metidas,
    h.enviadas.trans k.enviadas, h.recibidas.trans k.recibidas,
    fun off ho ↦ (k.byte off ho).trans (h.byte off ho), k.copia.trans h.copia,
    fun off h1 h2 ↦ (k.porCopiar off (by rwa [h.copia]) (by rwa [h.copia])).trans
      (h.porCopiar off h1 h2),
    k.leyendo.trans h.leyendo, k.escribiendo.trans h.escribiendo,
    fun hl ↦ (k.enteroTx (h.leyendo.trans hl)).trans (h.enteroTx hl),
    fun hl ↦ (k.enteroRx (h.leyendo.trans hl)).trans (h.enteroRx hl)⟩

/-! ### What only one side touches -/

/-- The book does not look at what a side is reading. -/
theorem Vale.congr {s t : Estado} (h : Vale s) (hb : t.1.byte = s.1.byte)
    (he : t.1.escribiendo = s.1.escribiendo) (hl : t.2 = s.2) : Vale t := by
  obtain ⟨m, g⟩ := s
  obtain ⟨m', g'⟩ := t
  simp only at hb he hl
  subst hl
  obtain ⟨h1, h2, h3, h4, h5, h6, h7, h8, h9, h10, h11, h12⟩ := h
  constructor <;> simp only [Indice, hb, he] <;> assumption

theorem Lleva.congr {m m' : Memory} {base : Nat} {t : Bytes} (h : Lleva m base t)
    (hb : ∀ off, base ≤ off → off < base + 2 + t.length → m' off = m off) : Lleva m' base t := by
  refine ⟨(hb _ le_rfl (by omega)).trans h.bajo, (hb _ (by omega) (by omega)).trans h.alto, ?_⟩
  rw [← h.datos, Memory.length_load]
  exact Memory.load_congr fun x h1 h2 ↦ hb x (by omega) h2

/-- A slot is filled once its length and its frame are written. -/
theorem Lleva.of_bytes {m : Memory} {base : Nat} {t : Bytes} (h0 : m base = UInt8.ofNat t.length)
    (h1 : m (base + 1) = UInt8.ofNat (t.length / 256))
    (ht : ∀ k v, t[k]? = some v → m (base + 2 + k) = v) : Lleva m base t := by
  refine ⟨h0, h1, List.ext_getElem (by simp) fun k hk hk' ↦ ?_⟩
  rw [← ht k t[k] (List.getElem?_eq_getElem hk')]
  simp [Memory.load]

theorem Lleva.byte {m : Memory} {base k : Nat} {t : Bytes} {v : UInt8} (h : Lleva m base t)
    (hk : t[k]? = some v) : m (base + 2 + k) = v := by
  have hlt : k < t.length := (List.getElem?_eq_some_iff.mp hk).1
  have := h.datos
  rw [← this, Memory.load, List.getElem?_map, List.getElem?_range hlt] at hk
  exact Option.some.inj hk

theorem casillaTx_aparte {j k off : Nat} (h : j % casillas ≠ k % casillas) (h1 : casillaTx j ≤ off)
    (h2 : off < casillaTx j + casilla) : off < casillaTx k ∨ casillaTx k + casilla ≤ off := by
  simp only [casillaTx, cabecera, casillas, casilla] at *
  omega

theorem casillaRx_aparte {j k off : Nat} (h : j % casillas ≠ k % casillas) (h1 : casillaRx j ≤ off)
    (h2 : off < casillaRx j + casilla) : off < casillaRx k ∨ casillaRx k + casilla ≤ off := by
  simp only [casillaRx, cabecera, casillas, casilla] at *
  omega

theorem casillaTx_entre (k : Nat) : cabecera ≤ casillaTx k ∧ casillaTx k + casilla ≤ casillaRx 0 := by
  simp only [casillaTx, casillaRx, cabecera, casillas, casilla]
  omega

theorem casillaRx_entre (k : Nat) : casillaRx 0 ≤ casillaRx k ∧ casillaRx k + casilla ≤ bytes := by
  simp only [casillaRx, bytes, cabecera, casillas, casilla]
  omega

theorem casillaTx_ofNat (n : Nat) : casillaTx (UInt32.ofNat n).toNat = casillaTx n := by
  simp only [casillaTx, casillas, casilla, UInt32.toNat_ofNat']
  omega

theorem casillaRx_ofNat (n : Nat) : casillaRx (UInt32.ofNat n).toNat = casillaRx n := by
  simp only [casillaRx, casillas, casilla, UInt32.toNat_ofNat']
  omega

theorem toNat_ofNat_sub {m n : Nat} (h : m ≤ n) (hn : n ≤ m + casillas) :
    (UInt32.ofNat n - UInt32.ofNat m).toNat = n - m := by
  simp only [casillas] at hn
  rw [UInt32.toNat_sub, UInt32.toNat_ofNat', UInt32.toNat_ofNat']
  omega

end BmoX.Red
