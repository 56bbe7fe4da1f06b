import BmoX.Estratos.FlujoLeido
import BmoX.Fsys.Disco

/-!
# Following the pointers

`fsys/estratos/walk.rs:21–104`, `dir.rs:21–71`, `cursor.rs:437–467` and `historia.rs:53–117`. These
functions only read: what they answer is what the volume says, or nothing where a read fails.
-/

namespace BmoX.Fsys

open BmoX.Base BmoX.Blake3 BmoX.Estratos

/-! ### The code -/

/-- `NIVELES`: the buffers of the walk; `estratos/mod.rs:83`. -/
abbrev nivelesScratch : Nat := nivelesMax + 1

/-- `seguir`: the bytes a pointer promises, checked; `walk.rs:25–45`. -/
def seguir (p : BlockPtr) : Prog nucleo (Option Bytes) := do
  match ← readBlock p.lba with
  | none => return none
  | some buf =>
    let ini := p.off.toNat
    let fin := ini + p.len.toNat
    if fin > bloque then return none
    else
      let datos := slice buf.1 ini p.len.toNat
      return if p.verifica datos then some datos else none

/-- `nodo`; `walk.rs:48–54`. -/
def nodo (p : BlockPtr) : Prog nucleo (Option Nodo) := do
  match ← seguir p with
  | none => return none
  | some d => return (Nodo.decode d).toOption

/-- What `flujo` does with a piece: copy what fits and stop when full; `walk.rs:86–96`. -/
def caer (hueco : Nat) : Salida Bytes := fun escritos trozo ↦
  let n := min trozo.length (hueco - escritos.length)
  let escritos := escritos ++ trozo.take n
  (escritos, escritos.length < hueco)

/-- `flujo`: the stream of an attribute, in a buffer of `hueco` bytes; the walk gets the scratch
but for its first block; `walk.rs:72–104`. -/
def flujo (a : Attr) (hueco : Nat) : Prog nucleo (Option Bytes) := do
  match a.datosResidentes with
  | some d => return if hueco < d.length then none else some d
  | none =>
    match a.raiz with
    | none => return none
    | some raiz =>
      match ← (descender readBlock raiz a.levels.toNat (nivelesScratch - 1) (caer hueco) []).run with
      | .error _ => return none
      | .ok escritos => return some (escritos.take (min a.size.toNat escritos.length))

/-- `dir::estrato`: the newest estrato; `dir.rs:38–43`. -/
def estrato : Prog nucleo (Option Estrato) := do
  match ← superbloque with
  | none => return none
  | some sb =>
    if sb.estrato.esNulo then return none
    else
      match ← seguir sb.estrato with
      | none => return none
      | some d => return (Estrato.decode d).toOption

/-- `dir::raiz`: the root node of the newest estrato; `dir.rs:26–35`. -/
def raiz : Prog nucleo (Option (BlockPtr × Nodo)) := do
  match ← estrato with
  | none => return none
  | some e =>
    match ← nodo e.raiz with
    | none => return none
    | some n => return some (e.raiz, n)

/-- `MAX_ENTRIES`; `dir.rs:22`. -/
abbrev maxEntries : Nat := 64

/-- `entries`: the records of a directory that fit, and whether some did not; `dir.rs:53–64`. -/
def entries (dir : Nodo) : Prog nucleo (Option (List Bytes × Bool)) := do
  match dir.attr attrEntradas with
  | none => return none
  | some a =>
    let cabeTodo := a.size.toNat ≤ maxEntries * entradaLen
    match ← flujo a (maxEntries * entradaLen) with
    | none => return none
    | some b => return some (records entradaLen b, !cabeTodo)

/-- `buscar_en`: a child by its name, ignoring case; `cursor.rs:451–467`. -/
def buscarEn (dir : Nodo) (name : String) : Prog nucleo (Option BlockPtr) := do
  match ← entries dir with
  | none => return none
  | some (rs, _) => return Carpeta.buscar name rs

/-- `Version`; `historia.rs:60–66`. -/
structure Version where
  cuando : UInt64
  quien : UInt32
  nombre : Bytes
  deriving DecidableEq

/-- What `releer` keeps of an estrato; `historia.rs:94–102`. -/
def Version.de (e : Estrato) : Version :=
  ⟨e.tiempo, e.autor.pid, (utf8 e.motivoStr).take motivoLen⟩

/-- `MAX`; `historia.rs:55`. -/
abbrev maxVersiones : Nat := 32

/-- The loop of `releer`, with `caben` versions still to keep; `historia.rs:90–107`. -/
def releerDesde : Nat → BlockPtr → Prog nucleo (List Version)
  | 0, _ => return []
  | caben + 1, donde => do
    if donde.esNulo then return []
    else
      match ← seguir donde with
      | none => return []
      | some d =>
        match Estrato.decode d with
        | .error _ => return []
        | .ok e => return .de e :: (← releerDesde caben e.padre)

/-- `releer`: the newest versions of the volume; `historia.rs:78–117`. -/
def releer : Prog nucleo (List Version) := do
  match ← superbloque with
  | none => return []
  | some sb => releerDesde maxVersiones sb.estrato

/-! ### What they answer -/

/-- The calls that change nothing. -/
def Orden.Lectura : Orden → Prop
  | .escribe _ _ => False
  | .escribeSuper _ _ => False
  | .vacia => False
  | .fija _ => False
  | _ => True

/-- A machine whose disk fails only where `Falla` lets it. -/
structure Maquina (E : Prog.Env nucleo Mundo) (Falla : Prop) : Prop where
  paso : ∀ {o m r m'}, E o m r m' → paso o m r m'
  bien : ∀ {o m r m'}, E o m r m' → pasoBien o m r m' ∨ Falla

theorem maquina_paso : Maquina paso True := ⟨id, fun _ ↦ .inr trivial⟩

theorem maquina_pasoBien : Maquina pasoBien False := ⟨paso_of_pasoBien, .inl⟩

/-- The answer is `x`, unless a read failed; the machine stays as it was. -/
def Da {α : Type} (m : Mundo) (Falla : Prop) (x : Option α) (r : Option α) (m' : Mundo) : Prop :=
  m' = m ∧ (r = x ∨ r = none ∧ Falla)

section Lectura

variable {E : Prog.Env nucleo Mundo} {Falla : Prop} {G : Orden → Mundo → Prop} {m : Mundo}
  {B : UInt64 → Prop}

/-- The blocks of the disk are a source of what it reads now. -/
theorem Maquina.fuente (hE : Maquina E Falla) (hG : ∀ o, o.Lectura → G o m) :
    EsFuente E G m.vista (· = m) Falla readBlock := by
  rintro lba s rfl
  refine safe_readBlock.mpr ⟨hG _ trivial, fun r s' h ↦ ?_⟩
  obtain ⟨rfl, hr⟩ := hE.paso h
  refine ⟨rfl, ?_⟩
  rcases hE.bien h with hb | hf
  · exact .inl hb.2
  · exact hr.imp_right fun hn ↦ ⟨hn, hf⟩

/-- `seguir` answers the bytes the pointer names. -/
theorem seguir_safe (hE : Maquina E Falla) (hG : ∀ o, o.Lectura → G o m) {p : BlockPtr} {d : Bytes}
    (hd : Lee m.vista B p d) : Prog.Safe E G (Da m Falla (some d)) (seguir p) m := by
  rw [seguir, Prog.safe_bind]
  refine (hE.fuente hG p.lba m rfl).post fun r s' hr ↦ ?_
  obtain ⟨rfl, rfl | ⟨rfl, hf⟩⟩ := hr
  · have hlee := hd.lee
    rw [leePtr] at hlee
    dsimp only
    split at hlee
    · cases hlee
    next hfin =>
    rw [if_neg hfin]
    exact ⟨rfl, .inl hlee⟩
  · exact ⟨rfl, .inr ⟨rfl, hf⟩⟩

private theorem caer_eq {hueco : Nat} {acc : Bytes} (h : acc.length ≤ hueco) (d : Bytes) :
    caer hueco acc d = ((acc ++ d).take hueco, decide (((acc ++ d).take hueco).length < hueco)) := by
  have hacc : acc ++ d.take (min d.length (hueco - acc.length)) = (acc ++ d).take hueco := by
    rw [List.take_append, List.take_of_length_le h, Nat.min_comm, ← List.take_eq_take_min]
  simp only [caer, hacc]

/-- A buffer takes the beginning of a stream. -/
theorem alimentar_caer {hueco : Nat} {ts : List Bytes} {acc : Bytes} (h : acc.length ≤ hueco) :
    (alimentar (caer hueco) ts (acc, true)).1 = (acc ++ ts.flatten).take hueco := by
  induction ts generalizing acc with
  | nil => rw [List.flatten_nil, List.append_nil, List.take_of_length_le h]; rfl
  | cons d ts ih =>
    have hlen : ((acc ++ d).take hueco).length ≤ hueco := List.length_take_le ..
    rw [alimentar, if_pos rfl, caer_eq h, List.flatten_cons, ← List.append_assoc]
    by_cases hlt : ((acc ++ d).take hueco).length < hueco
    · have htodo : (acc ++ d).take hueco = acc ++ d := by
        rw [List.length_take] at hlt
        exact List.take_of_length_le (by omega)
      rw [decide_eq_true hlt, ih hlen, htodo]
    · have hle : hueco ≤ (acc ++ d).length := by
        rw [List.length_take] at hlt
        omega
      rw [decide_eq_false hlt, alimentar_parado rfl]
      exact (List.take_append_of_le_length hle).symm

/-- A buffer wants more until it is full. -/
theorem alimentar_caer_sigue {hueco : Nat} {ts : List Bytes} {acc : Bytes}
    (h : acc.length ≤ hueco) :
    (alimentar (caer hueco) ts (acc, true)).2 = true ↔
      ts = [] ∨ acc.length + ts.flatten.length < hueco := by
  induction ts generalizing acc with
  | nil => simp [alimentar]
  | cons d ts ih =>
    have hlen : ((acc ++ d).take hueco).length ≤ hueco := List.length_take_le ..
    have hne : d :: ts ≠ [] := List.cons_ne_nil d ts
    rw [alimentar, if_pos rfl, caer_eq h, List.flatten_cons, List.length_append]
    by_cases hlt : ((acc ++ d).take hueco).length < hueco
    · rw [decide_eq_true hlt, ih hlen, or_iff_right hne]
      rw [List.length_take, List.length_append] at hlt ⊢
      cases ts with
      | nil => simp; omega
      | cons d' ts => simp; omega
    · rw [decide_eq_false hlt, alimentar_parado rfl, or_iff_right hne]
      rw [List.length_take, List.length_append] at hlt
      simp
      omega

/-- `superbloque` answers the static variable. -/
theorem superbloque_safe (hE : Maquina E Falla) (hG : ∀ o, o.Lectura → G o m)
    {Q : Option Superblock → Mundo → Prop} (hQ : Q m.memoria.super m) :
    Prog.Safe E G Q superbloque m := by
  rw [superbloque, Prog.safe_bind]
  refine safe_memoria.mpr ⟨hG _ trivial, fun r s' h ↦ ?_⟩
  obtain ⟨rfl, rfl⟩ := hE.paso h
  exact hQ

/-- `dir::estrato` answers the newest estrato. -/
theorem estrato_safe (hE : Maquina E Falla) (hG : ∀ o, o.Lectura → G o m) {sb : Superblock}
    (hsb : m.memoria.super = some sb) {e : Estrato} (he : EsEstrato m.vista B sb.estrato e) :
    Prog.Safe E G (Da m Falla (some e)) estrato m := by
  obtain ⟨hnulo, d, hd, hdec⟩ := he
  rw [estrato, Prog.safe_bind]
  refine superbloque_safe hE hG ?_
  rw [hsb]
  dsimp only
  rw [if_neg (by rw [hnulo]; exact Bool.false_ne_true), Prog.safe_bind]
  refine (seguir_safe hE hG hd).post fun r s' hr ↦ ?_
  obtain ⟨rfl, rfl | ⟨rfl, hf⟩⟩ := hr
  · exact ⟨rfl, .inl (by rw [hdec]; rfl)⟩
  · exact ⟨rfl, .inr ⟨rfl, hf⟩⟩

end Lectura

end BmoX.Fsys
