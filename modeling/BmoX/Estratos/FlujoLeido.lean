import BmoX.Base.Cache
import BmoX.Estratos.FlujoEscrito
import BmoX.Estratos.Volumen
import Mathlib.Data.List.Nodup
import Mathlib.Data.Nat.SuccPred
import Mathlib.Order.Lattice.Nat

/-!
# Reading a stream back

The walk of `read.rs` hands over the pieces of a stream in order and stops when its receiver has
enough. What `flujo.rs` builds is such a stream, over the pieces it was given.
-/

namespace BmoX.Estratos

open BmoX.Base BmoX.Blake3

/-- The receiver takes pieces until it has enough. -/
def alimentar {τ : Type} (salida : Salida τ) : List Bytes → τ × Bool → τ × Bool
  | [], e => e
  | d :: ds, e => if e.2 then alimentar salida ds (salida e.1 d) else e

section Alimentar

variable {τ : Type} {salida : Salida τ}

theorem alimentar_parado {ds : List Bytes} {e : τ × Bool} (h : e.2 = false) :
    alimentar salida ds e = e := by
  cases ds with
  | nil => rfl
  | cons d ds => rw [alimentar, if_neg (by rw [h]; exact Bool.false_ne_true)]

/-- Pieces can be handed over in parts. -/
theorem alimentar_append (ds ds' : List Bytes) (e : τ × Bool) :
    alimentar salida (ds ++ ds') e = alimentar salida ds' (alimentar salida ds e) := by
  induction ds generalizing e with
  | nil => rfl
  | cons d ds ih =>
    rw [List.cons_append, alimentar, alimentar]
    split
    · exact ih _
    · next h => exact (alimentar_parado (by simpa using h)).symm

/-- A receiver that keeps everything. -/
def anotar : Salida (List Bytes) := fun acc d ↦ (acc ++ [d], true)

private theorem alimentar_anotar (ds acc : List Bytes) :
    alimentar anotar ds (acc, true) = (acc ++ ds, true) := by
  induction ds generalizing acc with
  | nil => rw [List.append_nil]; rfl
  | cons d ds ih =>
    rw [alimentar, if_pos rfl, anotar, ih, List.append_assoc]
    rfl

end Alimentar

/-! ### The walk -/

section Lectura

variable {I : Interface} {σ τ : Type} {E : Prog.Env I σ} {G : I.Op → σ → Prop}
  {src : Fuente I} {v : UInt64 → Bloque} {B : UInt64 → Prop} {S : σ → Prop} {Falla : Prop}
  {salida : Salida τ}

/-- A source of the blocks `v`: a read keeps `S`, and only fails where `Falla` lets it. -/
def EsFuente (E : Prog.Env I σ) (G : I.Op → σ → Prop) (v : UInt64 → Bloque) (S : σ → Prop)
    (Falla : Prop) (src : Fuente I) : Prop :=
  ∀ lba s, S s →
    Prog.Safe E G (fun r s' ↦ S s' ∧ (r = some (v lba) ∨ r = none ∧ Falla)) (src lba) s

/-- The answer is `x`, unless something failed. -/
def Entrega {α ε : Type} (S : σ → Prop) (Falla : Prop) (x : α) : Except ε α → σ → Prop
  | .ok a, s => S s ∧ a = x
  | .error _, s => S s ∧ Falla

/-- A pointer that reads `d` is read as `d`. -/
theorem leerPuntero_safe (hsrc : EsFuente E G v S Falla src) {p : BlockPtr} {d : Bytes}
    (hd : Lee v B p d) {scratch : Nat} (hscr : 0 < scratch ∨ Falla) {s : σ} (hs : S s) :
    Prog.Safe E G (Entrega S Falla d) (leerPuntero src scratch p).run s := by
  rw [leerPuntero]
  split
  · next h0 => exact ⟨hs, hscr.resolve_left (by omega)⟩
  · rw [Prog.safe_lift_bind]
    refine (hsrc p.lba s hs).post fun r s' hr ↦ ?_
    obtain ⟨hs', rfl | ⟨rfl, hf⟩⟩ := hr
    · have hlee := hd.lee
      rw [leePtr] at hlee
      dsimp only
      split at hlee
      · cases hlee
      next hfin =>
      rw [if_neg hfin]
      dsimp only at hlee
      split at hlee
      · next hver =>
        cases hlee
        rw [if_pos hver]
        exact ⟨hs', rfl⟩
      · cases hlee
    · exact ⟨hs', hf⟩

private theorem punterosDe_cons {r : Bytes} {rs : List Bytes} {ps : List BlockPtr}
    (h : punterosDe (r :: rs) = .ok ps) :
    ∃ p, BlockPtr.decode r = .ok p ∧ (p.esNulo = true ∧ ps = [] ∨
      p.esNulo = false ∧ ∃ ps', punterosDe rs = .ok ps' ∧ ps = p :: ps') := by
  rw [punterosDe] at h
  cases hp : BlockPtr.decode r with
  | error err =>
    rw [hp] at h
    cases h
  | ok p =>
    rw [hp] at h
    refine ⟨p, rfl, ?_⟩
    cases hn : p.esNulo with
    | true =>
      change (if p.esNulo then _ else _) = _ at h
      rw [if_pos hn] at h
      cases h
      exact .inl ⟨rfl, rfl⟩
    | false =>
      change (if p.esNulo then _ else _) = _ at h
      rw [if_neg (by rw [hn]; exact Bool.false_ne_true)] at h
      cases hrest : punterosDe rs with
      | error err =>
        rw [hrest] at h
        cases h
      | ok ps' =>
        rw [hrest] at h
        cases h
        exact .inr ⟨rfl, ps', rfl, rfl⟩

private theorem bajarHijos_cons
    {baja : BlockPtr → τ × Bool → ExceptT FormatError (Prog I) (τ × Bool)} {r : Bytes}
    {rs : List Bytes} {p : BlockPtr} (hp : BlockPtr.decode r = .ok p) (e : τ × Bool) :
    bajarHijos baja (r :: rs) e =
      if p.esNulo then pure e
      else do
        let e ← baja p e
        if e.2 then bajarHijos baja rs e else return e := by
  rw [bajarHijos, hp]
  rfl

private theorem bajarHijos_safe
    {baja : BlockPtr → τ × Bool → ExceptT FormatError (Prog I) (τ × Bool)} {niveles : Nat}
    (hbaja : ∀ p ts e s, Flujo v B niveles p ts → S s →
      Prog.Safe E G (Entrega S Falla (alimentar salida ts e)) (baja p e).run s)
    {rs : List Bytes} {ps : List BlockPtr} {tss : List (List Bytes)}
    (hps : punterosDe rs = .ok ps) (hall : List.Forall₂ (Flujo v B niveles) ps tss)
    {e : τ × Bool} {s : σ} (hs : S s) :
    Prog.Safe E G (Entrega S Falla (alimentar salida tss.flatten e)) (bajarHijos baja rs e).run s := by
  induction rs generalizing ps tss e s with
  | nil =>
    cases hps
    cases hall
    exact ⟨hs, rfl⟩
  | cons r rs ih =>
    obtain ⟨p, hp, ⟨hnulo, rfl⟩ | ⟨hnulo, ps', hrest, rfl⟩⟩ := punterosDe_cons hps
    · cases hall
      rw [bajarHijos_cons hp, if_pos hnulo]
      exact ⟨hs, rfl⟩
    · cases hall with
      | cons h1 hall' =>
        rw [bajarHijos_cons hp, if_neg (by rw [hnulo]; exact Bool.false_ne_true)]
        refine (hbaja _ _ e s h1 hs).tryBind ?_ fun _ _ h ↦ h
        rintro e' s' ⟨hs', rfl⟩
        rw [List.flatten_cons, alimentar_append]
        split
        · exact ih hrest hall' hs'
        · next hp' => exact ⟨hs', (alimentar_parado (by simpa using hp')).symm⟩

/-- Walking a stream hands over its pieces, given one buffer a level. -/
theorem bajar_safe (hsrc : EsFuente E G v S Falla src) {niveles scratch : Nat} {p : BlockPtr}
    {ts : List Bytes} (h : Flujo v B niveles p ts) (hscr : niveles < scratch ∨ Falla)
    (e : τ × Bool) {s : σ} (hs : S s) :
    Prog.Safe E G (Entrega S Falla (alimentar salida ts e))
      (bajar src salida niveles scratch p e).run s := by
  induction niveles generalizing scratch p ts e s with
  | zero =>
    obtain ⟨d, hd, rfl⟩ := h
    rw [bajar, alimentar]
    split
    · refine (leerPuntero_safe hsrc hd (by omega) hs).tryBind ?_ fun _ _ h ↦ h
      rintro d' s' ⟨hs', rfl⟩
      exact ⟨hs', rfl⟩
    · exact ⟨hs, rfl⟩
  | succ niveles ih =>
    obtain ⟨d, ps, tss, hd, hps, hall, rfl⟩ := h
    rw [bajar]
    split
    · refine (leerPuntero_safe hsrc hd (hscr.imp_left (by omega)) hs).tryBind ?_ fun _ _ h ↦ h
      rintro d' s' ⟨hs', rfl⟩
      refine bajarHijos_safe (fun p ts e s h hs ↦ ih h ?_ e hs) hps hall hs'
      exact hscr.imp_left (by omega)
    · next hp => exact ⟨hs, (alimentar_parado (by simpa using hp)).symm⟩

private theorem descender_safe (hsrc : EsFuente E G v S Falla src) {niveles scratch : Nat}
    {raiz : BlockPtr} {ts : List Bytes} (h : Flujo v B niveles raiz ts)
    (hscr : niveles < scratch ∨ Falla) (t : τ) {s : σ} (hs : S s) :
    Prog.Safe E G (Entrega S Falla (alimentar salida ts (t, true)).1)
      (descender src raiz niveles scratch salida t).run s := by
  refine (bajar_safe hsrc h hscr (t, true) hs).tryBind ?_ fun _ _ h ↦ h
  rintro e s' ⟨hs', rfl⟩
  exact ⟨hs', rfl⟩

end Lectura

/-! ### What was written reads back -/

/-- A block written from its start reads back. -/
theorem leePtr_nuevo {v : UInt64 → Bloque} {lba : UInt64} {d : Bytes} (hlen : d.length ≤ bloque)
    (hv : v lba = Arr.pad bloque d) : leePtr v (.nuevo lba 0 d) = some d := by
  have hn : (UInt32.ofNat d.length).toNat = d.length :=
    UInt32.toNat_ofNat_of_lt' (Nat.lt_of_le_of_lt hlen (by decide))
  have hver : (BlockPtr.nuevo lba 0 d).verifica d = true := by
    simp [BlockPtr.verifica, BlockPtr.nuevo, hn]
  have hs : slice (v lba).1 0 d.length = d := by
    rw [hv, Arr.slice_pad hlen (Nat.zero_add _).le, slice_self (Nat.le_refl _)]
  rw [leePtr, if_neg (by simpa [BlockPtr.nuevo, hn] using hlen)]
  simp only [BlockPtr.nuevo, hn, UInt32.toNat_zero, hs] at hver ⊢
  exact if_pos hver

/-- A pointer to the start of a block stays inside it. -/
theorem enBloque_nuevo {lba : UInt64} {d : Bytes} (hlen : d.length ≤ bloque) :
    (BlockPtr.nuevo lba 0 d).EnBloque := by
  have hn : (UInt32.ofNat d.length).toNat = d.length :=
    UInt32.toNat_ofNat_of_lt' (Nat.lt_of_le_of_lt hlen (by decide))
  simp only [BlockPtr.EnBloque, BlockPtr.nuevo, hn, UInt32.toNat_zero, Nat.zero_add]
  exact hlen

/-- A pointer to some bytes is not null. -/
theorem esNulo_nuevo {lba : UInt64} {off : UInt32} {d : Bytes} (hlen : d.length ≤ bloque)
    (hd : d ≠ []) : (BlockPtr.nuevo lba off d).esNulo = false := by
  have hn : (UInt32.ofNat d.length).toNat = d.length :=
    UInt32.toNat_ofNat_of_lt' (Nat.lt_of_le_of_lt hlen (by decide))
  have h0 : UInt32.ofNat d.length ≠ 0 := fun h ↦ hd (List.length_eq_zero_iff.mp (by
    rw [← hn, h]
    rfl))
  simp [BlockPtr.esNulo, BlockPtr.nuevo, h0]

private theorem punterosDe_encode {ps : List BlockPtr} (hb : ∀ p ∈ ps, p.EnBloque)
    (hn : ∀ p ∈ ps, p.esNulo = false) :
    punterosDe (records ptrLen (ps.flatMap BlockPtr.encode)) = .ok ps := by
  rw [records_flatMap (by decide) BlockPtr.length_encode]
  induction ps with
  | nil => rfl
  | cons p ps ih =>
    rw [List.map_cons, punterosDe, BlockPtr.decode_encode (hb p List.mem_cons_self),
      ih (fun q hq ↦ hb q (List.mem_cons_of_mem p hq)) fun q hq ↦ hn q (List.mem_cons_of_mem p hq)]
    exact if_neg (by rw [hn p List.mem_cons_self]; exact Bool.false_ne_true)

namespace Arbol

section Torre

variable {plan : Plan} {base : UInt64} {t : Nat → Bytes}

/-- The pieces under the block `i` of the row `k`. -/
def debajo (plan : Plan) (t : Nat → Bytes) : Nat → Nat → List Bytes
  | 0, i => [t i]
  | k + 1, i => (hijos plan k i).flatMap (debajo plan t k)

private theorem mem_hijos {k i j : Nat} (h : j ∈ hijos plan k i) : j < plan.porNivel k := by
  obtain ⟨_, h⟩ := List.mem_range'_1.mp h
  omega

private theorem contenido_ne_nil (hreg : plan.Regular) {k i : Nat} (ht : k = 0 → t i ≠ [])
    (hk : k ≤ plan.niveles) (hi : i < plan.porNivel k) : contenido plan base t k i ≠ [] := by
  cases k with
  | zero => exact ht rfl
  | succ k =>
    have hsucc := hreg.succ k hk
    intro h
    have hlen := congrArg List.length h
    rw [contenido_succ, length_punteros, hijos, List.length_range', List.length_nil] at hlen
    omega

/-- The blocks of a plan, once written, are the stream of their pieces. -/
theorem flujo_torre {v : UInt64 → Bloque} {B : UInt64 → Prop} (hreg : plan.Regular)
    (hv : ∀ k i, k ≤ plan.niveles → i < plan.porNivel k →
      v (sitio plan base k i) = Arr.pad bloque (contenido plan base t k i) ∧
        B (sitio plan base k i))
    (ht : ∀ i < plan.porNivel 0, t i ≠ [] ∧ (t i).length ≤ bloque) {k i : Nat}
    (hk : k ≤ plan.niveles) (hi : i < plan.porNivel k) :
    Flujo v B k (puntero plan base t k i) (debajo plan t k i) := by
  have hlen : ∀ {k i}, k ≤ plan.niveles → i < plan.porNivel k →
      (contenido plan base t k i).length ≤ bloque :=
    fun _ hi ↦ length_contenido_le fun h0 ↦ (ht _ (h0 ▸ hi)).2
  have hlee : ∀ {k i}, k ≤ plan.niveles → i < plan.porNivel k →
      Lee v B (puntero plan base t k i) (contenido plan base t k i) :=
    fun hk hi ↦ ⟨leePtr_nuevo (hlen hk hi) (hv _ _ hk hi).1, (hv _ _ hk hi).2⟩
  induction k generalizing i with
  | zero => exact ⟨_, hlee hk hi, rfl⟩
  | succ k ih =>
    have hk' := Nat.le_of_succ_le hk
    refine ⟨_, (hijos plan k i).map (puntero plan base t k),
      (hijos plan k i).map (debajo plan t k), hlee hk hi, ?_, ?_, ?_⟩
    · have hc : contenido plan base t (k + 1) i =
          ((hijos plan k i).map (puntero plan base t k)).flatMap BlockPtr.encode := by
        rw [List.flatMap_map]
        rfl
      rw [hc]
      apply punterosDe_encode
      · intro p hp
        obtain ⟨j, hj, rfl⟩ := List.mem_map.mp hp
        exact enBloque_nuevo (hlen hk' (mem_hijos hj))
      · intro p hp
        obtain ⟨j, hj, rfl⟩ := List.mem_map.mp hp
        exact esNulo_nuevo (hlen hk' (mem_hijos hj))
          (contenido_ne_nil hreg (fun h0 ↦ (ht _ (h0 ▸ mem_hijos hj)).1) hk' (mem_hijos hj))
    · rw [List.forall₂_map_left_iff, List.forall₂_map_right_iff, List.forall₂_same]
      exact fun j hj ↦ ih hk' (mem_hijos hj)
    · rw [debajo, List.flatMap_def]

private theorem range_por_85 (m n : Nat) :
    ((List.range m).flatMap fun i ↦ List.range' (85 * i) (min 85 (n - 85 * i))) =
      List.range (min n (85 * m)) := by
  induction m with
  | zero => simp
  | succ m ih =>
    rw [List.range_succ, List.flatMap_append, ih, List.flatMap_singleton]
    rcases Nat.le_total n (85 * m) with h | h
    · rw [Nat.sub_eq_zero_of_le h, Nat.min_zero, List.range'_zero, List.append_nil,
        Nat.min_eq_left h, Nat.min_eq_left (by omega)]
    · have happ := List.range'_append_1 (s := 0) (m := 85 * m) (n := min 85 (n - 85 * m))
      rw [Nat.zero_add] at happ
      rw [Nat.min_eq_right h, List.range_eq_range', List.range_eq_range', happ]
      congr 1
      omega

private theorem debajo_fila (hreg : plan.Regular) {k : Nat} (hk : k ≤ plan.niveles) :
    (List.range (plan.porNivel k)).flatMap (debajo plan t k) =
      (List.range (plan.porNivel 0)).map t := by
  induction k with
  | zero => exact List.map_eq_flatMap.symm
  | succ k ih =>
    have hsucc := hreg.succ k hk
    have hr := range_por_85 (plan.porNivel (k + 1)) (plan.porNivel k)
    rw [Nat.min_eq_left (by omega)] at hr
    rw [← ih (Nat.le_of_succ_le hk), ← hr, List.flatMap_assoc]
    rfl

private theorem debajo_raiz (hreg : plan.Regular) :
    debajo plan t plan.niveles 0 = (List.range (plan.porNivel 0)).map t := by
  have h := debajo_fila (t := t) hreg (Nat.le_refl plan.niveles)
  rw [hreg.cima] at h
  simpa using h

/-- The writes of a whole plan leave each block of the plan with its contents. -/
theorem applyAll_hechos (hreg : plan.Regular) {d : UInt64 → Bloque} {ws : List (UInt64 × Bytes)}
    (hperm : ws.Perm (hechos plan base t plan.porNivel)) {k i : Nat} (hk : k ≤ plan.niveles)
    (hi : i < plan.porNivel k) :
    Cache.applyAll d (ws.map fun w ↦ (w.1, Arr.pad bloque w.2)) (sitio plan base k i) =
      Arr.pad bloque (contenido plan base t k i) := by
  have hmem : ∀ w, w ∈ ws ↔ ∃ k ≤ plan.niveles, ∃ i < plan.porNivel k,
      (sitio plan base k i, contenido plan base t k i) = w := by
    intro w
    rw [hperm.mem_iff]
    simp only [hechos, List.mem_flatMap, List.mem_map, List.mem_range, Nat.lt_succ_iff]
  rcases Cache.applyAll_cases d (ws.map fun w ↦ (w.1, Arr.pad bloque w.2)) (sitio plan base k i)
    with ⟨-, hno⟩ | hsi
  · exact absurd (List.mem_map_of_mem ((hmem _).mpr ⟨k, hk, i, hi, rfl⟩)) (hno _)
  · obtain ⟨w, hw, heq⟩ := List.mem_map.mp hsi
    obtain ⟨k', hk', i', hi', rfl⟩ := (hmem w).mp hw
    obtain ⟨hsitio, hval⟩ := Prod.mk.inj heq
    obtain ⟨rfl, rfl⟩ := sitio_inj hreg hk' hk hi' hi hsitio
    exact hval.symm

end Torre

end Arbol

/-! ### A volume in memory -/

/-- What the crate asks of a volume: to read a block and to write one. -/
inductive OrdenVolumen
  | lee (lba : UInt64)
  | pone (lba : UInt64) (datos : Bytes)

/-- The answers of a volume. -/
abbrev interfazVolumen : Interface where
  Op := OrdenVolumen
  Res
    | .lee _ => Option Bloque
    | .pone _ _ => Bool

/-- A volume in memory that counts what is written to it, as the one of `flujo.rs:242–262`. -/
structure Memoria where
  bloques : UInt64 → Bloque
  puestos : List UInt64

namespace Memoria

/-- A write fills its block with zeros behind it. -/
def atiende : Prog.Handler interfazVolumen Memoria
  | .lee lba, m => (some (m.bloques lba), m)
  | .pone lba datos, m =>
    (true, ⟨Function.update m.bloques lba (Arr.pad bloque datos), m.puestos ++ [lba]⟩)

/-- Read a block. -/
def bloque (lba : UInt64) : Prog interfazVolumen (Option Bloque) :=
  Prog.op (I := interfazVolumen) (.lee lba)

/-- Write a block. -/
def poner (lba : UInt64) (datos : Bytes) : Prog interfazVolumen Bool :=
  Prog.op (I := interfazVolumen) (.pone lba datos)

section Reglas

variable {σ : Type} {E : Prog.Env interfazVolumen σ} {G : OrdenVolumen → σ → Prop} {s : σ}

private theorem safe_bloque {lba : UInt64} {Q : Option Bloque → σ → Prop} :
    Prog.Safe E G Q (bloque lba) s ↔ G (.lee lba) s ∧ ∀ r s', E (.lee lba) s r s' → Q r s' :=
  Iff.rfl

private theorem safe_poner {lba : UInt64} {datos : Bytes} {Q : Bool → σ → Prop} :
    Prog.Safe E G Q (poner lba datos) s ↔
      G (.pone lba datos) s ∧ ∀ r s', E (.pone lba datos) s r s' → Q r s' :=
  Iff.rfl

end Reglas

/-- After some writes. -/
def Con (m : Memoria) (ws : List (UInt64 × Bytes)) (m' : Memoria) : Prop :=
  m'.bloques = Cache.applyAll m.bloques (ws.map fun w ↦ (w.1, Arr.pad Estratos.bloque w.2)) ∧
    m'.puestos = m.puestos ++ ws.map Prod.fst

private theorem escribe (plan : Plan) (base : UInt64) (m : Memoria) :
    Arbol.Escribe plan base (Prog.Handler.env atiende) (fun _ _ ↦ True) m.Con (fun _ ↦ False)
      poner := by
  intro ws m' k i datos hm _ _ _
  refine safe_poner.mpr ⟨trivial, fun ok m'' h ↦ ?_⟩
  cases h
  refine ⟨?_, ?_⟩
  · rw [List.map_append, List.map_singleton, Cache.applyAll_concat, ← hm.1]
  · rw [List.map_append, ← List.append_assoc, ← hm.2]
    rfl

private theorem fuente (m : Memoria) :
    EsFuente (Prog.Handler.env atiende) (fun _ _ ↦ True) m.bloques (· = m) False bloque := by
  rintro lba s rfl
  refine safe_bloque.mpr ⟨trivial, fun r s' h ↦ ?_⟩
  cases h
  exact ⟨rfl, .inl rfl⟩

end Memoria

/-- Pushing the pieces of a plan and closing the tree writes every block of the plan once and no
other, and walking the tree gives the pieces back in order. -/
theorem flujo_ida_y_vuelta {size : UInt64} {plan : Plan} (hplan : planDe size = some plan)
    (base : UInt64) {trozos : List Bytes} (hn : trozos.length = plan.porNivel 0)
    (ht : ∀ d ∈ trozos, d ≠ [] ∧ d.length ≤ bloque) {cuantos : Nat}
    (hcuantos : plan.niveles ≤ cuantos) (indice : Nat → Bloque) (m : Memoria) :
    ∃ a raiz m' puestos, Arbol.nuevo plan base cuantos indice = .ok a ∧
      Prog.exec Memoria.atiende
        (trozos.foldlM (Arbol.empujar Memoria.poner) a >>= Arbol.cerrar Memoria.poner).run m =
        (.ok raiz, m') ∧
      m'.puestos = m.puestos ++ puestos ∧ puestos.Nodup ∧
      (∀ lba, lba ∈ puestos ↔ ∃ n < plan.total, lba = base + UInt64.ofNat n) ∧
      raiz.lba = base + UInt64.ofNat (plan.total - 1) ∧
      ∀ scratch, plan.niveles + 1 ≤ scratch →
        Prog.exec Memoria.atiende
          (descender Memoria.bloque raiz plan.niveles scratch anotar []).run m' =
          (.ok trozos, m') := by
  obtain ⟨hreg, -⟩ := Plan.regular_planDe hplan
  obtain ⟨a, ha⟩ : ∃ a, Arbol.nuevo plan base cuantos indice = .ok a :=
    ⟨_, if_neg (Nat.not_lt.mpr hcuantos)⟩
  let t : Nat → Bytes := fun i ↦ trozos.getD i []
  have ht' : ∀ i < plan.porNivel 0, t i ≠ [] ∧ (t i).length ≤ bloque := fun i hi ↦ by
    have hi' : i < trozos.length := hn ▸ hi
    simp only [t, List.getD_eq_getElem _ _ hi']
    exact ht _ (List.getElem_mem hi')
  have htrozos : (List.range (plan.porNivel 0)).map t = trozos := by
    refine List.ext_getElem (by simp [hn]) fun i h1 h2 ↦ ?_
    simp only [List.getElem_map, List.getElem_range, t, List.getD_eq_getElem _ _ h2]
  have hp := Memoria.escribe plan base m
  -- building, from the empty tree
  have hcons : Prog.Safe (Prog.Handler.env Memoria.atiende) (fun _ _ ↦ True)
      (Arbol.Tras (fun _ ↦ False) fun raiz m' ↦ raiz = Arbol.puntero plan base t plan.niveles 0 ∧
        Arbol.Escritos plan base t m.Con plan.porNivel m')
      (trozos.foldlM (Arbol.empujar Memoria.poner) a >>= Arbol.cerrar Memoria.poner).run m := by
    have hini : Arbol.Escritos plan base t m.Con (fun _ ↦ 0) m :=
      ⟨[], by simp [Arbol.hechos], rfl, (List.append_nil _).symm⟩
    refine (Arbol.empujarTodos_safe hreg hp (Arbol.estado_nuevo ha) (fun _ _ _ ↦ (Nat.zero_div 85).symm)
      hini
      (by simp [hn]) (fun i d hi ↦ ?_) ht).tryBind ?_ fun _ _ h ↦ h
    · simp only [t, Nat.zero_add, List.getD_eq_getElem?_getD, hi, Option.getD_some]
    · rintro a' m' ⟨c, h0, hal, he, hs⟩
      refine Arbol.cerrar_safe hreg hp he hal hs ?_
      rw [h0 0 (Nat.le_refl 0), Nat.zero_add, hn]
  have hfin := Prog.safe_env_iff.mp hcons
  generalize hr : Prog.exec Memoria.atiende
    (trozos.foldlM (Arbol.empujar Memoria.poner) a >>= Arbol.cerrar Memoria.poner).run m = r at hfin
  obtain ⟨r, m'⟩ := r
  cases r with
  | error e => exact hfin.2.elim
  | ok raiz =>
    obtain ⟨rfl, ws, hperm, hbloques, hpuestos⟩ := hfin
    have hlbas : (ws.map Prod.fst).Perm
        ((List.range plan.total).map fun n ↦ base + UInt64.ofNat n) :=
      Arbol.hechos_lbas hreg ▸ hperm.map _
    refine ⟨a, _, m', ws.map Prod.fst, ha, hr, hpuestos, ?_, fun lba ↦ ?_, ?_, fun scratch hscr ↦ ?_⟩
    · rw [hlbas.nodup_iff]
      refine List.Nodup.map_on (fun i hi j hj h ↦ ?_) List.nodup_range
      have h' := congrArg UInt64.toNat (UInt64.add_right_inj base |>.mp h)
      have hlt := hreg.total_lt
      have hi := List.mem_range.mp hi
      have hj := List.mem_range.mp hj
      rwa [UInt64.toNat_ofNat_of_lt' (by exact hi.trans hlt),
        UInt64.toNat_ofNat_of_lt' (by exact hj.trans hlt)] at h'
    · rw [hlbas.mem_iff]
      simp only [List.mem_map, List.mem_range, eq_comm]
    · exact Arbol.sitio_raiz hreg
    · have hflujo : Flujo m'.bloques (fun _ ↦ True) plan.niveles
          (Arbol.puntero plan base t plan.niveles 0) (Arbol.debajo plan t plan.niveles 0) := by
        refine Arbol.flujo_torre hreg (fun k i hk hi ↦ ⟨?_, trivial⟩) ht' (Nat.le_refl _)
          (by rw [hreg.cima]; exact Nat.one_pos)
        rw [hbloques]
        exact Arbol.applyAll_hechos hreg hperm hk hi
      rw [Arbol.debajo_raiz hreg, htrozos] at hflujo
      have hsafe : Prog.Safe (Prog.Handler.env Memoria.atiende) (fun _ _ ↦ True)
          (Entrega (· = m') False (alimentar anotar trozos ([], true)).1) _ m' :=
        descender_safe (Memoria.fuente m') hflujo (.inl hscr) [] rfl
      have hleer := Prog.safe_env_iff.mp hsafe
      rw [alimentar_anotar, List.nil_append] at hleer
      generalize Prog.exec Memoria.atiende (descender Memoria.bloque
        (Arbol.puntero plan base t plan.niveles 0) plan.niveles scratch anotar []).run m' = r at hleer
      obtain ⟨r, m''⟩ := r
      cases r with
      | error e => exact hleer.2.elim
      | ok ts =>
        obtain ⟨rfl, rfl⟩ := hleer
        rfl

/-- A stream of 86 pieces takes two levels, three index blocks in all, and reads back. -/
theorem ochenta_y_seis_trozos_van_y_vuelven :
    ∃ plan, planDe 352256 = some plan ∧ plan.niveles = 2 ∧ plan.total = 89 ∧
      ∃ a raiz m' puestos, Arbol.nuevo plan 4 2 (fun _ ↦ Arr.pad bloque []) = .ok a ∧
        Prog.exec Memoria.atiende ((List.replicate 86 [7]).foldlM (Arbol.empujar Memoria.poner) a >>=
          Arbol.cerrar Memoria.poner).run ⟨fun _ ↦ Arr.pad bloque [], []⟩ = (.ok raiz, m') ∧
        m'.puestos = [] ++ puestos ∧ puestos.Nodup ∧
        (∀ lba, lba ∈ puestos ↔ ∃ n < plan.total, lba = 4 + UInt64.ofNat n) ∧
        raiz.lba = 4 + UInt64.ofNat (plan.total - 1) ∧
        ∀ scratch, plan.niveles + 1 ≤ scratch →
          Prog.exec Memoria.atiende
            (descender Memoria.bloque raiz plan.niveles scratch anotar []).run m' =
            (.ok (List.replicate 86 [7]), m') := by
  obtain ⟨plan, hplan, hniveles, htotal⟩ : ∃ plan, planDe 352256 = some plan ∧
      plan.niveles = 2 ∧ plan.total = 89 := ⟨_, rfl, rfl, rfl⟩
  refine ⟨plan, hplan, hniveles, htotal,
    flujo_ida_y_vuelta hplan 4 ?_ (fun d hd ↦ ?_) hniveles.le _ _⟩
  · rw [List.length_replicate, (Plan.regular_planDe hplan).2]
    rfl
  · rw [List.eq_of_mem_replicate hd]
    decide

end BmoX.Estratos
