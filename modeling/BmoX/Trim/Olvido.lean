import BmoX.Base.Chunks

/-!
# What a disk forgets

However the orders are cut, their descriptors go one after another from the first sector of the range
to its end. The count of descriptors of an order is of sixteen bits, and an order may carry more.

`platform/drivers/storage/trim/src/lib.rs`. A range of sectors becomes descriptors of eight bytes, as
many in one order as the buffer and the disk admit; what is left of the range waits for the next one.
-/

namespace BmoX.Trim

open BmoX.Base

/-! ### The ranges that a disk is told to forget -/

/-- `lib.rs:49`. -/
def BLOQUE : Nat := 512

/-- `lib.rs:52`. -/
def DESCRIPTOR : Nat := 8

/-- `lib.rs:55`. -/
def POR_BLOQUE : Nat := BLOQUE / DESCRIPTOR

/-- `lib.rs:58`. -/
def MAX_POR_DESCRIPTOR : Nat := 0xFFFF

/-- `lib.rs:61`. -/
def MAX_LBA : Nat := 2 ^ 48

/-- What is left to forget; `lib.rs:69–75`. -/
structure Rango where
  lba : Nat
  sectores : Nat
  cabe : lba + sectores ≤ MAX_LBA
  deriving DecidableEq

/-- What one order carries; `lib.rs:79–87`. -/
structure Tanda where
  bloques : Nat
  descriptores : Nat
  sectores : Nat
  deriving DecidableEq

namespace Rango

/-- `lib.rs:96–105`. -/
def nuevo (lba sectores : UInt64) : Option Rango :=
  if sectores = 0 then none
  else if lba.toNat + sectores.toNat ≥ 2 ^ 64 then none
  else if h : lba.toNat + sectores.toNat > MAX_LBA then none
  else some ⟨lba.toNat, sectores.toNat, not_lt.mp h⟩

variable (r : Rango)

/-- `lib.rs:108–110`. -/
def vacio : Prop := r.sectores = 0

instance : Decidable r.vacio := inferInstanceAs (Decidable (_ = _))

/-- The sectors of the next descriptor; `lib.rs:139`. -/
def trozo : Nat := min r.sectores MAX_POR_DESCRIPTOR

/-- The range without them. -/
def sigue : Rango where
  lba := r.lba + r.trozo
  sectores := r.sectores - r.trozo
  cabe := by
    have hcabe := r.cabe
    unfold trozo
    omega

/-- `lib.rs:173–179`. -/
def ordenes (bloques_por_orden : UInt16) : Nat :=
  if r.vacio ∨ bloques_por_orden = 0 then 0
  else
    let por_orden := bloques_por_orden.toNat * POR_BLOQUE * MAX_POR_DESCRIPTOR
    (r.sectores + por_orden - 1) / por_orden

end Rango

/-- The variables of the loop; `lib.rs:136–149`. -/
structure Vuelta where
  rango : Rango
  buf : Bytes
  escritos : Nat
  cubiertos : Nat

/-- One descriptor; `lib.rs:139–148`. -/
def Vuelta.paso (v : Vuelta) : Vuelta :=
  let trozo := v.rango.trozo
  let off := v.escritos * DESCRIPTOR
  let buf := splice v.buf off ((leBytes 8 v.rango.lba).take 6)
  let buf := splice buf (off + 6) (leBytes 2 trozo)
  ⟨v.rango.sigue, buf, v.escritos + 1, v.cubiertos + trozo⟩

/-- Descriptors while there is room for `n` more and something is left. -/
def llena : Nat → Vuelta → Vuelta
  | 0, v => v
  | n + 1, v => if v.rango.vacio then v else llena n v.paso

/-- The blocks that a call may fill; `lib.rs:126–130`. -/
def bloquesDe (buf : Bytes) (bloques_max : UInt16) : Nat :=
  min (min (buf.length / BLOQUE) bloques_max.toNat) 0xFFFF

/-- `lib.rs:122–167`. -/
def Rango.siguiente (r : Rango) (buf : Bytes) (bloques_max : UInt16) :
    Rango × Bytes × Option Tanda :=
  if r.vacio then (r, buf, none)
  else if buf.length / BLOQUE = 0 ∨ bloques_max = 0 then (r, buf, none)
  else
    let bloques := bloquesDe buf bloques_max
    let sitio := bloques * BLOQUE
    let v := llena (bloques * POR_BLOQUE) ⟨r, zeros sitio ++ buf.drop sitio, 0, 0⟩
    let usados := max ((v.escritos + POR_BLOQUE - 1) / POR_BLOQUE) 1
    (v.rango, v.buf, some ⟨usados % 2 ^ 16, v.escritos % 2 ^ 16, v.cubiertos⟩)

/-- The `n`-th descriptor of a buffer: its first sector, and how many; `lib.rs:187–195`. -/
def descriptor (buf : Bytes) (n : Nat) : Nat × Nat :=
  (leNat (slice buf (n * DESCRIPTOR) 6), leNat (slice buf (n * DESCRIPTOR + 6) 2))

/-! ### The ranges that are written -/

/-- Up to `n` ranges of a descriptor each. -/
def trozos : Nat → Rango → List (Nat × Nat)
  | 0, _ => []
  | n + 1, r => if r.vacio then [] else (r.lba, r.trozo) :: trozos n r.sigue

/-- What is left after them. -/
def tras : Nat → Rango → Rango
  | 0, r => r
  | n + 1, r => if r.vacio then r else tras n r.sigue

/-- A descriptor. -/
def codifica (d : Nat × Nat) : Bytes := (leBytes 8 d.1).take 6 ++ leBytes 2 d.2

private theorem length_codifica (d : Nat × Nat) : (codifica d).length = DESCRIPTOR := by
  simp [codifica, DESCRIPTOR]

private theorem splice_append {pre mid x : Bytes} {o : Nat} (h : o = pre.length) :
    splice (pre ++ mid) o x = pre ++ (x ++ mid.drop x.length) := by
  rw [splice, h, List.take_left, List.drop_length_add_append, List.append_assoc]

/-- **One descriptor goes after those that are there.** -/
theorem paso_buf {v : Vuelta} {pre mid : Bytes} (hbuf : v.buf = pre ++ mid)
    (hpre : v.escritos * DESCRIPTOR = pre.length) :
    v.paso.buf = pre ++ codifica (v.rango.lba, v.rango.trozo) ++ mid.drop DESCRIPTOR := by
  have hseis : ((leBytes 8 v.rango.lba).take 6).length = 6 := by simp
  unfold Vuelta.paso
  dsimp only
  rw [hbuf, splice_append hpre, ← List.append_assoc, splice_append (by
    rw [List.length_append, hseis, hpre])]
  rw [hseis, length_leBytes, List.drop_drop]
  simp only [codifica, List.append_assoc, DESCRIPTOR]

private theorem llena_eq (n : Nat) {v : Vuelta} {pre mid : Bytes} (hbuf : v.buf = pre ++ mid)
    (hpre : v.escritos * DESCRIPTOR = pre.length) :
    llena n v = ⟨tras n v.rango,
      pre ++ (trozos n v.rango).flatMap codifica ++
        mid.drop (DESCRIPTOR * (trozos n v.rango).length),
      v.escritos + (trozos n v.rango).length,
      v.cubiertos + ((trozos n v.rango).map Prod.snd).sum⟩ := by
  induction n generalizing v pre mid with
  | zero =>
    obtain ⟨r, buf, e, c⟩ := v
    cases hbuf
    simp [llena, tras, trozos]
  | succ n ih =>
    unfold llena tras trozos
    by_cases hv : v.rango.vacio
    · obtain ⟨r, buf, e, c⟩ := v
      cases hbuf
      simp [if_pos hv]
    · simp only [if_neg hv]
      have hlen : v.paso.escritos * DESCRIPTOR =
          (pre ++ codifica (v.rango.lba, v.rango.trozo)).length := by
        rw [List.length_append, length_codifica, ← hpre]
        exact Nat.succ_mul _ _
      rw [ih (paso_buf hbuf hpre) hlen]
      have hrango : v.paso.rango = v.rango.sigue := rfl
      have hescritos : v.paso.escritos = v.escritos + 1 := rfl
      have hcubiertos : v.paso.cubiertos = v.cubiertos + v.rango.trozo := rfl
      rw [hrango, hescritos, hcubiertos, List.drop_drop, List.flatMap_cons, List.length_cons,
        List.map_cons, List.sum_cons]
      congr 1
      · rw [Nat.mul_succ, Nat.add_comm DESCRIPTOR]
        simp only [List.append_assoc]
      · omega
      · omega

/-! ### What a disk forgets -/

variable {r : Rango}

/-! ### Ranges one after another -/

/-- Ranges of a descriptor each, from a sector to another without holes. -/
def Seguidos : Nat → List (Nat × Nat) → Nat → Prop
  | lba, [], fin => lba = fin
  | lba, d :: ds, fin =>
    d.1 = lba ∧ 0 < d.2 ∧ d.2 ≤ MAX_POR_DESCRIPTOR ∧ Seguidos (lba + d.2) ds fin

theorem Seguidos.append {lba medio fin : Nat} {ds es : List (Nat × Nat)}
    (h : Seguidos lba ds medio) (h' : Seguidos medio es fin) : Seguidos lba (ds ++ es) fin := by
  induction ds generalizing lba with
  | nil =>
    cases h
    exact h'
  | cons d ds ih =>
    obtain ⟨hd, hpos, hmax, hrest⟩ := h
    exact ⟨hd, hpos, hmax, ih hrest⟩

theorem Seguidos.fin_eq {lba fin : Nat} {ds : List (Nat × Nat)} (h : Seguidos lba ds fin) :
    fin = lba + (ds.map Prod.snd).sum := by
  induction ds generalizing lba with
  | nil => exact h.symm
  | cons d ds ih =>
    obtain ⟨-, -, -, hrest⟩ := h
    rw [ih hrest, List.map_cons, List.sum_cons, Nat.add_assoc]

/-- They cover what is between both sectors, and nothing else. -/
theorem Seguidos.cubre {lba fin : Nat} {ds : List (Nat × Nat)} (h : Seguidos lba ds fin) (x : Nat) :
    (∃ d ∈ ds, d.1 ≤ x ∧ x < d.1 + d.2) ↔ lba ≤ x ∧ x < fin := by
  induction ds generalizing lba with
  | nil =>
    cases h
    simp
  | cons d ds ih =>
    obtain ⟨hd, hpos, -, hrest⟩ := h
    have hfin := hrest.fin_eq
    simp only [List.mem_cons, exists_eq_or_imp, ih hrest]
    omega

private theorem Seguidos.of_mem {lba fin : Nat} {ds : List (Nat × Nat)} (h : Seguidos lba ds fin)
    {d : Nat × Nat} (hd : d ∈ ds) : 0 < d.2 ∧ d.2 ≤ MAX_POR_DESCRIPTOR ∧ d.1 + d.2 ≤ fin := by
  induction ds generalizing lba with
  | nil => cases hd
  | cons e ds ih =>
    obtain ⟨he, hpos, hmax, hrest⟩ := h
    rcases List.mem_cons.mp hd with rfl | hd
    · have hfin := hrest.fin_eq
      exact ⟨hpos, hmax, by omega⟩
    · exact ih hrest hd

theorem seguidos_trozos (n : Nat) (r : Rango) : Seguidos r.lba (trozos n r) (tras n r).lba := by
  induction n generalizing r with
  | zero => rfl
  | succ n ih =>
    unfold trozos tras
    by_cases hv : r.vacio
    · rw [if_pos hv, if_pos hv]
      rfl
    · rw [if_neg hv, if_neg hv]
      refine ⟨rfl, ?_, Nat.min_le_right _ _, ih r.sigue⟩
      exact lt_min (Nat.pos_of_ne_zero hv) (by decide)

private theorem tras_fin (n : Nat) (r : Rango) :
    (tras n r).lba + (tras n r).sectores = r.lba + r.sectores := by
  induction n generalizing r with
  | zero => rfl
  | succ n ih =>
    unfold tras
    split
    · rfl
    · rw [ih]
      have hle : r.trozo ≤ r.sectores := Nat.min_le_left _ _
      change r.lba + r.trozo + (r.sectores - r.trozo) = r.lba + r.sectores
      omega

private theorem sectores_tras (n : Nat) (r : Rango) :
    (tras n r).sectores = r.sectores - n * MAX_POR_DESCRIPTOR := by
  induction n generalizing r with
  | zero => simp [tras]
  | succ n ih =>
    unfold tras
    split
    next hv =>
      unfold Rango.vacio at hv
      omega
    next =>
      rw [ih]
      change r.sectores - min r.sectores MAX_POR_DESCRIPTOR - _ = _
      rw [Nat.succ_mul]
      omega

private theorem length_trozos_le (n : Nat) (r : Rango) : (trozos n r).length ≤ n := by
  induction n generalizing r with
  | zero => exact le_rfl
  | succ n ih =>
    unfold trozos
    split
    · exact Nat.zero_le _
    · exact Nat.succ_le_succ (ih r.sigue)

private theorem length_trozos_le_iff {n k : Nat} (hk : k < n) (r : Rango) :
    (trozos n r).length ≤ k ↔ r.sectores ≤ k * MAX_POR_DESCRIPTOR := by
  induction n generalizing r k with
  | zero => exact absurd hk (Nat.not_lt_zero k)
  | succ n ih =>
    unfold trozos
    by_cases hv : r.vacio
    · rw [if_pos hv]
      unfold Rango.vacio at hv
      rw [hv]
      simp
    · rw [if_neg hv, List.length_cons]
      cases k with
      | zero =>
        unfold Rango.vacio at hv
        simp [hv]
      | succ k =>
        have hsig := ih (Nat.lt_of_succ_lt_succ hk) r.sigue
        rw [Nat.succ_le_succ_iff, hsig, Nat.succ_mul]
        change r.sectores - min r.sectores MAX_POR_DESCRIPTOR ≤ _ ↔ _
        omega

/-! ### A call -/

private theorem drop_zeros {n k : Nat} (h : k ≤ n) (b : Bytes) :
    (zeros n ++ b).drop k = zeros (n - k) ++ b := by
  rw [List.drop_append_of_le_length (by rw [length_zeros]; exact h), zeros, List.drop_replicate]
  rfl

private theorem leNat_zeros (n : Nat) : leNat (zeros n) = 0 := by
  induction n with
  | zero => rfl
  | succ n ih =>
    rw [zeros, List.replicate_succ, leNat]
    change 0 + 256 * leNat (zeros n) = 0
    rw [ih]

/-- A descriptor that was written. -/
theorem descriptor_codifica {ds : List (Nat × Nat)} (resto : Bytes) {k : Nat} (hk : k < ds.length)
    (hlba : ds[k].1 < 2 ^ 48) (hlargo : ds[k].2 < 2 ^ 16) :
    descriptor (ds.flatMap codifica ++ resto) k = ds[k] := by
  have hslice := slice_flatMap length_codifica ds resto hk
  have hsub (p m : Nat) (h : p + m ≤ DESCRIPTOR) :
      slice (ds.flatMap codifica ++ resto) (DESCRIPTOR * k + p) m = slice (codifica ds[k]) p m := by
    rw [← hslice, slice_slice h]
  have hseis : ((leBytes 8 ds[k].1).take 6).length = 6 := by simp
  have h1 : slice (codifica ds[k]) 0 6 = (leBytes 8 ds[k].1).take 6 := by
    unfold codifica
    rw [slice_append_left (by rw [hseis]), slice_self (by rw [hseis])]
  have h2 : slice (codifica ds[k]) 6 2 = leBytes 2 ds[k].2 := by
    unfold codifica
    rw [slice_append_right (by rw [hseis]), hseis, slice_self (by rw [length_leBytes])]
  unfold descriptor
  rw [Nat.mul_comm k, hsub 6 2 (by decide), h2, ← Nat.add_zero (DESCRIPTOR * k),
    hsub 0 6 (by decide), h1, leNat_take, leNat_leBytes, leNat_leBytes]
  rw [Nat.mod_mod_of_dvd _ (Nat.pow_dvd_pow 256 (by decide)), Nat.mod_eq_of_lt (by omega), Nat.mod_eq_of_lt (by omega)]

/-- A descriptor that was not. -/
theorem descriptor_zeros {ds : List (Nat × Nat)} (resto : Bytes) {n k : Nat} (hk : ds.length ≤ k)
    (hn : (k + 1) * DESCRIPTOR ≤ n) :
    descriptor (ds.flatMap codifica ++ (zeros (n - DESCRIPTOR * ds.length) ++ resto)) k =
      (0, 0) := by
  have hlen := length_flatMap_const length_codifica ds
  have hslice (p m : Nat) (h : p + m ≤ DESCRIPTOR) :
      slice (ds.flatMap codifica ++ (zeros (n - DESCRIPTOR * ds.length) ++ resto))
        (k * DESCRIPTOR + p) m = zeros m := by
    have hpos : DESCRIPTOR * ds.length ≤ k * DESCRIPTOR := by
      rw [Nat.mul_comm k]
      exact Nat.mul_le_mul_left _ hk
    rw [Nat.succ_mul] at hn
    rw [slice_append_right (by rw [hlen]; omega), hlen,
      slice_append_left (by rw [length_zeros]; omega), slice, zeros, List.drop_replicate,
      List.take_replicate, zeros]
    congr 1
    omega
  unfold descriptor
  rw [hslice 6 2 (by decide), ← Nat.add_zero (k * DESCRIPTOR), hslice 0 6 (by decide), leNat_zeros,
    leNat_zeros]

/-- What a call answers. -/
structure Entrega (r : Rango) (buf : Bytes) (bloques_max : UInt16) (ds : List (Nat × Nat)) :
    Prop where
  rangos : ds = trozos (bloquesDe buf bloques_max * POR_BLOQUE) r
  siguiente : r.siguiente buf bloques_max =
    (tras (bloquesDe buf bloques_max * POR_BLOQUE) r,
      ds.flatMap codifica ++ (zeros (bloquesDe buf bloques_max * BLOQUE - DESCRIPTOR * ds.length) ++
        buf.drop (bloquesDe buf bloques_max * BLOQUE)),
      some ⟨max ((ds.length + POR_BLOQUE - 1) / POR_BLOQUE) 1, ds.length % 2 ^ 16,
        (ds.map Prod.snd).sum⟩)
  cabe : ds.length ≤ bloquesDe buf bloques_max * POR_BLOQUE
  bloques : max ((ds.length + POR_BLOQUE - 1) / POR_BLOQUE) 1 ≤ bloquesDe buf bloques_max

theorem entrega {buf : Bytes} {bloques_max : UInt16} (hv : ¬ r.vacio)
    (hbuf : ¬ (buf.length / BLOQUE = 0 ∨ bloques_max = 0)) :
    Entrega r buf bloques_max (trozos (bloquesDe buf bloques_max * POR_BLOQUE) r) := by
  have hlen := length_trozos_le (bloquesDe buf bloques_max * POR_BLOQUE) r
  have hpos : 1 ≤ bloquesDe buf bloques_max := by
    rw [not_or] at hbuf
    have hmax : bloques_max.toNat ≠ 0 := fun h ↦ hbuf.2 (UInt16.toNat_inj.mp h)
    exact le_min (le_min (Nat.pos_of_ne_zero hbuf.1) (Nat.pos_of_ne_zero hmax)) (by decide)
  have husados : max (((trozos (bloquesDe buf bloques_max * POR_BLOQUE) r).length +
      POR_BLOQUE - 1) / POR_BLOQUE) 1 ≤ bloquesDe buf bloques_max := by
    refine max_le ?_ hpos
    rw [← Nat.lt_succ_iff, Nat.div_lt_iff_lt_mul (by decide), Nat.succ_mul]
    have hbloque : POR_BLOQUE = 64 := rfl
    omega
  have hfin : bloquesDe buf bloques_max ≤ 0xFFFF := Nat.min_le_right _ _
  refine ⟨rfl, ?_, hlen, husados⟩
  unfold Rango.siguiente
  rw [if_neg hv, if_neg hbuf]
  dsimp only
  have hllena := llena_eq (bloquesDe buf bloques_max * POR_BLOQUE)
    (v := ⟨r, zeros (bloquesDe buf bloques_max * BLOQUE) ++
      buf.drop (bloquesDe buf bloques_max * BLOQUE), 0, 0⟩) (List.nil_append _).symm (by simp)
  have hsitio : DESCRIPTOR * (trozos (bloquesDe buf bloques_max * POR_BLOQUE) r).length ≤
      bloquesDe buf bloques_max * BLOQUE := by
    refine (Nat.mul_le_mul_left DESCRIPTOR hlen).trans ?_
    simp only [DESCRIPTOR, POR_BLOQUE, BLOQUE]
    omega
  rw [hllena, drop_zeros hsitio]
  simp only [List.nil_append, Nat.zero_add]
  rw [Nat.mod_eq_of_lt (a := max _ 1) (by omega)]

/-! ### A run -/

/-- What a call is given. -/
structure Llamada where
  buf : Bytes
  bloques_max : UInt16

/-- A call, with the range before and after it, the buffer that it leaves and its answer. -/
structure Orden where
  antes : Rango
  llamada : Llamada
  despues : Rango
  buf : Bytes
  tanda : Option Tanda

def Rango.orden (r : Rango) (c : Llamada) : Orden :=
  let (despues, buf, tanda) := r.siguiente c.buf c.bloques_max
  ⟨r, c, despues, buf, tanda⟩

@[simp] theorem orden_antes (r : Rango) (c : Llamada) : (r.orden c).antes = r := rfl

@[simp] theorem orden_llamada (r : Rango) (c : Llamada) : (r.orden c).llamada = c := rfl

/-- The calls, one after another. -/
def corre : Rango → List Llamada → List Orden
  | _, [] => []
  | r, c :: cs => r.orden c :: corre (r.orden c).despues cs

/-- The range after them. -/
def queda : Rango → List Llamada → Rango
  | r, [] => r
  | r, c :: cs => queda (r.orden c).despues cs

/-- The first `descriptores` descriptors of a call. -/
def Orden.dados (p : Orden) : List (Nat × Nat) :=
  p.tanda.elim [] fun t ↦ (List.range t.descriptores).map (descriptor p.buf)

/-- The descriptors of a call fit in their count. -/
def Orden.Cuenta (p : Orden) : Prop :=
  bloquesDe p.llamada.buf p.llamada.bloques_max * POR_BLOQUE < 2 ^ 16 ∨
    p.antes.sectores ≤ MAX_POR_DESCRIPTOR * MAX_POR_DESCRIPTOR

/-- What a call does, as its caller reads it. -/
structure Orden.Exacta (p : Orden) : Prop where
  nada : p.tanda = none → p.despues = p.antes
  llenos : ∀ t, p.tanda = some t → t.bloques * BLOQUE ≤ p.buf.length ∧
    t.descriptores ≤ t.bloques * POR_BLOQUE ∧
    ∀ k < t.bloques * POR_BLOQUE, descriptor p.buf k ≠ (0, 0) ↔ k < t.descriptores
  sectores : ∀ t, p.tanda = some t → t.sectores = (p.dados.map Prod.snd).sum

private theorem orden_none {c : Llamada}
    (h : r.vacio ∨ c.buf.length / BLOQUE = 0 ∨ c.bloques_max = 0) :
    r.orden c = ⟨r, c, r, c.buf, none⟩ := by
  unfold Rango.orden Rango.siguiente
  by_cases hv : r.vacio
  · rw [if_pos hv]
  · rw [if_neg hv, if_pos (h.resolve_left hv)]

private theorem mem_trozos {n : Nat} {d : Nat × Nat} (hd : d ∈ trozos n r) :
    d.1 < 2 ^ 48 ∧ 0 < d.2 ∧ d.2 < 2 ^ 16 := by
  obtain ⟨hpos, hmax, hfin⟩ := (seguidos_trozos n r).of_mem hd
  have hcabe := (tras n r).cabe
  have hlba : MAX_LBA = 2 ^ 48 := rfl
  have hlargo : MAX_POR_DESCRIPTOR = 2 ^ 16 - 1 := rfl
  omega

/-- **A call that answers**: which of its descriptors are there. -/
theorem descriptor_orden {c : Llamada} {ds : List (Nat × Nat)}
    (h : Entrega r c.buf c.bloques_max ds) {k : Nat} :
    (∀ hk : k < ds.length, descriptor (r.orden c).buf k = ds[k]) ∧
      (ds.length ≤ k → k < bloquesDe c.buf c.bloques_max * POR_BLOQUE →
        descriptor (r.orden c).buf k = (0, 0)) := by
  have hbuf : (r.orden c).buf = _ := congrArg (fun x ↦ x.2.1) h.siguiente
  rw [hbuf]
  constructor
  · intro hk
    have hmem : ds[k] ∈ trozos (bloquesDe c.buf c.bloques_max * POR_BLOQUE) r := by
      rw [← h.rangos]
      exact List.getElem_mem hk
    obtain ⟨hlba, -, hlargo⟩ := mem_trozos hmem
    exact descriptor_codifica _ hk hlba hlargo
  · intro hk hlt
    refine descriptor_zeros _ hk ?_
    simp only [DESCRIPTOR, BLOQUE, POR_BLOQUE] at hlt ⊢
    omega

theorem tanda_orden {c : Llamada} {ds : List (Nat × Nat)} (h : Entrega r c.buf c.bloques_max ds) :
    (r.orden c).tanda = some ⟨max ((ds.length + POR_BLOQUE - 1) / POR_BLOQUE) 1, ds.length % 2 ^ 16,
      (ds.map Prod.snd).sum⟩ :=
  congrArg (fun x ↦ x.2.2) h.siguiente

private theorem despues_orden {c : Llamada} {ds : List (Nat × Nat)}
    (h : Entrega r c.buf c.bloques_max ds) :
    (r.orden c).despues = tras (bloquesDe c.buf c.bloques_max * POR_BLOQUE) r :=
  congrArg (fun x ↦ x.1) h.siguiente

/-- Where the count fits, the descriptors of a call are those that it wrote. -/
theorem dados_orden {c : Llamada} {ds : List (Nat × Nat)} (h : Entrega r c.buf c.bloques_max ds)
    (hcuenta : ds.length < 2 ^ 16) : (r.orden c).dados = ds := by
  unfold Orden.dados
  rw [tanda_orden h, Option.elim_some, Nat.mod_eq_of_lt hcuenta]
  apply List.ext_getElem
  · rw [List.length_map, List.length_range]
  · intro k hk hk'
    rw [List.getElem_map, List.getElem_range]
    exact (descriptor_orden h).1 hk'

theorem cuenta_iff {c : Llamada} {ds : List (Nat × Nat)} (h : Entrega r c.buf c.bloques_max ds) :
    (r.orden c).Cuenta ↔ ds.length < 2 ^ 16 := by
  change bloquesDe c.buf c.bloques_max * POR_BLOQUE < 2 ^ 16 ∨
    r.sectores ≤ MAX_POR_DESCRIPTOR * MAX_POR_DESCRIPTOR ↔ _
  have hcabe := h.cabe
  by_cases hlt : bloquesDe c.buf c.bloques_max * POR_BLOQUE < 2 ^ 16
  · exact ⟨fun _ ↦ by omega, fun _ ↦ .inl hlt⟩
  · have hmax : MAX_POR_DESCRIPTOR < bloquesDe c.buf c.bloques_max * POR_BLOQUE :=
      (by decide : MAX_POR_DESCRIPTOR < 2 ^ 16).trans_le (not_lt.mp hlt)
    rw [or_iff_right hlt, ← length_trozos_le_iff hmax r, ← h.rangos]
    exact Nat.lt_succ_iff.symm

theorem le_usados (n : Nat) : n ≤ max ((n + POR_BLOQUE - 1) / POR_BLOQUE) 1 * POR_BLOQUE := by
  have hle := Nat.le_max_left ((n + POR_BLOQUE - 1) / POR_BLOQUE) 1
  simp only [POR_BLOQUE, BLOQUE, DESCRIPTOR] at hle ⊢
  omega

/-- **A call is as its caller reads it where the count fits.** -/
theorem exacta_orden (r : Rango) (c : Llamada) : (r.orden c).Exacta ↔ (r.orden c).Cuenta := by
  by_cases hnada : r.vacio ∨ c.buf.length / BLOQUE = 0 ∨ c.bloques_max = 0
  · have hcuenta : (r.orden c).Cuenta := by
      rw [orden_none hnada]
      unfold Orden.Cuenta bloquesDe
      rcases hnada with hv | hbuf | hmax
      · unfold Rango.vacio at hv
        exact .inr (by rw [hv]; exact Nat.zero_le _)
      · exact .inl (by rw [hbuf]; simp)
      · exact .inl (by rw [hmax]; simp)
    refine iff_of_true ?_ hcuenta
    rw [orden_none hnada]
    refine ⟨fun _ ↦ rfl, fun t ht ↦ ?_, fun t ht ↦ ?_⟩
    · cases ht
    · cases ht
  · rw [not_or] at hnada
    have h := entrega hnada.1 hnada.2
    rw [cuenta_iff h]
    generalize hds : trozos (bloquesDe c.buf c.bloques_max * POR_BLOQUE) r = ds at h ⊢
    have htanda := tanda_orden h
    have hle := le_usados ds.length
    have hroom : max ((ds.length + POR_BLOQUE - 1) / POR_BLOQUE) 1 * POR_BLOQUE ≤
        bloquesDe c.buf c.bloques_max * POR_BLOQUE := Nat.mul_le_mul_right _ h.bloques
    -- one that was written is not zero
    have hpos {k : Nat} (hk : k < ds.length) : descriptor (r.orden c).buf k ≠ (0, 0) := by
      rw [(descriptor_orden h).1 hk]
      intro hzero
      have hmem : ds[k] ∈ trozos (bloquesDe c.buf c.bloques_max * POR_BLOQUE) r := by
        rw [hds]
        exact List.getElem_mem hk
      have hlargo := (mem_trozos hmem).2.1
      rw [hzero] at hlargo
      exact Nat.lt_irrefl 0 hlargo
    constructor
    · intro hexacta
      by_contra hcuenta
      have hmod : ds.length % 2 ^ 16 < ds.length :=
        (Nat.mod_lt _ (by decide)).trans_le (not_lt.mp hcuenta)
      obtain ⟨-, -, hllenos⟩ := hexacta.llenos _ htanda
      exact Nat.lt_irrefl _ ((hllenos (ds.length % 2 ^ 16) (hmod.trans_le hle)).mp (hpos hmod))
    · intro hcuenta
      refine ⟨fun hno ↦ ?_, fun t ht ↦ ?_, fun t ht ↦ ?_⟩
      · rw [htanda] at hno
        cases hno
      · rw [htanda] at ht
        cases ht
        dsimp only
        rw [Nat.mod_eq_of_lt hcuenta]
        refine ⟨?_, hle, fun k hk ↦ ⟨fun hne ↦ ?_, hpos⟩⟩
        · have hbuf : (r.orden c).buf = _ := congrArg (fun x ↦ x.2.1) h.siguiente
          have hsitio : DESCRIPTOR * ds.length ≤ bloquesDe c.buf c.bloques_max * BLOQUE := by
            refine (Nat.mul_le_mul_left DESCRIPTOR h.cabe).trans ?_
            simp only [DESCRIPTOR, POR_BLOQUE, BLOQUE]
            omega
          rw [hbuf, List.length_append, List.length_append, length_zeros,
            length_flatMap_const length_codifica]
          have hbloques := Nat.mul_le_mul_right BLOQUE h.bloques
          omega
        · by_contra hno
          exact hne ((descriptor_orden h).2 (not_lt.mp hno) (hk.trans_le hroom))
      · rw [htanda] at ht
        cases ht
        rw [dados_orden h hcuenta]

/-! ### What the disk forgets -/

/-- The descriptors of a run. -/
def olvidados (r : Rango) (cs : List Llamada) : List (Nat × Nat) := (corre r cs).flatMap Orden.dados

/-- The disk forgets what it was told to. -/
structure Olvida (lba sectores : Nat) (r : Rango) (cs : List Llamada) : Prop where
  exactas : ∀ p ∈ corre r cs, p.Exacta
  seguidos : Seguidos lba (olvidados r cs) (queda r cs).lba
  cubre : (queda r cs).vacio → ∀ x,
    (∃ d ∈ olvidados r cs, d.1 ≤ x ∧ x < d.1 + d.2) ↔ lba ≤ x ∧ x < lba + sectores
  ordenes : ∀ b : UInt16, (∀ c ∈ cs, b.toNat * BLOQUE ≤ c.buf.length ∧ c.bloques_max = b) →
    (queda r cs).vacio → ((corre r cs).filter (·.tanda.isSome)).length = r.ordenes b

private theorem seguidos_olvidados (cs : List Llamada) (h : ∀ p ∈ corre r cs, p.Cuenta) :
    Seguidos r.lba (olvidados r cs) (queda r cs).lba := by
  induction cs generalizing r with
  | nil => rfl
  | cons c cs ih =>
    obtain ⟨hc, hcs⟩ := List.forall_mem_cons.mp h
    refine Seguidos.append ?_ (ih hcs)
    by_cases hnada : r.vacio ∨ c.buf.length / BLOQUE = 0 ∨ c.bloques_max = 0
    · rw [orden_none hnada]
      rfl
    · rw [not_or] at hnada
      have hent := entrega hnada.1 hnada.2
      rw [dados_orden hent ((cuenta_iff hent).mp hc), despues_orden hent]
      exact seguidos_trozos _ r

private theorem queda_fin (r : Rango) (cs : List Llamada) :
    (queda r cs).lba + (queda r cs).sectores = r.lba + r.sectores := by
  induction cs generalizing r with
  | nil => rfl
  | cons c cs ih =>
    rw [queda, ih]
    by_cases hnada : r.vacio ∨ c.buf.length / BLOQUE = 0 ∨ c.bloques_max = 0
    · rw [orden_none hnada]
    · rw [not_or] at hnada
      rw [despues_orden (entrega hnada.1 hnada.2), tras_fin]

private theorem div_ceil_sub {s p : Nat} (hs : 0 < s) (hp : 0 < p) :
    (s + p - 1) / p = (s - p + p - 1) / p + 1 := by
  by_cases hle : s ≤ p
  · rw [Nat.sub_eq_zero_of_le hle, Nat.zero_add, Nat.div_eq_of_lt (a := p - 1) (by omega),
      Nat.div_eq_iff hp]
    omega
  · rw [← Nat.add_div_right _ hp]
    congr 1
    omega

/-- **How many orders a range takes.** -/
theorem length_ordenes {b : UInt16} (cs : List Llamada)
    (hcs : ∀ c ∈ cs, b.toNat * BLOQUE ≤ c.buf.length ∧ c.bloques_max = b)
    (hfin : (queda r cs).vacio) :
    ((corre r cs).filter (·.tanda.isSome)).length = r.ordenes b := by
  induction cs generalizing r with
  | nil =>
    have hcero : r.ordenes b = 0 := by
      unfold Rango.ordenes
      exact if_pos (.inl hfin)
    rw [hcero]
    rfl
  | cons c cs ih =>
    obtain ⟨⟨hbuf, hmax⟩, hcs⟩ := List.forall_mem_cons.mp hcs
    have hsig := ih hcs hfin
    rw [corre, List.filter_cons]
    by_cases hnada : r.vacio ∨ c.buf.length / BLOQUE = 0 ∨ c.bloques_max = 0
    · rw [orden_none hnada] at hsig ⊢
      rw [if_neg (by simp), hsig]
    · have hnada' := not_or.mp hnada
      have hent := entrega hnada'.1 hnada'.2
      rw [despues_orden hent] at hsig ⊢
      have hb0 : b ≠ 0 := fun h ↦ hnada'.2 (.inr (hmax.trans h))
      have hb : 0 < b.toNat := Nat.pos_of_ne_zero fun h ↦ hb0 (UInt16.toNat_inj.mp h)
      have hbloques : bloquesDe c.buf c.bloques_max = b.toNat := by
        have hdiv : b.toNat ≤ c.buf.length / BLOQUE :=
          (Nat.le_div_iff_mul_le (by decide)).mpr hbuf
        have hlt := b.toNat_lt
        unfold bloquesDe
        rw [hmax]
        omega
      rw [tanda_orden hent, if_pos Option.isSome_some, List.length_cons, hsig, hbloques]
      have hpor : 0 < b.toNat * POR_BLOQUE * MAX_POR_DESCRIPTOR :=
        Nat.mul_pos (Nat.mul_pos hb (by decide)) (by decide)
      have htras := sectores_tras (b.toNat * POR_BLOQUE) r
      have hv : 0 < r.sectores := Nat.pos_of_ne_zero hnada'.1
      have hlleno : r.ordenes b = (r.sectores + b.toNat * POR_BLOQUE * MAX_POR_DESCRIPTOR - 1) /
          (b.toNat * POR_BLOQUE * MAX_POR_DESCRIPTOR) := by
        unfold Rango.ordenes
        exact if_neg (not_or.mpr ⟨hnada'.1, hb0⟩)
      rw [hlleno, div_ceil_sub hv hpor, ← htras]
      unfold Rango.ordenes
      by_cases hvacio : (tras (b.toNat * POR_BLOQUE) r).vacio
      · rw [if_pos (.inl hvacio)]
        unfold Rango.vacio at hvacio
        rw [hvacio, Nat.zero_add, Nat.div_eq_of_lt (by omega)]
      · rw [if_neg (not_or.mpr ⟨hvacio, hb0⟩)]

private theorem mem_corre {cs : List Llamada} {p : Orden} (hp : p ∈ corre r cs) :
    ∃ r', ∃ c ∈ cs, p = Rango.orden r' c := by
  induction cs generalizing r with
  | nil => cases hp
  | cons c cs ih =>
    rcases List.mem_cons.mp hp with rfl | hp
    · exact ⟨r, c, List.mem_cons_self, rfl⟩
    · obtain ⟨r', c', hc', hp⟩ := ih hp
      exact ⟨r', c', List.mem_cons_of_mem _ hc', hp⟩

/-- **The disk forgets what it was told to**, where the descriptors of each order fit in their
count. -/
theorem olvida_iff {lba sectores : UInt64} (h : Rango.nuevo lba sectores = some r)
    (cs : List Llamada) :
    Olvida lba.toNat sectores.toNat r cs ↔ ∀ p ∈ corre r cs, p.Cuenta := by
  have hr : r.lba = lba.toNat ∧ r.sectores = sectores.toNat := by
    unfold Rango.nuevo at h
    split_ifs at h
    cases h
    exact ⟨rfl, rfl⟩
  constructor
  · intro holvida p hp
    have hexacta := holvida.exactas p hp
    obtain ⟨r', c, -, rfl⟩ := mem_corre hp
    exact (exacta_orden r' c).mp hexacta
  · intro hcuenta
    have hseguidos := seguidos_olvidados cs hcuenta
    rw [hr.1] at hseguidos
    refine ⟨fun p hp ↦ ?_, hseguidos, fun hv x ↦ ?_, fun b hb hv ↦ length_ordenes cs hb hv⟩
    · have hc := hcuenta p hp
      obtain ⟨r', c, -, rfl⟩ := mem_corre hp
      exact (exacta_orden r' c).mpr hc
    · have hfin := queda_fin r cs
      unfold Rango.vacio at hv
      rw [hseguidos.cubre x]
      omega

set_option maxRecDepth 4096 in
/-- A range of two descriptors, in an order of one block, and a call that finds nothing left. -/
theorem olvida_dos : Olvida 1000 70000 ⟨1000, 70000, by decide⟩
    [⟨zeros 512, 1⟩, ⟨zeros 512, 1⟩] := by
  have hnuevo : Rango.nuevo 1000 70000 = some ⟨1000, 70000, by decide⟩ := by decide
  refine (olvida_iff hnuevo _).mpr fun p hp ↦ ?_
  obtain ⟨r', c, hc, rfl⟩ := mem_corre hp
  have hllamada : c = ⟨zeros 512, 1⟩ := by simpa using hc
  left
  rw [orden_llamada, hllamada]
  decide

/-- An order of 65536 descriptors says that it has none. -/
theorem olvida_vuelta : ¬ ∀ (lba sectores : UInt64) (r : Rango) (cs : List Llamada),
    Rango.nuevo lba sectores = some r → Olvida lba.toNat sectores.toNat r cs := by
  intro hall
  have hnuevo : Rango.nuevo 0 4294836226 = some ⟨0, 4294836226, by decide⟩ := by decide
  obtain ⟨buf, hbuf⟩ : ∃ buf, bloquesDe buf 1024 = 1024 := by
    refine ⟨zeros 524288, ?_⟩
    unfold bloquesDe
    rw [length_zeros]
    decide
  have holvida := hall 0 4294836226 _ [⟨buf, 1024⟩] hnuevo
  have hexacta := holvida.exactas _ List.mem_cons_self
  rw [exacta_orden, Orden.Cuenta, orden_llamada, orden_antes, hbuf] at hexacta
  exact absurd hexacta (by decide)

end BmoX.Trim
