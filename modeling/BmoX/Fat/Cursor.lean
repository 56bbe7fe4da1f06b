import BmoX.Fat.Lectura

/-!
# Reading a file by ranges, and the three ways to read it

`leer_en` reads from any byte. Its cursor knows the cluster it stands in and goes forward only: a
range that starts before that cluster is refused. A range is cut in each cluster into the end of a
sector, whole sectors and the beginning of one.
-/

namespace BmoX.Fat

open BmoX.Base

/-- `Cursor`: the cluster, and the byte of the file where it starts. -/
structure Cursor where
  cluster : UInt32
  base : Nat

namespace FatVolume

variable (v : FatVolume)

/-- `cursor`. -/
def cursor (_ : FatVolume) (primerCluster : UInt32) : Cursor := ⟨primerCluster, 0⟩

/-- The rounds of `situar`, at most as many as the first number. -/
def situarVueltas (offset : Nat) : Nat → Cursor → Estado v → Option (Bool × Cursor × Estado v)
  | 0, _, _ => none
  | k + 1, cur, e =>
    if offset < cur.base + v.delCluster then some (true, cur, e) else
    match v.readFatEntry e cur.cluster with
    | (some c, e) =>
      if 2 ≤ c then situarVueltas offset k ⟨c, cur.base + v.delCluster⟩ e
      else some (false, cur, e)
    | (none, e) => some (false, cur, e)

/-- `situar`. -/
def situar (cur : Cursor) (offset : Nat) (e : Estado v) : Option (Bool × Cursor × Estado v) :=
  if v.delCluster = 0 ∨ offset < cur.base then some (false, cur, e)
  else v.situarVueltas offset (offset - cur.base + 1) cur e

/-- The rounds of `leer_en`, at most as many as the first number. -/
def leerEnVueltas (fin offset : Nat) :
    Nat → Nat → Cursor → Bytes → Estado v → Option (Leido v × Cursor)
  | 0, _, _, _, _ => none
  | k + 1, pos, cur, dst, e =>
    if fin ≤ pos then some (⟨pos - offset, dst, e⟩, cur) else
    match v.situar cur pos e with
    | none => none
    | some (false, cur, e) => some (⟨pos - offset, dst, e⟩, cur)
    | some (true, cur, e) =>
      let dentro := pos - cur.base
      let deEste := min (fin - pos) (v.delCluster - dentro)
      match v.lbaValido cur.cluster with
      | none => some (⟨pos - offset, dst, e⟩, cur)
      | some lba =>
        -- the head: to the end of the sector
        let sector := dentro / 512
        let enSector := dentro % 512
        let n := min (512 - enSector) deEste
        let h := if enSector ≠ 0 then
            v.rebote e (lba + UInt64.ofNat sector) enSector n dst (pos - offset)
          else ⟨true, dst, e⟩
        if !h.ok then some (⟨pos - offset, h.dst, h.estado⟩, cur) else
        let hecho := if enSector ≠ 0 then n else 0
        -- the whole sectors
        let enteros := (deEste - hecho) / 512
        let p := v.leerEnteros h.estado (lba + UInt64.ofNat ((dentro + hecho) / 512)) enteros h.dst
          (pos - offset + hecho)
        if !p.ok then some (⟨pos - offset + hecho, p.dst, p.estado⟩, cur) else
        let hecho := hecho + 512 * enteros
        -- the tail: what is left, less than a sector
        let cola := deEste - hecho
        let q := if 0 < cola then
            v.rebote p.estado (lba + UInt64.ofNat ((dentro + hecho) / 512)) 0 cola p.dst
              (pos - offset + hecho)
          else ⟨true, p.dst, p.estado⟩
        if !q.ok then some (⟨pos - offset + hecho, q.dst, q.estado⟩, cur) else
        let hecho := hecho + cola
        if hecho = 0 then some (⟨pos + hecho - offset, q.dst, q.estado⟩, cur)
        else leerEnVueltas fin offset k (pos + hecho) cur q.dst q.estado

/-- `leer_en`. -/
def leerEn (cur : Cursor) (offset : Nat) (size : UInt32) (dst : Bytes) (e : Estado v) :
    Option (Leido v × Cursor) :=
  if v.delCluster = 0 then some (⟨0, dst, e⟩, cur) else
  let fin := min size.toNat (min (offset + dst.length) (2 ^ 64 - 1))
  if fin ≤ offset then some (⟨0, dst, e⟩, cur) else
  match v.situar cur offset e with
  | none => none
  | some (false, cur, e) => some (⟨0, dst, e⟩, cur)
  | some (true, cur, e) => v.leerEnVueltas fin offset (fin - offset + 1) offset cur dst e

variable {v} {e : Estado v} {c : UInt32} {dst : Bytes} {d : Nat} {cur : Cursor}

/-! ### The cursor -/

/-- The cursor stands in the chain of the file. -/
def Situado (v : FatVolume) (c : UInt32) (cur : Cursor) : Prop :=
  ∃ i, Blocks.At v.siguiente c i cur.cluster ∧ cur.base = i * v.delCluster

private theorem situado_cursor : v.Situado c (v.cursor c) := ⟨0, .head, (Nat.zero_mul _).symm⟩

theorem Situado.next {c' : UInt32} (h : v.Situado c cur) (hs : v.siguiente cur.cluster = some c') :
    v.Situado c ⟨c', cur.base + v.delCluster⟩ := by
  obtain ⟨i, hat, hb⟩ := h
  exact ⟨i + 1, hat.next hs, by rw [hb, Nat.succ_mul]⟩

theorem Situado.valido (h : v.Situado c cur) (hv : v.clusterValido c = true) :
    v.clusterValido cur.cluster = true := by
  obtain ⟨i, hat, -⟩ := h
  cases hat with
  | head => exact hv
  | next _ hn => exact valido_of_siguiente hn

/-- What `situar` answers: where the cursor stands then, and whether `offset` is in that cluster; if
not, it was behind, or the chain ended before. -/
structure Situa (v : FatVolume) (c : UInt32) (cur : Cursor) (offset : Nat) (ok : Bool)
    (cur' : Cursor) : Prop where
  situado : v.Situado c cur'
  base_le : cur.base ≤ cur'.base
  base_max : cur'.base ≤ max cur.base offset
  dentro : ok = true → cur'.base ≤ offset ∧ offset < cur'.base + v.delCluster
  fuera : ok = false → offset < cur.base ∨
    cur'.base + v.delCluster ≤ offset ∧ (v.SinErrores c → v.siguiente cur'.cluster = none)

theorem situarVueltas_situa {offset k : Nat} (hk : offset - cur.base < k) (hb : cur.base ≤ offset)
    (hc : v.Situado c cur) :
    ∃ ok cur' e', v.situarVueltas offset k cur e = some (ok, cur', e') ∧
      Situa v c cur offset ok cur' := by
  induction k generalizing cur e with
  | zero => omega
  | succ k ih =>
    have hpos := @delCluster_pos v
    rw [situarVueltas]
    by_cases hlt : offset < cur.base + v.delCluster
    · refine ⟨true, cur, e, if_pos hlt, hc, le_rfl, le_max_left _ _, fun _ ↦ ⟨hb, hlt⟩, ?_⟩
      intro h
      cases h
    rw [if_neg hlt]
    rcases readFatEntry_cases e cur.cluster with ⟨c', e', hf, hs⟩ | ⟨e', hf, hs⟩
    · have h2 : 2 ≤ c' := by
        have hv := valido_of_siguiente hs
        rw [clusterValido, Bool.and_eq_true, decide_eq_true_eq] at hv
        exact hv.1
      obtain ⟨ok, cur', e'', hrun, hsit⟩ :=
        @ih e' ⟨c', cur.base + v.delCluster⟩ (by dsimp only; omega) (Nat.le_of_not_lt hlt)
          (hc.next hs)
      refine ⟨ok, cur', e'', ?_, hsit.situado, ?_, ?_, hsit.dentro, ?_⟩
      · rw [hf]
        dsimp only
        rw [if_pos h2, hrun]
      · exact (Nat.le_add_right _ _).trans hsit.base_le
      · have hmax := hsit.base_max
        dsimp only at hmax
        omega
      · intro hok
        rcases hsit.fuera hok with h | h
        · dsimp only at h
          omega
        · exact Or.inr h
    · refine ⟨false, cur, e', by rw [hf], hc, le_rfl, le_max_left _ _, ?_, ?_⟩
      · intro h
        cases h
      · intro _
        right
        obtain ⟨i, hat, -⟩ := hc
        exact ⟨Nat.le_of_not_lt hlt, fun h ↦ hs (h i _ hat)⟩

/-- **`situar`** puts the cursor in the cluster of a byte, going along the chain of the file. -/
theorem situar_situa (offset : Nat) (hc : v.Situado c cur) :
    ∃ ok cur' e', v.situar cur offset e = some (ok, cur', e') ∧
      Situa v c cur offset ok cur' := by
  have hpos := @delCluster_pos v
  rw [situar]
  by_cases hb : offset < cur.base
  · refine ⟨false, cur, e, if_pos (Or.inr hb), hc, le_rfl, le_max_left _ _, ?_, fun _ ↦ Or.inl hb⟩
    intro h
    cases h
  · rw [if_neg (by omega)]
    exact situarVueltas_situa (by omega) (by omega) hc

/-! ### A range -/

/-- How much of `m` bytes from `dentro` on is the end of a sector. -/
def aCabeza (dentro m : Nat) : Nat := if dentro % 512 ≠ 0 then min (512 - dentro % 512) m else 0

/-- The head of `m` bytes of a cluster. -/
def cabeza (v : FatVolume) (e : Estado v) (c : UInt32) (dentro m : Nat) (dst : Bytes) (d : Nat) :
    Paso v :=
  if dentro % 512 ≠ 0 then
    v.rebote e (v.clusterToLba c + UInt64.ofNat (dentro / 512)) (dentro % 512)
      (min (512 - dentro % 512) m) dst d
  else ⟨true, dst, e⟩

/-- The whole sectors of `m` bytes of a cluster, past the first `a`. -/
def medio (v : FatVolume) (e : Estado v) (c : UInt32) (dentro m a : Nat) (dst : Bytes) (d : Nat) :
    Paso v :=
  v.leerEnteros e (v.clusterToLba c + UInt64.ofNat ((dentro + a) / 512)) ((m - a) / 512) dst (d + a)

/-- The tail of `m` bytes of a cluster, past the first `b`. -/
def cola (v : FatVolume) (e : Estado v) (c : UInt32) (dentro m b : Nat) (dst : Bytes) (d : Nat) :
    Paso v :=
  if 0 < m - b then
    v.rebote e (v.clusterToLba c + UInt64.ofNat ((dentro + b) / 512)) 0 (m - b) dst (d + b)
  else ⟨true, dst, e⟩

section Partes

variable {dentro m : Nat}

private theorem aCabeza_le : aCabeza dentro m ≤ m := by
  rw [aCabeza]
  split <;> omega

theorem aCabeza_cases : (dentro + aCabeza dentro m) % 512 = 0 ∨ m - aCabeza dentro m = 0 := by
  rw [aCabeza]
  split <;> omega

theorem trae_cabeza (hm : dentro + m ≤ v.delCluster) (h0 : 0 < m) (hd : d + m ≤ dst.length) :
    Trae (slice (v.datos c) dentro (aCabeza dentro m)) d dst (v.cabeza e c dentro m dst d) := by
  rw [delCluster] at hm
  rw [aCabeza, cabeza]
  split
  · rename_i h
    have htr := trae_rebote (e := e) (c := c) (i := dentro / 512) (n := min (512 - dentro % 512) m)
      (d := d) (show dentro / 512 < v.spc by omega)
      (show dentro % 512 + min (512 - dentro % 512) m ≤ 512 by omega)
      (show d + min (512 - dentro % 512) m ≤ dst.length by omega)
    rw [Nat.div_add_mod] at htr
    exact htr
  · rw [slice, List.take_zero]
    exact Trae.nada

private theorem ok_cabeza (hc : v.Legible c) (hm : dentro + m ≤ v.delCluster) (h0 : 0 < m) :
    (v.cabeza e c dentro m dst d).ok = true := by
  rw [delCluster] at hm
  rw [cabeza]
  split
  · exact ok_rebote hc (by omega)
  · rfl

private theorem trae_medio {a : Nat} (hm : dentro + m ≤ v.delCluster) (ha : a ≤ m)
    (h : (dentro + a) % 512 = 0 ∨ m - a = 0) (hd : d + m ≤ dst.length) :
    Trae (slice (v.datos c) (dentro + a) (512 * ((m - a) / 512))) (d + a) dst
      (v.medio e c dentro m a dst d) := by
  rw [delCluster] at hm
  have htr := trae_leerEnteros (e := e) (c := c) (i := (dentro + a) / 512) (n := (m - a) / 512)
    (d := d + a) (show (dentro + a) / 512 + (m - a) / 512 ≤ v.spc by omega)
    (show d + a + 512 * ((m - a) / 512) ≤ dst.length by omega)
  rcases h with h | h
  · have hs : 512 * ((dentro + a) / 512) = dentro + a := by omega
    rw [hs] at htr
    exact htr
  · have h1 : (m - a) / 512 = 0 := by omega
    rw [medio]
    rw [h1, Nat.mul_zero] at htr ⊢
    rw [slice, List.take_zero] at htr ⊢
    exact htr

theorem ok_medio {a : Nat} (hc : v.Legible c) (hm : dentro + m ≤ v.delCluster) (ha : a ≤ m) :
    (v.medio e c dentro m a dst d).ok = true := by
  rw [delCluster] at hm
  exact ok_leerEnteros hc (by omega)

private theorem trae_cola {b : Nat} (hm : dentro + m ≤ v.delCluster) (hb : b ≤ m)
    (h : (dentro + b) % 512 = 0 ∨ m - b = 0) (h512 : m - b < 512) (hd : d + m ≤ dst.length) :
    Trae (slice (v.datos c) (dentro + b) (m - b)) (d + b) dst (v.cola e c dentro m b dst d) := by
  rw [delCluster] at hm
  rw [cola]
  split
  · have htr := trae_rebote (e := e) (c := c) (i := (dentro + b) / 512) (n := m - b)
      (d := d + b) (show (dentro + b) / 512 < v.spc by omega) (show 0 + (m - b) ≤ 512 by omega)
      (show d + b + (m - b) ≤ dst.length by omega)
    have hs : 512 * ((dentro + b) / 512) + 0 = dentro + b := by omega
    rw [hs] at htr
    exact htr
  · have h1 : m - b = 0 := by omega
    rw [h1, slice, List.take_zero]
    exact Trae.nada

private theorem ok_cola {b : Nat} (hc : v.Legible c) (hm : dentro + m ≤ v.delCluster) (hb : b ≤ m) :
    (v.cola e c dentro m b dst d).ok = true := by
  rw [delCluster] at hm
  rw [cola]
  split
  · exact ok_rebote hc (by omega)
  · rfl

/-- Past the head and the whole sectors a sector begins, or nothing is left; less than a sector is.
-/
theorem medio_cases {a : Nat} (ha : a ≤ m) (h : (dentro + a) % 512 = 0 ∨ m - a = 0) :
    a + 512 * ((m - a) / 512) ≤ m ∧ m - (a + 512 * ((m - a) / 512)) < 512 ∧
      ((dentro + (a + 512 * ((m - a) / 512))) % 512 = 0 ∨ m - (a + 512 * ((m - a) / 512)) = 0) := by
  omega

end Partes

/-- A round of `leer_en` in a cluster of the volume. -/
theorem leerEnVueltas_succ {fin offset k pos dentro m a b : Nat} {cur' : Cursor} {e' : Estado v}
    {h p q : Paso v} (ho : pos < fin) (hs : v.situar cur pos e = some (true, cur', e'))
    (hc : v.clusterValido cur'.cluster = true) (hdentro : dentro = pos - cur'.base)
    (hm : m = min (fin - pos) (v.delCluster - dentro)) (h0 : 0 < m)
    (ha : a = aCabeza dentro m) (hb : b = a + 512 * ((m - a) / 512))
    (hh : h = v.cabeza e' cur'.cluster dentro m dst (pos - offset))
    (hp : p = v.medio h.estado cur'.cluster dentro m a h.dst (pos - offset))
    (hq : q = v.cola p.estado cur'.cluster dentro m b p.dst (pos - offset)) :
    v.leerEnVueltas fin offset (k + 1) pos cur dst e =
      if !h.ok then some (⟨pos - offset, h.dst, h.estado⟩, cur') else
      if !p.ok then some (⟨pos - offset + a, p.dst, p.estado⟩, cur') else
      if !q.ok then some (⟨pos - offset + b, q.dst, q.estado⟩, cur') else
      v.leerEnVueltas fin offset k (pos + m) cur' q.dst q.estado := by
  have hale : a ≤ m := ha ▸ aCabeza_le
  have hbm : b + (m - b) = m := by omega
  rw [leerEnVueltas, if_neg (Nat.not_le.mpr ho), hs]
  dsimp only
  rw [lbaValido_eq hc]
  dsimp only
  rw [← hdentro, ← hm, ← cabeza, ← hh, ← aCabeza, ← ha, ← medio, ← hp, ← hb, ← cola, ← hq,
     hbm, if_neg (Nat.ne_of_gt h0)]

/-- The first cluster of the file is one of the volume, or none follows it. -/
def Arranca (v : FatVolume) (c : UInt32) : Prop :=
  v.clusterValido c = true ∨ v.siguiente c = none

private theorem slice_contenido {size dentro m : Nat} (ha : v.Arranca c) (hc : v.Situado c cur)
    (hv : v.clusterValido cur.cluster = true) (hd : dentro + m ≤ v.delCluster)
    (hs : cur.base + dentro + m ≤ size) :
    slice (v.contenido c size) (cur.base + dentro) m = slice (v.datos cur.cluster) dentro m := by
  obtain ⟨i, hat, hb⟩ := hc
  have hvc : v.clusterValido c = true := by
    rcases ha with h | h
    · exact h
    · rw [← hat.eq_of_none h]
      exact hv
  rw [contenido, if_pos hvc, hb]
  exact Blocks.slice_content_at delCluster_pos length_datos hat hd (by omega)

private theorem slice_contenido_fin {size pos n : Nat} (hc : v.Situado c cur)
    (hp : cur.base + v.delCluster ≤ pos) (hs : v.siguiente cur.cluster = none) :
    slice (v.contenido c size) pos n = [] := by
  rw [contenido]
  split
  · obtain ⟨i, hat, hb⟩ := hc
    have hdrop := Blocks.drop_content_at (@delCluster_pos v) length_datos hat size
    have hlast : Blocks.content v.siguiente v.datos cur.cluster (size - i * v.delCluster) =
        (v.datos cur.cluster).take (size - i * v.delCluster) := by
      rw [Blocks.content_eq (@delCluster_pos v) length_datos, Blocks.rest, hs, Option.elim_none,
        List.append_nil]
    have hlen := congrArg List.length (hdrop.trans hlast)
    rw [List.length_drop, List.length_take, length_datos, ← hb] at hlen
    rw [slice, List.drop_of_length_le (by omega), List.take_nil]
  · rw [slice, List.drop_nil, List.take_nil]

/-- What a round of `leer_en` brings, wherever it stops: the part before the one that failed. -/
structure Partes (S : Prop) (w w' : Bytes) (d a b m : Nat) (dst : Bytes) (h p q : Paso v) :
    Prop where
  cabeza : h.ok = false → Served S (w ++ w') d dst h.dst 0
  medio : h.ok = true → p.ok = false → Served S (w ++ w') d dst p.dst a
  cola : h.ok = true → p.ok = true → q.ok = false → Served S (w ++ w') d dst q.dst b
  sigue : h.ok = true → p.ok = true → q.ok = true → q.dst.length = dst.length ∧
    ∀ {dst' n}, Served S w' (d + m) q.dst dst' n → Served S (w ++ w') d dst dst' (m + n)

private theorem partes_round {S : Prop} {dentro m a b : Nat} {h p q : Paso v} (w' : Bytes)
    (hS : S → v.Legible c) (hm : dentro + m ≤ v.delCluster) (h0 : 0 < m) (hd : d + m ≤ dst.length)
    (ha : a = aCabeza dentro m) (hb : b = a + 512 * ((m - a) / 512))
    (hh : h = v.cabeza e c dentro m dst d) (hp : p = v.medio h.estado c dentro m a h.dst d)
    (hq : q = v.cola p.estado c dentro m b p.dst d) :
    Partes S (slice (v.datos c) dentro m) w' d a b m dst h p q := by
  have hale : a ≤ m := ha ▸ aCabeza_le
  have hac : (dentro + a) % 512 = 0 ∨ m - a = 0 := ha ▸ aCabeza_cases
  obtain ⟨hbm, hb512, hbc⟩ := medio_cases hale hac
  rw [← hb] at hbm hb512 hbc
  have hth : Trae (slice (v.datos c) dentro a) d dst h := by
    rw [hh, ha]
    exact trae_cabeza hm h0 hd
  have htp : Trae (slice (v.datos c) (dentro + a) (512 * ((m - a) / 512))) (d + a) h.dst p := by
    rw [hp]
    exact trae_medio hm hale hac (hth.length_eq ▸ hd)
  have htq : Trae (slice (v.datos c) (dentro + b) (m - b)) (d + b) p.dst q := by
    rw [hq]
    exact trae_cola hm hbm hbc hb512 (htp.length_eq ▸ hth.length_eq ▸ hd)
  have hlen {o n : Nat} (h : o + n ≤ v.delCluster) : (slice (v.datos c) o n).length = n := by
    rw [length_slice, length_datos]
    omega
  -- the three parts, and what follows them
  have hw : slice (v.datos c) dentro m ++ w' =
      slice (v.datos c) dentro a ++ (slice (v.datos c) (dentro + a) (512 * ((m - a) / 512)) ++
        (slice (v.datos c) (dentro + b) (m - b) ++ w')) := by
    have hma : m = a + (512 * ((m - a) / 512) + (m - b)) := by omega
    conv_lhs => rw [hma, slice_add, slice_add, Nat.add_assoc, ← hb]
    rw [List.append_assoc, List.append_assoc]
  have hda : d + a + 512 * ((m - a) / 512) = d + b := by omega
  have hla : (slice (v.datos c) dentro a).length = a := hlen (by omega)
  have hlb : (slice (v.datos c) (dentro + a) (512 * ((m - a) / 512))).length =
      512 * ((m - a) / 512) := hlen (by omega)
  constructor
  · intro hho
    exact hth.falla _ (fun s ↦ hh ▸ ok_cabeza (hS s) hm h0) hho
  · intro hho hpo
    rw [hw]
    exact hth.sigue hla (by omega) hho
      (htp.falla _ (fun s ↦ hp ▸ ok_medio (hS s) hm hale) hpo)
  · intro hho hpo hqo
    have hstop := htq.falla (slice (v.datos c) (dentro + b) (m - b) ++ w')
      (fun s ↦ hq ▸ ok_cola (hS s) hm hbm) hqo
    rw [← hda] at hstop
    have hres := hth.sigue hla (by omega) hho
      (htp.sigue hlb (by rw [hth.length_eq]; omega) hpo hstop)
    rw [Nat.add_zero, ← hb] at hres
    rw [hw]
    exact hres
  · intro hho hpo hqo
    refine ⟨by rw [htq.length_eq, htp.length_eq, hth.length_eq], fun {dst' n} hs ↦ ?_⟩
    have hmn : m + n = a + (512 * ((m - a) / 512) + (m - b + n)) := by omega
    have hdm : d + m = d + a + 512 * ((m - a) / 512) + (m - b) := by omega
    rw [hw, hmn]
    rw [hdm] at hs
    rw [← hda] at htq
    have hql : d + a + 512 * ((m - a) / 512) + (m - b) ≤ p.dst.length := by
      rw [htp.length_eq, hth.length_eq]
      omega
    apply hth.sigue hla (by omega) hho
    apply htp.sigue hlb (by rw [hth.length_eq]; omega) hpo
    exact htq.sigue (hlen (by omega)) hql hqo hs

/-- **The ranges of `leer_en`**, from a byte on. -/
theorem leerEnVueltas_sirve {fin offset size k pos : Nat} (ha : v.Arranca c) (hk : fin - pos < k)
    (hpos : offset ≤ pos) (hfin : fin ≤ size) (hd : fin - offset ≤ dst.length)
    (hc : v.Situado c cur) (hb : cur.base ≤ pos) :
    ∃ n dst' e' cur', v.leerEnVueltas fin offset k pos cur dst e =
        some (⟨pos - offset + n, dst', e'⟩, cur') ∧
      Served (v.SinErrores c) (slice (v.contenido c size) pos (fin - pos)) (pos - offset) dst dst' n
        ∧
      v.Situado c cur' ∧ cur'.base ≤ max pos fin := by
  induction k generalizing pos cur dst e with
  | zero => omega
  | succ k ih =>
    by_cases ho : fin ≤ pos
    · refine ⟨0, dst, e, cur, by rw [leerEnVueltas, if_pos ho, Nat.add_zero], ?_, hc, by omega⟩
      rw [Nat.sub_eq_zero_of_le ho, slice, List.take_zero]
      exact Served.nil
    obtain ⟨ok, cur', e', hs, hsit⟩ := situar_situa (e := e) pos hc
    have hb' : cur'.base ≤ pos := by
      have := hsit.base_max
      omega
    cases hok : ok with
    | false =>
      refine ⟨0, dst, e', cur', by rw [leerEnVueltas, if_neg ho, hs, hok, Nat.add_zero], ?_,
        hsit.situado, by omega⟩
      have hfuera := (hsit.fuera hok).resolve_left (Nat.not_lt.mpr hb)
      cases hn : v.siguiente cur'.cluster with
      | none =>
        rw [slice_contenido_fin hsit.situado hfuera.1 hn]
        exact Served.nil
      | some c' =>
        apply Served.stop rfl rfl
        intro h
        rw [hfuera.2 h] at hn
        cases hn
    | true =>
      have hdentro := hsit.dentro hok
      cases hv : v.clusterValido cur'.cluster with
      | false =>
        refine ⟨0, dst, e', cur', ?_, ?_, hsit.situado, by omega⟩
        · rw [leerEnVueltas, if_neg ho, hs, hok]
          dsimp only
          rw [lbaValido_eq_none hv, Nat.add_zero]
        · have hvc : v.clusterValido c = false := by
            cases h : v.clusterValido c with
            | false => rfl
            | true =>
              rw [hsit.situado.valido h] at hv
              cases hv
          rw [contenido_of_not_valido hvc, slice, List.drop_nil, List.take_nil]
          exact Served.nil
      | true =>
        have hleg : v.SinErrores c → v.Legible cur'.cluster := by
          intro h
          obtain ⟨i, hat, -⟩ := hsit.situado
          exact h i _ hat
        obtain ⟨dentro, hde⟩ : ∃ x, x = pos - cur'.base := ⟨_, rfl⟩
        obtain ⟨m, hm⟩ : ∃ x, x = min (fin - pos) (v.delCluster - dentro) := ⟨_, rfl⟩
        obtain ⟨a, hae⟩ : ∃ x, x = aCabeza dentro m := ⟨_, rfl⟩
        obtain ⟨b, hbe⟩ : ∃ x, x = a + 512 * ((m - a) / 512) := ⟨_, rfl⟩
        obtain ⟨h, hh⟩ : ∃ x, x = v.cabeza e' cur'.cluster dentro m dst (pos - offset) := ⟨_, rfl⟩
        obtain ⟨p, hp⟩ : ∃ x, x = v.medio h.estado cur'.cluster dentro m a h.dst (pos - offset) :=
          ⟨_, rfl⟩
        obtain ⟨q, hq⟩ : ∃ x, x = v.cola p.estado cur'.cluster dentro m b p.dst (pos - offset) :=
          ⟨_, rfl⟩
        have hmd : dentro + m ≤ v.delCluster := by omega
        have h0 : 0 < m := by omega
        have hw : slice (v.contenido c size) pos (fin - pos) =
            slice (v.datos cur'.cluster) dentro m ++
              slice (v.contenido c size) (pos + m) (fin - (pos + m)) := by
          have hpd : cur'.base + dentro = pos := by omega
          have hin : slice (v.contenido c size) (cur'.base + dentro) m =
              slice (v.datos cur'.cluster) dentro m :=
            slice_contenido ha hsit.situado hv hmd (by omega)
          have hfp : fin - pos = m + (fin - (pos + m)) := by omega
          rw [hpd] at hin
          rw [hfp, slice_add, hin]
        have hpar := partes_round (slice (v.contenido c size) (pos + m) (fin - (pos + m))) hleg hmd
          h0
          (show pos - offset + m ≤ dst.length by omega) hae hbe hh hp hq
        have hale : a ≤ m := hae ▸ aCabeza_le
        rw [leerEnVueltas_succ (Nat.lt_of_not_le ho) (hok ▸ hs) hv hde hm h0 hae hbe hh hp hq, hw]
        cases hho : h.ok with
        | false => exact ⟨0, h.dst, h.estado, cur', rfl, hpar.cabeza hho, hsit.situado, by omega⟩
        | true =>
          cases hpo : p.ok with
          | false =>
            exact ⟨a, p.dst, p.estado, cur', rfl, hpar.medio hho hpo, hsit.situado, by omega⟩
          | true =>
            cases hqo : q.ok with
            | false =>
              exact ⟨b, q.dst, q.estado, cur', rfl, hpar.cola hho hpo hqo, hsit.situado, by omega⟩
            | true =>
              obtain ⟨hql, hsig⟩ := hpar.sigue hho hpo hqo
              obtain ⟨n, dst', e'', cur'', hrun, hserv, hsit', hbase⟩ :=
                @ih q.estado q.dst cur' (pos + m) (by omega) (by omega) (by omega) hsit.situado
                  (by omega)
              have hpm : pos + m - offset = pos - offset + m := by omega
              rw [hpm] at hrun hserv
              refine ⟨m + n, dst', e'', cur'', ?_, hsig hserv, hsit', by omega⟩
              rw [← Nat.add_assoc]
              exact hrun

/-- **`leer_en`**: a range that does not start before the cluster of the cursor is brought, and one
that does is refused. -/
theorem leerEn_sirve (offset : Nat) (size : UInt32) (ha : v.Arranca c) (hc : v.Situado c cur) :
    ∃ r cur', v.leerEn cur offset size dst e = some (r, cur') ∧ v.Situado c cur' ∧
      cur'.base ≤ max cur.base (offset + dst.length) ∧
      (cur.base ≤ offset → Served (v.SinErrores c)
        (slice (v.contenido c size.toNat) offset dst.length) 0 dst r.dst r.n) ∧
      (offset < cur.base → r.n = 0 ∧ r.dst = dst) := by
  obtain ⟨fin, hfin⟩ : ∃ x, x = min size.toNat (min (offset + dst.length) (2 ^ 64 - 1)) := ⟨_, rfl⟩
  have hsize := size.toNat_lt
  have hpos := @delCluster_pos v
  have hl := @length_contenido_le v c size.toNat
  -- what is asked for ends where the file or the buffer does
  have hslice : slice (v.contenido c size.toNat) offset dst.length =
      slice (v.contenido c size.toNat) offset (fin - offset) := by
    rw [slice, slice, List.take_eq_take_iff, List.length_drop]
    omega
  rw [leerEn, if_neg hpos.ne']
  dsimp only
  rw [← hfin, hslice]
  by_cases ho : fin ≤ offset
  · refine ⟨⟨0, dst, e⟩, cur, if_pos ho, hc, by omega, fun _ ↦ ?_, fun _ ↦ ⟨rfl, rfl⟩⟩
    rw [Nat.sub_eq_zero_of_le ho, slice, List.take_zero]
    exact Served.nil
  rw [if_neg ho]
  obtain ⟨ok, cur', e', hs, hsit⟩ := situar_situa (e := e) offset hc
  have hmax := hsit.base_max
  cases hok : ok with
  | false =>
    refine ⟨⟨0, dst, e'⟩, cur', by rw [hs, hok], hsit.situado, by omega, fun hb ↦ ?_,
      fun _ ↦ ⟨rfl, rfl⟩⟩
    have hfuera := (hsit.fuera hok).resolve_left (Nat.not_lt.mpr hb)
    cases hn : v.siguiente cur'.cluster with
    | none =>
      rw [slice_contenido_fin hsit.situado hfuera.1 hn]
      exact Served.nil
    | some c' =>
      apply Served.stop rfl rfl
      intro h
      rw [hfuera.2 h] at hn
      cases hn
  | true =>
    have hdentro := hsit.dentro hok
    obtain ⟨n, dst', e'', cur'', hrun, hserv, hsit', hbase⟩ :=
      @leerEnVueltas_sirve v e' c dst cur' fin offset size.toNat (fin - offset + 1) offset ha
        (by omega) le_rfl (by omega) (by omega) hsit.situado hdentro.1
    rw [Nat.sub_self, Nat.zero_add] at hrun
    rw [Nat.sub_self] at hserv
    refine ⟨_, cur'', by rw [hs, hok]; exact hrun, hsit', by omega, fun _ ↦ hserv, fun hb ↦ ?_⟩
    have := hsit.base_le
    omega

/-- Calls of `leer_en` through one cursor: what each finds the cursor at, and what it gives back. -/
def leerRangos (v : FatVolume) (size : UInt32) :
    List (Nat × Bytes) → Cursor → Estado v → Option (List (Cursor × Leido v))
  | [], _, _ => some []
  | (offset, dst) :: rs, cur, e =>
    match v.leerEn cur offset size dst e with
    | none => none
    | some (r, cur') => (leerRangos v size rs cur' r.estado).map ((cur, r) :: ·)

/-- What a reading was to bring and what it counts: all it counts is right, and without disk errors
it brings everything and touches nothing else. -/
structure Entrega (v : FatVolume) (c : UInt32) (w dst : Bytes) (r : Leido v) : Prop where
  le : r.n ≤ w.length
  take_eq : r.dst.take r.n = w.take r.n
  todo : v.SinErrores c → r.n = w.length ∧ r.dst = w ++ dst.drop w.length

private theorem Entrega.of_served {w : Bytes} {r : Leido v}
    (h : Served (v.SinErrores c) w 0 dst r.dst r.n) : v.Entrega c w dst r := by
  constructor
  · exact h.le
  · have hw := h.window
    rw [slice_zero] at hw
    exact hw
  · intro hs
    obtain ⟨hn, hd⟩ := h.whole hs
    refine ⟨hn, hd.trans ?_⟩
    rw [splice, List.take_zero, List.nil_append, Nat.zero_add]

private theorem leerRangos_sirve {rs : List (Nat × Bytes)} (size : UInt32) (ha : v.Arranca c)
    (hc : v.Situado c cur) :
    ∃ as, v.leerRangos size rs cur e = some as ∧
      List.Forall₂ (fun q a ↦
        (a.1.base ≤ q.1 → v.Entrega c (slice (v.contenido c size.toNat) q.1 q.2.length) q.2 a.2) ∧
        (q.1 < a.1.base → a.2.n = 0 ∧ a.2.dst = q.2)) rs as ∧
      ((∀ q ∈ rs, cur.base ≤ q.1) → rs.Pairwise (fun p q ↦ p.1 + p.2.length ≤ q.1) →
        List.Forall₂ (fun q a ↦ a.1.base ≤ q.1) rs as) := by
  induction rs generalizing cur e with
  | nil => exact ⟨[], rfl, .nil, fun _ _ ↦ .nil⟩
  | cons q rs ih =>
    obtain ⟨offset, dst⟩ := q
    obtain ⟨r, cur', hrun, hsit, hmax, hbien, hmal⟩ := @leerEn_sirve v e c dst cur offset size ha hc
    obtain ⟨as, hruns, has, hord⟩ := @ih r.estado cur' hsit
    refine ⟨(cur, r) :: as, ?_, .cons ⟨fun hb ↦ Entrega.of_served (hbien hb), hmal⟩ has, ?_⟩
    · rw [leerRangos, hrun]
      dsimp only
      rw [hruns]
      rfl
    · intro hbase hpair
      obtain ⟨hb, hbs⟩ := List.forall_mem_cons.mp hbase
      obtain ⟨hp, hps⟩ := List.pairwise_cons.mp hpair
      refine .cons hb (hord (fun q hq ↦ ?_) hps)
      have h1 := hbs q hq
      have h2 := hp q hq
      dsimp only at h2
      omega

/-! ### The three ways -/

/-- **The three ways of reading a file bring the same bytes**, those of its chain of clusters, one
after the other and cut to its size: `read_file`; `leer_tramo` call after call, once there are calls
enough; and `leer_en` through one cursor, for every range that does not start before the cluster of
the cursor — as none does when each starts where the one before it ends, or later. -/
theorem lecturas (v : FatVolume) (c size : UInt32) (e : Estado v) :
    (∀ dst, ∃ r, v.readFile c size dst e = some r ∧
      v.Entrega c ((v.contenido c size.toNat).take dst.length) dst r) ∧
    (∀ dst ts, ∃ r w w', v.leerTramos size ts c 0 dst e = some r ∧
      (v.contenido c size.toNat).take dst.length = w ++ w' ∧ v.Entrega c w dst r ∧
      ((∀ t ∈ ts, 0 < t ∧ size.toNat + t < 2 ^ 64) →
        min size.toNat dst.length ≤ ts.length * v.delCluster → w' = [])) ∧
    (v.Arranca c → ∀ rs, ∃ as, v.leerRangos size rs (v.cursor c) e = some as ∧
      List.Forall₂ (fun q a ↦
        (a.1.base ≤ q.1 → v.Entrega c (slice (v.contenido c size.toNat) q.1 q.2.length) q.2 a.2) ∧
        (q.1 < a.1.base → a.2.n = 0 ∧ a.2.dst = q.2)) rs as ∧
      (rs.Pairwise (fun p q ↦ p.1 + p.2.length ≤ q.1) →
        List.Forall₂ (fun q a ↦ a.1.base ≤ q.1) rs as)) := by
  refine ⟨fun dst ↦ ?_, fun dst ts ↦ ?_, fun ha rs ↦ ?_⟩
  · obtain ⟨r, hrun, hserv⟩ := @readFile_sirve v e c dst size
    exact ⟨r, hrun, Entrega.of_served hserv⟩
  · obtain ⟨n, dst', e', w, w', hrun, hw, hserv, hall⟩ :=
      @leerTramos_sirve v e c dst ts 0 size (Nat.zero_le _)
    rw [Nat.zero_add] at hrun
    rw [Nat.sub_zero] at hw hall
    rw [take_contenido]
    exact ⟨_, w, w', hrun, hw, Entrega.of_served hserv, hall⟩
  · obtain ⟨as, hrun, has, hord⟩ := @leerRangos_sirve v e c (v.cursor c) rs size ha situado_cursor
    exact ⟨as, hrun, has, hord fun q _ ↦ Nat.zero_le _⟩

/-! ### A volume of three clusters -/

/-- A table where the clusters 2, 3 and 4 are a chain. -/
def tablaEjemplo : Bytes :=
  zeros 8 ++ [3, 0, 0, 0, 4, 0, 0, 0, 255, 255, 255, 15] ++ zeros 492

private theorem length_tablaEjemplo : tablaEjemplo.length = 512 := by
  rw [tablaEjemplo, List.length_append, List.length_append, length_zeros, length_zeros]
  rfl

/-- A disk that never fails: the table, and sectors that hold their number. -/
def discoEjemplo : BlockDevice where
  sector lba := if lba = 0 then tablaEjemplo else List.replicate 512 lba.toUInt8
  read _ lba count dst :=
    (true, if dst.length = 512 * count.toNat then
      (List.range count.toNat).flatMap fun i ↦
        if lba + UInt64.ofNat i = 0 then tablaEjemplo
        else List.replicate 512 (lba + UInt64.ofNat i).toUInt8
      else dst)
  length_sector lba := by
    split
    · exact length_tablaEjemplo
    · exact List.length_replicate
  length_read t lba count dst := by
    dsimp only
    split
    · rename_i h
      rw [length_flatMap_const (k := 512), List.length_range, h]
      intro i
      split
      · exact length_tablaEjemplo
      · exact List.length_replicate
    · rfl
  read_ok t lba count dst h _ := by
    dsimp only
    rw [if_pos h]

/-- One sector a cluster. -/
def volumenEjemplo : FatVolume where
  dev := discoEjemplo
  partLba := 0
  sectorsPerCluster := 1
  fatStart := 0
  dataStart := 1
  maxCluster := 4
  sectores_pos := by decide

def estadoEjemplo : Estado volumenEjemplo where
  turno := 0
  buf := zeros 512
  fatCache := zeros 512
  fatCacheLba := sinCache
  length_buf := length_zeros 512
  length_fatCache := length_zeros 512
  fatCache_eq h := absurd rfl h

private theorem sinErrores_ejemplo : volumenEjemplo.SinErrores 2 := fun _ _ _ ↦
  ⟨fun _ _ _ _ _ ↦ rfl, fun _ _ ↦ rfl⟩

set_option maxRecDepth 20000 in
private theorem length_contenido_ejemplo : (volumenEjemplo.contenido 2 1536).length = 1536 := by
  decide

theorem lecturas_tres_clusters :
    (∃ r, volumenEjemplo.readFile 2 1536 (zeros 1536) estadoEjemplo = some r ∧ r.n = 1536) ∧
    (∃ r, volumenEjemplo.leerTramos 1536 [1, 600, 1] 2 0 (zeros 1536) estadoEjemplo = some r ∧
      r.n = 1536) ∧
    (∃ as, volumenEjemplo.leerRangos 1536 [(0, zeros 700), (700, zeros 836)]
      (volumenEjemplo.cursor 2) estadoEjemplo = some as ∧
      as.map (fun a ↦ a.2.n) = [700, 836]) := by
  obtain ⟨hfile, htramos, hrangos⟩ := lecturas volumenEjemplo 2 1536 estadoEjemplo
  have hsize : (1536 : UInt32).toNat = 1536 := rfl
  have hc := length_contenido_ejemplo
  rw [hsize] at hfile htramos hrangos
  refine ⟨?_, ?_, ?_⟩
  · obtain ⟨r, hrun, hent⟩ := hfile (zeros 1536)
    refine ⟨r, hrun, ?_⟩
    rw [(hent.todo sinErrores_ejemplo).1, List.length_take, length_zeros, hc, Nat.min_self]
  · obtain ⟨r, w, w', hrun, hw, hent, hall⟩ := htramos (zeros 1536) [1, 600, 1]
    have hdel : volumenEjemplo.delCluster = 512 := rfl
    have hnil := hall (by decide) (by rw [length_zeros, hdel]; decide)
    have hlen := congrArg List.length hw
    rw [hnil, List.append_nil, List.length_take, length_zeros, hc, Nat.min_self] at hlen
    exact ⟨r, hrun, (hent.todo sinErrores_ejemplo).1.trans hlen.symm⟩
  · obtain ⟨as, hrun, has, hord⟩ := hrangos (Or.inl rfl) [(0, zeros 700), (700, zeros 836)]
    refine ⟨as, hrun, ?_⟩
    have hbase := hord (by simp [length_zeros])
    cases has with
    | cons h1 has =>
      cases has with
      | cons h2 has =>
        cases has with
        | nil =>
          cases hbase with
          | cons hb1 hbase =>
            cases hbase with
            | cons hb2 _ =>
              have hn1 := ((h1.1 hb1).todo sinErrores_ejemplo).1
              have hn2 := ((h2.1 hb2).todo sinErrores_ejemplo).1
              rw [length_slice, length_zeros, hc] at hn1 hn2
              simp [hn1, hn2]

set_option maxRecDepth 20000 in
/-- A range that starts before the cluster the cursor stands in, though no earlier than the one
before it started: nothing comes. -/
theorem leerRangos_solapados :
    ¬∀ (v : FatVolume) (c size : UInt32) (e : Estado v) (rs : List (Nat × Bytes)),
      v.clusterValido c = true → v.SinErrores c → rs.Pairwise (fun p q ↦ p.1 ≤ q.1) →
      rs.Pairwise (fun p q ↦ p.2.length ≤ q.2.length) →
      ∃ as, v.leerRangos size rs (v.cursor c) e = some as ∧
        List.Forall₂ (fun q a ↦
          v.Entrega c (slice (v.contenido c size.toNat) q.1 q.2.length) q.2 a.2) rs as := by
  intro h
  obtain ⟨as, hrun, has⟩ := h volumenEjemplo 2 1536 estadoEjemplo
    [(0, zeros 1536), (512, zeros 1536)] rfl sinErrores_ejemplo (by simp) (by simp)
  have hn : (volumenEjemplo.leerRangos 1536 [(0, zeros 1536), (512, zeros 1536)]
      (volumenEjemplo.cursor 2) estadoEjemplo).map (fun as ↦ as.map fun a ↦ a.2.n) =
      some [1536, 0] := by
    decide
  rw [hrun] at hn
  cases has with
  | cons h1 has =>
    cases has with
    | cons h2 has =>
      cases has with
      | nil =>
        have hsize : (1536 : UInt32).toNat = 1536 := rfl
        have hn2 := (h2.todo sinErrores_ejemplo).1
        rw [length_slice, length_zeros, hsize, length_contenido_ejemplo] at hn2
        simp [hn2] at hn

end FatVolume

end BmoX.Fat
