import BmoX.Fat.Volumen

/-!
# Reading a file from its beginning: whole, and a stretch at a time

`read_file` fills a buffer in one go. `leer_tramo` brings a bounded part in each call and says in
which cluster the next one starts. Both go along the chain of clusters and bring the sectors that
fit whole straight to the buffer, and the last bytes through a buffer of one sector.
-/

namespace BmoX.Fat

open BmoX.Base

/-- What a reading gives back: how many bytes, the buffer of the caller and the state. -/
structure Leido (v : FatVolume) where
  n : Nat
  dst : Bytes
  estado : Estado v

namespace FatVolume

variable (v : FatVolume)

/-- The rounds of `read_file`, at most as many as the first number. -/
def readFileVueltas (tope : Nat) : Nat → UInt32 → Nat → Bytes → Estado v → Option (Leido v)
  | 0, _, _, _, _ => none
  | k + 1, cluster, offset, dst, e =>
    if tope ≤ offset then some ⟨offset, dst, e⟩ else
    match v.lbaValido cluster with
    | none => some ⟨offset, dst, e⟩
    | some lba =>
      let enteros := min (tope - offset) v.delCluster / 512
      let p := v.leerEnteros e lba enteros dst offset
      if !p.ok then some ⟨offset, p.dst, p.estado⟩ else
      let offset := offset + 512 * enteros
      let queda := tope - offset
      -- only when this cluster has a sector left: the one after it on the disk is another file's
      let hay := decide (0 < queda ∧ queda < 512 ∧ enteros < v.spc)
      let q := if hay then v.rebote p.estado (lba + UInt64.ofNat enteros) 0 queda p.dst offset
        else ⟨true, p.dst, p.estado⟩
      if !q.ok then some ⟨offset, q.dst, q.estado⟩ else
      let offset := if hay then offset + queda else offset
      if tope ≤ offset then some ⟨offset, q.dst, q.estado⟩ else
      match v.readFatEntry q.estado cluster with
      | (none, e) => some ⟨offset, q.dst, e⟩
      | (some c, e) => readFileVueltas tope k c offset q.dst e

/-- `read_file`. -/
def readFile (firstCluster : UInt32) (fileSize : UInt32) (dst : Bytes) (e : Estado v) :
    Option (Leido v) :=
  let tope := min fileSize.toNat dst.length
  v.readFileVueltas tope (tope + 1) firstCluster 0 dst e

/-- `ya + tope` in a `usize`. -/
def hasta (ya tope : Nat) : Nat := (ya + tope) % 2 ^ 64

/-- The rounds of `leer_tramo`, at most as many as the first number: what it brought, and the
cluster to go on with. -/
def leerTramoVueltas (fin ya tope : Nat) :
    Nat → UInt32 → Nat → Bytes → Estado v → Option (Leido v × UInt32)
  | 0, _, _, _, _ => none
  | k + 1, cluster, offset, dst, e =>
    if fin ≤ offset then some (⟨offset - ya, dst, e⟩, 0) else
    -- the budget is looked at before a cluster and never within one
    if hasta ya tope ≤ offset then some (⟨offset - ya, dst, e⟩, cluster) else
    match v.lbaValido cluster with
    | none => some (⟨offset - ya, dst, e⟩, cluster)
    | some lba =>
      let deEste := min (fin - offset) v.delCluster
      let enteros := deEste / 512
      let p := v.leerEnteros e lba enteros dst offset
      if !p.ok then some (⟨offset - ya, p.dst, p.estado⟩, 0) else
      let rabo := deEste - 512 * enteros
      let q := if 0 < rabo ∧ enteros < v.spc then
          v.rebote p.estado (lba + UInt64.ofNat enteros) 0 rabo p.dst (offset + 512 * enteros)
        else ⟨true, p.dst, p.estado⟩
      if !q.ok then some (⟨offset - ya, q.dst, q.estado⟩, 0) else
      let offset := offset + deEste
      if fin ≤ offset then some (⟨offset - ya, q.dst, q.estado⟩, 0) else
      match v.readFatEntry q.estado cluster with
      | (none, e) => some (⟨offset - ya, q.dst, e⟩, 0)
      | (some c, e) => leerTramoVueltas fin ya tope k c offset q.dst e

/-- `leer_tramo`. -/
def leerTramo (cluster : UInt32) (ya : Nat) (fileSize : UInt32) (dst : Bytes) (tope : Nat)
    (e : Estado v) : Option (Leido v × UInt32) :=
  let fin := min fileSize.toNat dst.length
  v.leerTramoVueltas fin ya tope (fin - ya + 1) cluster ya dst e

variable {v} {e : Estado v} {c : UInt32} {dst : Bytes} {d : Nat}

/-! ### The bytes of one cluster -/

private theorem contenido_eq (h : v.clusterValido c = true) (n : Nat) :
    v.contenido c n =
      (v.datos c).take n ++ (v.siguiente c).elim [] fun c' ↦ v.contenido c' (n - v.delCluster) := by
  rw [contenido, if_pos h, Blocks.content_eq delCluster_pos length_datos, Blocks.rest]
  cases hs : v.siguiente c with
  | none => rfl
  | some c' =>
    rw [Option.elim_some, Option.elim_some, contenido, if_pos (valido_of_siguiente hs)]

theorem contenido_of_not_valido (h : v.clusterValido c = false) (n : Nat) : v.contenido c n = [] :=
  by
  rw [contenido, h]
  rfl

private theorem clusterValido_zero : v.clusterValido 0 = false := rfl

private theorem contenido_zero : v.contenido c 0 = [] := by
  rw [contenido, Blocks.content_zero, ite_self]

theorem length_contenido_le (n : Nat) : (v.contenido c n).length ≤ n := by
  rw [contenido]
  split
  · exact Blocks.length_content_le ..
  · exact Nat.zero_le n

private theorem elim_contenido {n : Nat} (hn : n = 0) (o : Option UInt32) :
    (o.elim [] fun c' ↦ v.contenido c' n) = [] := by
  subst hn
  cases o with
  | none => rfl
  | some c' => exact contenido_zero

theorem take_contenido (n m : Nat) : (v.contenido c n).take m = v.contenido c (min n m) := by
  rw [contenido, contenido]
  split
  · rcases Nat.le_total m n with h | h
    · rw [Nat.min_eq_right h, Blocks.take_content delCluster_pos length_datos c h]
    · rw [Nat.min_eq_left h,
        List.take_of_length_le ((Blocks.length_content_le ..).trans h)]
  · exact List.take_nil

/-- The rest of a chain without errors has none. -/
theorem SinErrores.siguiente {c' : UInt32} (h : v.SinErrores c) (hs : v.siguiente c = some c') :
    v.SinErrores c' := by
  intro i b hb
  suffices Blocks.At v.siguiente c (i + 1) b from h (i + 1) b this
  induction hb with
  | head => exact .next .head hs
  | next _ hn ih => exact .next ih hn

private theorem SinErrores.legible (h : v.SinErrores c) : v.Legible c := h 0 c .head

private theorem trae_si_rebote {g : Prop} [Decidable g] {i desde n o : Nat} (hg : g ↔ 0 < n)
    (ho : o = 512 * i + desde) (hi : 0 < n → i < v.spc) (hn : desde + n ≤ 512)
    (hd : d + n ≤ dst.length) :
    Trae (slice (v.datos c) o n) d dst
      (if g then v.rebote e (v.clusterToLba c + UInt64.ofNat i) desde n dst d
        else ⟨true, dst, e⟩) := by
  subst ho
  rcases Nat.eq_zero_or_pos n with rfl | hpos
  · rw [if_neg (mt hg.mp (Nat.lt_irrefl 0)), slice, List.take_zero]
    exact Trae.nada
  · rw [if_pos (hg.mpr hpos)]
    exact trae_rebote (hi hpos) hn hd

private theorem ok_si_rebote {g : Prop} [Decidable g] {i desde n : Nat} (hc : v.Legible c)
    (hi : g → i < v.spc) :
    (if g then v.rebote e (v.clusterToLba c + UInt64.ofNat i) desde n dst d
      else (⟨true, dst, e⟩ : Paso v)).ok = true := by
  by_cases h : g
  · rw [if_pos h]
    exact ok_rebote hc (hi h)
  · rw [if_neg h]

/-- After a cluster comes the one that the table says, or none; without errors it is that one. -/
theorem readFatEntry_cases (e : Estado v) (c : UInt32) :
    (∃ c' e', v.readFatEntry e c = (some c', e') ∧ v.siguiente c = some c') ∨
      ∃ e', v.readFatEntry e c = (none, e') ∧ (v.Legible c → v.siguiente c = none) := by
  obtain ⟨r, e', h⟩ : ∃ r e', v.readFatEntry e c = (r, e') := ⟨_, _, rfl⟩
  have h1 : (v.readFatEntry e c).1 = r := by rw [h]
  cases r with
  | some c' =>
    left
    rcases readFatEntry_fst (e := e) (c := c) with hs | hs
    · exact ⟨c', e', h, hs.symm.trans h1⟩
    · rw [h1] at hs
      cases hs
  | none =>
    right
    exact ⟨e', h, fun hc ↦ (readFatEntry_of_legible hc).symm.trans h1⟩

/-- The whole sectors among the first `m` bytes of a cluster. -/
def pieza (v : FatVolume) (e : Estado v) (c : UInt32) (m : Nat) (dst : Bytes) (d : Nat) : Paso v :=
  v.leerEnteros e (v.clusterToLba c) (m / 512) dst d

/-- The bytes after them, in what is left of the last sector. -/
def cabo (v : FatVolume) (e : Estado v) (c : UInt32) (m : Nat) (dst : Bytes) (d : Nat) : Paso v :=
  if 0 < m - 512 * (m / 512) then
    v.rebote e (v.clusterToLba c + UInt64.ofNat (m / 512)) 0 (m - 512 * (m / 512)) dst
      (d + 512 * (m / 512))
  else ⟨true, dst, e⟩

private theorem trae_pieza {m : Nat} (hm : m ≤ v.delCluster) (hd : d + m ≤ dst.length) :
    Trae (slice (v.datos c) 0 (512 * (m / 512))) d dst (v.pieza e c m dst d) := by
  have h0 : v.clusterToLba c = v.clusterToLba c + UInt64.ofNat 0 := (UInt64.add_zero _).symm
  rw [delCluster] at hm
  rw [pieza, h0]
  exact trae_leerEnteros (i := 0) (by omega) (by omega)

private theorem ok_pieza {m : Nat} (hc : v.Legible c) (hm : m ≤ v.delCluster) :
    (v.pieza e c m dst d).ok = true := by
  have h0 : v.clusterToLba c = v.clusterToLba c + UInt64.ofNat 0 := (UInt64.add_zero _).symm
  rw [delCluster] at hm
  rw [pieza, h0]
  exact ok_leerEnteros hc (by omega)

private theorem trae_cabo {m : Nat} (hm : m ≤ v.delCluster) (hd : d + m ≤ dst.length) :
    Trae (slice (v.datos c) (512 * (m / 512)) (m - 512 * (m / 512))) (d + 512 * (m / 512)) dst
      (v.cabo e c m dst d) := by
  rw [delCluster] at hm
  exact trae_si_rebote Iff.rfl rfl (by omega) (by omega) (by omega)

private theorem ok_cabo {m : Nat} (hc : v.Legible c) (hm : m ≤ v.delCluster) :
    (v.cabo e c m dst d).ok = true := by
  rw [delCluster] at hm
  exact ok_si_rebote hc (by omega)

private theorem take_datos (m : Nat) :
    (v.datos c).take m = slice (v.datos c) 0 (512 * (m / 512)) ++
      slice (v.datos c) (512 * (m / 512)) (m - 512 * (m / 512)) := by
  have hadd : m = 512 * (m / 512) + (m - 512 * (m / 512)) := by omega
  conv_lhs => rw [← slice_zero, hadd, slice_add, Nat.zero_add]

private theorem served_pieza {m : Nat} {p : Paso v} (w : Bytes) (hm : m ≤ v.delCluster)
    (hd : d + m ≤ dst.length) (hp : p = v.pieza e c m dst d) (hpo : p.ok = false) :
    Served (v.SinErrores c) w d dst p.dst 0 := by
  subst hp
  exact (trae_pieza hm hd).falla w (fun h ↦ ok_pieza h.legible hm) hpo

private theorem length_pieza {m : Nat} (hm : m ≤ v.delCluster) :
    (slice (v.datos c) 0 (512 * (m / 512))).length = 512 * (m / 512) := by
  rw [length_slice, length_datos]
  omega

private theorem served_cabo {m : Nat} {p q : Paso v} (w : Bytes) (hm : m ≤ v.delCluster)
    (hd : d + m ≤ dst.length) (hp : p = v.pieza e c m dst d)
    (hq : q = v.cabo p.estado c m p.dst d) (hpo : p.ok = true) (hqo : q.ok = false) :
    Served (v.SinErrores c) ((v.datos c).take m ++ w) d dst q.dst (512 * (m / 512)) := by
  subst hp hq
  have htp := trae_pieza (e := e) (c := c) hm hd
  have htq := trae_cabo (e := (v.pieza e c m dst d).estado) (c := c) hm (htp.length_eq ▸ hd)
  have hl := length_pieza (c := c) hm
  have hstop := htq.falla (slice (v.datos c) (512 * (m / 512)) (m - 512 * (m / 512)) ++ w)
    (fun h : v.SinErrores c ↦ ok_cabo h.legible hm) hqo
  have happ := htp.sigue hl (by omega) hpo hstop
  rw [Nat.add_zero, ← List.append_assoc, ← take_datos] at happ
  exact happ

private theorem served_cabo_zero {m : Nat} {p q : Paso v} (w : Bytes) (hm : m ≤ v.delCluster)
    (hd : d + m ≤ dst.length) (hp : p = v.pieza e c m dst d)
    (hq : q = v.cabo p.estado c m p.dst d) (hpo : p.ok = true) (hqo : q.ok = false) :
    Served (v.SinErrores c) w d dst q.dst 0 := by
  have hs := served_cabo [] hm hd hp hq hpo hqo
  apply Served.stop hs.length_eq hs.before
  intro h
  rw [hq, ok_cabo h.legible hm] at hqo
  cases hqo

private theorem cabo_dst {m : Nat} {p q : Paso v} (hm : m ≤ v.delCluster) (hd : d + m ≤ dst.length)
    (hp : p = v.pieza e c m dst d) (hq : q = v.cabo p.estado c m p.dst d) (hpo : p.ok = true)
    (hqo : q.ok = true) : q.dst = splice dst d ((v.datos c).take m) := by
  have htp : Trae _ d dst p := hp ▸ trae_pieza hm hd
  have htq : Trae _ _ p.dst q := hq ▸ trae_cabo hm (htp.length_eq ▸ hd)
  have hl := length_pieza (c := c) hm
  rw [htq.done hqo, htp.done hpo, take_datos, ← splice_splice (by rw [hl]; omega), hl]

/-- The table says that the chain ends here, or could not be read. -/
theorem served_fin (d : Nat) (dst : Bytes) (f : UInt32 → Bytes) (h : v.Legible c → v.siguiente c =
  none) :
    Served (v.SinErrores c) ((v.siguiente c).elim [] f) d dst dst 0 := by
  cases hs : v.siguiente c with
  | none => exact Served.nil
  | some c' =>
    apply Served.stop rfl rfl
    intro hse
    rw [h hse.legible] at hs
    cases hs

theorem length_take_datos {m : Nat} (hm : m ≤ v.delCluster) : ((v.datos c).take m).length = m := by
  rw [List.length_take, length_datos]
  omega

private theorem contenido_split (h : v.clusterValido c = true) (n : Nat) :
    v.contenido c n = (v.datos c).take (min n v.delCluster) ++
      (v.siguiente c).elim [] fun c' ↦ v.contenido c' (n - min n v.delCluster) := by
  have ht : (v.datos c).take (min n v.delCluster) = (v.datos c).take n := by
    rw [← List.take_take, List.take_of_length_le (length_datos c).le]
  have hn : n - min n v.delCluster = n - v.delCluster := by omega
  rw [contenido_eq h, ht, hn]

/-! ### `read_file` -/

theorem hay_iff {r m q spc : Nat} (hm : m = min r (spc * 512)) (hq : q = r - 512 * (m / 512)) :
    (0 < q ∧ q < 512 ∧ m / 512 < spc) ↔ 0 < m - 512 * (m / 512) := by
  omega

theorem queda_eq {r m q spc : Nat} (hm : m = min r (spc * 512)) (hq : q = r - 512 * (m / 512))
    (h : 0 < m - 512 * (m / 512)) : q = m - 512 * (m / 512) := by
  omega

/-- A round of `read_file` in a cluster of the volume. -/
theorem readFileVueltas_succ {tope k offset m : Nat} {p q : Paso v} (ho : offset < tope)
    (hc : v.clusterValido c = true) (hm : m = min (tope - offset) v.delCluster)
    (hp : p = v.pieza e c m dst offset) (hq : q = v.cabo p.estado c m p.dst offset) :
    v.readFileVueltas tope (k + 1) c offset dst e =
      if !p.ok then some ⟨offset, p.dst, p.estado⟩ else
      if !q.ok then some ⟨offset + 512 * (m / 512), q.dst, q.estado⟩ else
      if tope ≤ offset + m then some ⟨offset + m, q.dst, q.estado⟩ else
      match v.readFatEntry q.estado c with
      | (none, e) => some ⟨offset + m, q.dst, e⟩
      | (some c', e) => v.readFileVueltas tope k c' (offset + m) q.dst e := by
  have hg := hay_iff (q := tope - (offset + 512 * (m / 512))) hm (by omega)
  rw [readFileVueltas, if_neg (Nat.not_le.mpr ho), lbaValido_eq hc]
  dsimp only
  rw [← hm, ← pieza, ← hp]
  simp only [decide_eq_true_eq, hg]
  by_cases hr : 0 < m - 512 * (m / 512)
  · have hqe := queda_eq (q := tope - (offset + 512 * (m / 512))) hm (by omega) hr
    have hoff : offset + 512 * (m / 512) + (m - 512 * (m / 512)) = offset + m := by omega
    rw [cabo, if_pos hr] at hq
    rw [if_pos hr, if_pos hr, hqe, hoff, ← hq]
  · have hoff : offset + 512 * (m / 512) = offset + m := by omega
    rw [cabo, if_neg hr] at hq
    rw [if_neg hr, if_neg hr, hoff, ← hq]

/-- **`read_file` from a cluster on**: whatever it brings is the file from there, and without errors
it brings all of it. -/
theorem readFileVueltas_sirve {tope k offset : Nat} (hk : tope - offset < k)
    (hd : tope ≤ dst.length) :
    ∃ n dst' e', v.readFileVueltas tope k c offset dst e = some ⟨offset + n, dst', e'⟩ ∧
      Served (v.SinErrores c) (v.contenido c (tope - offset)) offset dst dst' n := by
  induction k generalizing c offset dst e with
  | zero => omega
  | succ k ih =>
    by_cases ho : tope ≤ offset
    · refine ⟨0, dst, e, by rw [readFileVueltas, if_pos ho, Nat.add_zero], ?_⟩
      rw [Nat.sub_eq_zero_of_le ho, contenido_zero]
      exact Served.nil
    cases hc : v.clusterValido c with
    | false =>
      refine ⟨0, dst, e, by rw [readFileVueltas, if_neg ho, lbaValido_eq_none hc, Nat.add_zero], ?_⟩
      rw [contenido_of_not_valido hc]
      exact Served.nil
    | true =>
      obtain ⟨m, hm⟩ : ∃ m, m = min (tope - offset) v.delCluster := ⟨_, rfl⟩
      have hmd : m ≤ v.delCluster := by omega
      have hml : offset + m ≤ dst.length := by omega
      have hm0 : 0 < m := by
        have := @delCluster_pos v
        omega
      obtain ⟨p, hp⟩ : ∃ p, p = v.pieza e c m dst offset := ⟨_, rfl⟩
      obtain ⟨q, hq⟩ : ∃ q, q = v.cabo p.estado c m p.dst offset := ⟨_, rfl⟩
      rw [readFileVueltas_succ (Nat.lt_of_not_le ho) hc hm hp hq, contenido_split hc, ← hm]
      cases hpo : p.ok with
      | false => exact ⟨0, p.dst, p.estado, rfl, served_pieza _ hmd hml hp hpo⟩
      | true =>
        cases hqo : q.ok with
        | false =>
          exact ⟨512 * (m / 512), q.dst, q.estado, rfl, served_cabo _ hmd hml hp hq hpo hqo⟩
        | true =>
          have hdst := cabo_dst hmd hml hp hq hpo hqo
          have hlt := length_take_datos (c := c) hmd
          have hfit : offset + ((v.datos c).take m).length ≤ dst.length := by rw [hlt]; exact hml
          have hql : q.dst.length = dst.length := by rw [hdst, length_splice hfit]
          rw [Bool.not_true, if_neg Bool.false_ne_true, if_neg Bool.false_ne_true]
          by_cases hfin : tope ≤ offset + m
          · -- the file, or the buffer, ends in this cluster
            refine ⟨m, q.dst, q.estado, if_pos hfin, ?_⟩
            rw [elim_contenido (by omega), List.append_nil, hdst]
            conv => arg 6; rw [← hlt]
            exact Served.of_splice hfit
          rw [if_neg hfin]
          rcases readFatEntry_cases q.estado c with ⟨c', e', hf, hs⟩ | ⟨e', hf, hs⟩
          · obtain ⟨n, dst', e'', hrun, hserv⟩ :=
              @ih e' c' q.dst (offset + m) (by omega) (by omega)
            refine ⟨m + n, dst', e'', ?_, ?_⟩
            · rw [hf, ← Nat.add_assoc]
              exact hrun
            · rw [hs, Option.elim_some]
              rw [hdst, ← Nat.sub_sub] at hserv
              conv => arg 6; rw [← hlt]
              apply Served.append hfit
              rw [hlt]
              exact hserv.mono fun h ↦ h.siguiente hs
          · refine ⟨m, q.dst, e', by rw [hf], ?_⟩
            have hend := served_fin (offset + ((v.datos c).take m).length)
              (splice dst offset ((v.datos c).take m))
              (fun c' ↦ v.contenido c' (tope - offset - m)) hs
            have happ := hend.append hfit
            rw [hlt, Nat.add_zero, ← hdst] at happ
            exact happ

/-- **`read_file`** brings the file, or its beginning. -/
theorem readFile_sirve (size : UInt32) :
    ∃ r, v.readFile c size dst e = some r ∧
      Served (v.SinErrores c) ((v.contenido c size.toNat).take dst.length) 0 dst r.dst r.n := by
  obtain ⟨n, dst', e', hrun, hserv⟩ :=
    @readFileVueltas_sirve v e c dst (min size.toNat dst.length) (min size.toNat dst.length + 1) 0
      (by omega) (by omega)
  rw [Nat.zero_add] at hrun
  rw [Nat.sub_zero, ← take_contenido] at hserv
  exact ⟨_, hrun, hserv⟩

/-! ### `leer_tramo` -/

/-- A round of `leer_tramo` in a cluster of the volume, with budget left. -/
theorem leerTramoVueltas_succ {fin ya tope k offset m : Nat} {p q : Paso v} (ho : offset < fin)
    (hb : offset < hasta ya tope) (hc : v.clusterValido c = true)
    (hm : m = min (fin - offset) v.delCluster) (hp : p = v.pieza e c m dst offset)
    (hq : q = v.cabo p.estado c m p.dst offset) :
    v.leerTramoVueltas fin ya tope (k + 1) c offset dst e =
      if !p.ok then some (⟨offset - ya, p.dst, p.estado⟩, 0) else
      if !q.ok then some (⟨offset - ya, q.dst, q.estado⟩, 0) else
      if fin ≤ offset + m then some (⟨offset + m - ya, q.dst, q.estado⟩, 0) else
      match v.readFatEntry q.estado c with
      | (none, e) => some (⟨offset + m - ya, q.dst, e⟩, 0)
      | (some c', e) => v.leerTramoVueltas fin ya tope k c' (offset + m) q.dst e := by
  have hg : (0 < m - 512 * (m / 512) ∧ m / 512 < v.spc) ↔ 0 < m - 512 * (m / 512) := by
    have hd : m ≤ v.spc * 512 := hm ▸ Nat.min_le_right _ _
    omega
  rw [leerTramoVueltas, if_neg (Nat.not_le.mpr ho), if_neg (Nat.not_le.mpr hb), lbaValido_eq hc]
  dsimp only
  rw [← hm, ← pieza, ← hp]
  simp only [hg]
  rw [← cabo, ← hq]

/-- Where a call of `leer_tramo` leaves a file of which `w` was to come: `n` bytes of it went to the
buffer and `sig` goes on, with the rest; `lleno` when the budget is spent. -/
structure Tramo (v : FatVolume) (c : UInt32) (fin d : Nat) (dst dst' : Bytes) (n : Nat)
    (sig : UInt32) (lleno : Prop) (w r : Bytes) : Prop where
  todo : v.contenido c (fin - d) = w ++ r
  sirve : Served (v.SinErrores c) w d dst dst' n
  fin_eq : sig = 0 → r = []
  resto : sig ≠ 0 → r = v.contenido sig (fin - (d + n))
  entero : sig ≠ 0 → n = w.length ∧ dst' = splice dst d w
  sinErrores : sig ≠ 0 → v.SinErrores c → v.SinErrores sig
  avanza : sig ≠ 0 → v.clusterValido sig = true → lleno ∧ (n = 0 ∨ v.delCluster ≤ n)

private theorem Tramo.de_sirve {fin n : Nat} {dst' : Bytes} {lleno : Prop}
    (h : Served (v.SinErrores c) (v.contenido c (fin - d)) d dst dst' n) :
    Tramo v c fin d dst dst' n 0 lleno (v.contenido c (fin - d)) [] where
  todo := (List.append_nil _).symm
  sirve := h
  fin_eq _ := rfl
  resto h := absurd rfl h
  entero h := absurd rfl h
  sinErrores h := absurd rfl h
  avanza h := absurd rfl h

/-- **`leer_tramo` from a cluster on.** -/
theorem leerTramoVueltas_sirve {fin ya tope k offset : Nat} (hk : fin - offset < k)
    (hd : fin ≤ dst.length) :
    ∃ n dst' e' sig w r,
      v.leerTramoVueltas fin ya tope k c offset dst e = some (⟨offset + n - ya, dst', e'⟩, sig) ∧
      Tramo v c fin offset dst dst' n sig (hasta ya tope ≤ offset + n) w r := by
  induction k generalizing c offset dst e with
  | zero => omega
  | succ k ih =>
    by_cases ho : fin ≤ offset
    · refine ⟨0, dst, e, 0, v.contenido c (fin - offset), [],
        by rw [leerTramoVueltas, if_pos ho, Nat.add_zero], Tramo.de_sirve ?_⟩
      rw [Nat.sub_eq_zero_of_le ho, contenido_zero]
      exact Served.nil
    by_cases hb : hasta ya tope ≤ offset
    · refine ⟨0, dst, e, c, [], v.contenido c (fin - offset),
        by rw [leerTramoVueltas, if_neg ho, if_pos hb, Nat.add_zero], ?_⟩
      constructor
      · rfl
      · exact Served.nil
      · rintro rfl
        exact contenido_of_not_valido clusterValido_zero _
      · exact fun _ ↦ rfl
      · exact fun _ ↦ ⟨rfl, splice_nil.symm⟩
      · exact fun _ h ↦ h
      · exact fun _ _ ↦ ⟨hb, Or.inl rfl⟩
    cases hc : v.clusterValido c with
    | false =>
      refine ⟨0, dst, e, c, [], [],
        by rw [leerTramoVueltas, if_neg ho, if_neg hb, lbaValido_eq_none hc, Nat.add_zero], ?_⟩
      constructor
      · exact contenido_of_not_valido hc _
      · exact Served.nil
      · exact fun _ ↦ rfl
      · exact fun _ ↦ (contenido_of_not_valido hc _).symm
      · exact fun _ ↦ ⟨rfl, splice_nil.symm⟩
      · exact fun _ h ↦ h
      · exact fun _ h ↦ absurd h (hc ▸ Bool.false_ne_true)
    | true =>
      obtain ⟨m, hm⟩ : ∃ m, m = min (fin - offset) v.delCluster := ⟨_, rfl⟩
      have hmd : m ≤ v.delCluster := by omega
      have hml : offset + m ≤ dst.length := by omega
      have hm0 : 0 < m := by
        have := @delCluster_pos v
        omega
      obtain ⟨p, hp⟩ : ∃ p, p = v.pieza e c m dst offset := ⟨_, rfl⟩
      obtain ⟨q, hq⟩ : ∃ q, q = v.cabo p.estado c m p.dst offset := ⟨_, rfl⟩
      have hsplit := contenido_split hc (fin - offset)
      rw [← hm] at hsplit
      rw [leerTramoVueltas_succ (Nat.lt_of_not_le ho) (Nat.lt_of_not_le hb) hc hm hp hq]
      cases hpo : p.ok with
      | false =>
        exact ⟨0, p.dst, p.estado, 0, _, [], rfl, Tramo.de_sirve (served_pieza _ hmd hml hp hpo)⟩
      | true =>
        cases hqo : q.ok with
        | false =>
          exact ⟨0, q.dst, q.estado, 0, _, [], rfl,
            Tramo.de_sirve (served_cabo_zero _ hmd hml hp hq hpo hqo)⟩
        | true =>
          have hdst := cabo_dst hmd hml hp hq hpo hqo
          have hlt := length_take_datos (c := c) hmd
          have hfit : offset + ((v.datos c).take m).length ≤ dst.length := by rw [hlt]; exact hml
          have hql : q.dst.length = dst.length := by rw [hdst, length_splice hfit]
          rw [Bool.not_true, if_neg Bool.false_ne_true, if_neg Bool.false_ne_true]
          by_cases hfin : fin ≤ offset + m
          · -- the file, or the buffer, ends in this cluster
            refine ⟨m, q.dst, q.estado, 0, _, [], if_pos hfin, Tramo.de_sirve ?_⟩
            rw [hsplit, elim_contenido (by omega), List.append_nil, hdst]
            conv => arg 6; rw [← hlt]
            exact Served.of_splice hfit
          rw [if_neg hfin]
          rcases readFatEntry_cases q.estado c with ⟨c', e', hf, hs⟩ | ⟨e', hf, hs⟩
          · obtain ⟨n, dst', e'', sig, w, r, hrun, ht⟩ :=
              @ih e' c' q.dst (offset + m) (by omega) (by omega)
            refine ⟨m + n, dst', e'', sig, (v.datos c).take m ++ w, r, ?_, ?_⟩
            · rw [hf, ← Nat.add_assoc]
              exact hrun
            · have hmc : m = v.delCluster := by omega
              rw [hdst] at ht
              constructor
              · rw [hsplit, hs, Option.elim_some, List.append_assoc, ← ht.todo, Nat.sub_sub]
              · have hsv := ht.sirve.mono fun h ↦ SinErrores.siguiente h hs
                conv => arg 6; rw [← hlt]
                apply Served.append hfit
                rw [hlt]
                exact hsv
              · exact ht.fin_eq
              · intro h0
                rw [ht.resto h0, Nat.add_assoc]
              · intro h0
                obtain ⟨rfl, hd'⟩ := ht.entero h0
                rw [hd', ← splice_splice hfit, hlt, List.length_append, hlt]
                exact ⟨rfl, rfl⟩
              · exact fun h0 h ↦ ht.sinErrores h0 (h.siguiente hs)
              · intro h0 hv
                obtain ⟨hll, -⟩ := ht.avanza h0 hv
                exact ⟨by rw [← Nat.add_assoc]; exact hll, Or.inr (by omega)⟩
          · refine ⟨m, q.dst, e', 0, _, [], by rw [hf], Tramo.de_sirve ?_⟩
            have hend := served_fin (offset + ((v.datos c).take m).length)
              (splice dst offset ((v.datos c).take m))
              (fun c' ↦ v.contenido c' (fin - offset - m)) hs
            have happ := hend.append hfit
            rw [hlt, Nat.add_zero, ← hdst, ← hsplit] at happ
            exact happ

private theorem leerTramo_sirve {ya tope : Nat} (size : UInt32) :
    ∃ n dst' e' sig w r,
      v.leerTramo c ya size dst tope e = some (⟨n, dst', e'⟩, sig) ∧
      Tramo v c (min size.toNat dst.length) ya dst dst' n sig (hasta ya tope ≤ ya + n) w r := by
  obtain ⟨n, dst', e', sig, w, r, hrun, ht⟩ :=
    @leerTramoVueltas_sirve v e c dst (min size.toNat dst.length) ya tope
      (min size.toNat dst.length - ya + 1) ya (by omega) (by omega)
  rw [Nat.add_sub_cancel_left] at hrun
  exact ⟨n, dst', e', sig, w, r, hrun, ht⟩

variable (v) in
/-- Calls of `leer_tramo` with these budgets, each from the cluster that the one before gave back,
until it gives none. -/
def leerTramos (size : UInt32) : List Nat → UInt32 → Nat → Bytes → Estado v → Option (Leido v)
  | [], _, ya, dst, e => some ⟨ya, dst, e⟩
  | tope :: ts, cluster, ya, dst, e =>
    match v.leerTramo cluster ya size dst tope e with
    | none => none
    | some (r, sig) =>
      if sig = 0 then some ⟨ya + r.n, r.dst, r.estado⟩
      else leerTramos size ts sig (ya + r.n) r.dst r.estado

/-- **`leer_tramo`, call after call**: what has come is the file from there; and when there are
calls enough, each with something to bring, without errors it is all of it. -/
theorem leerTramos_sirve {ts : List Nat} {ya : Nat} (size : UInt32)
    (hya : ya ≤ min size.toNat dst.length) :
    ∃ n dst' e' w r,
      v.leerTramos size ts c ya dst e = some ⟨ya + n, dst', e'⟩ ∧
      v.contenido c (min size.toNat dst.length - ya) = w ++ r ∧
      Served (v.SinErrores c) w ya dst dst' n ∧
      ((∀ t ∈ ts, 0 < t ∧ size.toNat + t < 2 ^ 64) →
        min size.toNat dst.length - ya ≤ ts.length * v.delCluster → r = []) := by
  induction ts generalizing c ya dst e with
  | nil =>
    refine ⟨0, dst, e, [], v.contenido c (min size.toNat dst.length - ya), rfl, rfl, Served.nil, ?_⟩
    intro _ h
    rw [List.length_nil, Nat.zero_mul] at h
    rw [Nat.le_zero.mp h, contenido_zero]
  | cons tope ts ih =>
    obtain ⟨n, dst', e', sig, w, r, hrun, ht⟩ :=
      @leerTramo_sirve v e c dst ya tope size
    rw [leerTramos, hrun]
    dsimp only
    by_cases h0 : sig = 0
    · exact ⟨n, dst', e', w, r, if_pos h0, ht.todo, ht.sirve, fun _ _ ↦ ht.fin_eq h0⟩
    obtain ⟨rfl, hd'⟩ := ht.entero h0
    have hl := ht.sirve.length_eq
    have hfin : ya + w.length ≤ min size.toNat dst.length := by
      have hle := congrArg List.length ht.todo
      rw [List.length_append] at hle
      have := @length_contenido_le v c (min size.toNat dst.length - ya)
      omega
    obtain ⟨n', dst'', e'', w', r', hrun', htodo, hserv, hall⟩ := @ih e' sig dst' (ya + w.length)
      (by
      rw [hl]
      exact hfin)
    rw [hl] at htodo hall
    refine ⟨w.length + n', dst'', e'', w ++ w', r', ?_, ?_, ?_, ?_⟩
    · rw [if_neg h0, hrun', Nat.add_assoc]
    · rw [ht.todo, ht.resto h0, htodo, List.append_assoc]
    · have hs := hserv.mono (ht.sinErrores h0)
      rw [hd'] at hs
      exact hs.append (by omega)
    · intro hts hlen
      obtain ⟨⟨ht0, ht64⟩, hts'⟩ := List.forall_mem_cons.mp hts
      cases hv : v.clusterValido sig with
      | false =>
        rw [contenido_of_not_valido hv] at htodo
        exact (List.append_eq_nil_iff.mp htodo.symm).2
      | true =>
        -- a call with something to bring goes past a cluster
        obtain ⟨hll, hdel⟩ := ht.avanza h0 hv
        rw [hasta, Nat.mod_eq_of_lt (by omega)] at hll
        apply hall hts'
        rw [List.length_cons, Nat.succ_mul] at hlen
        omega

end FatVolume

end BmoX.Fat
