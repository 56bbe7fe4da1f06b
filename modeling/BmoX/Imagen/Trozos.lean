import BmoX.Imagen.Filas

/-!
# The chunks of QOI

The loop is over the pixels and the format is over the chunks: the pixels that are left of a run
stand before the colours of the chunks that follow.
-/

namespace BmoX.Imagen

open BmoX.Base

/-- The variables of the loop stand for what was seen. -/
structure Sigue (v : Visto) (s : Lector) : Prop where
  px : s.px = v.px
  tabla : s.tabla.length = 64
  en : ∀ k < 64, s.tabla[k]? = some (v.en k)

theorem sigue_inicial : Sigue .inicial ⟨List.replicate 64 ⟨0, 0, 0, 0⟩, ⟨0, 0, 0, 255⟩, 0, 14⟩ where
  px := rfl
  tabla := List.length_replicate
  en k hk := by rw [List.getElem?_replicate, if_pos hk]; rfl

private theorem huella_lt (px : Px) : huella px < 64 := Nat.mod_lt _ (by decide)

/-- The colour of a chunk is seen. -/
theorem Sigue.ve {v : Visto} {s : Lector} (h : Sigue v s) (px : Px) (tanda i : Nat) :
    Sigue (v.ve px) ⟨s.tabla.set (huella px) px, px, tanda, i⟩ where
  px := rfl
  tabla := by rw [List.length_set, h.tabla]
  en k hk := by
    dsimp only [Visto.ve]
    rw [List.getElem?_set, Function.update_apply]
    by_cases heq : k = huella px
    · rw [if_pos heq.symm, if_pos (by rw [h.tabla]; exact huella_lt px), if_pos heq]
    · rw [if_neg (Ne.symm heq), if_neg heq, h.en k hk]

/-- What is left of the chunks from a place of the string. -/
def quedan (b : Bytes) (fin i : Nat) : Bytes := slice b i (fin - i)

/-- A byte of the chunks, and those after it. -/
theorem quedan_cons {b : Bytes} {fin i : Nat} (hfin : fin ≤ b.length) {x : UInt8} {r : Bytes}
    (h : quedan b fin i = x :: r) : b[i]? = some x ∧ i < fin ∧ quedan b fin (i + 1) = r := by
  have hlen : (quedan b fin i).length = fin - i := by
    rw [quedan, length_slice]
    omega
  rw [h, List.length_cons] at hlen
  have hi : i < b.length := by omega
  obtain ⟨n, hn⟩ : ∃ n, fin - i = n + 1 := ⟨r.length, hlen.symm⟩
  rw [quedan, hn, slice_succ hi] at h
  obtain ⟨hx, hr⟩ := List.cons.inj h
  refine ⟨by rw [List.getElem?_eq_getElem hi, hx], by omega, ?_⟩
  rw [quedan, show fin - (i + 1) = n by omega, hr]

private theorem length_quedan {b : Bytes} {fin i : Nat} (hfin : fin ≤ b.length) :
    (quedan b fin i).length = fin - i := by
  rw [quedan, length_slice]
  omega

/-! ### One chunk -/

private theorem toNat_alto (x : UInt8) : (x >>> 6).toNat = x.toNat / 64 := by
  rw [UInt8.toNat_shiftRight, Nat.shiftRight_eq_div_pow]
  rfl

/-- Where there is no whole chunk, the bytes that its first one asks for are missing. -/
theorem largo_of_none {b1 : UInt8} {s : Bytes} (h : siguiente (b1 :: s) = none) :
    s.length + 1 < largo b1 := by
  unfold siguiente at h
  dsimp only at h
  unfold largo
  by_cases hfe : b1 = 0xFE
  · rw [if_pos hfe]
    rw [if_pos hfe] at h
    match s, h with
    | [], _ => exact show 1 < 4 by decide
    | [_], _ => exact show 2 < 4 by decide
    | [_, _], _ => exact show 3 < 4 by decide
  · rw [if_neg hfe]
    rw [if_neg hfe] at h
    by_cases hff : b1 = 0xFF
    · rw [if_pos hff]
      rw [if_pos hff] at h
      match s, h with
      | [], _ => exact show 1 < 5 by decide
      | [_], _ => exact show 2 < 5 by decide
      | [_, _], _ => exact show 3 < 5 by decide
      | [_, _, _], _ => exact show 4 < 5 by decide
    · rw [if_neg hff]
      rw [if_neg hff] at h
      obtain ⟨k, hk⟩ : ∃ k, k = b1.toNat / 64 := ⟨_, rfl⟩
      rw [← hk] at h
      match k, h with
      | 2, h =>
        have hdos : b1 >>> 6 = 2 := UInt8.toNat_inj.mp ((toNat_alto b1).trans hk.symm)
        rw [if_pos hdos]
        match s, h with
        | [], _ => decide

/-- The bits of a byte of its own class, below `0xFE`. -/
structure Clase (b1 : UInt8) (k : UInt8) : Prop where
  fe : b1 ≠ 0xFE
  ff : b1 ≠ 0xFF
  alto : b1 >>> 6 = k

private theorem clase_index (k : Fin 64) :
    Clase (UInt8.ofNat k) 0 ∧ (UInt8.ofNat k &&& 63).toNat = k := by
  have h : ∀ k : Fin 64, (UInt8.ofNat k ≠ 0xFE ∧ UInt8.ofNat k ≠ 0xFF ∧ UInt8.ofNat k >>> 6 = 0) ∧
      (UInt8.ofNat k &&& 63).toNat = k := by decide
  obtain ⟨⟨hfe, hff, halto⟩, hk⟩ := h k
  exact ⟨⟨hfe, hff, halto⟩, hk⟩

private theorem clase_diff (dr dg db : Fin 4) :
    Clase (UInt8.ofNat (64 + 16 * dr + 4 * dg + db)) 1 ∧
      (UInt8.ofNat (64 + 16 * dr + 4 * dg + db) >>> 4) &&& 3 = UInt8.ofNat dr ∧
      (UInt8.ofNat (64 + 16 * dr + 4 * dg + db) >>> 2) &&& 3 = UInt8.ofNat dg ∧
      UInt8.ofNat (64 + 16 * dr + 4 * dg + db) &&& 3 = UInt8.ofNat db := by
  have h : ∀ dr dg db : Fin 4, (UInt8.ofNat (64 + 16 * dr + 4 * dg + db) ≠ 0xFE ∧
      UInt8.ofNat (64 + 16 * dr + 4 * dg + db) ≠ 0xFF ∧
      UInt8.ofNat (64 + 16 * dr + 4 * dg + db) >>> 6 = 1) ∧
      (UInt8.ofNat (64 + 16 * dr + 4 * dg + db) >>> 4) &&& 3 = UInt8.ofNat dr ∧
      (UInt8.ofNat (64 + 16 * dr + 4 * dg + db) >>> 2) &&& 3 = UInt8.ofNat dg ∧
      UInt8.ofNat (64 + 16 * dr + 4 * dg + db) &&& 3 = UInt8.ofNat db := by decide
  obtain ⟨⟨hfe, hff, halto⟩, hbits⟩ := h dr dg db
  exact ⟨⟨hfe, hff, halto⟩, hbits⟩

private theorem clase_luma (dg : Fin 64) :
    Clase (UInt8.ofNat (128 + dg)) 2 ∧ UInt8.ofNat (128 + dg) &&& 63 = UInt8.ofNat dg := by
  have h : ∀ k : Fin 64, (UInt8.ofNat (128 + k) ≠ 0xFE ∧ UInt8.ofNat (128 + k) ≠ 0xFF ∧
      UInt8.ofNat (128 + k) >>> 6 = 2) ∧ UInt8.ofNat (128 + k) &&& 63 = UInt8.ofNat k := by decide
  obtain ⟨⟨hfe, hff, halto⟩, hk⟩ := h dg
  exact ⟨⟨hfe, hff, halto⟩, hk⟩

private theorem mitades (x y : Fin 16) : UInt8.ofNat (16 * x + y) >>> 4 = UInt8.ofNat x ∧
    UInt8.ofNat (16 * x + y) &&& 15 = UInt8.ofNat y := by
  revert x y
  decide

private theorem clase_run (n : Fin 62) :
    Clase (UInt8.ofNat (192 + n)) 3 ∧ (UInt8.ofNat (192 + n) &&& 63).toNat = n := by
  have h : ∀ k : Fin 62, (UInt8.ofNat (192 + k) ≠ 0xFE ∧ UInt8.ofNat (192 + k) ≠ 0xFF ∧
      UInt8.ofNat (192 + k) >>> 6 = 3) ∧ (UInt8.ofNat (192 + k) &&& 63).toNat = k := by decide
  obtain ⟨⟨hfe, hff, halto⟩, hk⟩ := h n
  exact ⟨⟨hfe, hff, halto⟩, hk⟩

theorem Clase.largo {b1 k : UInt8} (h : Clase b1 k) : largo b1 = if k = 2 then 2 else 1 := by
  rw [Imagen.largo, if_neg h.fe, if_neg h.ff, h.alto]

/-- What a chunk leaves in the variables. -/
theorem trozo_eq {b : Bytes} {fin : Nat} (hfin : fin ≤ b.length) {v : Visto} {s : Lector}
    (hs : Sigue v s) (ht : s.tanda = 0) (c : Chunk) {b1 : UInt8} {l r : Bytes}
    (hc : c.bytes = b1 :: l) (h : quedan b fin s.i = c.bytes ++ r) :
    largo b1 = c.bytes.length ∧
      trozo b s b1 = some { s with px := c.color v, tanda := c.veces - 1 } := by
  obtain ⟨tabla, px, tanda, i⟩ := s
  obtain rfl : px = v.px := hs.px
  obtain rfl : tanda = 0 := ht
  cases c with
  | rgb x y z =>
    obtain ⟨rfl, -⟩ := List.cons.inj hc
    obtain ⟨-, -, h⟩ := quedan_cons hfin h
    obtain ⟨hx, -, h⟩ := quedan_cons hfin h
    obtain ⟨hy, -, h⟩ := quedan_cons hfin h
    obtain ⟨hz, -, h⟩ := quedan_cons hfin h
    refine ⟨rfl, ?_⟩
    rw [trozo, if_pos rfl, hx, hy, hz]
    rfl
  | rgba x y z a =>
    obtain ⟨rfl, -⟩ := List.cons.inj hc
    obtain ⟨-, -, h⟩ := quedan_cons hfin h
    obtain ⟨hx, -, h⟩ := quedan_cons hfin h
    obtain ⟨hy, -, h⟩ := quedan_cons hfin h
    obtain ⟨hz, -, h⟩ := quedan_cons hfin h
    obtain ⟨ha, -, h⟩ := quedan_cons hfin h
    refine ⟨rfl, ?_⟩
    rw [trozo, if_neg (by decide), if_pos rfl, hx, hy, hz, ha]
    rfl
  | index k =>
    obtain ⟨rfl, -⟩ := List.cons.inj hc
    obtain ⟨hclase, hk⟩ := clase_index k
    refine ⟨hclase.largo, ?_⟩
    rw [trozo, if_neg hclase.fe, if_neg hclase.ff, if_pos hclase.alto, hk, hs.en k k.isLt]
    rfl
  | diff dr dg db =>
    obtain ⟨rfl, -⟩ := List.cons.inj hc
    obtain ⟨hclase, hr, hg, hb⟩ := clase_diff dr dg db
    refine ⟨hclase.largo, ?_⟩
    rw [trozo, if_neg hclase.fe, if_neg hclase.ff, if_neg (by rw [hclase.alto]; decide),
      if_pos hclase.alto, hr, hg, hb]
    rfl
  | luma dg drg dbg =>
    obtain ⟨rfl, -⟩ := List.cons.inj hc
    obtain ⟨hclase, hg⟩ := clase_luma dg
    obtain ⟨hr, hb⟩ := mitades drg dbg
    obtain ⟨-, -, h⟩ := quedan_cons hfin h
    obtain ⟨h2, -, h⟩ := quedan_cons hfin h
    refine ⟨hclase.largo, ?_⟩
    rw [trozo, if_neg hclase.fe, if_neg hclase.ff, if_neg (by rw [hclase.alto]; decide),
      if_neg (by rw [hclase.alto]; decide), if_pos hclase.alto, hg, h2]
    dsimp only [Option.bind_eq_bind, Option.bind_some]
    rw [hr, hb]
    rfl
  | run n =>
    obtain ⟨rfl, -⟩ := List.cons.inj hc
    obtain ⟨hclase, hn⟩ := clase_run n
    refine ⟨hclase.largo, ?_⟩
    rw [trozo, if_neg hclase.fe, if_neg hclase.ff, if_neg (by rw [hclase.alto]; decide),
      if_neg (by rw [hclase.alto]; decide), if_neg (by rw [hclase.alto]; decide), hn]
    rfl

/-! ### One pixel -/

theorem quedan_append {b : Bytes} {fin i : Nat} {a r : Bytes} (h : quedan b fin i = a ++ r) :
    quedan b fin (i + a.length) = r := by
  have hdrop : quedan b fin (i + a.length) = (quedan b fin i).drop a.length := by
    rw [quedan, quedan, slice, slice, List.drop_take, List.drop_drop, Nat.sub_sub]
  rw [hdrop, h, List.drop_left]

private theorem bytes_cons (c : Chunk) : ∃ b1 l, c.bytes = b1 :: l := by
  cases c <;> exact ⟨_, _, rfl⟩

private theorem veces_pos (c : Chunk) : 0 < c.veces := by
  cases c with
  | run n => exact Nat.succ_pos n
  | _ => exact Nat.one_pos

theorem qoiPixel_tanda (b : Bytes) (fin : Nat) {s : Lector} {n : Nat} (ht : s.tanda = n + 1) :
    qoiPixel b fin s = some (.ok { s with tanda := n }) := by
  rw [qoiPixel, if_pos (by omega), ht]
  rfl

private theorem qoiPixel_corto {b : Bytes} {fin : Nat} (hfin : fin ≤ b.length) {s : Lector}
    (ht : s.tanda = 0) (h : siguiente (quedan b fin s.i) = none) :
    qoiPixel b fin s = some (.error .Corto) := by
  have hlen := length_quedan (i := s.i) hfin
  rw [qoiPixel, if_neg (by omega)]
  cases hq : quedan b fin s.i with
  | nil =>
    have hno : ¬s.i < fin := by
      rw [hq, List.length_nil] at hlen
      omega
    cases b[s.i]? with
    | none => rfl
    | some x => rw [Option.filter_some, if_neg (by simpa using hno)]
  | cons b1 l =>
    obtain ⟨hb1, hlt, -⟩ := quedan_cons hfin hq
    rw [hq] at h hlen
    have hlargo := largo_of_none h
    rw [List.length_cons] at hlen
    rw [hb1, Option.filter_some, if_pos (by simpa using hlt)]
    exact if_pos (by omega)

/-- A whole chunk. -/
theorem qoiPixel_trozo {b : Bytes} {fin : Nat} (hfin : fin ≤ b.length) {v : Visto} {s : Lector}
    (hs : Sigue v s) (ht : s.tanda = 0) {c : Chunk} {r : Bytes}
    (h : quedan b fin s.i = c.bytes ++ r) :
    ∃ s', qoiPixel b fin s = some (.ok s') ∧ Sigue (v.ve (c.color v)) s' ∧
      s'.tanda + 1 = c.veces ∧ quedan b fin s'.i = r := by
  obtain ⟨b1, l, hc⟩ := bytes_cons c
  obtain ⟨hlargo, htrozo⟩ := trozo_eq hfin hs ht c hc h
  have hq : quedan b fin s.i = b1 :: (l ++ r) := by rw [h, hc, List.cons_append]
  obtain ⟨hb1, hlt, -⟩ := quedan_cons hfin hq
  have hlen := length_quedan (i := s.i) hfin
  rw [h, List.length_append] at hlen
  have hveces := veces_pos c
  refine ⟨_, ?_, hs.ve (c.color v) (c.veces - 1) (s.i + largo b1), ?_, ?_⟩
  · rw [qoiPixel, if_neg (by omega), hb1, Option.filter_some, if_pos (by simpa using hlt)]
    dsimp only
    rw [if_neg (by omega), htrozo]
    rfl
  · dsimp only
    omega
  · dsimp only
    rw [hlargo]
    exact quedan_append h

/-! ### All the pixels -/

/-- **The loop ends with all its pixels, or for want of a whole chunk.** -/
theorem qoiDesde_eq {b : Bytes} {fin : Nat} (hfin : fin ≤ b.length) (dst : List UInt32) {v : Visto}
    {s : Lector} (hs : Sigue v s) :
    ∃ r out, qoiDesde b fin s dst = some (r, out) ∧ out.length = dst.length ∧
      (r = .error .Corto ∨ r = .ok () ∧ ∃ cs resto, quedan b fin s.i = cs.flatMap Chunk.bytes ++
        resto ∧
        dst.length ≤ s.tanda + (colores v cs).length) := by
  induction dst generalizing v s with
  | nil => exact ⟨.ok (), [], rfl, rfl, .inr ⟨rfl, [], _, rfl, Nat.zero_le _⟩⟩
  | cons o dst ih =>
    cases ht : s.tanda with
    | succ n =>
      have hs' : Sigue v { s with tanda := n } := ⟨hs.px, hs.tabla, hs.en⟩
      obtain ⟨r, out, hdesde, hlen, hr⟩ := ih hs'
      refine ⟨r, s.px.palabra :: out, ?_, congrArg Nat.succ hlen, ?_⟩
      · rw [qoiDesde, qoiPixel_tanda b fin ht]
        dsimp only [Option.bind_eq_bind, Option.bind_some]
        rw [hdesde]
        rfl
      · refine hr.imp_right fun ⟨hok, cs, resto, hq, hle⟩ ↦ ⟨hok, cs, resto, hq, ?_⟩
        rw [List.length_cons]
        dsimp only at hle
        omega
    | zero =>
      cases hsig : siguiente (quedan b fin s.i) with
      | none =>
        refine ⟨.error .Corto, o :: dst, ?_, rfl, .inl rfl⟩
        rw [qoiDesde, qoiPixel_corto hfin ht hsig]
        rfl
      | some cr =>
        obtain ⟨c, r⟩ := cr
        have hq := eq_of_siguiente hsig
        obtain ⟨s', hpixel, hs', hveces, hq'⟩ := qoiPixel_trozo hfin hs ht hq
        obtain ⟨x, out, hdesde, hlen, hx⟩ := ih hs'
        refine ⟨x, s'.px.palabra :: out, ?_, congrArg Nat.succ hlen, ?_⟩
        · rw [qoiDesde, hpixel]
          dsimp only [Option.bind_eq_bind, Option.bind_some]
          rw [hdesde]
          rfl
        · refine hx.imp_right fun ⟨hok, cs, resto, hcs, hle⟩ ↦ ⟨hok, c :: cs, resto, ?_, ?_⟩
          · rw [hq, ← hq', hcs, List.flatMap_cons, List.append_assoc]
          · rw [colores, List.length_append, List.length_replicate, List.length_cons]
            omega

/-- **The pixels of the loop** are the first of the run that is left and of the chunks that follow.
-/
theorem qoiDesde_ok {b : Bytes} {fin : Nat} (hfin : fin ≤ b.length) (dst : List UInt32) {v : Visto}
    {s : Lector} (hs : Sigue v s) {cs : List Chunk} {resto : Bytes}
    (hq : quedan b fin s.i = cs.flatMap Chunk.bytes ++ resto)
    (hle : dst.length ≤ s.tanda + (colores v cs).length) :
    qoiDesde b fin s dst = some (.ok (),
      ((List.replicate s.tanda v.px ++ colores v cs).take dst.length).map Px.palabra) := by
  induction dst generalizing v s cs with
  | nil => rw [List.length_nil, List.take_zero]; rfl
  | cons o dst ih =>
    rw [List.length_cons] at hle
    cases ht : s.tanda with
    | succ n =>
      have hs' : Sigue v { s with tanda := n } := ⟨hs.px, hs.tabla, hs.en⟩
      have hdesde := ih hs' hq (by dsimp only; omega)
      rw [qoiDesde, qoiPixel_tanda b fin ht]
      dsimp only [Option.bind_eq_bind, Option.bind_some]
      rw [hdesde, List.replicate_succ, List.cons_append, List.length_cons, List.take_succ_cons,
        List.map_cons, ← hs.px]
      rfl
    | zero =>
      cases cs with
      | nil =>
        rw [ht, colores, List.length_nil] at hle
        omega
      | cons c cs =>
        rw [List.flatMap_cons, List.append_assoc] at hq
        obtain ⟨s', hpixel, hs', hveces, hq'⟩ := qoiPixel_trozo hfin hs ht hq
        rw [colores, List.length_append, List.length_replicate] at hle
        have hdesde := ih hs' hq' (by omega)
        rw [qoiDesde, hpixel]
        dsimp only [Option.bind_eq_bind, Option.bind_some]
        rw [hdesde, List.replicate_zero, List.nil_append, colores, ← hveces, List.replicate_succ,
          List.cons_append, List.length_cons, List.take_succ_cons, List.map_cons, hs'.px]
        rfl

end BmoX.Imagen
