import BmoX.Base.Blocks
import BmoX.Base.Chunks
import BmoX.Imagen.Formatos

/-!
# The headers, and the pixels of BICO and BMP

What `medir` accepts is what a header declares, and the words and the rows are written whole or not
at all. -/

namespace BmoX.Imagen

open BmoX.Base

/-! ### Numbers of the string -/

theorem slice_succ {b : Bytes} {o : Nat} (h : o < b.length) (n : Nat) :
    slice b o (n + 1) = b[o] :: slice b (o + 1) n := by
  rw [slice, slice, List.drop_eq_getElem_cons h, List.take_succ_cons]

private theorem slice_none (b : Bytes) (o : Nat) : slice b o 0 = [] := List.take_zero ..

/-- Four bytes of the string, where it has them. -/
theorem cuatro {b : Bytes} {i : Nat} (h : i + 4 ≤ b.length) : ∃ x0 x1 x2 x3,
    b[i]? = some x0 ∧ b[i + 1]? = some x1 ∧ b[i + 2]? = some x2 ∧ b[i + 3]? = some x3 ∧
      slice b i 4 = [x0, x1, x2, x3] := by
  have h0 : i < b.length := by omega
  have h1 : i + 1 < b.length := by omega
  have h2 : i + 2 < b.length := by omega
  have h3 : i + 3 < b.length := by omega
  refine ⟨b[i], b[i + 1], b[i + 2], b[i + 3], List.getElem?_eq_getElem h0,
    List.getElem?_eq_getElem h1, List.getElem?_eq_getElem h2, List.getElem?_eq_getElem h3, ?_⟩
  rw [slice_succ h0, slice_succ h1, slice_succ h2, slice_succ h3, slice_none]

theorem falta {b : Bytes} {i n : Nat} (h : b.length < i + (n + 1)) : b[i + n]? = none :=
  List.getElem?_eq_none (by omega)

private theorem le32_eq (b : Bytes) (i : Nat) :
    le32 b i = if i + 4 ≤ b.length then some (UInt32.ofNat (num b i 4)) else none := by
  by_cases h : i + 4 ≤ b.length
  · obtain ⟨x0, x1, x2, x3, h0, h1, h2, h3, hs⟩ := cuatro h
    rw [if_pos h, le32, h0, h1, h2, h3, num, hs]
    rfl
  · rw [if_neg h, le32, falta (n := 3) (by omega)]
    cases b[i]? <;> cases b[i + 1]? <;> cases b[i + 2]? <;> rfl

private theorem be32_eq (b : Bytes) (i : Nat) :
    be32 b i = if i + 4 ≤ b.length then some (UInt32.ofNat (numAlto b i 4)) else none := by
  by_cases h : i + 4 ≤ b.length
  · obtain ⟨x0, x1, x2, x3, h0, h1, h2, h3, hs⟩ := cuatro h
    rw [if_pos h, be32, h0, h1, h2, h3, numAlto, hs]
    rfl
  · rw [if_neg h, be32, falta (n := 3) (by omega)]
    cases b[i]? <;> cases b[i + 1]? <;> cases b[i + 2]? <;> rfl

private theorem le16_eq (b : Bytes) (i : Nat) :
    le16 b i = if i + 2 ≤ b.length then some (UInt32.ofNat (num b i 2)) else none := by
  by_cases h : i + 2 ≤ b.length
  · have h0 : i < b.length := by omega
    have h1 : i + 1 < b.length := by omega
    rw [if_pos h, le16, List.getElem?_eq_getElem h0, List.getElem?_eq_getElem h1, num,
      slice_succ h0, slice_succ h1, slice_none]
    rfl
  · rw [if_neg h, le16, falta (n := 1) (by omega)]
    cases b[i]? <;> rfl

private theorem num_lt (b : Bytes) (i : Nat) {n : Nat} (hn : n ≤ 4) : num b i n < 2 ^ 32 := by
  have hlen : (slice b i n).length ≤ 4 := by
    rw [length_slice]
    omega
  exact (leNat_lt _).trans_le (Nat.pow_le_pow_right (n := 256) (by decide) hlen)

private theorem numAlto_lt (b : Bytes) (i : Nat) : numAlto b i 4 < 2 ^ 32 := by
  have hlen : (slice b i 4).reverse.length ≤ 4 := by
    rw [List.length_reverse, length_slice]
    omega
  exact (leNat_lt _).trans_le (Nat.pow_le_pow_right (n := 256) (by decide) hlen)

theorem toNat_num (b : Bytes) (i : Nat) {n : Nat} (hn : n ≤ 4) :
    (UInt32.ofNat (num b i n)).toNat = num b i n := by
  rw [UInt32.toNat_ofNat', Nat.mod_eq_of_lt (num_lt b i hn)]

private theorem le32_some {b : Bytes} {i : Nat} {v : UInt32} :
    le32 b i = some v ↔ i + 4 ≤ b.length ∧ num b i 4 = v.toNat := by
  rw [le32_eq]
  by_cases h : i + 4 ≤ b.length
  · rw [if_pos h, Option.some_inj, ← UInt32.toNat_inj, toNat_num b i le_rfl, and_iff_right h]
  · rw [if_neg h]
    exact iff_of_false (fun hno ↦ nomatch hno) fun hno ↦ h hno.1

private theorem le16_some {b : Bytes} {i : Nat} {v : UInt32} :
    le16 b i = some v ↔ i + 2 ≤ b.length ∧ num b i 2 = v.toNat := by
  rw [le16_eq]
  by_cases h : i + 2 ≤ b.length
  · rw [if_pos h, Option.some_inj, ← UInt32.toNat_inj, toNat_num b i (by decide), and_iff_right h]
  · rw [if_neg h]
    exact iff_of_false (fun hno ↦ nomatch hno) fun hno ↦ h hno.1

private theorem be32_some {b : Bytes} {i : Nat} {v : UInt32} :
    be32 b i = some v ↔ i + 4 ≤ b.length ∧ numAlto b i 4 = v.toNat := by
  rw [be32_eq]
  by_cases h : i + 4 ≤ b.length
  · rw [if_pos h, Option.some_inj, ← UInt32.toNat_inj, UInt32.toNat_ofNat',
      Nat.mod_eq_of_lt (numAlto_lt b i), and_iff_right h]
  · rw [if_neg h]
    exact iff_of_false (fun hno ↦ nomatch hno) fun hno ↦ h hno.1

/-! ### Headers -/

private theorem oCorto_ok {α : Type} {x : Option α} {a : α} : oCorto x = .ok a ↔ x = some a := by
  cases x with
  | none => exact iff_of_false (fun hno ↦ nomatch hno) fun hno ↦ nomatch hno
  | some b => exact ⟨fun h ↦ congrArg some (Except.ok.inj h), fun h ↦ congrArg _ (Option.some.inj
    h)⟩

private theorem bind_ok {α β : Type} {x : Except Error α} {f : α → Except Error β} {v : β} :
    (x >>= f) = .ok v ↔ ∃ a, x = .ok a ∧ f a = .ok v := by
  cases x with
  | error e => exact iff_of_false (fun hno ↦ nomatch hno) fun ⟨_, hno, _⟩ ↦ nomatch hno
  | ok a => exact ⟨fun h ↦ ⟨a, rfl, h⟩, fun ⟨_, ha, hf⟩ ↦ Except.ok.inj ha ▸ hf⟩

private theorem rechaza_ok {p : Prop} [Decidable p] {e : Error} : rechaza p e = .ok () ↔ ¬p := by
  by_cases h : p
  · exact iff_of_false (fun hno ↦ nomatch (if_pos h).symm.trans hno) fun hno ↦ hno h
  · exact iff_of_true (if_neg h) h

private theorem lados_ok {w h : UInt32} : lados w h = .ok () ↔ Lado w.toNat ∧ Lado h.toNat := by
  have hcero (x : UInt32) : x = 0 ↔ x.toNat = 0 := by rw [← UInt32.toNat_inj]; rfl
  have hmax (x : UInt32) : x > LADO_MAX ↔ 1024 < x.toNat := UInt32.lt_iff_toNat_lt
  have hiff : (w = 0 ∨ h = 0 ∨ w > LADO_MAX ∨ h > LADO_MAX) ↔ ¬(Lado w.toNat ∧ Lado h.toNat) := by
    rw [hcero, hcero, hmax, hmax]
    unfold Lado
    omega
  rw [lados, rechaza_ok, hiff, not_not]

/-- The sides of a header: two numbers, and what the second stands for. -/
theorem medidas_ok {rw rh : Option UInt32} {g : UInt32 → UInt32} {f : Formato} {m : Medidas} :
    (do
      let w ← oCorto rw
      let h ← oCorto rh
      lados w (g h)
      .ok ⟨w, g h, f⟩ : Except Error Medidas) = .ok m ↔
    ∃ h, rw = some m.ancho ∧ rh = some h ∧ m.alto = g h ∧ m.formato = f ∧
      Lado m.ancho.toNat ∧ Lado m.alto.toNat := by
  constructor
  · intro hok
    obtain ⟨w, hw, hok⟩ := bind_ok.mp hok
    obtain ⟨h, hh, hok⟩ := bind_ok.mp hok
    obtain ⟨⟨⟩, hlados, hok⟩ := bind_ok.mp hok
    obtain rfl := Except.ok.inj hok
    exact ⟨h, oCorto_ok.mp hw, oCorto_ok.mp hh, rfl, rfl, lados_ok.mp hlados⟩
  · rintro ⟨h, hw, hh, halto, hf, hlados⟩
    obtain ⟨w, a, f'⟩ := m
    obtain rfl : a = g h := halto
    obtain rfl : f' = f := hf
    refine bind_ok.mpr ⟨w, oCorto_ok.mpr hw, bind_ok.mpr ⟨h, oCorto_ok.mpr hh, ?_⟩⟩
    exact bind_ok.mpr ⟨(), lados_ok.mpr hlados, rfl⟩

/-- What a header declares. -/
inductive Declara (b : Bytes) : Medidas → Prop
  | bico {w h : UInt32} (magia : slice b 0 4 = [0x42, 0x49, 0x43, 0x4F]) (largo : 8 ≤ b.length)
    (ancho : num b 4 2 = w.toNat) (alto : num b 6 2 = h.toNat) : Declara b ⟨w, h, .Bico⟩
  | qoi {w h : UInt32} (magia : slice b 0 4 = [0x71, 0x6F, 0x69, 0x66]) (largo : 12 ≤ b.length)
    (ancho : numAlto b 4 4 = w.toNat) (alto : numAlto b 8 4 = h.toNat) : Declara b ⟨w, h, .Qoi⟩
  | bmp {w h v : UInt32} (magia : slice b 0 2 = [0x42, 0x4D]) (largo : 26 ≤ b.length)
    (ancho : num b 18 4 = w.toNat) (alto : num b 22 4 = v.toNat)
    (hv : h = if v ≥ 0x80000000 then 0 - v else v) : Declara b ⟨w, h, .Bmp⟩

private theorem ne_bmp {b : Bytes} {x y : UInt8} {l : Bytes} (h : slice b 0 4 = x :: y :: l)
    (hxy : [x, y] ≠ [0x42, 0x4D]) : slice b 0 2 ≠ [0x42, 0x4D] := by
  intro hno
  have htake : (slice b 0 4).take 2 = slice b 0 2 := by
    rw [slice, slice, List.take_take]
    rfl
  rw [h, hno] at htake
  exact hxy htake

/-- **`medir` answers what the header declares, of sides from 1 to 1024.** -/
theorem medir_ok {b : Bytes} {m : Medidas} :
    medir b = .ok m ↔ Declara b m ∧ Lado m.ancho.toNat ∧ Lado m.alto.toNat := by
  unfold medir
  rw [← slice_zero, ← slice_zero]
  by_cases hcorto : b.length < 4
  · rw [if_pos hcorto]
    refine iff_of_false (fun hno ↦ nomatch hno) ?_
    rintro ⟨hd, -⟩
    cases hd <;> omega
  rw [if_neg hcorto]
  by_cases hbico : slice b 0 4 = [0x42, 0x49, 0x43, 0x4F]
  · rw [if_pos hbico]
    refine (medidas_ok (g := id)).trans ?_
    constructor
    · rintro ⟨h, hw, hh, halto, hf, hlados⟩
      obtain ⟨w, a, f⟩ := m
      obtain rfl : a = h := halto
      obtain rfl : f = .Bico := hf
      obtain ⟨hlen, hw⟩ := le16_some.mp hw
      obtain ⟨hlen, hh⟩ := le16_some.mp hh
      exact ⟨.bico hbico hlen hw hh, hlados⟩
    · rintro ⟨hd, hlados⟩
      cases hd with
      | bico _ hlen hw hh =>
        exact ⟨_, le16_some.mpr ⟨by omega, hw⟩, le16_some.mpr ⟨hlen, hh⟩, rfl, rfl, hlados⟩
      | qoi hno => exact absurd (hbico.symm.trans hno) (by decide)
      | bmp hno => exact absurd hno (ne_bmp hbico (by decide))
  rw [if_neg hbico]
  by_cases hqoi : slice b 0 4 = [0x71, 0x6F, 0x69, 0x66]
  · rw [if_pos hqoi]
    refine (medidas_ok (g := id)).trans ?_
    constructor
    · rintro ⟨h, hw, hh, halto, hf, hlados⟩
      obtain ⟨w, a, f⟩ := m
      obtain rfl : a = h := halto
      obtain rfl : f = .Qoi := hf
      obtain ⟨hlen, hw⟩ := be32_some.mp hw
      obtain ⟨hlen, hh⟩ := be32_some.mp hh
      exact ⟨.qoi hqoi hlen hw hh, hlados⟩
    · rintro ⟨hd, hlados⟩
      cases hd with
      | bico hno => exact absurd hno hbico
      | qoi _ hlen hw hh =>
        exact ⟨_, be32_some.mpr ⟨by omega, hw⟩, be32_some.mpr ⟨hlen, hh⟩, rfl, rfl, hlados⟩
      | bmp hno => exact absurd hno (ne_bmp hqoi (by decide))
  rw [if_neg hqoi]
  by_cases hbmp : slice b 0 2 = [0x42, 0x4D]
  · rw [if_pos hbmp]
    refine (medidas_ok (g := fun h ↦ if h ≥ 0x80000000 then 0 - h else h)).trans ?_
    constructor
    · rintro ⟨h, hw, hh, halto, hf, hlados⟩
      obtain ⟨w, a, f⟩ := m
      obtain rfl : f = .Bmp := hf
      obtain ⟨hlen, hw⟩ := le32_some.mp hw
      obtain ⟨hlen, hh⟩ := le32_some.mp hh
      exact ⟨.bmp hbmp hlen hw hh halto, hlados⟩
    · rintro ⟨hd, hlados⟩
      cases hd with
      | bico hno => exact absurd hno hbico
      | qoi hno => exact absurd hno hqoi
      | bmp _ hlen hw hh hv =>
        exact ⟨_, le32_some.mpr ⟨by omega, hw⟩, le32_some.mpr ⟨hlen, hh⟩, hv, rfl, hlados⟩
  · rw [if_neg hbmp]
    refine iff_of_false (fun hno ↦ nomatch hno) ?_
    rintro ⟨hd, -⟩
    cases hd with
    | bico hno => exact absurd hno hbico
    | qoi hno => exact absurd hno hqoi
    | bmp hno => exact absurd hno hbmp

/-! ### The words of a pixel -/

private theorem toNat_pixel (a : Bool) (r g b : UInt8) :
    (Color.pixel ⟨a, r, g, b⟩).toNat = 2 ^ 24 * (if a then 0xFF else 0) + (2 ^ 16 * r.toNat +
      (2 ^ 8 * g.toNat + b.toNat)) := by
  have hr := r.toNat_lt
  have hg := g.toNat_lt
  have hb := b.toNat_lt
  have ha : (if a then 0xFF else 0) ≤ 0xFF := by split <;> decide
  rw [Color.pixel, UInt32.toNat_ofNat', Nat.mod_eq_of_lt (by dsimp only; omega)]
  dsimp only
  omega

private theorem toNat_opaco (a : Bool) :
    (if a then OPACO else 0).toNat = 2 ^ 24 * (if a then 0xFF else 0) := by
  cases a <;> rfl

theorem bitDeAlfa_eq (a : UInt32) (x : UInt8) (h : a.toNat = x.toNat) :
    bitDeAlfa a = if decide (128 ≤ x) then OPACO else 0 := by
  have hiff : a ≥ 128 ↔ 128 ≤ x := by
    rw [ge_iff_le, UInt32.le_iff_toNat_le, UInt8.le_iff_toNat_le, h]
    rfl
  unfold bitDeAlfa
  by_cases hx : 128 ≤ x
  · rw [if_pos (hiff.mpr hx), decide_eq_true hx, if_pos rfl]
  · rw [if_neg fun hno ↦ hx (hiff.mp hno), decide_eq_false hx, if_neg Bool.false_ne_true]

/-- The word of three bytes and a bit. -/
theorem junta_eq (a : Bool) (r g b : UInt8) :
    ((if a then OPACO else 0) ||| (r.toUInt32 <<< 16) ||| (g.toUInt32 <<< 8) ||| b.toUInt32) =
      Color.pixel ⟨a, r, g, b⟩ := by
  have hr := r.toNat_lt
  have hg := g.toNat_lt
  have hb := b.toNat_lt
  have hr' : (r.toUInt32 <<< 16).toNat = 2 ^ 16 * r.toNat := by
    rw [UInt32.toNat_shiftLeft, UInt8.toNat_toUInt32, Nat.shiftLeft_eq]
    rw [show (16 : UInt32).toNat % 32 = 16 from rfl, Nat.mod_eq_of_lt (by omega), Nat.mul_comm]
  have hg' : (g.toUInt32 <<< 8).toNat = 2 ^ 8 * g.toNat := by
    rw [UInt32.toNat_shiftLeft, UInt8.toNat_toUInt32, Nat.shiftLeft_eq]
    rw [show (8 : UInt32).toNat % 32 = 8 from rfl, Nat.mod_eq_of_lt (by omega), Nat.mul_comm]
  rw [← UInt32.toNat_inj, toNat_pixel, UInt32.toNat_or, UInt32.toNat_or, UInt32.toNat_or,
    toNat_opaco, hr', hg', UInt8.toNat_toUInt32, Nat.or_assoc, Nat.or_assoc,
    Nat.two_pow_add_eq_or_of_lt (i := 24) (by omega),
    Nat.two_pow_add_eq_or_of_lt (i := 16) (by omega),
    Nat.two_pow_add_eq_or_of_lt (i := 8) (by omega)]

/-- The word of four bytes, its alpha cut to a bit. -/
theorem corta_eq (x0 x1 x2 x3 : UInt8) :
    (bitDeAlfa (UInt32.ofNat (leNat [x0, x1, x2, x3]) >>> 24) |||
      (UInt32.ofNat (leNat [x0, x1, x2, x3]) &&& 0x00FFFFFF)) =
      Color.pixel ⟨decide (128 ≤ x3), x2, x1, x0⟩ := by
  have h0 := x0.toNat_lt
  have h1 := x1.toNat_lt
  have h2 := x2.toNat_lt
  have h3 := x3.toNat_lt
  have hv : (UInt32.ofNat (leNat [x0, x1, x2, x3])).toNat =
      2 ^ 24 * x3.toNat + (2 ^ 16 * x2.toNat + (2 ^ 8 * x1.toNat + x0.toNat)) := by
    rw [UInt32.toNat_ofNat']
    simp only [leNat]
    omega
  have halto : (UInt32.ofNat (leNat [x0, x1, x2, x3]) >>> 24).toNat = x3.toNat := by
    rw [UInt32.toNat_shiftRight, hv, Nat.shiftRight_eq_div_pow]
    rw [show (24 : UInt32).toNat % 32 = 24 from rfl]
    omega
  have hbajo : (UInt32.ofNat (leNat [x0, x1, x2, x3]) &&& 0x00FFFFFF).toNat =
      2 ^ 16 * x2.toNat + (2 ^ 8 * x1.toNat + x0.toNat) := by
    rw [UInt32.toNat_and, hv, show (0x00FFFFFF : UInt32).toNat = 2 ^ 24 - 1 from rfl,
      Nat.and_two_pow_sub_one_eq_mod, Nat.mul_add_mod, Nat.mod_eq_of_lt (by omega)]
  rw [bitDeAlfa_eq _ _ halto, ← UInt32.toNat_inj, toNat_pixel, UInt32.toNat_or, toNat_opaco, hbajo,
    Nat.two_pow_add_eq_or_of_lt (i := 24) (by omega)]

/-! ### BICO -/

theorem getD_of_some {b : Bytes} {i : Nat} {x : UInt8} (h : b[i]? = some x) : b.getD i 0 = x := by
  rw [List.getD_eq_getElem?_getD, h, Option.getD_some]

/-- **The words of a BICO**, from the `k`-th. -/
theorem bicoDesde_eq {b : Bytes} (dst : List UInt32) (k : Nat)
    (h : 8 + (k + dst.length) * 4 ≤ b.length) :
    bicoDesde b k dst =
      (.ok (), (List.range dst.length).map fun j ↦ (colorBico b (k + j)).pixel) := by
  induction dst generalizing k with
  | nil => rfl
  | cons px dst ih =>
    rw [List.length_cons] at h
    have hlen : 8 + k * 4 + 4 ≤ b.length := by omega
    obtain ⟨x0, x1, x2, x3, h0, h1, h2, h3, hs⟩ := cuatro hlen
    have hle : le32 b (8 + k * 4) = some (UInt32.ofNat (leNat [x0, x1, x2, x3])) := by
      rw [le32_eq, if_pos hlen, num, hs]
    have hcolor : colorBico b k = ⟨decide (128 ≤ x3), x2, x1, x0⟩ := by
      rw [colorBico, Nat.mul_comm 4 k, getD_of_some h0, getD_of_some h1, getD_of_some h2,
        getD_of_some h3]
    rw [bicoDesde, hle, List.length_cons, List.range_succ_eq_map, List.map_cons, List.map_map]
    dsimp only
    rw [ih (k + 1) (by omega), Nat.add_zero k, hcolor, ← corta_eq]
    have hresto : (List.range dst.length).map (fun j ↦ (colorBico b (k + 1 + j)).pixel) =
        (List.range dst.length).map ((fun j ↦ (colorBico b (k + j)).pixel) ∘ Nat.succ) := by
      refine List.map_congr_left fun j _ ↦ ?_
      rw [Function.comp_apply, Nat.add_assoc, Nat.add_comm 1 j]
    rw [hresto]

/-- **A BICO**: all its words, or no word. -/
theorem bico_eq (b : Bytes) (n : Nat) {dst : List UInt32} (hn : dst.length = n) :
    bico b n dst = if 8 + 4 * n ≤ b.length then
      (.ok (), (List.range n).map fun k ↦ (colorBico b k).pixel) else (.error .Corto, dst) := by
  unfold bico
  by_cases h : 8 + 4 * n ≤ b.length
  · rw [if_neg (by omega), if_pos h, bicoDesde_eq dst 0 (by omega), hn]
    simp only [Nat.zero_add]
  · rw [if_pos (by omega), if_neg h]

/-! ### BMP -/

private theorem fila_eq {bits w : Nat} (h : bits = 24 ∨ bits = 32) :
    (bits * w + 31) / 32 * 4 = filaBmp bits w := by
  unfold filaBmp
  rcases h with rfl | rfl <;> omega

/-- The checks of a header, and what they leave for the rows. -/
theorem bmpCabecera_ok {b : Bytes} {m : Medidas} {c : Filas} :
    bmpCabecera b m = .ok c ↔
      34 ≤ b.length ∧ 40 ≤ num b 14 4 ∧ num b 26 2 = 1 ∧ (num b 28 2 = 24 ∨ num b 28 2 = 32) ∧
      num b 30 4 = 0 ∧ num b 10 4 + filaBmp (num b 28 2) m.ancho.toNat * m.alto.toNat ≤ b.length ∧
      c = ⟨num b 10 4, decide (2 ^ 31 ≤ num b 22 4), num b 28 2 / 8,
        filaBmp (num b 28 2) m.ancho.toNat⟩ := by
  have hbits (x : UInt32) : ¬(x ≠ 24 ∧ x ≠ 32) ↔ x.toNat = 24 ∨ x.toNat = 32 := by
    rw [← or_iff_not_and_not, ← UInt32.toNat_inj, ← UInt32.toNat_inj]
    rfl
  have hmenor (x : UInt32) : ¬x < 40 ↔ 40 ≤ x.toNat := by
    rw [UInt32.lt_iff_toNat_lt, not_lt]
    rfl
  have huno (x : UInt32) : ¬x ≠ 1 ↔ x.toNat = 1 := by
    rw [not_not, ← UInt32.toNat_inj]
    rfl
  have hcero (x : UInt32) : ¬x ≠ 0 ↔ x.toNat = 0 := by
    rw [not_not, ← UInt32.toNat_inj]
    rfl
  have harriba (x : UInt32) : decide (x ≥ 0x80000000) = decide (2 ^ 31 ≤ x.toNat) :=
    decide_eq_decide.mpr UInt32.le_iff_toNat_le
  have hcabe {d f n : Nat} : ¬(d > n ∨ f > n - d) ↔ d + f ≤ n := by omega
  unfold bmpCabecera
  constructor
  · intro h
    obtain ⟨datos, hdatos, h⟩ := bind_ok.mp h
    obtain ⟨tamano, htamano, h⟩ := bind_ok.mp h
    obtain ⟨⟨⟩, hno, h⟩ := bind_ok.mp h
    obtain ⟨planos, hplanos, h⟩ := bind_ok.mp h
    obtain ⟨⟨⟩, hno1, h⟩ := bind_ok.mp h
    obtain ⟨bits, hprof, h⟩ := bind_ok.mp h
    obtain ⟨⟨⟩, hno2, h⟩ := bind_ok.mp h
    obtain ⟨compresion, hcompr, h⟩ := bind_ok.mp h
    obtain ⟨⟨⟩, hno3, h⟩ := bind_ok.mp h
    obtain ⟨alto, halto, h⟩ := bind_ok.mp h
    obtain ⟨⟨⟩, hfilas, h⟩ := bind_ok.mp h
    obtain ⟨-, hdatos⟩ := le32_some.mp (oCorto_ok.mp hdatos)
    obtain ⟨-, htamano⟩ := le32_some.mp (oCorto_ok.mp htamano)
    obtain ⟨-, hplanos⟩ := le16_some.mp (oCorto_ok.mp hplanos)
    obtain ⟨-, hprof⟩ := le16_some.mp (oCorto_ok.mp hprof)
    obtain ⟨hlen, hcompr⟩ := le32_some.mp (oCorto_ok.mp hcompr)
    obtain ⟨-, halto⟩ := le32_some.mp (oCorto_ok.mp halto)
    have hsoportado := (hbits bits).mp (rechaza_ok.mp hno2)
    have hfilas := hcabe.mp (rechaza_ok.mp hfilas)
    rw [fila_eq hsoportado] at hfilas h
    rw [hdatos, htamano, hplanos, hprof, hcompr, halto, ← harriba]
    refine ⟨hlen, (hmenor _).mp (rechaza_ok.mp hno), (huno _).mp (rechaza_ok.mp hno1), hsoportado,
      (hcero _).mp (rechaza_ok.mp hno3), hfilas, ?_⟩
    rw [← Except.ok.inj h, UInt32.toNat_div]
    rfl
  · rintro ⟨hlen, htamano, hplanos, hsoportado, hcompr, hfilas, rfl⟩
    have h4 (i : Nat) : (UInt32.ofNat (num b i 4)).toNat = num b i 4 := toNat_num b i le_rfl
    have h2 (i : Nat) : (UInt32.ofNat (num b i 2)).toNat = num b i 2 := toNat_num b i (by decide)
    have lee4 {i : Nat} (hi : i + 4 ≤ b.length) : oCorto (le32 b i) = .ok (UInt32.ofNat (num b i 4))
      :=
      oCorto_ok.mpr (le32_some.mpr ⟨hi, (h4 i).symm⟩)
    have lee2 {i : Nat} (hi : i + 2 ≤ b.length) : oCorto (le16 b i) = .ok (UInt32.ofNat (num b i 2))
      :=
      oCorto_ok.mpr (le16_some.mpr ⟨hi, (h2 i).symm⟩)
    refine bind_ok.mpr ⟨_, lee4 (by omega), bind_ok.mpr ⟨_, lee4 (by omega), ?_⟩⟩
    refine bind_ok.mpr ⟨(), rechaza_ok.mpr ((hmenor _).mpr (by rw [h4]; exact htamano)), ?_⟩
    refine bind_ok.mpr ⟨_, lee2 (by omega), ?_⟩
    refine bind_ok.mpr ⟨(), rechaza_ok.mpr ((huno _).mpr (by rw [h2]; exact hplanos)), ?_⟩
    refine bind_ok.mpr ⟨_, lee2 (by omega), ?_⟩
    refine bind_ok.mpr ⟨(), rechaza_ok.mpr ((hbits _).mpr (by rw [h2]; exact hsoportado)), ?_⟩
    refine bind_ok.mpr ⟨_, lee4 hlen, ?_⟩
    refine bind_ok.mpr ⟨(), rechaza_ok.mpr ((hcero _).mpr (by rw [h4]; exact hcompr)), ?_⟩
    refine bind_ok.mpr ⟨_, lee4 (by omega), ?_⟩
    dsimp only
    rw [h2, h4, fila_eq hsoportado, harriba, h4, UInt32.toNat_div, h2]
    exact bind_ok.mpr ⟨(), rechaza_ok.mpr (hcabe.mpr hfilas), rfl⟩

private theorem take_set_succ {α : Type} {l : List α} {k : Nat} (h : k < l.length) (v : α) :
    (l.set k v).take (k + 1) = l.take k ++ [v] := by
  have hlen : k < (l.set k v).length := by rwa [List.length_set]
  rw [List.take_succ_eq_append_getElem hlen, List.getElem_set_self, List.take_set_of_le le_rfl]

section

variable {b : Bytes} {w h bits datos : Nat} {deArriba : Bool}

private theorem lugar_lt (hbits : bits = 24 ∨ bits = 32)
    (hcabe : datos + filaBmp bits w * h ≤ b.length) {x f : Nat} (hx : x < w) (hf : f < h) :
    datos + f * filaBmp bits w + x * (bits / 8) + 2 < b.length := by
  have hfila : f * filaBmp bits w + filaBmp bits w ≤ filaBmp bits w * h := by
    rw [← Nat.succ_mul, Nat.mul_comm]
    exact Nat.mul_le_mul_left _ hf
  have hpixel : x * (bits / 8) + 3 ≤ filaBmp bits w := by
    unfold filaBmp
    rcases hbits with rfl | rfl <;> omega
  omega

/-- A pixel of a row is that of the format. -/
theorem bmpPixel_eq (hbits : bits = 24 ∨ bits = 32)
    (hcabe : datos + filaBmp bits w * h ≤ b.length) {x y : Nat} (hx : x < w) (hy : y < h)
    {dst : List UInt32} (hdst : dst.length = w * h) :
    bmpPixel b ⟨datos, deArriba, bits / 8, filaBmp bits w⟩ w h y dst x =
      some (dst.set (y * w + x) (colorBmp b w h bits datos deArriba (y * w + x)).pixel) := by
  have hdiv : (y * w + x) / w = y := by
    rw [Nat.mul_comm, Nat.mul_add_div (by omega), Nat.div_eq_of_lt hx, Nat.add_zero]
  have hmod : (y * w + x) % w = x := by
    rw [Nat.mul_comm, Nat.mul_add_mod, Nat.mod_eq_of_lt hx]
  have hlt : y * w + x < dst.length := by
    have hfila : y * w + w ≤ w * h := by
      rw [← Nat.succ_mul, Nat.mul_comm]
      exact Nat.mul_le_mul_left _ hy
    omega
  have hfuente : (if deArriba then y else h - 1 - y) < h := by
    split <;> omega
  obtain ⟨p, hp⟩ : ∃ p, p = datos + (if deArriba then y else h - 1 - y) * filaBmp bits w +
    x * (bits / 8) := ⟨_, rfl⟩
  have hlugar := lugar_lt hbits hcabe hx hfuente
  rw [← hp] at hlugar
  have h0 := List.getElem?_eq_getElem (l := b) (i := p) (by omega)
  have h1 := List.getElem?_eq_getElem (l := b) (i := p + 1) (by omega)
  have h2 := List.getElem?_eq_getElem (l := b) (i := p + 2) (by omega)
  have hcolor : colorBmp b w h bits datos deArriba (y * w + x) = ⟨true, b[p + 2], b[p + 1], b[p]⟩ :=
    by
    unfold colorBmp
    dsimp only
    rw [hdiv, hmod, ← hp, getD_of_some h0, getD_of_some h1, getD_of_some h2]
  unfold bmpPixel
  dsimp only
  rw [← hp, h0, h1, h2, hcolor, ← junta_eq]
  exact if_pos hlt

/-- **A row**, its first `n` pixels. -/
theorem bmpFila_eq (hbits : bits = 24 ∨ bits = 32)
    (hcabe : datos + filaBmp bits w * h ≤ b.length) {y : Nat} (hy : y < h) {dst : List UInt32}
    (hdst : dst.length = w * h)
    (hpre : dst.take (y * w) = (List.range (y * w)).map fun k ↦
      (colorBmp b w h bits datos deArriba k).pixel) (n : Nat) (hn : n ≤ w) :
    ∃ dst', (List.range n).foldlM
        (bmpPixel b ⟨datos, deArriba, bits / 8, filaBmp bits w⟩ w h y) dst = some dst' ∧
      dst'.length = w * h ∧
      dst'.take (y * w + n) = (List.range (y * w + n)).map fun k ↦
        (colorBmp b w h bits datos deArriba k).pixel := by
  induction n with
  | zero => exact ⟨dst, rfl, hdst, hpre⟩
  | succ n ih =>
    obtain ⟨dst', hfold, hlen, htake⟩ := ih (by omega)
    have hlt : y * w + n < dst'.length := by
      have hfila : y * w + w ≤ w * h := by
        rw [← Nat.succ_mul, Nat.mul_comm]
        exact Nat.mul_le_mul_left _ hy
      omega
    refine ⟨dst'.set (y * w + n) (colorBmp b w h bits datos deArriba (y * w + n)).pixel, ?_, ?_, ?_⟩
    · rw [List.range_succ, List.foldlM_append, hfold]
      exact (congrArg (fun o : Option (List UInt32) ↦ o >>= pure)
        (bmpPixel_eq hbits hcabe (by omega) hy hlen)).trans rfl
    · rw [List.length_set, hlen]
    · rw [← Nat.add_assoc, take_set_succ hlt, htake, List.range_succ, List.map_append]
      rfl

/-- **The rows of a BMP**, the first `n`. -/
theorem bmpFilas_eq (deArriba : Bool) (hbits : bits = 24 ∨ bits = 32)
    (hcabe : datos + filaBmp bits w * h ≤ b.length) {dst : List UInt32}
    (hdst : dst.length = w * h) (n : Nat) (hn : n ≤ h) :
    ∃ dst', (List.range n).foldlM (fun dst y ↦ (List.range w).foldlM
        (bmpPixel b ⟨datos, deArriba, bits / 8, filaBmp bits w⟩ w h y) dst) dst = some dst' ∧
      dst'.length = w * h ∧
      dst'.take (n * w) = (List.range (n * w)).map fun k ↦
        (colorBmp b w h bits datos deArriba k).pixel := by
  induction n with
  | zero =>
    refine ⟨dst, rfl, hdst, ?_⟩
    rw [Nat.zero_mul]
    rfl
  | succ n ih =>
    obtain ⟨dst', hfold, hlen, htake⟩ := ih (by omega)
    obtain ⟨dst'', hfila, hlen', htake'⟩ := bmpFila_eq hbits hcabe (by omega) hlen htake w le_rfl
    refine ⟨dst'', ?_, hlen', ?_⟩
    · rw [List.range_succ, List.foldlM_append, hfold]
      exact (congrArg (fun o : Option (List UInt32) ↦ o >>= pure) hfila).trans rfl
    · rw [Nat.succ_mul]
      exact htake'

end

/-- **A BMP**: all its rows, or no pixel. -/
theorem bmp_eq (b : Bytes) (m : Medidas) {dst : List UInt32}
    (hdst : dst.length = m.ancho.toNat * m.alto.toNat) :
    (∃ e, bmpCabecera b m = .error e ∧ bmp b m dst = some (.error e, dst)) ∨
      ∃ c, bmpCabecera b m = .ok c ∧ bmp b m dst = some (.ok (),
        (List.range (m.ancho.toNat * m.alto.toNat)).map fun k ↦
          (colorBmp b m.ancho.toNat m.alto.toNat (num b 28 2) c.datos c.deArriba k).pixel) := by
  unfold bmp
  cases hc : bmpCabecera b m with
  | error e => exact .inl ⟨e, rfl, rfl⟩
  | ok c =>
    refine .inr ⟨c, rfl, ?_⟩
    obtain ⟨-, -, -, hbits, -, hcabe, rfl⟩ := bmpCabecera_ok.mp hc
    obtain ⟨dst', hfold, hlen, htake⟩ := bmpFilas_eq (decide (2 ^ 31 ≤ num b 22 4)) hbits hcabe hdst m.alto.toNat le_rfl
    rw [Nat.mul_comm m.alto.toNat, ← hlen, List.take_length, hlen] at htake
    dsimp only
    rw [hfold, htake]
    rfl

end BmoX.Imagen
