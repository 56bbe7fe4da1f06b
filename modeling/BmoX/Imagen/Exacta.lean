import BmoX.Imagen.Trozos

/-!
# A file is decoded to what its format defines

Whatever the bytes and the buffer: no index is out of the string, no pixel after those of the image is
written, and the answer is `Ok` where the file defines an image that fits.
-/

namespace BmoX.Imagen

open BmoX.Base

/-- What the function of a format has to answer, and to leave in the pixels of the image. -/
structure Hace (b : Bytes) (m : Medidas) (dst : List UInt32) (r : Except Error Unit)
    (out : List UInt32) : Prop where
  largo : out.length = dst.length
  bien : r = .ok () → ∃ px, Define b m px
  pixeles : ∀ px, Define b m px → r = .ok () ∧ out = px.map Color.pixel
  intacto : ∀ e, r = .error e → e ≠ .Corto → out = dst

/-- Nothing is written where there is no image. -/
theorem Hace.nada {b : Bytes} {m : Medidas} {dst : List UInt32} {e : Error}
    (h : ∀ px, ¬Define b m px) : Hace b m dst (.error e) dst where
  largo := rfl
  bien hno := nomatch hno
  pixeles px hpx := absurd hpx (h px)
  intacto _ _ _ := rfl

theorem hace_bico {b : Bytes} {w h : UInt32} (hd : Declara b ⟨w, h, .Bico⟩) (hw : Lado w.toNat)
    (hh : Lado h.toNat) {dst : List UInt32} (hdst : dst.length = w.toNat * h.toNat) :
    ∃ r out, bico b (w.toNat * h.toNat) dst = (r, out) ∧ Hace b ⟨w, h, .Bico⟩ dst r out := by
  cases hd with
  | bico magia largo ancho alto =>
    rw [bico_eq b _ hdst]
    by_cases hcabe : 8 + 4 * (w.toNat * h.toNat) ≤ b.length
    · rw [if_pos hcabe]
      refine ⟨_, _, rfl, ?_, fun _ ↦ ⟨_, .bico hw hh ⟨magia, ancho, alto, hcabe⟩⟩, ?_,
        fun e hno ↦ nomatch hno⟩
      · rw [List.length_map, List.length_range, hdst]
      · rintro px (hpx | hpx | hpx)
        refine ⟨rfl, ?_⟩
        rw [List.map_map]
        rfl
    · rw [if_neg hcabe]
      refine ⟨_, _, rfl, .nada ?_⟩
      rintro px (⟨-, -, es⟩ | _ | _)
      exact hcabe es.datos

private theorem alto_bmp {n h : Nat} (hh : Lado h) {deArriba : Bool}
    (hn : n = if deArriba then 2 ^ 32 - h else h) : deArriba = decide (2 ^ 31 ≤ n) := by
  unfold Lado at hh
  cases deArriba with
  | true =>
    rw [if_pos rfl] at hn
    exact (decide_eq_true (by omega)).symm
  | false =>
    rw [if_neg Bool.false_ne_true] at hn
    exact (decide_eq_false (by omega)).symm

private theorem num_alto {v h : UInt32} (hv : h = if v ≥ 0x80000000 then 0 - v else v) :
    v.toNat = if decide (2 ^ 31 ≤ v.toNat) then 2 ^ 32 - h.toNat else h.toNat := by
  have hiff : v ≥ 0x80000000 ↔ 2 ^ 31 ≤ v.toNat := UInt32.le_iff_toNat_le
  have hlt := v.toNat_lt
  by_cases harriba : 2 ^ 31 ≤ v.toNat
  · rw [if_pos (hiff.mpr harriba)] at hv
    have hneg : h.toNat = (2 ^ 32 - v.toNat + 0) % 2 ^ 32 := by
      rw [hv, UInt32.toNat_sub]
      rfl
    rw [if_pos (decide_eq_true harriba)]
    omega
  · rw [if_neg fun hno ↦ harriba (hiff.mp hno)] at hv
    rw [if_neg (by simpa using harriba), hv]

private theorem alto_num {v h : UInt32} {deArriba : Bool} (hh : Lado h.toNat)
    (hv : v.toNat = if deArriba then 2 ^ 32 - h.toNat else h.toNat) :
    h = if v ≥ 0x80000000 then 0 - v else v := by
  have hiff : v ≥ 0x80000000 ↔ 2 ^ 31 ≤ v.toNat := UInt32.le_iff_toNat_le
  unfold Lado at hh
  apply UInt32.toNat_inj.mp
  cases deArriba with
  | true =>
    rw [if_pos rfl] at hv
    have hneg : (0 - v).toNat = (2 ^ 32 - v.toNat + 0) % 2 ^ 32 := UInt32.toNat_sub 0 v
    rw [if_pos (hiff.mpr (by omega)), hneg]
    omega
  | false =>
    rw [if_neg Bool.false_ne_true] at hv
    rw [if_neg fun hno ↦ absurd (hiff.mp hno) (by omega), hv]

theorem hace_bmp {b : Bytes} {w h : UInt32} (hd : Declara b ⟨w, h, .Bmp⟩) (hw : Lado w.toNat)
    (hh : Lado h.toNat) {dst : List UInt32} (hdst : dst.length = w.toNat * h.toNat) :
    ∃ r out, bmp b ⟨w, h, .Bmp⟩ dst = some (r, out) ∧ Hace b ⟨w, h, .Bmp⟩ dst r out := by
  cases hd with
  | bmp magia largo ancho alto hv =>
    -- an image says by its own bytes what its rows are read by
    have hfilas {px : List Color} (hpx : Define b ⟨w, h, .Bmp⟩ px) : ∃ c,
        bmpCabecera b ⟨w, h, .Bmp⟩ = .ok c ∧ px = (List.range (w.toNat * h.toNat)).map
          (colorBmp b w.toNat h.toNat (num b 28 2) c.datos c.deArriba) := by
      cases hpx with
      | bmp hw hh es =>
        obtain ⟨-, -, halto, htamano, hplanos, rfl, hbits, hcompr, hlen, rfl, hcabe⟩ := es
        refine ⟨_, bmpCabecera_ok.mpr ⟨hlen, htamano, hplanos, hbits, hcompr, hcabe, rfl⟩, ?_⟩
        rw [alto_bmp hh halto]
    rcases bmp_eq b ⟨w, h, .Bmp⟩ hdst with ⟨e, hc, hbmp⟩ | ⟨c, hc, hbmp⟩
    · refine ⟨_, _, hbmp, .nada fun px hpx ↦ ?_⟩
      obtain ⟨c, hok, -⟩ := hfilas hpx
      exact nomatch hc.symm.trans hok
    · refine ⟨_, _, hbmp, ?_, fun _ ↦ ?_, fun px hpx ↦ ⟨rfl, ?_⟩, fun e hno ↦ nomatch hno⟩
      · rw [List.length_map, List.length_range, hdst]
      · obtain ⟨hlen, htamano, hplanos, hbits, hcompr, hcabe, -⟩ := bmpCabecera_ok.mp hc
        have halto := num_alto hv
        rw [← alto] at halto
        exact ⟨_, .bmp hw hh ⟨magia, ancho, halto, htamano, hplanos, rfl, hbits, hcompr, hlen, rfl,
          hcabe⟩⟩
      · obtain ⟨c', hok, rfl⟩ := hfilas hpx
        obtain rfl := Except.ok.inj (hc.symm.trans hok)
        rw [List.map_map]
        rfl

private theorem palabra_eq (px : Px) : px.palabra = px.color.pixel := by
  rw [Px.palabra, bitDeAlfa_eq _ px.a (UInt8.toNat_toUInt32 _), junta_eq]
  rfl

theorem hace_qoi {b : Bytes} {w h : UInt32} (hd : Declara b ⟨w, h, .Qoi⟩) (hw : Lado w.toNat)
    (hh : Lado h.toNat) {dst : List UInt32} (hdst : dst.length = w.toNat * h.toNat) :
    ∃ r out, qoi b dst = some (r, out) ∧ Hace b ⟨w, h, .Qoi⟩ dst r out := by
  cases hd with
  | qoi magia largo ancho alto =>
    unfold qoi
    by_cases hmarca : 22 ≤ b.length
    · have h12 := List.getElem?_eq_getElem (l := b) (i := 12) (by omega)
      have h13 := List.getElem?_eq_getElem (l := b) (i := 13) (by omega)
      have hfin : b.length - 8 ≤ b.length := Nat.sub_le ..
      have hquedan : quedan b (b.length - 8) 14 = slice b 14 (b.length - 22) := by
        rw [quedan, Nat.sub_sub]
      rw [if_neg (by omega), h12]
      dsimp only [Option.bind_eq_bind, Option.bind_some]
      by_cases hcanales : b[12] = 3 ∨ b[12] = 4
      · rw [if_neg (by rw [← not_or, not_not]; exact hcanales), h13]
        dsimp only [Option.bind_some]
        by_cases hespacio : b[13] ≤ 1
        · rw [if_neg (UInt8.not_lt.mpr hespacio)]
          obtain ⟨r, out, hdesde, hlen, hr⟩ := qoiDesde_eq hfin dst sigue_inicial
          refine ⟨r, out, hdesde, hlen, fun hok ↦ ?_, fun px hpx ↦ ?_, fun e he hno ↦ ?_⟩
          · rcases hr with hno | ⟨-, cs, resto, hq, hle⟩
            · cases hok.symm.trans hno
            · rw [hquedan] at hq
              rw [hdst, Nat.zero_add] at hle
              exact ⟨_, .qoi hw hh ⟨magia, ancho, alto, by rwa [getD_of_some h12],
                by rwa [getD_of_some h13], hmarca, ⟨resto, hq⟩, hle⟩⟩
          · cases hpx with
            | qoi _ _ es =>
              obtain ⟨resto, hq⟩ := es.trozos
              have hle := es.pixeles
              rw [← hquedan] at hq
              have hok := qoiDesde_ok hfin dst sigue_inicial hq (by rw [hdst, Nat.zero_add]; exact hle)
              obtain ⟨rfl, rfl⟩ := Prod.mk.inj (Option.some.inj (hdesde.symm.trans hok))
              refine ⟨rfl, ?_⟩
              rw [List.map_map, hdst]
              exact List.map_congr_left fun px _ ↦ palabra_eq px
          · rcases hr with hcorto | ⟨hok, -⟩
            · exact absurd (Except.error.inj (he.symm.trans hcorto)) hno
            · cases he.symm.trans hok
        · rw [if_pos (UInt8.not_le.mp hespacio)]
          refine ⟨_, _, rfl, .nada ?_⟩
          rintro px (_ | _ | ⟨-, -, es⟩)
          exact hespacio (by rw [← getD_of_some h13]; exact es.espacio)
      · rw [if_pos (not_or.mp hcanales)]
        refine ⟨_, _, rfl, .nada ?_⟩
        rintro px (_ | _ | ⟨-, -, es⟩)
        exact hcanales (by rw [← getD_of_some h12]; exact es.canales)
    · rw [if_pos (by omega)]
      refine ⟨_, _, rfl, .nada ?_⟩
      rintro px (_ | _ | ⟨-, -, es⟩)
      exact hmarca es.marca

private theorem declara_of_define {b : Bytes} {m : Medidas} {px : List Color} (h : Define b m px) :
    Declara b m := by
  cases h with
  | bico hw hh es =>
    have hdatos := es.datos
    exact .bico es.magia (by omega) es.ancho es.alto
  | bmp hw hh es =>
    have hcabecera := es.cabecera
    have hnum := toNat_num b 22 (n := 4) le_rfl
    exact .bmp es.magia (by omega) es.ancho hnum.symm (alto_num hh (hnum.trans es.alto))
  | qoi hw hh es =>
    have hmarca := es.marca
    exact .qoi es.magia (by omega) es.ancho es.alto

private theorem toNat_area {w h : UInt32} (hw : Lado w.toNat) (hh : Lado h.toNat) :
    (w * h).toNat = w.toNat * h.toNat := by
  have hle : w.toNat * h.toNat ≤ 1024 * 1024 := Nat.mul_le_mul hw.2 hh.2
  rw [UInt32.toNat_mul, Nat.mod_eq_of_lt (by omega)]

/-- What the function of the format of a header does with the pixels of the image. -/
theorem hace {b : Bytes} {m : Medidas} (hd : Declara b m) (hw : Lado m.ancho.toNat)
    (hh : Lado m.alto.toNat) {dst : List UInt32}
    (hdst : dst.length = m.ancho.toNat * m.alto.toNat) :
    ∃ r out, segunFormato b m (m.ancho.toNat * m.alto.toNat) dst = some (r, out) ∧
      Hace b m dst r out := by
  obtain ⟨w, h, f⟩ := m
  cases f with
  | Bico =>
    obtain ⟨r, out, hbico, hhace⟩ := hace_bico hd hw hh hdst
    exact ⟨r, out, congrArg some hbico, hhace⟩
  | Bmp => exact hace_bmp hd hw hh hdst
  | Qoi => exact hace_qoi hd hw hh hdst

/-- **What `decodificar` answers, and how it leaves the buffer**, for every string and every buffer. -/
theorem decodificar_exacta (b : Bytes) (dst : List UInt32) :
    ∃ r dst', decodificar b dst = some (r, dst') ∧ dst'.length = dst.length ∧
      (∀ m, r = .ok m ↔ ∃ px, Define b m px ∧ px.length ≤ dst.length) ∧
      (∀ m px, r = .ok m → Define b m px → dst'.take px.length = px.map Color.pixel) ∧
      (∀ m, medir b = .ok m →
        dst'.drop (m.ancho.toNat * m.alto.toNat) = dst.drop (m.ancho.toNat * m.alto.toNat)) ∧
      (∀ e, medir b = .error e → dst' = dst) ∧ (∀ e, r = .error e → e ≠ .Corto → dst' = dst) := by
  unfold decodificar
  cases hm : medir b with
  | error e =>
    refine ⟨.error e, dst, rfl, rfl, fun m ↦ ?_, fun m px hno ↦ (nomatch hno),
      fun m hno ↦ (nomatch hno), fun _ _ ↦ rfl, fun _ _ _ ↦ rfl⟩
    refine iff_of_false (fun hno ↦ nomatch hno) fun ⟨px, hpx, _⟩ ↦ ?_
    exact nomatch hm.symm.trans (medir_ok.mpr ⟨declara_of_define hpx, lados_of_define hpx⟩)
  | ok m =>
    obtain ⟨hd, hw, hh⟩ := medir_ok.mp hm
    have hunico {m' : Medidas} {px : List Color} (hpx : Define b m' px) : m' = m :=
      Except.ok.inj ((medir_ok.mpr ⟨declara_of_define hpx, lados_of_define hpx⟩).symm.trans hm)
    dsimp only
    rw [toNat_area hw hh]
    by_cases hcabe : dst.length < m.ancho.toNat * m.alto.toNat
    · rw [if_pos hcabe]
      refine ⟨_, dst, rfl, rfl, fun m' ↦ ?_, fun m px hno ↦ (nomatch hno), fun _ _ ↦ rfl,
        fun _ _ ↦ rfl, fun _ _ _ ↦ rfl⟩
      refine iff_of_false (fun hno ↦ nomatch hno) fun ⟨px, hpx, hle⟩ ↦ ?_
      obtain rfl := hunico hpx
      rw [length_of_define hpx] at hle
      omega
    · rw [if_neg hcabe]
      have htake : (dst.take (m.ancho.toNat * m.alto.toNat)).length =
          m.ancho.toNat * m.alto.toNat := by
        rw [List.length_take]
        omega
      obtain ⟨r, out, hformato, hhace⟩ := hace hd hw hh htake
      have hout : out.length = m.ancho.toNat * m.alto.toNat := hhace.largo.trans htake
      rw [hformato]
      refine ⟨r.map fun _ ↦ m, out ++ dst.drop (m.ancho.toNat * m.alto.toNat), rfl, ?_, fun m' ↦ ?_,
        fun m' px _ hpx ↦ ?_, fun m' hm' ↦ ?_, fun _ hno ↦ (nomatch hno), fun e he hno ↦ ?_⟩
      · rw [List.length_append, hout, List.length_drop]
        omega
      · constructor
        · intro hok
          cases r with
          | error e => exact nomatch hok
          | ok u =>
            obtain rfl : m = m' := Except.ok.inj hok
            obtain ⟨px, hpx⟩ := hhace.bien rfl
            exact ⟨px, hpx, by rw [length_of_define hpx]; omega⟩
        · rintro ⟨px, hpx, -⟩
          obtain rfl := hunico hpx
          rw [(hhace.pixeles px hpx).1]
          rfl
      · obtain rfl := hunico hpx
        obtain ⟨-, rfl⟩ := hhace.pixeles px hpx
        rw [List.take_append_of_le_length (by rw [List.length_map]), List.take_of_length_le
          (by rw [List.length_map])]
      · obtain rfl := Except.ok.inj hm'
        rw [List.drop_append_of_le_length hout.ge, List.drop_of_length_le hout.le, List.nil_append]
      · cases r with
        | ok u => exact nomatch he
        | error e' =>
          obtain rfl : e' = e := Except.error.inj he
          rw [hhace.intacto e' rfl hno, List.take_append_drop]

end BmoX.Imagen
