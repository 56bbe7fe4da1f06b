import BmoX.Antena.Linea
import BmoX.Base.Checked

/-!
# What a line says

The lines as they are written, and that the two readers take these and no others.
-/

namespace BmoX.Antena

open BmoX.Base

/-! ### Numerals -/

/-- The digits of a numeral, the highest first. -/
def cifrasDe (b : Bytes) : List Nat := b.map fun c ↦ (c - 0x30).toNat

/-- A decimal numeral of at most `cifras` digits. -/
structure Numeral (cifras : Nat) (b : Bytes) (n : Nat) : Prop where
  noVacio : b ≠ []
  corto : b.length ≤ cifras
  digitos : b.all esDigito = true
  valor : Nat.ofDigits 10 (cifrasDe b).reverse = n

section

variable {cifras tope maximo n : Nat} {b : Bytes}

private theorem numeroBucle_eq (h : n < tope) : numeroBucle tope n b =
    if (cifrasDe b).foldl (fun n d ↦ n * 10 + d) n < tope then
      .ok ((cifrasDe b).foldl (fun n d ↦ n * 10 + d) n) else .error .numero := by
  induction b generalizing n with
  | nil => simp [numeroBucle, cifrasDe, h]
  | cons c b ih =>
    rw [numeroBucle, cifrasDe, List.map_cons, List.foldl_cons, ← cifrasDe]
    split
    · next hc => exact ih hc.2
    · next hc =>
      -- the number is too large already, and digits do not make it smaller
      have hle := le_foldl_digits (n := n * 10 + (c - 0x30).toNat) (b := 10) (by decide) (cifrasDe b)
      rw [if_neg (by omega)]

private theorem numeroDe_eq_ok (h : maximo < tope) :
    numeroDe cifras tope b maximo = .ok n ↔ Numeral cifras b n ∧ n ≤ maximo := by
  rw [numeroDe, ite_error_eq_ok, numeroBucle_eq (Nat.zero_lt_of_lt h), foldl_digits, Nat.zero_mul,
    Nat.zero_add]
  simp only [Bool.or_eq_true, List.isEmpty_iff, decide_eq_true_eq, Bool.not_eq_true', not_or,
    Bool.not_eq_false, not_lt]
  constructor
  · rintro ⟨⟨⟨h0, hl⟩, hd⟩, h⟩
    split at h
    · cases h
    · next hv =>
      split at hv
      · next hlt =>
        cases hv
        rw [ite_error_eq_ok] at h
        obtain ⟨hle, ⟨⟩⟩ := h
        exact ⟨⟨h0, hl, hd, rfl⟩, Nat.le_of_not_lt hle⟩
      · cases hv
  · rintro ⟨⟨h0, hl, hd, rfl⟩, hle⟩
    refine ⟨⟨⟨h0, hl⟩, hd⟩, ?_⟩
    rw [if_pos (hle.trans_lt h)]
    simp [hle]

private theorem numero_eq_ok (h : maximo < 2 ^ 64) :
    numero b maximo = .ok n ↔ Numeral 20 b n ∧ n ≤ maximo :=
  numeroDe_eq_ok h

private theorem Lamina.numero_eq_ok (h : maximo < 2 ^ 32) :
    Lamina.numero b maximo = .ok n ↔ Numeral 10 b n ∧ n ≤ maximo :=
  numeroDe_eq_ok h

theorem Numeral.notMem (h : Numeral cifras b n) {c : UInt8} (hc : esDigito c = false) : c ∉ b := by
  intro hm
  have := List.all_eq_true.mp h.digitos c hm
  rw [hc] at this
  cases this

theorem Numeral.imprimible (h : Numeral cifras b n) : b.all imprimible = true := by
  refine List.all_eq_true.mpr fun c hc ↦ ?_
  have hd := List.all_eq_true.mp h.digitos c hc
  simp only [esDigito, Antena.imprimible, Bool.and_eq_true, decide_eq_true_eq, UInt8.le_iff_toNat_le,
    UInt8.toNat_ofNat] at hd ⊢
  omega

end

/-! ### Fields -/

/-- After the last field a blank may stand. -/
def Cola (f : Bytes) : Prop := f = [] ∨ f = [blanco]

section

variable {b p r : Bytes}

private theorem partir_blanco (h : blanco ∉ p) : partir (p ++ blanco :: r) = (p, r) := cut_append h

private theorem partir_eq_nil : partir b = (p, []) ↔ blanco ∉ p ∧ ∃ f, Cola f ∧ b = p ++ f := by
  constructor
  · intro h
    obtain ⟨hp, h | h⟩ := eq_of_cut h
    · exact ⟨hp, [blanco], .inr rfl, h⟩
    · exact ⟨hp, [], .inl rfl, by rw [h.1, List.append_nil]⟩
  · rintro ⟨hp, f, rfl | rfl, rfl⟩
    · rw [List.append_nil]
      exact cut_of_notMem hp
    · exact partir_blanco hp

private theorem eq_of_partir (h : partir b = (p, r)) (hr : r ≠ []) : b = p ++ blanco :: r := by
  rcases (eq_of_cut h).2 with h | h
  · exact h
  · exact absurd h.2 hr

end

/-! ### The lines of a lamina -/

namespace Lamina

/-- `x y ancho alto`. -/
inductive DiceZona : Bytes → Zona → Prop
  | mk {z : Zona} {x y w h : Bytes} (hx : Numeral 10 x z.x) (hy : Numeral 10 y z.y)
      (hw : Numeral 10 w z.ancho) (hh : Numeral 10 h z.alto) (hz : z.x ≤ anchoMax ∧
        z.y ≤ altoLaminaMax ∧ z.ancho ≤ anchoMax ∧ z.alto ≤ altoLaminaMax) (hw0 : z.ancho ≠ 0)
      (hh0 : z.alto ≠ 0) : DiceZona (x ++ blanco :: (y ++ blanco :: (w ++ blanco :: h))) z

private theorem zona_eq_ok {b r : Bytes} {z : Zona} (hr : r ≠ []) :
    zona b = .ok (z, r) ↔ ∃ c, DiceZona c z ∧ b = c ++ blanco :: r := by
  constructor
  · intro h
    rcases h1 : partir b with ⟨x, r1⟩
    rcases h2 : partir r1 with ⟨y, r2⟩
    rcases h3 : partir r2 with ⟨w, r3⟩
    rcases h4 : partir r3 with ⟨al, r4⟩
    simp only [zona, h1, h2, h3, h4, bind_eq_ok, ite_error_eq_ok, Except.ok.injEq, not_or] at h
    obtain ⟨n1, hn1, n2, hn2, n3, hn3, n4, hn4, ⟨h30, h40⟩, heq⟩ := h
    cases heq
    rw [numero_eq_ok (by decide)] at hn1 hn2 hn3 hn4
    have hb4 := eq_of_partir h4 hr
    have hb3 := eq_of_partir h3 (by simp [hb4])
    have hb2 := eq_of_partir h2 (by simp [hb3])
    have hb1 := eq_of_partir h1 (by simp [hb2])
    refine ⟨_, .mk (z := ⟨n1, n2, n3, n4⟩) hn1.1 hn2.1 hn3.1 hn4.1 ⟨hn1.2, hn2.2, hn3.2, hn4.2⟩ h30 h40, ?_⟩
    simp [hb1, hb2, hb3, hb4]
  · rintro ⟨_, ⟨hx, hy, hw, hh, hz, hw0, hh0⟩, rfl⟩
    have h1 := hx.notMem (c := blanco) rfl
    have h2 := hy.notMem (c := blanco) rfl
    have h3 := hw.notMem (c := blanco) rfl
    have h4 := hh.notMem (c := blanco) rfl
    simp only [zona, List.append_assoc, List.cons_append, partir_blanco, h1, h2, h3, h4,
      not_false_eq_true, bind_eq_ok]
    refine ⟨_, (numero_eq_ok (by decide)).mpr ⟨hx, hz.1⟩, _, (numero_eq_ok (by decide)).mpr ⟨hy, hz.2.1⟩,
      _, (numero_eq_ok (by decide)).mpr ⟨hw, hz.2.2.1⟩,
      _, (numero_eq_ok (by decide)).mpr ⟨hh, hz.2.2.2⟩, ?_⟩
    simp [hw0, hh0]

/-- A zone inside the lamina. -/
def Dentro (z : Zona) (cab : Cabecera) : Prop :=
  z.x + z.ancho ≤ cab.ancho ∧ z.y + z.alto ≤ cab.alto

private theorem dentro_eq_ok {z z' : Zona} {cab : Cabecera} :
    dentro z cab = .ok z' ↔ Dentro z cab ∧ z = z' := by
  simp [dentro, ite_error_eq_ok, Dentro]

/-- `rrggbb`. -/
structure DiceColor (b : Bytes) (n : Nat) : Prop where
  seis : b.length = 6
  cifras : ∃ ds, b.mapM hex = some ds ∧ Nat.ofDigits 16 ds.reverse = n

section

variable {b : Bytes} {c : UInt8} {d n : Nat}

private theorem hex_cases (h : hex c = some d) : d < 16 ∧ imprimible c = true ∧ c ≠ blanco := by
  simp only [hex, Bool.and_eq_true, decide_eq_true_eq, UInt8.le_iff_toNat_le] at h
  simp only [imprimible, Bool.and_eq_true, decide_eq_true_eq, UInt8.le_iff_toNat_le, ne_eq,
    ← UInt8.toNat_inj]
  have hlt := c.toNat_lt
  split at h
  · next hc =>
    cases h
    rw [UInt8.toNat_sub_of_le _ _ (UInt8.le_iff_toNat_le.mpr hc.1)]
    simp only [UInt8.toNat_ofNat] at *
    omega
  · split at h
    · next hc =>
      cases h
      rw [UInt8.toNat_sub_of_le _ _ (UInt8.le_iff_toNat_le.mpr hc.1)]
      simp only [UInt8.toNat_ofNat] at *
      omega
    · split at h
      · next hc =>
        cases h
        rw [UInt8.toNat_sub_of_le _ _ (UInt8.le_iff_toNat_le.mpr hc.1)]
        simp only [UInt8.toNat_ofNat] at *
        omega
      · cases h

private theorem mapM_hex_all {ds : List Nat} (h : b.mapM hex = some ds) :
    b.all imprimible = true ∧ blanco ∉ b := by
  induction b generalizing ds with
  | nil => simp
  | cons c b ih =>
    rw [List.mapM_cons] at h
    obtain ⟨d, hd, h⟩ := Option.bind_eq_some_iff.mp h
    obtain ⟨ds', hds, -⟩ := Option.bind_eq_some_iff.mp h
    obtain ⟨hall, hno⟩ := ih hds
    obtain ⟨-, hc, hne⟩ := hex_cases hd
    exact ⟨by simp only [List.all_cons, hc, hall, Bool.and_self], by simp [hno, Ne.symm hne]⟩

theorem DiceColor.imprimible (h : DiceColor b n) : b.all imprimible = true := by
  obtain ⟨ds, hds, -⟩ := h.cifras
  exact (mapM_hex_all hds).1

private theorem DiceColor.notMem (h : DiceColor b n) : blanco ∉ b := by
  obtain ⟨ds, hds, -⟩ := h.cifras
  exact (mapM_hex_all hds).2

private theorem colorBucle_eq : colorBucle n b =
    match b.mapM hex with
    | some ds => .ok (ds.foldl (fun n d ↦ n * 16 + d) n)
    | none => .error .color := by
  induction b generalizing n with
  | nil => rfl
  | cons c b ih =>
    rw [colorBucle, List.mapM_cons]
    cases hd : hex c with
    | none => rfl
    | some d =>
      have hor : n <<< 4 ||| d = n * 16 + d := by
        rw [← Nat.shiftLeft_add_eq_or_of_lt (hex_cases hd).1, Nat.shiftLeft_eq]
      simp only [ih, hor]
      cases b.mapM hex <;> rfl

private theorem color_eq_ok : color b = .ok n ↔ DiceColor b n := by
  rw [color, ite_error_eq_ok, colorBucle_eq, not_not]
  constructor
  · rintro ⟨h6, h⟩
    split at h
    · next ds hds =>
      cases h
      exact ⟨h6, ds, hds, by simp [foldl_digits]⟩
    · cases h
  · rintro ⟨h6, ds, hds, rfl⟩
    refine ⟨h6, ?_⟩
    simp [hds, foldl_digits]

end

/-- `LAMINA ancho alto n`. -/
inductive DiceCabecera : Bytes → Cabecera → Prop
  | mk {cab : Cabecera} {w h n f : Bytes} (hw : Numeral 10 w cab.ancho) (hh : Numeral 10 h cab.alto)
      (hn : Numeral 10 n cab.elementos) (hcab : cab.ancho ≤ anchoMax ∧ cab.alto ≤ altoLaminaMax ∧
        cab.elementos ≤ elementosMax) (hw0 : cab.ancho ≠ 0) (hh0 : cab.alto ≠ 0) (hf : Cola f) :
      DiceCabecera (verbo ++ blanco :: (w ++ blanco :: (h ++ blanco :: (n ++ f)))) cab

private theorem recortar_eq_ok {l b : Bytes} :
    recortar l = .ok b ↔ (sinFin l).length ≤ lineaMax ∧ sinFin l = b := by
  simp [recortar, ite_error_eq_ok]

theorem leerCabecera_eq_ok {l : Bytes} {cab : Cabecera} : leerCabecera l = .ok cab ↔
    (sinFin l).length ≤ lineaMax ∧ (sinFin l).all imprimible = true ∧ DiceCabecera (sinFin l) cab := by
  simp only [leerCabecera, bind_eq_ok, recortar_eq_ok, ite_error_eq_ok, Bool.not_eq_true',
    Bool.not_eq_false, not_not, and_assoc, exists_and_left, exists_eq_left']
  refine and_congr_right fun _ ↦ and_congr_right fun _ ↦ ?_
  generalize sinFin l = b
  constructor
  · intro h
    rcases h0 : partir b with ⟨v, r0⟩
    rcases h1 : partir r0 with ⟨w, r1⟩
    rcases h2 : partir r1 with ⟨al, r2⟩
    rcases h3 : partir r2 with ⟨n, r3⟩
    simp only [h0, h1, h2, h3, Except.ok.injEq, not_or, Bool.or_eq_true, List.isEmpty_iff,
      Bool.not_eq_true', List.isEmpty_eq_false_iff, not_not] at h
    obtain ⟨rfl, ⟨hn0, rfl⟩, n1, hn1, n2, hn2, n3, hn3, ⟨h10, h20⟩, rfl⟩ := h
    rw [numero_eq_ok (by decide)] at hn1 hn2 hn3
    obtain ⟨-, f, hf, hb3⟩ := partir_eq_nil.mp h3
    have hb2 := eq_of_partir h2 (by simp [hb3, hn0])
    have hb1 := eq_of_partir h1 (by simp [hb2])
    have hb0 := eq_of_partir h0 (by simp [hb1])
    rw [hb0, hb1, hb2, hb3]
    exact .mk hn1.1 hn2.1 hn3.1 ⟨hn1.2, hn2.2, hn3.2⟩ h10 h20 hf
  · rintro ⟨hw, hh, hn, hcab, hw0, hh0, hf⟩
    have h1 := hw.notMem (c := blanco) rfl
    have h2 := hh.notMem (c := blanco) rfl
    have h3 := partir_eq_nil.mpr ⟨hn.notMem (c := blanco) rfl, _, hf, rfl⟩
    have hv : blanco ∉ verbo := by decide
    simp only [partir_blanco, hv, h1, h2, h3, not_false_eq_true, true_and]
    refine ⟨by simp [hn.noVacio], _, (numero_eq_ok (by decide)).mpr ⟨hw, hcab.1⟩,
      _, (numero_eq_ok (by decide)).mpr ⟨hh, hcab.2.1⟩,
      _, (numero_eq_ok (by decide)).mpr ⟨hn, hcab.2.2⟩, by simp [hw0, hh0], rfl⟩

/-- `x y ancho alto rrggbb`. -/
inductive DiceCaja : Bytes → Elemento → Prop
  | mk {z : Zona} {c : Nat} {b rgb f : Bytes} (hz : DiceZona b z) (hc : DiceColor rgb c)
      (hf : Cola f) : DiceCaja (b ++ blanco :: (rgb ++ f)) (.caja z c)

/-- `x y ancho alto id`. -/
inductive DiceConId (haz : Zona → Bytes → Elemento) : Bytes → Elemento → Prop
  | mk {z : Zona} {b id f : Bytes} (hz : DiceZona b z) (hid : idValido id = true) (hf : Cola f) :
      DiceConId haz (b ++ blanco :: (id ++ f)) (haz z id)

/-- `x y escala rrggbb texto`; the zone is that of the letters. -/
inductive DiceTexto : Bytes → Elemento → Prop
  | mk {x y n k c : Nat} {bx b1 be rgb t : Bytes} (hx : Numeral 10 bx x) (hy : Numeral 10 b1 y)
      (he : Numeral 10 be k) (hc : DiceColor rgb c) (hxm : x ≤ anchoMax) (hym : y ≤ altoLaminaMax)
      (hkm : k ≤ escalaMax) (hk0 : k ≠ 0) (ht0 : t ≠ []) (ht : t.all letraValida = true)
      (hn : n = t.length * letraAncho * k) :
      DiceTexto (bx ++ blanco :: (b1 ++ blanco :: (be ++ blanco :: (rgb ++ blanco :: t))))
        (.texto ⟨x, y, n, letraAlto * k⟩ k c t)

private theorem notMem_of_idValido {id : Bytes} (h : idValido id = true) : blanco ∉ id := by
  intro hm
  simp only [idValido, Bool.and_eq_true] at h
  exact absurd (List.all_eq_true.mp h.2 blanco hm) (by decide)

section

variable {b : Bytes} {cab : Cabecera} {e : Elemento} {haz : Zona → Bytes → Elemento}

private theorem leerCaja_eq_ok : leerCaja b cab = .ok e ↔ DiceCaja b e ∧ Dentro e.zona cab := by
  constructor
  · intro h
    simp only [leerCaja, bind_eq_ok, Prod.exists] at h
    obtain ⟨z, r, hz, h⟩ := h
    rcases h1 : partir r with ⟨rgb, r1⟩
    simp only [h1, ite_error_eq_ok, bind_eq_ok, dentro_eq_ok, color_eq_ok, Bool.not_eq_true',
      Except.ok.injEq, List.isEmpty_eq_false_iff, not_not] at h
    obtain ⟨rfl, _, ⟨hd, rfl⟩, c, hc, rfl⟩ := h
    obtain ⟨-, f, hf, hr⟩ := partir_eq_nil.mp h1
    have hrgb : rgb ≠ [] := fun h0 ↦ absurd hc.seis (by simp [h0])
    obtain ⟨zb, hzb, rfl⟩ := (zona_eq_ok (by simp [hr, hrgb])).mp hz
    rw [hr]
    exact ⟨.mk hzb hc hf, hd⟩
  · rintro ⟨⟨hz, hc, hf⟩, hd⟩
    have hrgb := List.ne_nil_of_length_eq_add_one hc.seis
    have h1 := partir_eq_nil.mpr ⟨hc.notMem, _, hf, rfl⟩
    simp only [leerCaja, bind_eq_ok, Prod.exists]
    refine ⟨_, _, (zona_eq_ok (by simp [hrgb])).mpr ⟨_, hz, rfl⟩, ?_⟩
    simp only [h1, bind_eq_ok, dentro_eq_ok, color_eq_ok, ite_error_eq_ok]
    exact ⟨by simp, _, ⟨hd, rfl⟩, _, hc, rfl⟩

private theorem leerConId_eq_ok (hhaz : ∀ z id, (haz z id).zona = z) :
    leerConId haz b cab = .ok e ↔ DiceConId haz b e ∧ Dentro e.zona cab := by
  constructor
  · intro h
    simp only [leerConId, bind_eq_ok, Prod.exists] at h
    obtain ⟨z, r, hz, h⟩ := h
    rcases h1 : partir r with ⟨id, r1⟩
    simp only [h1, ite_error_eq_ok, bind_eq_ok, dentro_eq_ok, Bool.not_eq_true', Bool.not_eq_false,
      Except.ok.injEq, List.isEmpty_eq_false_iff, not_not] at h
    obtain ⟨rfl, hid, _, ⟨hd, rfl⟩, rfl⟩ := h
    obtain ⟨-, f, hf, hr⟩ := partir_eq_nil.mp h1
    have hne : id ≠ [] := by
      rintro rfl
      cases hid
    obtain ⟨zb, hzb, rfl⟩ := (zona_eq_ok (by simp [hr, hne])).mp hz
    rw [hr]
    exact ⟨.mk hzb hid hf, by rwa [hhaz]⟩
  · rintro ⟨⟨hz, hid, hf⟩, hd⟩
    rw [hhaz] at hd
    have h1 := partir_eq_nil.mpr ⟨notMem_of_idValido hid, _, hf, rfl⟩
    simp only [leerConId, bind_eq_ok, Prod.exists]
    refine ⟨_, _, (zona_eq_ok ?_).mpr ⟨_, hz, rfl⟩, ?_⟩
    · intro h0
      rw [(List.append_eq_nil_iff.mp h0).1] at hid
      cases hid
    · simp only [h1, bind_eq_ok, dentro_eq_ok, ite_error_eq_ok]
      exact ⟨by simp, by simp [hid], _, ⟨hd, rfl⟩, rfl⟩

private theorem leerTexto_eq_ok : leerTexto b cab = .ok e ↔ DiceTexto b e ∧ Dentro e.zona cab := by
  constructor
  · intro h
    rcases h1 : partir b with ⟨x, r1⟩
    rcases h2 : partir r1 with ⟨y, r2⟩
    rcases h3 : partir r2 with ⟨k, r3⟩
    rcases h4 : partir r3 with ⟨rgb, t⟩
    simp only [leerTexto, h1, h2, h3, h4, ite_error_eq_ok, bind_eq_ok, dentro_eq_ok, color_eq_ok,
      Except.ok.injEq, Bool.not_eq_true', Bool.not_eq_false, List.isEmpty_iff] at h
    obtain ⟨-, ht0, ht, k', hk, hk0, x', hx, y', hy, _, ⟨hd, rfl⟩, c, hc, rfl⟩ := h
    rw [numero_eq_ok (by decide)] at hk hx hy
    have hb4 := eq_of_partir h4 ht0
    have hb3 := eq_of_partir h3 (by simp [hb4])
    have hb2 := eq_of_partir h2 (by simp [hb3])
    have hb1 := eq_of_partir h1 (by simp [hb2])
    rw [hb1, hb2, hb3, hb4]
    exact ⟨.mk hx.1 hy.1 hk.1 hc hx.2 hy.2 hk.2 hk0 ht0 ht rfl, hd⟩
  · rintro ⟨⟨hx, hy, he, hc, hxm, hym, hkm, hk0, ht0, ht, rfl⟩, hd⟩
    have h1 := hx.notMem (c := blanco) rfl
    have h2 := hy.notMem (c := blanco) rfl
    have h3 := he.notMem (c := blanco) rfl
    have h4 := hc.notMem
    simp only [leerTexto, partir_blanco, h1, h2, h3, h4, not_false_eq_true, ite_error_eq_ok,
      bind_eq_ok, dentro_eq_ok, color_eq_ok]
    refine ⟨by simp [hx.imprimible, hy.imprimible, he.imprimible, hc.imprimible], by simp [ht0],
      by simp [ht], _, (numero_eq_ok (by decide)).mpr ⟨he, hkm⟩, hk0,
      _, (numero_eq_ok (by decide)).mpr ⟨hx, hxm⟩, _, (numero_eq_ok (by decide)).mpr ⟨hy, hym⟩,
      _, ⟨hd, rfl⟩, _, hc, rfl⟩

/-- A line of a lamina; only in `TEXTO` there may be other letters. -/
inductive DiceElemento (l : Bytes) (e : Elemento) : Prop
  | texto {r : Bytes} (hl : l = letras ['T', 'E', 'X', 'T', 'O'] ++ blanco :: r) (h : DiceTexto r e)
  | caja {r : Bytes} (hl : l = letras ['C', 'A', 'J', 'A'] ++ blanco :: r)
      (ha : l.all imprimible = true) (h : DiceCaja r e)
  | imagen {r : Bytes} (hl : l = letras ['I', 'M', 'A', 'G', 'E', 'N'] ++ blanco :: r)
      (ha : l.all imprimible = true) (h : DiceConId .imagen r e)
  | enlace {r : Bytes} (hl : l = letras ['E', 'N', 'L', 'A', 'C', 'E'] ++ blanco :: r)
      (ha : l.all imprimible = true) (h : DiceConId .enlace r e)
  | campo {r : Bytes} (hl : l = letras ['C', 'A', 'M', 'P', 'O'] ++ blanco :: r)
      (ha : l.all imprimible = true) (h : DiceConId .campo r e)

theorem DiceCaja.ne_nil (h : DiceCaja b e) : b ≠ [] := by
  cases h
  simp

theorem DiceConId.ne_nil (h : DiceConId haz b e) : b ≠ [] := by
  cases h
  simp

theorem DiceTexto.ne_nil (h : DiceTexto b e) : b ≠ [] := by
  cases h
  simp

/-- The reader of elements takes these lines, where they are inside, and no others. -/
theorem leerElemento_eq_ok {l : Bytes} : leerElemento l cab = .ok e ↔
    (sinFin l).length ≤ lineaMax ∧ DiceElemento (sinFin l) e ∧ Dentro e.zona cab := by
  have hconId : ∀ haz : Zona → Bytes → Elemento, (∀ z id, (haz z id).zona = z) → ∀ r,
      leerConId haz r cab = .ok e ↔ DiceConId haz r e ∧ Dentro e.zona cab :=
    fun _ hhaz _ ↦ leerConId_eq_ok hhaz
  have himagen := hconId .imagen (fun _ _ ↦ rfl)
  have henlace := hconId .enlace (fun _ _ ↦ rfl)
  have hcampo := hconId .campo (fun _ _ ↦ rfl)
  simp only [leerElemento, bind_eq_ok, recortar_eq_ok, and_assoc, exists_and_left, exists_eq_left']
  refine and_congr_right fun _ ↦ ?_
  generalize sinFin l = b
  constructor
  · intro h
    rcases h0 : partir b with ⟨v, r⟩
    simp only [h0] at h
    split at h
    · next hv =>
      subst hv
      obtain ⟨h, hd⟩ := leerTexto_eq_ok.mp h
      exact ⟨.texto (eq_of_partir h0 h.ne_nil) h, hd⟩
    · rw [ite_error_eq_ok, Bool.not_eq_true', Bool.not_eq_false] at h
      obtain ⟨ha, h⟩ := h
      split at h
      · next hv =>
        subst hv
        obtain ⟨h, hd⟩ := leerCaja_eq_ok.mp h
        exact ⟨.caja (eq_of_partir h0 h.ne_nil) ha h, hd⟩
      · split at h
        · next hv =>
          subst hv
          obtain ⟨h, hd⟩ := (himagen _).mp h
          exact ⟨.imagen (eq_of_partir h0 h.ne_nil) ha h, hd⟩
        · split at h
          · next hv =>
            subst hv
            obtain ⟨h, hd⟩ := (henlace _).mp h
            exact ⟨.enlace (eq_of_partir h0 h.ne_nil) ha h, hd⟩
          · split at h
            · next hv =>
              subst hv
              obtain ⟨h, hd⟩ := (hcampo _).mp h
              exact ⟨.campo (eq_of_partir h0 h.ne_nil) ha h, hd⟩
            · cases h
  · rintro ⟨h, hd⟩
    cases h with
    | texto hl h =>
      rw [hl, partir_blanco (by decide)]
      exact leerTexto_eq_ok.mpr ⟨h, hd⟩
    | caja hl ha h =>
      rw [ha, hl, partir_blanco (by decide)]
      exact leerCaja_eq_ok.mpr ⟨h, hd⟩
    | imagen hl ha h =>
      rw [ha, hl, partir_blanco (by decide)]
      exact (himagen _).mpr ⟨h, hd⟩
    | enlace hl ha h =>
      rw [ha, hl, partir_blanco (by decide)]
      exact (henlace _).mpr ⟨h, hd⟩
    | campo hl ha h =>
      rw [ha, hl, partir_blanco (by decide)]
      exact (hcampo _).mpr ⟨h, hd⟩

end

end Lamina

/-! ### The other lines -/

/-- A video's side. -/
def DiceLado (b : Bytes) (n maximo : Nat) : Prop :=
  Numeral 20 b n ∧ ladoMin ≤ n ∧ n ≤ maximo ∧ n % 2 = 0

/-- `bytes mpeg1 anchoxalto`. -/
inductive DiceVideo : Bytes → Respuesta → Prop
  | mk {n ancho alto : Nat} {b w h f : Bytes} (hn : Numeral 20 b n) (hn64 : n < 2 ^ 64)
      (hw : DiceLado w ancho anchoMax) (hh : DiceLado h alto altoMax) (hf : Cola f) :
      DiceVideo (b ++ blanco :: (letras ['m', 'p', 'e', 'g', '1'] ++ blanco :: (w ++ 0x78 :: h ++ f)))
        (.video (UInt64.ofNat n) ancho alto)

/-- A line that is not of a lamina. -/
inductive Dice (l : Bytes) : Respuesta → Prop
  | hola {nombre : Bytes} (hl : l = letras ['H', 'O', 'L', 'A'] ++ blanco :: (version ++ blanco :: nombre))
      (h : textoValido nombre = true) : Dice l (.hola nombre)
  | lista {b : Bytes} {n : Nat} (hl : l = letras ['L', 'I', 'S', 'T', 'A'] ++ blanco :: b)
      (h : Numeral 20 b n) (hn : n ≤ listaMax) : Dice l (.lista n)
  | entrada {id titulo : Bytes}
      (hl : l = letras ['E', 'N', 'T', 'R', 'A', 'D', 'A'] ++ blanco :: (id ++ blanco :: titulo))
      (hid : idValido id = true) (h : textoValido titulo = true) : Dice l (.entrada id titulo)
  | video {b : Bytes} {r : Respuesta} (hl : l = letras ['V', 'I', 'D', 'E', 'O'] ++ blanco :: b)
      (h : DiceVideo b r) : Dice l r
  | no {motivo : Bytes} (hl : l = letras ['N', 'O'] ++ blanco :: motivo)
      (h : textoValido motivo = true) : Dice l (.no motivo)
  | lamina {cab : Cabecera} (h : Lamina.DiceCabecera l cab) : Dice l (.lamina cab)

section

variable {b : Bytes} {r : Respuesta}

private theorem ne_nil_of_textoValido (h : textoValido b = true) : b ≠ [] := by
  rintro rfl
  cases h

private theorem leerHola_eq_ok : leerHola b = .ok r ↔
    ∃ nombre, b = version ++ blanco :: nombre ∧ textoValido nombre = true ∧ .hola nombre = r := by
  constructor
  · intro h
    rcases h0 : partir b with ⟨v, nombre⟩
    simp only [leerHola, h0, ite_error_eq_ok, Bool.not_eq_true', Bool.not_eq_false, not_not,
      Except.ok.injEq] at h
    obtain ⟨rfl, ht, rfl⟩ := h
    exact ⟨nombre, eq_of_partir h0 (ne_nil_of_textoValido ht), ht, rfl⟩
  · rintro ⟨nombre, rfl, ht, rfl⟩
    rw [leerHola, partir_blanco (by decide)]
    simp [ht]

private theorem leerEntrada_eq_ok : leerEntrada b = .ok r ↔
    ∃ id titulo, b = id ++ blanco :: titulo ∧ idValido id = true ∧ textoValido titulo = true ∧
      .entrada id titulo = r := by
  constructor
  · intro h
    rcases h0 : partir b with ⟨id, titulo⟩
    simp only [leerEntrada, h0, ite_error_eq_ok, Bool.not_eq_true', Bool.not_eq_false,
      Except.ok.injEq] at h
    obtain ⟨hid, ht, rfl⟩ := h
    exact ⟨id, titulo, eq_of_partir h0 (ne_nil_of_textoValido ht), hid, ht, rfl⟩
  · rintro ⟨id, titulo, rfl, hid, ht, rfl⟩
    rw [leerEntrada, partir_blanco (Lamina.notMem_of_idValido hid)]
    simp [hid, ht]

private theorem leerNo_eq_ok : leerNo b = .ok r ↔ textoValido b = true ∧ .no b = r := by
  simp [leerNo, ite_error_eq_ok]

private theorem lado_eq_ok {n maximo : Nat} (h : maximo < 2 ^ 64) :
    lado b maximo = .ok n ↔ Numeral 20 b n ∧ n ≤ maximo := by
  rw [lado, mapError_eq_ok, numero_eq_ok h]

private theorem leerVideo_eq_ok : leerVideo b = .ok r ↔ DiceVideo b r := by
  constructor
  · intro h
    rcases h1 : partir b with ⟨nb, r1⟩
    rcases h2 : partir r1 with ⟨formato, r2⟩
    rcases h3 : partir r2 with ⟨tamano, r3⟩
    simp only [leerVideo, h1, h2, h3, ite_error_eq_ok, bind_eq_ok, Bool.or_eq_true, not_or,
      List.isEmpty_iff, Bool.not_eq_true', List.isEmpty_eq_false_iff, not_not] at h
    obtain ⟨⟨ht0, rfl⟩, n, hn, rfl, h⟩ := h
    rw [numero_eq_ok (by decide)] at hn
    obtain ⟨-, f, hf, hb3⟩ := partir_eq_nil.mp h3
    have hb2 := eq_of_partir h2 (by simp [hb3, ht0])
    have hb1 := eq_of_partir h1 (by simp [hb2])
    split at h
    · cases h
    · next w al hx =>
      simp only [bind_eq_ok, lado_eq_ok (show anchoMax < 2 ^ 64 by decide),
        lado_eq_ok (show altoMax < 2 ^ 64 by decide), ite_error_eq_ok, not_or, not_lt, not_not,
        Except.ok.injEq] at h
      obtain ⟨w', hw, al', hal, ⟨hwm, halm, hwp, halp⟩, rfl⟩ := h
      obtain ⟨-, rfl⟩ := cut?_eq_some.mp hx
      rw [hb1, hb2, hb3]
      exact .mk hn.1 (by omega) ⟨hw.1, hwm, hw.2, hwp⟩ ⟨hal.1, halm, hal.2, halp⟩ hf
  · intro h
    obtain @⟨n, ancho, alto, nb, w, al, f, hn, hn64, hw, hh, hf⟩ := h
    have h1 := hn.notMem (c := blanco) rfl
    have h2 := hw.1.notMem (c := blanco) rfl
    have h3 := hh.1.notMem (c := blanco) rfl
    have hno : blanco ∉ w ++ 0x78 :: al := by simp [h2, h3, show blanco ≠ 0x78 by decide]
    have h4 := partir_eq_nil.mpr ⟨hno, _, hf, rfl⟩
    have hx : cut? 0x78 (w ++ 0x78 :: al) = some (w, al) :=
      cut?_eq_some.mpr ⟨hw.1.notMem (c := 0x78) rfl, rfl⟩
    rw [leerVideo, partir_blanco h1]
    simp only [partir_blanco (show blanco ∉ letras ['m', 'p', 'e', 'g', '1'] by decide), h4, hx]
    simp only [ite_error_eq_ok, bind_eq_ok, lado_eq_ok (show anchoMax < 2 ^ 64 by decide),
      lado_eq_ok (show altoMax < 2 ^ 64 by decide)]
    refine ⟨by simp, _, (numero_eq_ok (by decide)).mpr ⟨hn, by omega⟩, by simp,
      _, ⟨hw.1, hw.2.2.1⟩, _, ⟨hh.1, hh.2.2.1⟩, ?_, rfl⟩
    simp only [not_or, not_lt, not_not]
    exact ⟨hw.2.1, hh.2.1, hw.2.2.2, hh.2.2.2⟩

private theorem sinFin_of_imprimible (h : b.all imprimible = true) : sinFin b = b := by
  have hno : ∀ c, imprimible c = false → sinSufijo c b = b := by
    intro c hc
    rw [sinSufijo, if_neg]
    intro hlast
    have := List.all_eq_true.mp h c (List.mem_of_getLast? hlast)
    rw [hc] at this
    cases this
  rw [sinFin, hno salto rfl, hno 0x0D rfl]

/-- The reader takes these lines and no others. -/
theorem leer_eq_ok {l : Bytes} : leer l = .ok r ↔
    (sinFin l).length ≤ lineaMax ∧ (sinFin l).all imprimible = true ∧ Dice (sinFin l) r := by
  simp only [leer, ite_error_eq_ok, not_lt, Bool.not_eq_true', Bool.not_eq_false]
  refine and_congr_right fun hlen ↦ and_congr_right fun hall ↦ ?_
  -- the header of a lamina is read from the line without its end
  have hcab : ∀ cab, Lamina.leerCabecera (sinFin l) = .ok cab ↔
      (sinFin (sinFin l)).length ≤ lineaMax ∧ (sinFin (sinFin l)).all imprimible = true ∧
        Lamina.DiceCabecera (sinFin (sinFin l)) cab := fun _ ↦ Lamina.leerCabecera_eq_ok
  rw [sinFin_of_imprimible hall] at hcab
  generalize sinFin l = b at *
  constructor
  · intro h
    rcases h0 : partir b with ⟨v, r0⟩
    simp only [h0] at h
    split at h
    · next hv =>
      subst hv
      obtain ⟨nombre, rfl, ht, rfl⟩ := leerHola_eq_ok.mp h
      exact .hola (eq_of_partir h0 (by simp)) ht
    · split at h
      · next hv =>
        subst hv
        obtain ⟨n, hn, rfl⟩ := map_eq_ok.mp h
        rw [numero_eq_ok (by decide)] at hn
        exact .lista (eq_of_partir h0 hn.1.noVacio) hn.1 hn.2
      · split at h
        · next hv =>
          subst hv
          obtain ⟨id, titulo, rfl, hid, ht, rfl⟩ := leerEntrada_eq_ok.mp h
          exact .entrada (eq_of_partir h0 (by simp)) hid ht
        · split at h
          · next hv =>
            subst hv
            rw [leerVideo_eq_ok] at h
            exact .video (eq_of_partir h0 (by cases h; simp)) h
          · split at h
            · next hv =>
              subst hv
              obtain ⟨ht, rfl⟩ := leerNo_eq_ok.mp h
              exact .no (eq_of_partir h0 (ne_nil_of_textoValido ht)) ht
            · split at h
              · obtain ⟨cab, hc, rfl⟩ := map_eq_ok.mp h
                exact .lamina ((hcab cab).mp hc).2.2
              · cases h
  · intro h
    cases h with
    | hola hl h =>
      rw [hl, partir_blanco (by decide)]
      exact leerHola_eq_ok.mpr ⟨_, rfl, h, rfl⟩
    | lista hl h hn =>
      rw [hl, partir_blanco (by decide)]
      exact map_eq_ok.mpr ⟨_, (numero_eq_ok (by decide)).mpr ⟨h, hn⟩, rfl⟩
    | entrada hl hid h =>
      rw [hl, partir_blanco (by decide)]
      exact leerEntrada_eq_ok.mpr ⟨_, _, rfl, hid, h, rfl⟩
    | video hl h =>
      rw [hl, partir_blanco (by decide)]
      exact leerVideo_eq_ok.mpr h
    | no hl h =>
      rw [hl, partir_blanco (by decide)]
      exact leerNo_eq_ok.mpr ⟨h, rfl⟩
    | lamina h =>
      have hok := (hcab _).mpr ⟨hlen, hall, h⟩
      cases h
      rw [partir_blanco (by decide)]
      exact map_eq_ok.mpr ⟨_, hok, rfl⟩

end

end BmoX.Antena
