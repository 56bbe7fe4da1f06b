import BmoX.Imagen.Decodificar

/-!
# What BICO, BMP and QOI define

The three formats in their own terms: what a header declares, which bytes are those of a pixel and,
for QOI, the chunks and the colours that they stand for.
-/

namespace BmoX.Imagen

open BmoX.Base

/-- A colour, of an alpha of one bit. -/
structure Color where
  opaco : Bool
  r : UInt8
  g : UInt8
  b : UInt8

/-- The pixel `0xAARRGGBB`. -/
def Color.pixel (c : Color) : UInt32 :=
  UInt32.ofNat ((if c.opaco then 0xFF else 0) * 2 ^ 24 + c.r.toNat * 2 ^ 16 + c.g.toNat * 2 ^ 8 +
    c.b.toNat)

/-- The number in `n` bytes of the string, the lowest first. -/
def num (b : Bytes) (o n : Nat) : Nat := leNat (slice b o n)

/-- The number in `n` bytes of the string, the highest first. -/
def numAlto (b : Bytes) (o n : Nat) : Nat := leNat (slice b o n).reverse

def Lado (n : Nat) : Prop := 1 ≤ n ∧ n ≤ 1024

/-! ### BICO -/

/-- A file of words, the highest byte of each its alpha. -/
structure EsBico (b : Bytes) (w h : Nat) : Prop where
  magia : slice b 0 4 = [0x42, 0x49, 0x43, 0x4F]
  ancho : num b 4 2 = w
  alto : num b 6 2 = h
  datos : 8 + 4 * (w * h) ≤ b.length

def colorBico (b : Bytes) (k : Nat) : Color where
  opaco := 128 ≤ b.getD (8 + 4 * k + 3) 0
  r := b.getD (8 + 4 * k + 2) 0
  g := b.getD (8 + 4 * k + 1) 0
  b := b.getD (8 + 4 * k) 0

/-! ### BMP -/

/-- The bytes of a row, up to a multiple of four. -/
def filaBmp (bits w : Nat) : Nat := (w * (bits / 8) + 3) / 4 * 4

/-- A file of rows that are not compressed; a height below zero says that the first row is the
highest. -/
structure EsBmp (b : Bytes) (w h bits datos : Nat) (deArriba : Bool) : Prop where
  magia : slice b 0 2 = [0x42, 0x4D]
  ancho : num b 18 4 = w
  alto : num b 22 4 = if deArriba then 2 ^ 32 - h else h
  tamano : 40 ≤ num b 14 4
  planos : num b 26 2 = 1
  profundidad : num b 28 2 = bits
  soportado : bits = 24 ∨ bits = 32
  compresion : num b 30 4 = 0
  cabecera : 34 ≤ b.length
  lugar : num b 10 4 = datos
  filas : datos + filaBmp bits w * h ≤ b.length

def colorBmp (b : Bytes) (w h bits datos : Nat) (deArriba : Bool) (k : Nat) : Color :=
  let fila := if deArriba then k / w else h - 1 - k / w
  let p := datos + fila * filaBmp bits w + k % w * (bits / 8)
  ⟨true, b.getD (p + 2) 0, b.getD (p + 1) 0, b.getD p 0⟩

/-! ### QOI -/

/-- The chunks; a run is of one pixel more than its number. -/
inductive Chunk where
  | rgb (r g b : UInt8)
  | rgba (r g b a : UInt8)
  | index (k : Fin 64)
  | diff (dr dg db : Fin 4)
  | luma (dg : Fin 64) (drg dbg : Fin 16)
  | run (n : Fin 62)

/-- The bytes of a chunk. -/
def Chunk.bytes : Chunk → Bytes
  | .rgb r g b => [0xFE, r, g, b]
  | .rgba r g b a => [0xFF, r, g, b, a]
  | .index k => [UInt8.ofNat k]
  | .diff dr dg db => [UInt8.ofNat (64 + 16 * dr + 4 * dg + db)]
  | .luma dg drg dbg => [UInt8.ofNat (128 + dg), UInt8.ofNat (16 * drg + dbg)]
  | .run n => [UInt8.ofNat (192 + n)]

/-- The colour of before, and the last colour seen of each place. -/
structure Visto where
  px : Px
  en : Nat → Px

/-- The colour of a chunk. -/
def Chunk.color (v : Visto) : Chunk → Px
  | .rgb r g b => ⟨r, g, b, v.px.a⟩
  | .rgba r g b a => ⟨r, g, b, a⟩
  | .index k => v.en k
  | .diff dr dg db =>
    ⟨v.px.r + UInt8.ofNat dr - 2, v.px.g + UInt8.ofNat dg - 2, v.px.b + UInt8.ofNat db - 2, v.px.a⟩
  | .luma dg drg dbg =>
    let g := UInt8.ofNat dg - 32
    ⟨v.px.r + g + UInt8.ofNat drg - 8, v.px.g + g, v.px.b + g + UInt8.ofNat dbg - 8, v.px.a⟩
  | .run _ => v.px

/-- How many pixels a chunk is of. -/
def Chunk.veces : Chunk → Nat
  | .run n => n + 1
  | _ => 1

/-- A colour was seen. -/
def Visto.ve (v : Visto) (px : Px) : Visto := ⟨px, Function.update v.en (huella px) px⟩

def Visto.inicial : Visto := ⟨⟨0, 0, 0, 255⟩, fun _ ↦ ⟨0, 0, 0, 0⟩⟩

/-- The colours of some chunks. -/
def colores (v : Visto) : List Chunk → List Px
  | [] => []
  | c :: cs => List.replicate c.veces (c.color v) ++ colores (v.ve (c.color v)) cs

def Px.color (px : Px) : Color := ⟨128 ≤ px.a, px.r, px.g, px.b⟩

/-- A file of chunks, with a mark of eight bytes after them. -/
structure EsQoi (b : Bytes) (w h : Nat) (cs : List Chunk) : Prop where
  magia : slice b 0 4 = [0x71, 0x6F, 0x69, 0x66]
  ancho : numAlto b 4 4 = w
  alto : numAlto b 8 4 = h
  canales : b.getD 12 0 = 3 ∨ b.getD 12 0 = 4
  espacio : b.getD 13 0 ≤ 1
  marca : 22 ≤ b.length
  trozos : ∃ resto, slice b 14 (b.length - 22) = cs.flatMap Chunk.bytes ++ resto
  pixeles : w * h ≤ (colores .inicial cs).length

/-! ### The three -/

/-- A file that is whole, of a variant that is supported, and the colours of its pixels. -/
inductive Define (b : Bytes) : Medidas → List Color → Prop
  | bico {w h : UInt32} (hw : Lado w.toNat) (hh : Lado h.toNat) (es : EsBico b w.toNat h.toNat) :
    Define b ⟨w, h, .Bico⟩ ((List.range (w.toNat * h.toNat)).map (colorBico b))
  | bmp {w h : UInt32} {bits datos : Nat} {deArriba : Bool} (hw : Lado w.toNat) (hh : Lado h.toNat)
    (es : EsBmp b w.toNat h.toNat bits datos deArriba) :
    Define b ⟨w, h, .Bmp⟩ ((List.range (w.toNat * h.toNat)).map
      (colorBmp b w.toNat h.toNat bits datos deArriba))
  | qoi {w h : UInt32} {cs : List Chunk} (hw : Lado w.toNat) (hh : Lado h.toNat)
    (es : EsQoi b w.toNat h.toNat cs) :
    Define b ⟨w, h, .Qoi⟩ (((colores .inicial cs).take (w.toNat * h.toNat)).map Px.color)

theorem length_of_define {b : Bytes} {m : Medidas} {px : List Color} (h : Define b m px) :
    px.length = m.ancho.toNat * m.alto.toNat := by
  cases h with
  | bico hw hh es => rw [List.length_map, List.length_range]
  | bmp hw hh es => rw [List.length_map, List.length_range]
  | qoi hw hh es => rw [List.length_map, List.length_take, Nat.min_eq_left es.pixeles]

theorem lados_of_define {b : Bytes} {m : Medidas} {px : List Color} (h : Define b m px) :
    Lado m.ancho.toNat ∧ Lado m.alto.toNat := by
  cases h with
  | bico hw hh es => exact ⟨hw, hh⟩
  | bmp hw hh es => exact ⟨hw, hh⟩
  | qoi hw hh es => exact ⟨hw, hh⟩

/-! ### A chunk at the start of some bytes -/

local instance neZeroCuatro : NeZero 4 := ⟨by decide⟩

local instance neZeroDieciseis : NeZero 16 := ⟨by decide⟩

/-- A chunk of a first byte below `0xFE`, of its two high bits and the others. -/
def corto (s : Bytes) : Nat → Nat → Option (Chunk × Bytes)
  | 0, n => some (.index (Fin.ofNat 64 n), s)
  | 1, n => some (.diff (Fin.ofNat 4 (n / 16)) (Fin.ofNat 4 (n / 4)) (Fin.ofNat 4 n), s)
  | 2, n =>
    match s with
    | b2 :: s =>
      some (.luma (Fin.ofNat 64 n) (Fin.ofNat 16 (b2.toNat / 16)) (Fin.ofNat 16 b2.toNat), s)
    | [] => none
  | _ + 3, n => some (.run (Fin.ofNat 62 n), s)

/-- The chunk that some bytes begin with, and those after it. -/
def siguiente : Bytes → Option (Chunk × Bytes)
  | [] => none
  | b1 :: s =>
    if b1 = 0xFE then
      match s with
      | r :: g :: b :: s => some (.rgb r g b, s)
      | _ => none
    else if b1 = 0xFF then
      match s with
      | r :: g :: b :: a :: s => some (.rgba r g b a, s)
      | _ => none
    else corto s (b1.toNat / 64) (b1.toNat % 64)

private theorem eq_ofNat {x : UInt8} {n : Nat} (h : x.toNat = n) : x = UInt8.ofNat n := by
  rw [← h, UInt8.ofNat_toNat]

private theorem eq_of_corto {b1 : UInt8} (h : b1.toNat < 254) {s r : Bytes} {c : Chunk}
    (hc : corto s (b1.toNat / 64) (b1.toNat % 64) = some (c, r)) : b1 :: s = c.bytes ++ r := by
  have hlt : b1.toNat / 64 < 4 := by omega
  obtain ⟨k, hk⟩ : ∃ k, k = b1.toNat / 64 := ⟨_, rfl⟩
  obtain ⟨n, hn⟩ : ∃ n, n = b1.toNat % 64 := ⟨_, rfl⟩
  have hval : b1.toNat = 64 * k + n := by omega
  rw [← hk, ← hn] at hc
  match k, hc with
  | 0, hc =>
    obtain ⟨rfl, rfl⟩ := Prod.mk.inj (Option.some.inj hc)
    rw [Chunk.bytes, List.singleton_append, eq_ofNat (x := b1) (n := (Fin.ofNat 64 n).val)]
    rw [Fin.val_ofNat]
    omega
  | 1, hc =>
    obtain ⟨rfl, rfl⟩ := Prod.mk.inj (Option.some.inj hc)
    rw [Chunk.bytes, List.singleton_append, eq_ofNat (x := b1)]
    simp only [Fin.val_ofNat]
    omega
  | 2, hc =>
    cases s with
    | nil => cases hc
    | cons b2 s =>
      obtain ⟨rfl, rfl⟩ := Prod.mk.inj (Option.some.inj hc)
      have h2 := b2.toNat_lt
      rw [Chunk.bytes, List.cons_append, List.singleton_append]
      congr 1
      · apply eq_ofNat
        simp only [Fin.val_ofNat]
        omega
      · congr 1
        apply eq_ofNat
        simp only [Fin.val_ofNat]
        omega
  | 3, hc =>
    obtain ⟨rfl, rfl⟩ := Prod.mk.inj (Option.some.inj hc)
    rw [Chunk.bytes, List.singleton_append, eq_ofNat (x := b1)]
    simp only [Fin.val_ofNat]
    omega
  | k + 4, _ => omega

/-- What is read back from some bytes is a chunk whose bytes they begin with. -/
theorem eq_of_siguiente {s r : Bytes} {c : Chunk} (h : siguiente s = some (c, r)) :
    s = c.bytes ++ r := by
  cases s with
  | nil => cases h
  | cons b1 s =>
    unfold siguiente at h
    dsimp only at h
    by_cases hfe : b1 = 0xFE
    · subst hfe
      rw [if_pos rfl] at h
      match s, h with
      | r :: g :: b :: s, h =>
        obtain ⟨rfl, rfl⟩ := Prod.mk.inj (Option.some.inj h)
        rfl
    · rw [if_neg hfe] at h
      by_cases hff : b1 = 0xFF
      · subst hff
        rw [if_pos rfl] at h
        match s, h with
        | r :: g :: b :: a :: s, h =>
          obtain ⟨rfl, rfl⟩ := Prod.mk.inj (Option.some.inj h)
          rfl
      · rw [if_neg hff] at h
        refine eq_of_corto ?_ h
        have hlt := b1.toNat_lt
        have h1 : b1.toNat ≠ 254 := fun hno ↦ hfe (UInt8.toNat_inj.mp hno)
        have h2 : b1.toNat ≠ 255 := fun hno ↦ hff (UInt8.toNat_inj.mp hno)
        omega

end BmoX.Imagen
