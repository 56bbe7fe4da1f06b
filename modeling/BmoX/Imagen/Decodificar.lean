import BmoX.Base.Bytes

/-!
# From the bytes of a file to pixels

`platform/shared/bmo-imagen/src/lib.rs`: BICO, BMP and QOI. A function that indexes the string gives
`none` where the index is outside of it, and one that writes gives the buffer as it leaves it.
-/

namespace BmoX.Imagen

open BmoX.Base

/-- `lib.rs:31–35`. -/
inductive Formato where
  | Bico
  | Bmp
  | Qoi
  deriving DecidableEq

/-- `lib.rs:48–59`. -/
inductive Error where
  | Corto
  | NoEsImagen
  | Variante
  | Medidas
  | NoCabe
  deriving DecidableEq

/-- `lib.rs:74–78`. -/
structure Medidas where
  ancho : UInt32
  alto : UInt32
  formato : Formato
  deriving DecidableEq

def LADO_MAX : UInt32 := 1024

def OPACO : UInt32 := 0xFF000000

/-- `lib.rs:83–85`. -/
def le16 (b : Bytes) (i : Nat) : Option UInt32 := do
  let x0 ← b[i]?
  let x1 ← b[i + 1]?
  some (UInt32.ofNat (leNat [x0, x1]))

/-- `lib.rs:87–89`. -/
def le32 (b : Bytes) (i : Nat) : Option UInt32 := do
  let x0 ← b[i]?
  let x1 ← b[i + 1]?
  let x2 ← b[i + 2]?
  let x3 ← b[i + 3]?
  some (UInt32.ofNat (leNat [x0, x1, x2, x3]))

/-- `lib.rs:91–93`. -/
def be32 (b : Bytes) (i : Nat) : Option UInt32 := do
  let x0 ← b[i]?
  let x1 ← b[i + 1]?
  let x2 ← b[i + 2]?
  let x3 ← b[i + 3]?
  some (UInt32.ofNat (leNat [x3, x2, x1, x0]))

/-- `ok_or(Error::Corto)`. -/
def oCorto {α : Type} : Option α → Except Error α
  | some x => .ok x
  | none => .error .Corto

/-- An `if` that answers an error. -/
def rechaza (p : Prop) [Decidable p] (e : Error) : Except Error Unit :=
  if p then .error e else .ok ()

/-- `lib.rs:95–101`. -/
def lados (ancho alto : UInt32) : Except Error Unit :=
  rechaza (ancho = 0 ∨ alto = 0 ∨ ancho > LADO_MAX ∨ alto > LADO_MAX) .Medidas

/-- What it is and how much it measures; `lib.rs:104–128`. -/
def medir (b : Bytes) : Except Error Medidas :=
  if b.length < 4 then .error .Corto
  else if b.take 4 = [0x42, 0x49, 0x43, 0x4F] then do
    let w ← oCorto (le16 b 4)
    let h ← oCorto (le16 b 6)
    lados w h
    .ok ⟨w, h, .Bico⟩
  else if b.take 4 = [0x71, 0x6F, 0x69, 0x66] then do
    let w ← oCorto (be32 b 4)
    let h ← oCorto (be32 b 8)
    lados w h
    .ok ⟨w, h, .Qoi⟩
  else if b.take 2 = [0x42, 0x4D] then do
    let w ← oCorto (le32 b 18)
    let h ← oCorto (le32 b 22)
    let alto := if h ≥ 0x80000000 then 0 - h else h
    lados w alto
    .ok ⟨w, alto, .Bmp⟩
  else .error .NoEsImagen

/-- `lib.rs:146–148`. -/
def bitDeAlfa (a : UInt32) : UInt32 := if a ≥ 128 then OPACO else 0

/-- What a function that writes answers, and the buffer as it leaves it. -/
abbrev Escrito := Except Error Unit × List UInt32

/-! ### BICO -/

/-- The loop, from the `k`-th pixel; `lib.rs:154–157`. -/
def bicoDesde (b : Bytes) : Nat → List UInt32 → Escrito
  | _, [] => (.ok (), [])
  | k, px :: dst =>
    match le32 b (8 + k * 4) with
    | none => (.error .Corto, px :: dst)
    | some v =>
      let (r, dst) := bicoDesde b (k + 1) dst
      (r, (bitDeAlfa (v >>> 24) ||| (v &&& 0x00FFFFFF)) :: dst)

/-- `lib.rs:150–159`. -/
def bico (b : Bytes) (n : Nat) (dst : List UInt32) : Escrito :=
  if b.length < 8 + n * 4 then (.error .Corto, dst) else bicoDesde b 0 dst

/-! ### BMP -/

/-- What the rows of a BMP are read by. -/
structure Filas where
  datos : Nat
  deArriba : Bool
  porPixel : Nat
  fila : Nat

/-- The checks of the header; `lib.rs:162–185`. -/
def bmpCabecera (b : Bytes) (m : Medidas) : Except Error Filas := do
  let datos ← oCorto (le32 b 10)
  let tamano ← oCorto (le32 b 14)
  rechaza (tamano < 40) .Variante
  let planos ← oCorto (le16 b 26)
  rechaza (planos ≠ 1) .Variante
  let bits ← oCorto (le16 b 28)
  rechaza (bits ≠ 24 ∧ bits ≠ 32) .Variante
  let compresion ← oCorto (le32 b 30)
  rechaza (compresion ≠ 0) .Variante
  let alto ← oCorto (le32 b 22)
  let fila := (bits.toNat * m.ancho.toNat + 31) / 32 * 4
  rechaza (datos.toNat > b.length ∨ fila * m.alto.toNat > b.length - datos.toNat) .Corto
  .ok ⟨datos.toNat, decide (alto ≥ 0x80000000), (bits / 8).toNat, fila⟩

/-- A pixel of a row; `lib.rs:187–194`. -/
def bmpPixel (b : Bytes) (c : Filas) (w h y : Nat) (dst : List UInt32) (x : Nat) :
    Option (List UInt32) := do
  let fuente := if c.deArriba then y else h - 1 - y
  let p := c.datos + fuente * c.fila + x * c.porPixel
  let azul ← b[p]?
  let verde ← b[p + 1]?
  let rojo ← b[p + 2]?
  if y * w + x < dst.length then
    some (dst.set (y * w + x)
      (OPACO ||| (rojo.toUInt32 <<< 16) ||| (verde.toUInt32 <<< 8) ||| azul.toUInt32))
  else none

/-- `lib.rs:161–198`. -/
def bmp (b : Bytes) (m : Medidas) (dst : List UInt32) : Option Escrito :=
  match bmpCabecera b m with
  | .error e => some (.error e, dst)
  | .ok c =>
    let w := m.ancho.toNat
    let h := m.alto.toNat
    ((List.range h).foldlM (fun dst y ↦ (List.range w).foldlM (bmpPixel b c w h y) dst) dst).map
      fun dst ↦ (.ok (), dst)

/-! ### QOI -/

/-- A colour as the loop keeps it, `[u8; 4]`. -/
structure Px where
  r : UInt8
  g : UInt8
  b : UInt8
  a : UInt8
  deriving DecidableEq

/-- The variables of the loop; `lib.rs:212–215`. -/
structure Lector where
  tabla : List Px
  px : Px
  tanda : Nat
  i : Nat

/-- The place of a colour in the table; `lib.rs:253`. -/
def huella (px : Px) : Nat :=
  (px.r.toNat * 3 + px.g.toNat * 5 + px.b.toNat * 7 + px.a.toNat * 11) % 64

/-- `lib.rs:223–228`. -/
def largo (b1 : UInt8) : Nat :=
  if b1 = 0xFE then 4 else if b1 = 0xFF then 5 else if b1 >>> 6 = 2 then 2 else 1

/-- `lib.rs:232–251`. -/
def trozo (b : Bytes) (s : Lector) (b1 : UInt8) : Option Lector :=
  if b1 = 0xFE then do
    some { s with px := ⟨← b[s.i + 1]?, ← b[s.i + 2]?, ← b[s.i + 3]?, s.px.a⟩ }
  else if b1 = 0xFF then do
    some { s with px := ⟨← b[s.i + 1]?, ← b[s.i + 2]?, ← b[s.i + 3]?, ← b[s.i + 4]?⟩ }
  else if b1 >>> 6 = 0 then do
    some { s with px := ← s.tabla[(b1 &&& 63).toNat]? }
  else if b1 >>> 6 = 1 then
    some { s with px := ⟨s.px.r + ((b1 >>> 4) &&& 3) - 2, s.px.g + ((b1 >>> 2) &&& 3) - 2,
      s.px.b + (b1 &&& 3) - 2, s.px.a⟩ }
  else if b1 >>> 6 = 2 then do
    let dv := (b1 &&& 63) - 32
    let b2 ← b[s.i + 1]?
    some { s with px := ⟨s.px.r + dv + (b2 >>> 4) - 8, s.px.g + dv,
      s.px.b + dv + (b2 &&& 15) - 8, s.px.a⟩ }
  else some { s with tanda := (b1 &&& 63).toNat }

/-- A pixel; `lib.rs:217–255`. -/
def qoiPixel (b : Bytes) (fin : Nat) (s : Lector) : Option (Except Error Lector) :=
  if s.tanda > 0 then some (.ok { s with tanda := s.tanda - 1 })
  else
    match (b[s.i]?).filter fun _ ↦ s.i < fin with
    | none => some (.error .Corto)
    | some b1 =>
      if s.i + largo b1 > fin then some (.error .Corto)
      else
        (trozo b s b1).map fun s' ↦ .ok { s' with
          i := s.i + largo b1
          tabla := s'.tabla.set (huella s'.px) s'.px }

/-- `lib.rs:256`. -/
def Px.palabra (px : Px) : UInt32 :=
  bitDeAlfa px.a.toUInt32 ||| (px.r.toUInt32 <<< 16) ||| (px.g.toUInt32 <<< 8) ||| px.b.toUInt32

/-- `lib.rs:216–257`. -/
def qoiDesde (b : Bytes) (fin : Nat) : Lector → List UInt32 → Option Escrito
  | _, [] => some (.ok (), [])
  | s, out :: dst => do
    match ← qoiPixel b fin s with
    | .error e => some (.error e, out :: dst)
    | .ok s =>
      let (r, dst) ← qoiDesde b fin s dst
      some (r, s.px.palabra :: dst)

/-- `lib.rs:200–259`. -/
def qoi (b : Bytes) (dst : List UInt32) : Option Escrito :=
  if b.length < 14 + 8 then some (.error .Corto, dst)
  else do
    let b12 ← b[12]?
    if b12 ≠ 3 ∧ b12 ≠ 4 then some (.error .Variante, dst)
    else
      let b13 ← b[13]?
      if b13 > 1 then some (.error .Variante, dst)
      else
        qoiDesde b (b.length - 8) ⟨List.replicate 64 ⟨0, 0, 0, 0⟩, ⟨0, 0, 0, 255⟩, 0, 14⟩ dst

/-- The function of a format, on the pixels of the image; `lib.rs:138–142`. -/
def segunFormato (b : Bytes) (m : Medidas) (n : Nat) (dst : List UInt32) : Option Escrito :=
  match m.formato with
  | .Bico => some (bico b n dst)
  | .Bmp => bmp b m dst
  | .Qoi => qoi b dst

/-- `lib.rs:131–144`. -/
def decodificar (b : Bytes) (dst : List UInt32) : Option (Except Error Medidas × List UInt32) :=
  match medir b with
  | .error e => some (.error e, dst)
  | .ok m =>
    let n := (m.ancho * m.alto).toNat
    if dst.length < n then some (.error .NoCabe, dst)
    else
      (segunFormato b m n (dst.take n)).map fun (r, px) ↦ (r.map fun _ ↦ m, px ++ dst.drop n)

end BmoX.Imagen
