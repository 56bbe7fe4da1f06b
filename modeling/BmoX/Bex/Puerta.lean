import BmoX.Base.Bytes

/-!
# The gate of an image

`platform/abi/bmo-bex-gate/src/lib.rs`. Whether a `.bex` image is well formed, decided on its first
bytes and the size of its file: the kernel and the tools both ask here.
-/

namespace BmoX.Bex

open BmoX.Base

/-- `MAGIC`: `BEF1`; `lib.rs:51`. -/
def magic : UInt32 := u32De [0x42, 0x45, 0x46, 0x31]

/-- `CABECERA`, `ENTRADA`, `VERSION_MAYOR`; `lib.rs:53–57`. -/
def cabecera : Nat := 48

def entrada : Nat := 48

def versionMayor : UInt16 := 1

/-- `ABI_MAYOR`, `ABI_MENOR`; `lib.rs:76–78`. -/
def abiMayor : UInt8 := 2

def abiMenor : UInt8 := 0

/-- `admisible_con`; `lib.rs:131–138`. -/
def admisibleCon (mayor menor mayorMax menorMax : UInt8) : Bool :=
  mayor = mayorMax ∧ menor ≤ menorMax

/-- `abi_admisible`; `lib.rs:108–110`. -/
def abiAdmisible (mayor menor : UInt8) : Bool := admisibleCon mayor menor abiMayor abiMenor

/-- `ARCH_X86_64`, `ENDIAN_LE`, `MAX_SECCIONES`; `lib.rs:140–147`. -/
def archX8664 : UInt8 := 0x01

def endianLe : UInt8 := 0x00

def maxSecciones : Nat := 16

/-- The kinds of section; `lib.rs:151–157`. -/
def code : UInt8 := 0x01

def rodata : UInt8 := 0x02

def data : UInt8 := 0x03

def bss : UInt8 := 0x04

def relocs : UInt8 := 0x07

def signature : UInt8 := 0x0F

def requisitos : UInt8 := 0x15

/-- `se_carga`; `lib.rs:165–167`. -/
def seCarga (kind : UInt8) : Bool := kind = code ∨ kind = rodata ∨ kind = data ∨ kind = bss

/-- `PIDEN_ENLAZADO_DINAMICO`; `lib.rs:177`. -/
def pidenEnlazadoDinamico : List UInt8 := [0x05, 0x06, 0x0C]

/-- The flags of the header; `lib.rs:186–212`. -/
def flagEjecutable : UInt32 := (1 : UInt32) <<< 0

def flagObjeto : UInt32 := (1 : UInt32) <<< 11

def flagComprimido : UInt32 := (1 : UInt32) <<< 4

def flagFirmado : UInt32 := (1 : UInt32) <<< 5

def flagRecargable : UInt32 := (1 : UInt32) <<< 7

def flagTls : UInt32 := (1 : UInt32) <<< 6

def flagShaders : UInt32 := (1 : UInt32) <<< 3

def flagsNoImplementadas : UInt32 := flagComprimido ||| flagRecargable ||| flagTls ||| flagShaders

/-- `SECCION_FLAG_EXEC`; `lib.rs:214`. -/
def seccionFlagExec : UInt32 := (1 : UInt32) <<< 2

/-- `Falta`; `lib.rs:223–259`. -/
inductive Falta
  | noLlegaNiALaCabecera | cabeceraInvalida | otraArquitectura | otroOrdenDeBytes
  | extensionDeCpuQueNoSePreserva | otraVersionDelAbi | noEsEjecutable | esUnObjetoSinEnlazar
  | pideAlgoQueNadieImplementa | enlazadoDinamico | cabeceraQueSeDesmiente | demasiadasSecciones
  | tablaFueraDeLoLeido | tablaFueraDelFichero | seccionInvalida | seccionesSeSolapan
  | seccionFueraDelFichero | sinCodigo | laCodigoNoEsEjecutable | entryFueraDelCodigo
  | imagenIncompleta
  deriving DecidableEq, Repr

/-! ### Bounded readers -/

/-- `b.get(o..o + n)`. -/
def tramo (b : Bytes) (o n : Nat) : Option Bytes :=
  if o + n ≤ b.length then some (slice b o n) else none

/-- `u16_en`, `u32_en`, `u64_en`; `lib.rs:556–564`. -/
def u16En (b : Bytes) (o : Nat) : Option UInt16 := (tramo b o 2).map u16De

def u32En (b : Bytes) (o : Nat) : Option UInt32 := (tramo b o 4).map u32De

def u64En (b : Bytes) (o : Nat) : Option UInt64 := (tramo b o 8).map u64De

/-! ### Sections -/

/-- `Seccion`; `lib.rs:295–305`. -/
structure Seccion where
  indice : Nat
  kind : UInt8
  flags : UInt32
  fileOffset : UInt64
  fileSize : UInt64
  memSize : UInt64
  alignment : UInt16
  deriving DecidableEq, Repr

/-- `Revisada`: the first bytes of an image, and where its table is; `lib.rs:313–318`. -/
structure Revisada where
  prologo : Bytes
  tabla : Nat
  cuantas : Nat
  entryOffset : UInt64
  deriving DecidableEq, Repr

namespace Revisada

/-- `seccion`; `lib.rs:328–344`. -/
def seccion (r : Revisada) (i : Nat) : Option Seccion := do
  if r.cuantas ≤ i then none
  let e := r.tabla + i * entrada
  let kind ← r.prologo[e]?
  let flags ← u32En r.prologo (e + 4)
  let fileOffset ← u64En r.prologo (e + 8)
  let fileSize ← u64En r.prologo (e + 16)
  let memSize ← u64En r.prologo (e + 24)
  let alignment ← u16En r.prologo (e + 40)
  return ⟨i, kind, flags, fileOffset, fileSize, memSize, if alignment = 0 then 8 else alignment⟩

/-- `secciones`; `lib.rs:346–348`. -/
def secciones (r : Revisada) : List Seccion := (List.range r.cuantas).filterMap r.seccion

/-- `buscar`; `lib.rs:350–352`. -/
def buscar (r : Revisada) (kind : UInt8) : Option Seccion := r.secciones.find? (·.kind = kind)

end Revisada

/-! ### The gate -/

/-- What the loop over the sections has seen: whether there is code, its size, and whether there is
a signature. -/
structure Vistas where
  hayCodigo : Bool
  tamCodigo : UInt64
  hayFirma : Bool

/-- `u16::is_power_of_two`. -/
def esPotencia (a : UInt16) : Bool := a ≠ 0 ∧ a &&& (a - 1) = 0

/-- One section on its own; `lib.rs:470–503`. -/
def revisaSeccion (tamFichero : UInt64) (v : Vistas) (s : Seccion) : Except Falta Vistas :=
  if s.kind ∈ pidenEnlazadoDinamico then .error .enlazadoDinamico
  else if s.kind = 0 ∨ s.fileSize > s.memSize then .error .seccionInvalida
  else if s.kind ≠ bss ∧ s.fileSize = 0 then .error .seccionInvalida
  else if esPotencia s.alignment = false then .error .seccionInvalida
  else if s.kind ≠ bss ∧ 2 ^ 64 ≤ s.fileOffset.toNat + s.fileSize.toNat then .error .seccionInvalida
  else if s.kind ≠ bss ∧ tamFichero.toNat < s.fileOffset.toNat + s.fileSize.toNat then
    .error .seccionFueraDelFichero
  else if s.kind = code ∧ s.flags &&& seccionFlagExec = 0 then .error .laCodigoNoEsEjecutable
  else .ok {
    hayCodigo := v.hayCodigo || s.kind = code
    tamCodigo := if s.kind = code then s.memSize else v.tamCodigo
    hayFirma := v.hayFirma || s.kind = signature }

/-- Where the bytes of a section end in the file, saturating. -/
def Seccion.fin (s : Seccion) : Nat := min (s.fileOffset.toNat + s.fileSize.toNat) (2 ^ 64 - 1)

/-- A section that takes bytes of the file. -/
def Seccion.ocupa (s : Seccion) : Bool := ¬(s.kind = bss ∨ s.fileSize = 0)

/-- Two sections claim the same bytes; `lib.rs:519–534`. -/
def solapan (ss : List Seccion) : Bool :=
  ss.any fun a ↦ a.ocupa && (ss.drop (a.indice + 1)).any fun b ↦
    b.ocupa && decide (a.fileOffset.toNat < b.fin ∧ b.fileOffset.toNat < a.fin)

/-- An early return with a fault. -/
def rechaza (c : Prop) [Decidable c] (f : Falta) : Except Falta Unit :=
  if c then .error f else .ok ()

/-- `.ok_or(Falta::NoLlegaNiALaCabecera)?`. -/
def lee {α : Type} (x : Option α) : Except Falta α := x.elim (.error .noLlegaNiALaCabecera) .ok

/-- `revisar`; `lib.rs:384–547`. -/
def revisar (prologo : Bytes) (tamFichero : UInt64) : Except Falta Revisada := do
  rechaza (prologo.length < cabecera) .noLlegaNiALaCabecera
  let mag ← lee (u32En prologo 0)
  let version ← lee (u16En prologo 4)
  let flags ← lee (u32En prologo 8)
  let arch ← lee prologo[12]?
  let endian ← lee prologo[13]?
  let cpu ← lee (u16En prologo 14)
  let mayor ← lee prologo[16]?
  let menor ← lee prologo[17]?
  let entryOffset ← lee (u64En prologo 24)
  let tabla ← lee (u64En prologo 32)
  let cuantas ← lee (u32En prologo 40)
  let totalSize ← lee (u32En prologo 44)
  rechaza (mag ≠ magic ∨ version ≠ versionMayor ∨ cuantas = 0) .cabeceraInvalida
  rechaza (totalSize ≠ 0 ∧ tamFichero.toNat < totalSize.toNat) .imagenIncompleta
  rechaza (arch ≠ archX8664) .otraArquitectura
  rechaza (endian ≠ endianLe) .otroOrdenDeBytes
  rechaza (cpu ≠ 0) .extensionDeCpuQueNoSePreserva
  rechaza (abiAdmisible mayor menor = false) .otraVersionDelAbi
  rechaza (flags &&& flagObjeto ≠ 0) .esUnObjetoSinEnlazar
  rechaza (flags &&& flagEjecutable = 0) .noEsEjecutable
  rechaza (flags &&& flagsNoImplementadas ≠ 0) .pideAlgoQueNadieImplementa
  rechaza (maxSecciones < cuantas.toNat) .demasiadasSecciones
  let finTabla := tabla.toNat + cuantas.toNat * entrada
  rechaza (2 ^ 64 ≤ finTabla ∨ tamFichero.toNat < finTabla) .tablaFueraDelFichero
  rechaza (prologo.length < finTabla) .tablaFueraDeLoLeido
  let rev : Revisada := ⟨prologo, tabla.toNat, cuantas.toNat, entryOffset⟩
  let v ← rev.secciones.foldlM (revisaSeccion tamFichero) ⟨false, 0, false⟩
  rechaza (solapan rev.secciones) .seccionesSeSolapan
  rechaza (v.hayCodigo = false) .sinCodigo
  rechaza (v.tamCodigo ≤ entryOffset) .entryFueraDelCodigo
  rechaza (flags &&& flagFirmado ≠ 0 ∧ v.hayFirma = false) .cabeceraQueSeDesmiente
  return rev

/-- `reloc_cabe`; `lib.rs:677–689`. -/
def relocCabe (offset parche fichero mem : UInt64) : Bool :=
  let tope := if mem > fichero then mem else fichero
  offset.toNat + parche.toNat < 2 ^ 64 ∧ offset + parche ≤ tope

/-! ### What passes the gate -/

/-- A section that passes on its own. -/
structure Seccion.Bien (tamFichero : UInt64) (s : Seccion) : Prop where
  dinamico : s.kind ∉ pidenEnlazadoDinamico
  kind : s.kind ≠ 0
  memSize : s.fileSize ≤ s.memSize
  fileSize : s.kind ≠ bss → s.fileSize ≠ 0
  alignment : esPotencia s.alignment = true
  fin : s.kind ≠ bss → s.fileOffset.toNat + s.fileSize.toNat ≤ tamFichero.toNat
  exec : s.kind = code → s.flags &&& seccionFlagExec ≠ 0

/-- What the loop over the sections has seen after one that passes. -/
def Vistas.ve (v : Vistas) (s : Seccion) : Vistas where
  hayCodigo := v.hayCodigo || s.kind = code
  tamCodigo := if s.kind = code then s.memSize else v.tamCodigo
  hayFirma := v.hayFirma || s.kind = signature

private theorem revisaSeccion_eq_ok {tam : UInt64} {v v' : Vistas} {s : Seccion} :
    revisaSeccion tam v s = .ok v' ↔ s.Bien tam ∧ v' = v.ve s := by
  unfold revisaSeccion
  constructor
  · intro h
    split at h
    · cases h
    next h1 =>
    split at h
    · cases h
    next h2 =>
    split at h
    · cases h
    next h3 =>
    split at h
    · cases h
    next h4 =>
    split at h
    · cases h
    next h5 =>
    split at h
    · cases h
    next h6 =>
    split at h
    · cases h
    next h7 =>
    rw [not_or] at h2
    refine ⟨⟨h1, h2.1, UInt64.not_lt.mp h2.2, fun hk hs ↦ h3 ⟨hk, hs⟩,
      Bool.not_eq_false _ ▸ h4, fun hk ↦ Nat.not_lt.mp fun hl ↦ h6 ⟨hk, hl⟩,
      fun hk hf ↦ h7 ⟨hk, hf⟩⟩, (Except.ok.inj h).symm⟩
  · rintro ⟨h, rfl⟩
    have htam := tam.toNat_lt
    rw [if_neg h.dinamico, if_neg (not_or.mpr ⟨h.kind, UInt64.not_lt.mpr h.memSize⟩),
      if_neg fun hk ↦ h.fileSize hk.1 hk.2, if_neg (by rw [h.alignment]; exact Bool.noConfusion),
      if_neg fun hk ↦ absurd (h.fin hk.1) (by omega), if_neg fun hk ↦ absurd (h.fin hk.1) (by omega),
      if_neg fun hk ↦ h.exec hk.1 hk.2]
    rfl

private theorem foldlM_bind {α : Type} {tam : UInt64} {ss : List Seccion} {v : Vistas}
    {g : Vistas → Except Falta α} {a : α} :
    (ss.foldlM (revisaSeccion tam) v >>= g) = .ok a ↔
      (∀ s ∈ ss, s.Bien tam) ∧ g (ss.foldl .ve v) = .ok a := by
  induction ss generalizing v with
  | nil =>
    rw [List.foldlM_nil, List.foldl_nil]
    refine ⟨fun h ↦ ⟨fun s hs ↦ (by cases hs), h⟩, fun h ↦ h.2⟩
  | cons s ss ih =>
    rw [List.foldlM_cons, List.forall_mem_cons, List.foldl_cons]
    cases hs : revisaSeccion tam v s with
    | error f =>
      refine ⟨fun h ↦ (by cases h), fun h ↦ ?_⟩
      rw [revisaSeccion_eq_ok.mpr ⟨h.1.1, rfl⟩] at hs
      cases hs
    | ok w =>
      obtain ⟨hb, rfl⟩ := revisaSeccion_eq_ok.mp hs
      rw [and_iff_right hb]
      exact ih

theorem rechaza_bind {α : Type} {c : Prop} [Decidable c] {f : Falta} {g : Unit → Except Falta α}
    {a : α} : (rechaza c f >>= g) = .ok a ↔ ¬c ∧ g () = .ok a := by
  unfold rechaza
  split
  · next h => exact ⟨fun h' ↦ (by cases h'), fun h' ↦ absurd h h'.1⟩
  · next h => exact ⟨fun h' ↦ ⟨h, h'⟩, fun h' ↦ h'.2⟩

private theorem lee_bind {α β : Type} {x : Option α} {g : α → Except Falta β} {b : β} :
    (lee x >>= g) = .ok b ↔ ∃ a, x = some a ∧ g a = .ok b := by
  cases x with
  | none =>
    refine ⟨fun h ↦ (by cases h), fun h ↦ ?_⟩
    obtain ⟨a, h, -⟩ := h
    cases h
  | some a =>
    refine ⟨fun h ↦ ⟨a, rfl, h⟩, fun h ↦ ?_⟩
    obtain ⟨a', ha, h⟩ := h
    cases ha
    exact h

/-- The fields of a header. -/
structure Campos where
  mag : UInt32
  version : UInt16
  flags : UInt32
  arch : UInt8
  endian : UInt8
  cpu : UInt16
  mayor : UInt8
  menor : UInt8
  entryOffset : UInt64
  tabla : UInt64
  cuantas : UInt32
  totalSize : UInt32

/-- The fields that a header holds. -/
structure Campos.Estan (c : Campos) (p : Bytes) : Prop where
  cabe : cabecera ≤ p.length
  mag : u32En p 0 = some c.mag
  version : u16En p 4 = some c.version
  flags : u32En p 8 = some c.flags
  arch : p[12]? = some c.arch
  endian : p[13]? = some c.endian
  cpu : u16En p 14 = some c.cpu
  mayor : p[16]? = some c.mayor
  menor : p[17]? = some c.menor
  entryOffset : u64En p 24 = some c.entryOffset
  tabla : u64En p 32 = some c.tabla
  cuantas : u32En p 40 = some c.cuantas
  totalSize : u32En p 44 = some c.totalSize

/-- Where the table of sections ends. -/
def Campos.finTabla (c : Campos) : Nat := c.tabla.toNat + c.cuantas.toNat * entrada

/-- A header that passes, in a file of `tam` bytes of which `leidos` were read. -/
structure Campos.Pasan (c : Campos) (tam : UInt64) (leidos : Nat) : Prop where
  mag : c.mag = magic
  version : c.version = versionMayor
  cuantas : c.cuantas ≠ 0
  totalSize : c.totalSize ≠ 0 → c.totalSize.toNat ≤ tam.toNat
  arch : c.arch = archX8664
  endian : c.endian = endianLe
  cpu : c.cpu = 0
  abi : abiAdmisible c.mayor c.menor = true
  objeto : c.flags &&& flagObjeto = 0
  ejecutable : c.flags &&& flagEjecutable ≠ 0
  noImplementadas : c.flags &&& flagsNoImplementadas = 0
  secciones : c.cuantas.toNat ≤ maxSecciones
  fichero : c.finTabla ≤ tam.toNat
  leidos : c.finTabla ≤ leidos

/-- What the gate makes of a header. -/
def Campos.revisada (c : Campos) (p : Bytes) : Revisada :=
  ⟨p, c.tabla.toNat, c.cuantas.toNat, c.entryOffset⟩

/-- What the loop over a list of sections has seen at its end. -/
def vistas (ss : List Seccion) : Vistas := ss.foldl .ve ⟨false, 0, false⟩

/-- Sections that pass together, with the flags and the entry point of their header. -/
structure Pasan (tam : UInt64) (flags : UInt32) (entryOffset : UInt64) (ss : List Seccion) :
    Prop where
  bien : ∀ s ∈ ss, s.Bien tam
  solapan : solapan ss = false
  codigo : (vistas ss).hayCodigo = true
  entry : entryOffset < (vistas ss).tamCodigo
  firmado : flags &&& flagFirmado ≠ 0 → (vistas ss).hayFirma = true

/-- What the gate accepts. -/
theorem revisar_eq_ok {p : Bytes} {tam : UInt64} {rev : Revisada} :
    revisar p tam = .ok rev ↔ ∃ c : Campos, c.Estan p ∧ c.Pasan tam p.length ∧
      rev = c.revisada p ∧ Pasan tam c.flags c.entryOffset rev.secciones := by
  unfold revisar
  simp only [rechaza_bind, lee_bind, foldlM_bind, pure, Except.pure, Except.ok.injEq, not_or,
    not_and, not_not, Nat.not_lt, Nat.not_le, UInt64.not_le, Bool.not_eq_true, Bool.not_eq_false]
  constructor
  · rintro ⟨h1, mag, e1, version, e2, flags, e3, arch, e4, endian, e5, cpu, e6, mayor, e7, menor, e8,
      entryOffset, e9, tabla, e10, cuantas, e11, totalSize, e12, ⟨rfl, rfl, h2⟩, h3, rfl, rfl, rfl,
      h4, h5, h6, h7, h8, ⟨-, h9⟩, h10, h11, h12, h13, h14, h15, rfl⟩
    exact ⟨⟨magic, versionMayor, flags, archX8664, endianLe, 0, mayor, menor, entryOffset, tabla,
      cuantas, totalSize⟩, ⟨h1, e1, e2, e3, e4, e5, e6, e7, e8, e9, e10, e11, e12⟩,
      ⟨rfl, rfl, h2, h3, rfl, rfl, rfl, h4, h5, h6, h7, h8, h9, h10⟩, rfl,
      ⟨h11, h12, h13, h14, h15⟩⟩
  · rintro ⟨c, hc, hp, rfl, hs⟩
    have htam := tam.toNat_lt
    have hfin := hp.fichero
    unfold Campos.finTabla at hfin
    exact ⟨hc.cabe, _, hc.mag, _, hc.version, _, hc.flags, _, hc.arch, _, hc.endian, _, hc.cpu, _,
      hc.mayor, _, hc.menor, _, hc.entryOffset, _, hc.tabla, _, hc.cuantas, _, hc.totalSize,
      ⟨hp.mag, hp.version, hp.cuantas⟩, hp.totalSize, hp.arch, hp.endian, hp.cpu, hp.abi, hp.objeto,
      hp.ejecutable, hp.noImplementadas, hp.secciones, ⟨by omega, hfin⟩, hp.leidos, hs.bien,
      hs.solapan, hs.codigo, hs.entry, hs.firmado, rfl⟩

end BmoX.Bex
