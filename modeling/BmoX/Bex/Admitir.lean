import BmoX.Bex.Puerta
import BmoX.Hash.Blake3
import BmoX.Mm.Vmm

/-!
# Admitting an image

`admit_payload_desde`, `kernel/src/ring0/task/admitir.rs:166–992`: from the bytes of an image to a
process. First every section gets its place, then the pages are filled, patched and mapped one by
one, each with what comes from the file for it.

`kernel/src/ring0/task/landing.rs`. The digests that an image declares, one for each section of its
file, and the check of a section against its own while it lands.

`kernel/src/ring0/task/bex.rs`. What the loader needs to know of an image that passed the gate:
which sections are mapped, and where the relocations, the signature and the requirements are.
-/

namespace BmoX.Bex

open BmoX.Base

/-! ### The plan of a load -/

/-- `BexMapping`; `task/bex.rs:33–50`. -/
structure BexMapping where
  kind : UInt8
  flags : UInt32
  fileOffset : UInt64
  fileSize : UInt64
  memSize : UInt64
  alignment : UInt16
  indice : Nat
  deriving DecidableEq, Repr

/-- `usize::MAX`. -/
def usizeMax : Nat := 2 ^ 64 - 1

/-- `BexLoadPlan`; `sections` has `section_count` entries; `task/bex.rs:63–121`. -/
structure BexLoadPlan where
  entryOffset : UInt64
  sections : List BexMapping := []
  skippedSections : Nat := 0
  relocsFileOffset : UInt64 := 0
  relocsFileSize : UInt64 := 0
  relocsIndice : Nat := usizeMax
  requisitosFileOffset : UInt64 := 0
  requisitosFileSize : UInt64 := 0
  firmaFileOffset : UInt64 := 0
  firmaFileSize : UInt64 := 0
  firmaIndice : Nat := usizeMax
  deriving DecidableEq, Repr

/-- The mapping of a section. -/
def Seccion.mapa (s : Seccion) : BexMapping :=
  ⟨s.kind, s.flags, s.fileOffset, s.fileSize, s.memSize, s.alignment, s.indice⟩

/-- One section of the table; `task/bex.rs:270–330`. -/
def BexLoadPlan.apunta (plan : BexLoadPlan) (s : Seccion) : BexLoadPlan :=
  if s.kind = relocs then
    { plan with
      relocsFileOffset := s.fileOffset
      relocsFileSize := s.fileSize
      relocsIndice := s.indice }
  else if s.kind = signature then
    { plan with
      firmaFileOffset := s.fileOffset
      firmaFileSize := s.fileSize
      firmaIndice := s.indice }
  else if s.kind = requisitos then
    { plan with
      requisitosFileOffset := s.fileOffset
      requisitosFileSize := s.fileSize
      skippedSections := plan.skippedSections + 1 }
  else if seCarga s.kind = false then { plan with skippedSections := plan.skippedSections + 1 }
  else { plan with sections := plan.sections ++ [s.mapa] }

/-- `inspect`; `task/bex.rs:231–336`. -/
def inspect (bytes : Bytes) (tamFichero : UInt64) : Except Falta BexLoadPlan := do
  let rev ← revisar bytes tamFichero
  return rev.secciones.foldl .apunta { entryOffset := rev.entryOffset }

/-! ### Relocations -/

/-- `RELOC_SIZE`, and the kind that the loader applies. -/
def relocSize : Nat := 24

def relocSeccionAbs64 : UInt8 := 0x04

/-- `BexReloc`; `task/bex.rs:374–391`. The addend is kept as the word that it is stored as. -/
structure BexReloc where
  dondeSec : UInt8
  dondeOff : UInt64
  destinoSec : UInt8
  destinoOff : UInt64
  kind : UInt8
  deriving DecidableEq, Repr

/-- `leer_reloc`; `task/bex.rs:394–408`. -/
def leerReloc (bytes : Bytes) (tablaOff tablaSize : UInt64) (n : Nat) : Option BexReloc := do
  let dentro := n * relocSize
  if tablaSize.toNat < dentro + relocSize then none
  let base := tablaOff.toNat + dentro
  return {
    dondeOff := ← u64En bytes base
    destinoSec := (← u32En bytes (base + 8)).toUInt8
    kind := ← bytes[base + 12]?
    dondeSec := ← bytes[base + 13]?
    destinoOff := ← u64En bytes (base + 16) }

/-- `cuantas_relocs`; `task/bex.rs:411–413`. -/
def cuantasRelocs (tablaSize : UInt64) : Nat := tablaSize.toNat / relocSize

open BmoX.Blake3

/-! ### The hashes of the sections -/

/-- `Cierre`; `landing.rs:83–90`. -/
inductive Cierre
  | cuadra | sinFirma
  deriving DecidableEq, Repr

/-- `Aterrizaje`; `landing.rs:98–103`. -/
structure Aterrizaje where
  hasher : Hasher
  esperado : Option Hash
  vistos : UInt64

namespace Aterrizaje

/-- `abrir`; `landing.rs:108–110`. -/
def abrir (esperado : Option Hash) : Aterrizaje := ⟨.new, esperado, 0⟩

/-- `trozo`; `landing.rs:116–122`. -/
def trozo (a : Aterrizaje) (d : Bytes) : Option Aterrizaje :=
  if d = [] then some a
  else (a.hasher.update d).map fun hasher ↦
    { a with hasher, vistos := a.vistos + UInt64.ofNat d.length }

/-- `cerrar`; `none` is `HashNoCuadra`; `landing.rs:137–160`. -/
def cerrar (a : Aterrizaje) : Option Cierre :=
  match a.esperado with
  | none => some .sinFirma
  | some esperado => if a.hasher.finalize ≠ esperado then none else some .cuadra

end Aterrizaje

/-- `Firmas`: the bytes of the signature section, how many digests it declares, and its own place
in the table; `landing.rs:173–181`. -/
structure Firmas where
  firma : Bytes
  cuantos : Nat
  propio : Nat

namespace Firmas

/-- `CAB`, `ENTRADA`; `landing.rs:185–187`. -/
def cab : Nat := 8

def entrada : Nat := 40

/-- `abrir`; `landing.rs:196–206`. -/
def abrir (firma : Bytes) (indicePropio : Nat) : Option Firmas := do
  if firma.length < cab then none
  let cuantos := (← u32En firma 0).toNat
  let necesita := cab + cuantos * entrada
  if firma.length < necesita then none
  return ⟨firma, cuantos, indicePropio⟩

/-- The digest that the `k`-th entry declares. -/
def digestEn (f : Firmas) (k : Nat) : Option Hash :=
  (tramo f.firma (cab + k * entrada + 8) 32).map (Arr.pad 32)

/-- The loop of `digest_de`, over the entries left. -/
def digestDesde (f : Firmas) (idx : Nat) : List Nat → Option Hash
  | [] => none
  | k :: ks =>
    match u16En f.firma (cab + k * entrada) with
    | none => none
    | some quien => if quien.toNat ≠ idx then digestDesde f idx ks else f.digestEn k

/-- `digest_de`; `landing.rs:209–224`. -/
def digestDe (f : Firmas) (idx : Nat) : Option Hash :=
  if idx = f.propio then none else f.digestDesde idx (List.range f.cuantos)

/-- `cadena`; `landing.rs:245–252`. -/
def cadena (f : Firmas) : Option Hash := do
  let h ← (List.range f.cuantos).foldlM (fun h k ↦ do h.update (← f.digestEn k).1) Hasher.new
  return h.finalize

end Firmas

open BmoX.Blake3 BmoX.Mm

/-! ### Admitting an image -/

/-- `USER_IMAGE_BASE` to `MEMORIA_VA_BASE`; `vmm/verde.rs:40–69`. -/
def userImageBase : UInt64 := 0x40000000

def userStackTop : UInt64 := 0x80000000

def userStackSize : UInt64 := 0x10000

def userStackBottom : UInt64 := userStackTop - userStackSize

def channelVaBase : UInt64 := 0xC0000000

def memoriaVaBase : UInt64 := 0xE0000000

/-- `USER_STACK_PAGES`, `KERNEL_STACK_PAGES`, `MAX_CHANNEL_PAGES`, `MAX_FIRMA`,
`REQUISITOS_MAX`. -/
def userStackPages : Nat := 16

def kernelStackPages : UInt64 := 4

def maxChannelPages : Nat := 16

def maxFirma : Nat := 8 + 16 * 40

def requisitosMax : Nat := 2048

/-- Where the bytes of an image come from; `admitir.rs:85–90`. A request, apart from the stream of
sections or in it, may bring fewer bytes than asked for. -/
structure Origen where
  fichero : Bytes
  llegan : Bool → Nat → Nat → Nat

namespace Origen

/-- The image is in memory: everything comes. -/
def enMemoria (bytes : Bytes) : Origen := ⟨bytes, fun _ _ n ↦ n⟩

/-- `traer`; `admitir.rs:94–107`. -/
def traer (o : Origen) (offset n : Nat) : Bytes :=
  slice o.fichero offset (min n (o.llegan false offset n))

/-- `traer_suelto`; `admitir.rs:118–124`. -/
def traerSuelto (o : Origen) (offset n : Nat) : Bytes :=
  slice o.fichero offset (min n (o.llegan true offset n))

end Origen

/-- What the loader asks of the rest: `examinar(..).permite_ejecutar(..)` on the bytes of a signature
and its chain, the judge of the requirements on their bytes and the free memory,
`channel::page_phys`, and whether `spawn_user` has room for the task. -/
structure Entorno where
  origen : Origen
  autoria : Bytes → Hash → Bool
  juicio : Bytes → UInt64 → Bool
  pagePhys : Nat → UInt64
  spawnUser : Option UInt32

/-- The machine: its tables and its allocator, and the bytes of the frames that hold data. -/
structure Maquina where
  vmm : Vmm
  datos : UInt64 → Nat → UInt8

/-- What was asked for, or nothing: the admission is over when something cannot be had. -/
def logrado {α σ : Type} : Option α × σ → Option (α × σ)
  | (some a, s) => some (a, s)
  | (none, _) => none

/-- The state after what could be done, or nothing. -/
def hecho {σ : Type} : Except Unit Unit × σ → Option σ
  | (.ok (), s) => some s
  | (.error (), _) => none

/-! ### The first pass -/

/-- The pages of a section. -/
def BexMapping.paginas (s : BexMapping) : UInt64 := (s.memSize + page - 1) / page

/-- Where each section goes, from the cursor on; `admitir.rs:254–265`. -/
def colocar : UInt64 → List BexMapping → List UInt64
  | _, [] => []
  | cursor, s :: ss =>
    let align := s.alignment.toUInt64
    let va := (cursor + align - 1) &&& ~~~(align - 1)
    va :: colocar (va + s.paginas * page) ss

namespace BexLoadPlan

variable (plan : BexLoadPlan)

/-- `va_de[i]`. -/
def vaDe (i : Nat) : UInt64 := (colocar userImageBase plan.sections).getD i 0

/-- `seccion_por_codigo_reloc`; `admitir.rs:274–288`. -/
def seccionPorCodigoReloc (cod : UInt8) : Option Nat :=
  if cod = 0 then plan.sections.findIdx? (·.kind = code)
  else if cod = 1 then plan.sections.findIdx? (·.kind = data)
  else if cod = 2 then plan.sections.findIdx? (·.kind = rodata)
  else none

/-- The loop that moves an entry back over those that are later in the file: the entries before it,
from the last one. -/
def baja (i : Nat) : List Nat → List Nat
  | [] => [i]
  | j :: antes =>
    if (plan.sections[j]?.elim 0 (·.fileOffset)) > (plan.sections[i]?.elim 0 (·.fileOffset)) then
      j :: baja i antes
    else i :: j :: antes

/-- `orden`: the sections by their place in the file; `admitir.rs:586–601`. -/
def orden : List Nat :=
  ((List.range plan.sections.length).foldl (fun antes i ↦ plan.baja i antes) []).reverse

/-! ### Relocations -/

/-- A relocation of the table, checked: the address it patches and the value it writes there; the
part of `admitir.rs:691–760` that does not look at the page. -/
def resuelve (relocs : Bytes) (r : Nat) : Option (UInt64 × UInt64) := do
  let rel ← leerReloc relocs 0 plan.relocsFileSize r
  guard (rel.kind = relocSeccionAbs64)
  let iDonde ← plan.seccionPorCodigoReloc rel.dondeSec
  let iDestino ← plan.seccionPorCodigoReloc rel.destinoSec
  let secDonde ← plan.sections[iDonde]?
  guard (relocCabe rel.dondeOff 8 secDonde.fileSize secDonde.memSize)
  return (plan.vaDe iDonde + rel.dondeOff, plan.vaDe iDestino + rel.destinoOff)

end BexLoadPlan

/-- Write bytes in a page. -/
def escribe (b : Nat → UInt8) (o : Nat) (d : Bytes) : Nat → UInt8 :=
  fun k ↦ if o ≤ k ∧ k < o + d.length then d.getD (k - o) 0 else b k

/-- A page being filled: its bytes, what is left of a relocation that goes on in the next page, and
how many were applied. -/
structure Hoja where
  bytes : Nat → UInt8
  cola : Option (UInt64 × Nat)
  aplicadas : Nat

/-- Patch a page with a relocation, if it starts there; `admitir.rs:758–827`. -/
def Hoja.parchea (paginaVa : UInt64) (h : Hoja) (donde valor : UInt64) : Hoja :=
  if donde < paginaVa ∨ donde ≥ paginaVa + page then h
  else
    let dentro := (donde - paginaVa).toNat
    let caben := page.toNat - dentro
    { bytes := escribe h.bytes dentro ((u64Le valor).take (min caben 8))
      cola := if caben < 8 then some (valor, caben) else h.cola
      aplicadas := h.aplicadas + 1 }

/-- What a relocation left for this page; `admitir.rs:680–690`. -/
def Hoja.recoge (h : Hoja) : Hoja :=
  match h.cola with
  | none => h
  | some (valor, ya) => { h with bytes := escribe h.bytes 0 ((u64Le valor).drop ya), cola := none }

/-- All the relocations of the table, on one page. -/
def Hoja.parcheaTodas (plan : BexLoadPlan) (relocs : Bytes) (paginaVa : UInt64) (h : Hoja) :
    Option Hoja :=
  (List.range (cuantasRelocs plan.relocsFileSize)).foldlM (fun h r ↦ do
    let p ← plan.resuelve relocs r
    return h.parchea paginaVa p.1 p.2) h

/-! ### The second pass -/

/-- What the second pass has done; `entry_va` to `code_len`, `sin_firma` and `aplicadas`. -/
structure Obra where
  maquina : Maquina
  aplicadas : Nat := 0
  sinFirma : Nat := 0
  entryVa : UInt64 := 0
  codeVa : UInt64 := 0
  codeLen : UInt64 := 0
  codeBytes : UInt32 := 0

/-- What goes from one page of a section to the next. -/
structure Curso where
  maquina : Maquina
  cierre : Aterrizaje
  cola : Option (UInt64 × Nat)
  aplicadas : Nat

/-- The access of the pages of a section; `admitir.rs:612–616`. -/
def BexMapping.permiso (s : BexMapping) : Vmm.PermisoImagen :=
  if s.kind = code then .codigo else if s.kind = rodata then .constantes else .datos

/-- What comes from the file for a page: the bytes of the section from `chunk` on;
`admitir.rs:640–678`. -/
def traeTrozo (env : Entorno) (s : BexMapping) (chunk : UInt64) (cierre : Aterrizaje) :
    Option (Bytes × Aterrizaje) :=
  if chunk < s.fileSize then do
    let n := min (s.fileSize - chunk).toNat page.toNat
    let leidos := env.origen.traer (s.fileOffset + chunk).toNat n
    guard (leidos.length = n)
    let cierre ← cierre.trozo leidos
    return (leidos, cierre)
  else some ([], cierre)

/-- One page of a section; `admitir.rs:630–845`. -/
def aterrizaPagina (env : Entorno) (plan : BexLoadPlan) (relocs : Bytes) (aspace : UInt64)
    (s : BexMapping) (vaStart : UInt64) (c : Curso) (p : Nat) : Option Curso := do
  let (frame, fisica) ← logrado c.maquina.vmm.fisica.allocFrame
  let vmm := { c.maquina.vmm with fisica := fisica }.zeroFrame frame
  let chunk := UInt64.ofNat p * page
  let (leidos, cierre) ← traeTrozo env s chunk c.cierre
  let hoja : Hoja := ⟨escribe (fun _ ↦ 0) 0 leidos, c.cola, c.aplicadas⟩
  let hoja ← hoja.recoge.parcheaTodas plan relocs (vaStart + chunk)
  let vmm ← hecho (vmm.mapPageImagen aspace (vaStart + chunk) frame s.permiso)
  return ⟨⟨vmm, Function.update c.maquina.datos frame hoja.bytes⟩, cierre, hoja.cola,
    hoja.aplicadas⟩

/-- What is kept of a section that landed; `admitir.rs:865–885`. -/
def Obra.anota (o : Obra) (plan : BexLoadPlan) (s : BexMapping) (vaStart : UInt64) (c : Curso)
    (cerrado : Cierre) : Obra where
  maquina := c.maquina
  aplicadas := c.aplicadas
  sinFirma := o.sinFirma + if cerrado = .sinFirma then 1 else 0
  entryVa := if s.kind = code then vaStart + plan.entryOffset else o.entryVa
  codeVa := if s.kind = code then vaStart else o.codeVa
  codeLen := if s.kind = code then s.memSize else o.codeLen
  codeBytes := UInt32.ofNat (min (o.codeBytes.toNat + s.memSize.toUInt32.toNat) (2 ^ 32 - 1))

/-- One section; `admitir.rs:603–886`. -/
def aterrizaSeccion (env : Entorno) (plan : BexLoadPlan) (firmas : Option Firmas) (relocs : Bytes)
    (aspace : UInt64) (o : Obra) (i : Nat) : Option Obra := do
  let s ← plan.sections[i]?
  let cierre := Aterrizaje.abrir (firmas.bind (·.digestDe s.indice))
  let c ← (List.range s.paginas.toNat).foldlM
    (aterrizaPagina env plan relocs aspace s (plan.vaDe i)) ⟨o.maquina, cierre, none, o.aplicadas⟩
  guard (c.cola = none)
  let cerrado ← c.cierre.cerrar
  return o.anota plan s (plan.vaDe i) c cerrado

/-! ### The whole admission -/

/-- The signature of the image, if it has one that can be opened and lets it run;
`admitir.rs:302–380`. -/
def abreFirmas (env : Entorno) (plan : BexLoadPlan) : Option (Option Firmas) := do
  let n := plan.firmaFileSize.toNat
  if 0 < n ∧ n ≤ maxFirma then
    let buf := env.origen.traerSuelto plan.firmaFileOffset.toNat n
    guard (buf.length = n)
    match Firmas.abrir buf plan.firmaIndice with
    | none => return none
    | some f =>
      let cadena ← f.cadena
      guard (env.autoria buf cadena)
      return some f
  else return none

/-- The requirements of the image are met; `admitir.rs:403–484`. -/
def cumpleRequisitos (env : Entorno) (plan : BexLoadPlan) (fisica : Fisica) : Bool :=
  plan.requisitosFileSize = 0 ∨
    let n := min plan.requisitosFileSize.toNat requisitosMax
    let libre := min (fisica.freeFrames.toNat * page.toNat) (2 ^ 64 - 1)
    env.juicio (env.origen.traerSuelto plan.requisitosFileOffset.toNat n) (UInt64.ofNat libre)

/-- The table of relocations, in frames of its own, with the frames and how many;
`admitir.rs:520–568`. -/
def traeRelocs (env : Entorno) (plan : BexLoadPlan) (firmas : Option Firmas) (fisica : Fisica) :
    Option (Bytes × Option (UInt64 × Nat) × Nat × Fisica) :=
  if cuantasRelocs plan.relocsFileSize = 0 then some ([], none, 0, fisica)
  else do
    let n := plan.relocsFileSize.toNat
    let paginas := (UInt64.ofNat n + page - 1) / page
    let (base, fisica) ← logrado (fisica.allocFramesContig paginas)
    let relocs := env.origen.traerSuelto plan.relocsFileOffset.toNat n
    guard (relocs.length = n)
    let cierre ← (Aterrizaje.abrir (firmas.bind (·.digestDe plan.relocsIndice))).trozo relocs
    let cerrado ← cierre.cerrar
    return (relocs, some (base, paginas.toNat), if cerrado = .sinFirma then 1 else 0, fisica)

/-- The frames of the table of relocations go back; `admitir.rs:899–903`. -/
def sueltaRelocs (fisica : Fisica) : Option (UInt64 × Nat) → Fisica
  | none => fisica
  | some (base, paginas) =>
    (List.range paginas).foldl (fun s p ↦ s.freeFrame (base + UInt64.ofNat p * page)) fisica

/-- A page of the user's stack; `admitir.rs:922–936`. -/
def ponPila (aspace : UInt64) (m : Maquina) (p : Nat) : Option Maquina := do
  let (frame, fisica) ← logrado m.vmm.fisica.allocFrame
  let vmm := { m.vmm with fisica := fisica }.zeroFrame frame
  let va := userStackTop - (UInt64.ofNat p + 1) * page
  let vmm ← hecho (vmm.mapPagePropia aspace va frame true true)
  return ⟨vmm, Function.update m.datos frame fun _ ↦ 0⟩

/-- A page of the channel; `admitir.rs:938–946`. -/
def ponCanal (env : Entorno) (aspace : UInt64) (m : Maquina) (i : Nat) : Option Maquina := do
  let va := channelVaBase + UInt64.ofNat i * page
  let vmm ← hecho (m.vmm.mapPage aspace va (env.pagePhys i) true true)
  return ⟨vmm, m.datos⟩

/-- The kernel's stack of the task; `alloc_frames_contig_de`, `phys/roja.rs:535–542`. -/
def ponPilaDeKernel (m : Maquina) : Option (UInt64 × Maquina) := do
  let (base, fisica) ← logrado (m.vmm.fisica.allocFramesContig kernelStackPages)
  let titulares := (List.range kernelStackPages.toNat).foldl
    (fun t p ↦ t.marcar (base + UInt64.ofNat p * page) .pila) fisica.titulares
  return (base, ⟨{ m.vmm with fisica := { fisica with titulares } }, m.datos⟩)

/-- The second pass: every section, and then the frames of the relocations go back;
`admitir.rs:486–917`. -/
def segundoPase (env : Entorno) (plan : BexLoadPlan) (aspace : UInt64) (firmas : Option Firmas)
    (m : Maquina) : Option (Obra × Maquina) := do
  let (relocs, marcos, sinFirma, fisica) ← traeRelocs env plan firmas m.vmm.fisica
  let o ← plan.orden.foldlM (aterrizaSeccion env plan firmas relocs aspace)
    { maquina := ⟨{ m.vmm with fisica }, m.datos⟩, sinFirma }
  guard (o.aplicadas = cuantasRelocs plan.relocsFileSize)
  guard (o.entryVa ≠ 0)
  return (o, ⟨{ o.maquina.vmm with fisica := sueltaRelocs o.maquina.vmm.fisica marcos },
    o.maquina.datos⟩)

/-- A process that was admitted, with what its record keeps. -/
structure Admitido where
  tid : UInt32
  plan : BexLoadPlan
  aspace : UInt64
  kstackBase : UInt64
  obra : Obra
  maquina : Maquina

/-- `admit_payload_desde`; `admitir.rs:166–992`. -/
def admitPayloadDesde (env : Entorno) (m : Maquina) (prologo : Bytes) (tamFichero : UInt64) :
    Option Admitido := do
  let plan ← (inspect prologo tamFichero).toOption
  let (aspace, vmm) ← logrado m.vmm.newAddressSpace
  let firmas ← abreFirmas env plan
  guard (cumpleRequisitos env plan vmm.fisica)
  let (obra, m) ← segundoPase env plan aspace firmas ⟨vmm, m.datos⟩
  let m ← (List.range userStackPages).foldlM (ponPila aspace) m
  let m ← (List.range maxChannelPages).foldlM (ponCanal env aspace) m
  let (kstackBase, maquina) ← ponPilaDeKernel m
  let tid ← env.spawnUser
  return { tid, plan, aspace, kstackBase, obra, maquina }

end BmoX.Bex
