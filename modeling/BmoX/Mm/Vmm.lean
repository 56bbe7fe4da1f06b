import BmoX.Mm.Fisica

/-!
# Address spaces

`kernel/src/ring0/mm/vmm/`. Four levels of tables of 512 entries, in frames of the physical
allocator. Every space shares the entries of the kernel half and the first gigabyte with the kernel,
by pointer; the tables of its own gigabytes are made when they are first needed.
-/

namespace BmoX.Mm

/-- Entries of a table. -/
abbrev casillas : Nat := 512

instance : NeZero casillas := ⟨by decide⟩

/-! ### Entries -/

/-- `PTE_PRESENT` to `PTE_HUGE`, and `ADDR_MASK`; `vmm/verde.rs:33–38`. -/
def ptePresent : UInt64 := (1 : UInt64) <<< 0

def pteWritable : UInt64 := (1 : UInt64) <<< 1

def pteUser : UInt64 := (1 : UInt64) <<< 2

def pteHuge : UInt64 := (1 : UInt64) <<< 7

def addrMask : UInt64 := 0x000FFFFFFFFFF000

/-- `PTE_NUESTRA`, `PTE_PAT_4K` and `PTE_NX`; `vmm/amarilla.rs:61–119`. -/
def pteNuestra : UInt64 := (1 : UInt64) <<< 9

def ptePat4k : UInt64 := (1 : UInt64) <<< 7

def pteNx : UInt64 := (1 : UInt64) <<< 63

/-- The indices of an address at each level, from the top one. -/
def i4 (va : UInt64) : Fin casillas := Fin.ofNat casillas ((va >>> 39) &&& 0x1FF).toNat

def i3 (va : UInt64) : Fin casillas := Fin.ofNat casillas ((va >>> 30) &&& 0x1FF).toNat

def i2 (va : UInt64) : Fin casillas := Fin.ofNat casillas ((va >>> 21) &&& 0x1FF).toNat

def i1 (va : UInt64) : Fin casillas := Fin.ofNat casillas ((va >>> 12) &&& 0x1FF).toNat

/-! ### The memory of the tables -/

/-- What the module reads and writes: the frames seen as tables, the allocator, `KERNEL_PML4`, and
whether the processor has `EFER.NXE` on. -/
structure Vmm where
  mem : UInt64 → Fin casillas → UInt64
  fisica : Fisica
  kernelPml4 : UInt64
  nx : Bool

/-- `caminable`: not zero, and in the physmap; `vmm/amarilla.rs:455–507`. -/
def caminable (fisica : UInt64) : Bool := fisica ≠ 0 ∧ fisica < physmapSize

namespace Vmm

/-- Write an entry of a table. -/
def pon (s : Vmm) (t : UInt64) (i : Fin casillas) (e : UInt64) : Vmm :=
  { s with mem := Function.update s.mem t (Function.update (s.mem t) i e) }

/-- `zero_frame`; `phys/amarilla.rs:62–76`. -/
def zeroFrame (s : Vmm) (phys : UInt64) : Vmm :=
  if phys % page ≠ 0 ∨ caminable phys = false then s
  else { s with mem := Function.update s.mem phys fun _ ↦ 0 }

/-! ### Reading -/

/-- `translate`; `vmm/verde.rs:73–106`. -/
def translate (s : Vmm) (pml4 va : UInt64) : Option UInt64 :=
  let e := s.mem pml4 (i4 va)
  if e &&& ptePresent = 0 then none
  else
    let e := s.mem (e &&& addrMask) (i3 va)
    if e &&& ptePresent = 0 then none
    else if e &&& pteHuge ≠ 0 then some ((e &&& 0x000FFFFFC0000000) + (va &&& 0x3FFFFFFF))
    else
      let e := s.mem (e &&& addrMask) (i2 va)
      if e &&& ptePresent = 0 then none
      else if e &&& pteHuge ≠ 0 then some ((e &&& 0x000FFFFFFFE00000) + (va &&& 0x1FFFFF))
      else
        let e := s.mem (e &&& addrMask) (i1 va)
        if e &&& ptePresent = 0 then none else some (e &&& addrMask)

/-- `fisica_exacta`; `vmm/verde.rs:135–169`. -/
def fisicaExacta (s : Vmm) (pml4 va : UInt64) : Option UInt64 :=
  let e := s.mem pml4 (i4 va)
  if e &&& ptePresent = 0 then none
  else
    let e := s.mem (e &&& addrMask) (i3 va)
    if e &&& ptePresent = 0 then none
    else if e &&& pteHuge ≠ 0 then some ((e &&& 0x000FFFFFC0000000) + (va &&& 0x3FFFFFFF))
    else
      let e := s.mem (e &&& addrMask) (i2 va)
      if e &&& ptePresent = 0 then none
      else if e &&& pteHuge ≠ 0 then some ((e &&& 0x000FFFFFFFE00000) + (va &&& 0x1FFFFF))
      else
        let e := s.mem (e &&& addrMask) (i1 va)
        if e &&& ptePresent = 0 then none else some ((e &&& addrMask) + (va &&& (page - 1)))

/-! ### Making a space -/

/-- `new_address_space`; `vmm/roja.rs:115–147`. -/
def newAddressSpace (s : Vmm) : Option UInt64 × Vmm :=
  match s.fisica.allocFrameDe .tabla with
  | (none, fisica) => (none, { s with fisica := fisica })
  | (some pml4, fisica) =>
    match fisica.allocFrameDe .tabla with
    | (none, fisica) => (none, { s with fisica := (fisica.freeFrameDe pml4 .tabla).2 })
    | (some pdpt, fisica) =>
      let s := ({ s with fisica := fisica }.zeroFrame pml4).zeroFrame pdpt
      let kernel := s.mem s.kernelPml4
      let s := { s with mem := Function.update s.mem pml4 fun i ↦
        if 256 ≤ (i : Nat) then kernel i else s.mem pml4 i }
      let s := s.pon pml4 0 (pdpt ||| ptePresent ||| pteWritable ||| pteUser)
      let kernelPdpt := s.mem (s.mem s.kernelPml4 0 &&& addrMask)
      (some pml4, s.pon pdpt 0 (kernelPdpt 0))

/-- `get_or_create`; `vmm/roja.rs:150–162`. -/
def getOrCreate (s : Vmm) (t : UInt64) (idx : Fin casillas) (flags : UInt64) :
    Except Unit UInt64 × Vmm :=
  let e := s.mem t idx
  if e &&& ptePresent ≠ 0 then
    if e &&& pteHuge ≠ 0 then (.error (), s) else (.ok (e &&& addrMask), s)
  else
    match s.fisica.allocFrameDe .tabla with
    | (none, fisica) => (.error (), { s with fisica := fisica })
    | (some f, fisica) =>
      (.ok f, ({ s with fisica := fisica }.zeroFrame f).pon t idx ((f &&& addrMask) ||| flags))

/-! ### Mapping -/

/-- The access a page is mapped with: the last five parameters of `map_page_tipo`. -/
structure Acceso where
  user : Bool
  writable : Bool
  ejecutable : Bool
  combinarEscrituras : Bool
  nuestra : Bool

/-- The entry that `map_page_tipo` writes; `vmm/amarilla.rs:248–276`. -/
def entrada (s : Vmm) (pa : UInt64) (a : Acceso) : UInt64 :=
  (pa &&& addrMask) ||| ptePresent |||
    (if a.writable then pteWritable else 0) |||
    (if a.user then pteUser else 0) |||
    (if a.combinarEscrituras then ptePat4k else 0) |||
    (if a.nuestra then pteNuestra else 0) |||
    (if a.ejecutable = false ∧ s.nx = true then pteNx else 0)

/-- `map_page_tipo`; `vmm/amarilla.rs:219–283`. -/
def mapPageTipo (s : Vmm) (pml4 va pa : UInt64) (a : Acceso) : Except Unit Unit × Vmm :=
  if va % page ≠ 0 ∨ pa % page ≠ 0 then (.error (), s)
  else
    let mid := ptePresent ||| pteWritable ||| (if a.user then pteUser else 0)
    match s.getOrCreate pml4 (i4 va) mid with
    | (.error (), s) => (.error (), s)
    | (.ok pdptPhys, s) =>
      match s.getOrCreate pdptPhys (i3 va) mid with
      | (.error (), s) => (.error (), s)
      | (.ok pdPhys, s) =>
        match s.getOrCreate pdPhys (i2 va) mid with
        | (.error (), s) => (.error (), s)
        | (.ok ptPhys, s) => (.ok (), s.pon ptPhys (i1 va) (s.entrada pa a))

/-- `PermisoImagen`; `vmm/amarilla.rs:133–137`. -/
inductive PermisoImagen
  | codigo
  | constantes
  | datos

/-- `map_page_imagen`; `vmm/amarilla.rs:141–148`. -/
def mapPageImagen (s : Vmm) (pml4 va pa : UInt64) (permiso : PermisoImagen) :
    Except Unit Unit × Vmm :=
  s.mapPageTipo pml4 va pa
    (match permiso with
    | .codigo => ⟨true, false, true, false, true⟩
    | .constantes => ⟨true, false, false, false, true⟩
    | .datos => ⟨true, true, false, false, true⟩)

/-- `map_page`; `vmm/amarilla.rs:151–153`. -/
def mapPage (s : Vmm) (pml4 va pa : UInt64) (user writable : Bool) : Except Unit Unit × Vmm :=
  s.mapPageTipo pml4 va pa ⟨user, writable, !writable, false, false⟩

/-- `map_page_propia`; `vmm/amarilla.rs:167–169`. -/
def mapPagePropia (s : Vmm) (pml4 va pa : UInt64) (user writable : Bool) :
    Except Unit Unit × Vmm :=
  s.mapPageTipo pml4 va pa ⟨user, writable, !writable, false, true⟩

/-- `map_page_wc`; `vmm/amarilla.rs:177–179`. -/
def mapPageWc (s : Vmm) (pml4 va pa : UInt64) (user writable : Bool) : Except Unit Unit × Vmm :=
  s.mapPageTipo pml4 va pa ⟨user, writable, !writable, true, false⟩

/-- `unmap_page`; `vmm/amarilla.rs:288–317`. -/
def unmapPage (s : Vmm) (pml4 va : UInt64) : Option UInt64 × Vmm :=
  let e := s.mem pml4 (i4 va)
  if e &&& ptePresent = 0 ∨ e &&& pteHuge ≠ 0 then (none, s)
  else
    let e := s.mem (e &&& addrMask) (i3 va)
    if e &&& ptePresent = 0 ∨ e &&& pteHuge ≠ 0 then (none, s)
    else
      let e := s.mem (e &&& addrMask) (i2 va)
      if e &&& ptePresent = 0 ∨ e &&& pteHuge ≠ 0 then (none, s)
      else
        let pt := e &&& addrMask
        let e := s.mem pt (i1 va)
        if e &&& ptePresent = 0 then (none, s) else (some (e &&& addrMask), s.pon pt (i1 va) 0)

end Vmm

end BmoX.Mm
