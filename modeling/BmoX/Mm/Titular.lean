import BmoX.Base.Bits
import BmoX.Base.Bitmap

/-!
# Whose each frame is

`kernel/src/ring0/mm/titular/`. One byte for each frame of the physmap: the low nibble says what
the frame was asked for, the high one which device has it in flight or on loan. Beside the table
stand the counts that the panels read.
-/

namespace BmoX.Mm

open BmoX.Base

/-- `PAGE`; `mm/mod.rs`. -/
def page : UInt64 := 4096

/-- `PHYSMAP_SIZE`; `mm/mod.rs`. -/
def physmapSize : UInt64 := 0x400000000

/-- `MARCOS`; `titular/mod.rs`. -/
abbrev marcos : Nat := 4194304

instance : NeZero marcos := ⟨by decide⟩

/-- The devices that a nibble can name, with zero for none; `titular/mod.rs`. -/
abbrev aparatos : Nat := 16

instance : NeZero aparatos := ⟨by decide⟩

/-- What a frame was asked for; `titular/mod.rs`. -/
inductive Titular
  | nadie
  | anonimo
  | tabla
  | hoja
  | pila
  | bloque
  | bufer
  | kernel
  | neutro
  deriving DecidableEq

namespace Titular

/-- The byte of each. -/
def toByte : Titular → UInt8
  | nadie => 0
  | anonimo => 1
  | tabla => 2
  | hoja => 3
  | pila => 4
  | bloque => 5
  | bufer => 6
  | kernel => 7
  | neutro => 8

/-- `de_byte`, which looks at the low nibble; `titular/mod.rs`. -/
def deByte (b : UInt8) : Titular :=
  match b &&& 0x0F with
  | 2 => tabla
  | 3 => hoja
  | 4 => pila
  | 5 => bloque
  | 6 => bufer
  | 7 => kernel
  | 8 => neutro
  | 1 => anonimo
  | _ => nadie

private theorem toByte_lt (q : Titular) : q.toByte.toNat < 16 := by
  cases q <;> decide

end Titular

/-- A frame's place in the table, for an address that is one; `titular/mod.rs`. -/
def indice (phys : UInt64) : Option (Fin marcos) :=
  if phys % page ≠ 0 ∨ phys ≥ physmapSize then none
  else some (Fin.ofNat marcos (phys / page).toNat)

/-- The address of a frame. -/
def direccion (f : Fin marcos) : UInt64 := UInt64.ofNat (f * 4096)

/-- A loan of `paginas` pages from `base` to a device; zero pages for a free slot. -/
structure Prestamo where
  base : UInt64
  paginas : UInt64
  aparato : UInt8
  deriving DecidableEq

/-- The table and its counts; `titular/mod.rs`. -/
structure Titulares where
  tabla : Fin marcos → UInt8
  neutrosVivos : UInt64
  neutrosSoltados : UInt64
  enVueloVivos : UInt64
  enVueloPisados : UInt64
  enVueloChoques : UInt64
  vuelosDe : Fin aparatos → UInt32
  ultimaNoticia : Fin aparatos → UInt64
  peorSilencio : Fin aparatos → UInt64
  caducados : UInt64
  prestamos : Fin 4 → Prestamo

/-- Why a stretch was not lent; `titular/roja.rs:406–416`. -/
inductive NoPresta
  | malo
  | fueraDelEspejo
  | choque
  | sinHueco
  deriving DecidableEq

/-- The device in the high nibble of a byte, zero for none. -/
def quienVuela (b : UInt8) : UInt8 := (b &&& 0xF0) >>> 4

/-- A byte with its high nibble replaced; `titular/roja.rs:190`. -/
def ponVuelo (b aparato : UInt8) : UInt8 := (b &&& 0x0F) ||| aparato <<< (4 : UInt8)

namespace Titulares

/-- The table at start. -/
def inicial : Titulares where
  tabla _ := 0
  neutrosVivos := 0
  neutrosSoltados := 0
  enVueloVivos := 0
  enVueloPisados := 0
  enVueloChoques := 0
  vuelosDe _ := 0
  ultimaNoticia _ := 0
  peorSilencio _ := 0
  caducados := 0
  prestamos _ := ⟨0, 0, 0⟩

/-- `saturating_sub`. -/
def saturatingSub (a b : UInt64) : UInt64 := if a < b then 0 else a - b

/-- `marcar`; `titular/amarilla.rs:35–80`. -/
def marcar (s : Titulares) (phys : UInt64) (q : Titular) : Titulares :=
  match indice phys with
  | none => s
  | some i =>
    let antes := s.tabla i
    let era := antes &&& 0x0F = Titular.neutro.toByte
    let es := q = .neutro
    { s with
      tabla := Function.update s.tabla i ((antes &&& 0xF0) ||| q.toByte)
      neutrosVivos :=
        if es ∧ ¬ era then s.neutrosVivos + 1
        else if era ∧ ¬ es then saturatingSub s.neutrosVivos 1
        else s.neutrosVivos
      neutrosSoltados := if era ∧ ¬ es then s.neutrosSoltados + 1 else s.neutrosSoltados
      enVueloPisados :=
        if antes &&& 0xF0 ≠ 0 ∧ antes &&& 0x0F ≠ q.toByte then s.enVueloPisados + 1
        else s.enVueloPisados }

/-- `titular_de`; `titular/amarilla.rs:83–88`. -/
def titularDe (s : Titulares) (phys : UInt64) : Titular :=
  match indice phys with
  | some i => .deByte (s.tabla i)
  | none => .nadie

/-- `puede_soltar`, where it is not `NoEsTuyo`; `titular/amarilla.rs:106–116`. -/
def puedeSoltar (s : Titulares) (phys : UInt64) (quien : Titular) : Bool :=
  let tiene := s.titularDe phys
  tiene = .anonimo ∨ tiene = .nadie ∨ quien = .anonimo ∨ tiene = quien

/-- `anoto`; `titular/roja.rs:233–250`. -/
def anoto (s : Titulares) (a : Fin aparatos) (cuando : UInt64) (habiaTrabajo : Bool) : Titulares :=
  let antes := s.ultimaNoticia a
  let callado := cuando - antes
  { s with
    peorSilencio :=
      if antes ≠ 0 ∧ habiaTrabajo = true ∧ callado > s.peorSilencio a then
        Function.update s.peorSilencio a callado
      else s.peorSilencio
    ultimaNoticia := Function.update s.ultimaNoticia a cuando }

/-- Count one more clash of two devices. -/
def choca (s : Titulares) : Titulares := { s with enVueloChoques := s.enVueloChoques + 1 }

/-- `en_vuelo`; `titular/roja.rs:176–206`. -/
def enVuelo (s : Titulares) (phys : UInt64) (aparato : UInt8) (cuando : UInt64) :
    Bool × Titulares :=
  if aparato = 0 ∨ aparato > 15 then (false, s)
  else match indice phys with
    | none => (false, s)
    | some i =>
      let antes := s.tabla i
      let quien := quienVuela antes
      if quien ≠ 0 ∧ quien ≠ aparato then (false, s.choca)
      else
        let a := Fin.ofNat aparatos aparato.toNat
        let s := { s with tabla := Function.update s.tabla i (ponVuelo antes aparato) }
        if quien = 0 then
          let habia := s.vuelosDe a ≠ 0
          let s := { s with
            enVueloVivos := s.enVueloVivos + 1
            vuelosDe := Function.update s.vuelosDe a (s.vuelosDe a + 1) }
          (true, s.anoto a cuando habia)
        else (true, s)

/-- `prestado`; `titular/roja.rs:418–421`. -/
def prestado (s : Titulares) (phys : UInt64) : Bool :=
  (List.finRange 4).any fun h ↦
    decide ((s.prestamos h).paginas ≠ 0 ∧ phys ≥ (s.prestamos h).base ∧
      phys < (s.prestamos h).base + (s.prestamos h).paginas * page)

/-- `aterrizo`; `titular/roja.rs:285–321`. -/
def aterrizo (s : Titulares) (phys : UInt64) (aparato : UInt8) (cuando : UInt64) :
    Bool × Titulares :=
  match indice phys with
  | none => (false, s)
  | some i =>
    let antes := s.tabla i
    let quien := quienVuela antes
    if quien = 0 then (false, s)
    else if quien ≠ aparato then (false, s.choca)
    else if s.prestado phys then (false, s.choca)
    else
      let a := Fin.ofNat aparatos aparato.toNat
      let s := { s with
        tabla := Function.update s.tabla i (antes &&& 0x0F)
        enVueloVivos := saturatingSub s.enVueloVivos 1
        vuelosDe := Function.update s.vuelosDe a
          (if s.vuelosDe a < 1 then 0 else s.vuelosDe a - 1) }
      (true, s.anoto a cuando true)

/-- The devices that `caducados` reports: those with an open flight that have been silent for more
than `plazo`; `titular/roja.rs:353–369`. -/
def callados (s : Titulares) (ahora plazo : UInt64) : List (Fin aparatos) :=
  (List.finRange 16).filter fun a ↦
    decide (a ≠ 0 ∧ s.vuelosDe a ≠ 0 ∧ s.ultimaNoticia a ≠ 0 ∧ ahora - s.ultimaNoticia a > plazo)

/-- `caducados`; `titular/roja.rs:353–369`. -/
def caducan (s : Titulares) (ahora plazo : UInt64) : UInt16 × Titulares :=
  if plazo = 0 then (0, s)
  else
    ((s.callados ahora plazo).foldl
        (fun (mapa : UInt16) (a : Fin aparatos) ↦ mapa ||| (1 : UInt16) <<< UInt16.ofNat a) 0,
      { s with caducados := s.caducados + UInt64.ofNat (s.callados ahora plazo).length })

/-! ### Loans -/

/-- The address of page `k` of a stretch. -/
def pagina (base : UInt64) (k : Nat) : UInt64 := base + UInt64.ofNat k * page

/-- The first pass of `prestar_tramo`: `n` pages from the `k`-th on are in the mirror and no other
device has them; `titular/roja.rs:433–440`. -/
def revisa (s : Titulares) (base : UInt64) (aparato : UInt8) : Nat → Nat → Option NoPresta
  | 0, _ => none
  | n + 1, k =>
    match indice (pagina base k) with
    | none => some .fueraDelEspejo
    | some i =>
      let quien := quienVuela (s.tabla i)
      if quien ≠ 0 ∧ quien ≠ aparato then some .choque
      else s.revisa base aparato n (k + 1)

/-- A page of the second pass: the table, and how many pages were not in flight before;
`titular/roja.rs:441–449`. -/
def marcaPagina (base : UInt64) (aparato : UInt8) (t : (Fin marcos → UInt8) × UInt64) (k : Nat) :
    (Fin marcos → UInt8) × UInt64 :=
  match indice (pagina base k) with
  | none => t
  | some i =>
    (Function.update t.1 i (ponVuelo (t.1 i) aparato),
      if t.1 i &&& 0xF0 = 0 then t.2 + 1 else t.2)

/-- The first slot that `p` accepts. -/
def busca (s : Titulares) (p : Prestamo → Bool) : Option (Fin 4) :=
  (List.finRange 4).find? fun h ↦ p (s.prestamos h)

/-- `prestar_tramo`; `titular/roja.rs:427–455`. -/
def prestarTramo (s : Titulares) (base paginas : UInt64) (aparato : UInt8) :
    Except NoPresta Unit × Titulares :=
  if aparato = 0 ∨ aparato > 15 ∨ paginas = 0 then (.error .malo, s)
  else match s.busca fun p ↦ p.paginas = 0 with
    | none => (.error .sinHueco, s)
    | some hueco =>
      match s.revisa base aparato paginas.toNat 0 with
      | some .choque => (.error .choque, s.choca)
      | some e => (.error e, s)
      | none =>
        let t := (List.range paginas.toNat).foldl (marcaPagina base aparato) (s.tabla, 0)
        (.ok (), { s with
          tabla := t.1
          enVueloVivos := s.enVueloVivos + t.2
          prestamos := Function.update s.prestamos hueco ⟨base, paginas, aparato⟩ })

/-- A page of a loan that comes back; `titular/roja.rs:467–475`. -/
def sueltaPagina (base : UInt64) (aparato : UInt8) (t : (Fin marcos → UInt8) × UInt64) (k : Nat) :
    (Fin marcos → UInt8) × UInt64 :=
  match indice (pagina base k) with
  | none => t
  | some i =>
    if quienVuela (t.1 i) = aparato then (Function.update t.1 i (t.1 i &&& 0x0F), t.2 + 1) else t

/-- `devolver_tramo`; `titular/roja.rs:460–482`. -/
def devolverTramo (s : Titulares) (base : UInt64) (aparato : UInt8) : Bool × Titulares :=
  match s.busca fun p ↦ p.paginas ≠ 0 ∧ p.base = base ∧ p.aparato = aparato with
  | none => (false, s)
  | some h =>
    let t := (List.range (s.prestamos h).paginas.toNat).foldl (sueltaPagina base aparato)
      (s.tabla, 0)
    (true, { s with
      tabla := t.1
      enVueloVivos := saturatingSub s.enVueloVivos t.2
      prestamos := Function.update s.prestamos h ⟨0, 0, 0⟩ })

end Titulares

/-! ### Addresses -/

theorem toNat_direccion (f : Fin marcos) : (direccion f).toNat = f * 4096 := by
  have h : (f : Nat) < 4194304 := f.isLt
  rw [direccion, UInt64.toNat_ofNat', Nat.mod_eq_of_lt (by omega)]

/-- The frame at an address. -/
theorem indice_eq_some {phys : UInt64} {f : Fin marcos} :
    indice phys = some f ↔ phys.toNat = f * 4096 := by
  have hf : (f : Nat) < 4194304 := f.isLt
  have hpage : page.toNat = 4096 := rfl
  have hmap : physmapSize.toNat = 17179869184 := rfl
  rw [indice]
  split
  · next h =>
    refine iff_of_false nofun fun heq ↦ ?_
    rcases h with h | h
    · refine h (UInt64.toNat_inj.mp ?_)
      rw [UInt64.toNat_mod, hpage, heq, Nat.mul_mod_left]
      rfl
    · have := UInt64.le_iff_toNat_le.mp h
      omega
  · next h =>
    simp only [not_or, not_not, ge_iff_le, UInt64.not_le] at h
    have hmod := congrArg UInt64.toNat h.1
    have hlt := UInt64.lt_iff_toNat_lt.mp h.2
    rw [UInt64.toNat_mod, hpage] at hmod
    have hz : (0 : UInt64).toNat = 0 := rfl
    rw [Option.some.injEq, Fin.ext_iff, Fin.val_ofNat, UInt64.toNat_div, hpage]
    have hdiv : phys.toNat / 4096 % marcos = phys.toNat / 4096 :=
      Nat.mod_eq_of_lt (show phys.toNat / 4096 < 4194304 by omega)
    rw [hdiv]
    omega

theorem indice_direccion (f : Fin marcos) : indice (direccion f) = some f :=
  indice_eq_some.mpr (toNat_direccion f)

/-! ### Bytes -/

theorem quienVuela_toNat (b : UInt8) : (quienVuela b).toNat = b.toNat / 16 := toNat_highNibble b

/-- The device written is the one read. -/
theorem quienVuela_ponVuelo (b : UInt8) {a : UInt8} (ha : a ≤ 15) :
    quienVuela (ponVuelo b a) = a := by
  have ha' : a.toNat ≤ 15 := ha
  have hlow : (b &&& 0x0F).toNat < 16 := by
    rw [toNat_lowNibble]
    omega
  rw [← UInt8.toNat_inj, quienVuela_toNat, ponVuelo, toNat_nibbles (by omega) hlow,
    toNat_lowNibble]
  omega

theorem quienVuela_baja (b : UInt8) : quienVuela (b &&& 0x0F) = 0 := by
  rw [← UInt8.toNat_inj, quienVuela_toNat, toNat_lowNibble]
  have h0 : (0 : UInt8).toNat = 0 := rfl
  omega

theorem quienVuela_marca (b : UInt8) (q : Titular) :
    quienVuela ((b &&& 0xF0) ||| q.toByte) = quienVuela b := by
  have hq := q.toByte_lt
  rw [← UInt8.toNat_inj, quienVuela_toNat, quienVuela_toNat, toNat_keepHigh b hq]
  omega

theorem quienVuela_eq_zero (b : UInt8) : quienVuela b = 0 ↔ b &&& 0xF0 = 0 := by
  rw [← UInt8.toNat_inj, ← UInt8.toNat_inj, quienVuela_toNat, toNat_and_highNibble]
  have h0 : (0 : UInt8).toNat = 0 := rfl
  omega

theorem quienVuela_le (b : UInt8) : quienVuela b ≤ 15 := by
  have := b.toNat_lt
  rw [UInt8.le_iff_toNat_le, quienVuela_toNat]
  have h0 : (15 : UInt8).toNat = 15 := rfl
  omega

/-- What a frame was asked for is read back. -/
theorem deByte_marca (b : UInt8) (q : Titular) : Titular.deByte ((b &&& 0xF0) ||| q.toByte) = q := by
  have hq := q.toByte_lt
  have hlow : ((b &&& 0xF0) ||| q.toByte) &&& 0x0F = q.toByte := by
    rw [← UInt8.toNat_inj, toNat_lowNibble, toNat_keepHigh b hq]
    omega
  rw [Titular.deByte, hlow]
  cases q <;> rfl

namespace Titulares

theorem titularDe_marcar (s : Titulares) {phys : UInt64} {f : Fin marcos}
    (hf : indice phys = some f) (q : Titular) : (s.marcar phys q).titularDe phys = q := by
  rw [marcar, hf]
  dsimp only
  rw [titularDe, hf]
  dsimp only
  rw [Function.update_self]
  exact deByte_marca ..

/-- The other frames keep their label. -/
theorem titularDe_marcar_of_ne (s : Titulares) {phys x : UInt64} (h : indice x ≠ indice phys)
    (q : Titular) : (s.marcar phys q).titularDe x = s.titularDe x := by
  rw [marcar]
  split
  · rfl
  · next f hf =>
    rw [titularDe, titularDe]
    cases hx : indice x with
    | none => rfl
    | some g =>
      have hne : g ≠ f := by
        rintro rfl
        exact h (hx.trans hf.symm)
      dsimp only
      rw [Function.update_of_ne hne]

end Titulares

end BmoX.Mm
