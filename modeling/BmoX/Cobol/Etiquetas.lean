import BmoX.Cobol.Acceso

/-!
# The labels of the access to the data

The code of an access binds only labels of places that are patched right away: its jumps to others
leave it.
-/

namespace BmoX.Cobol

open BmoX.Base BmoX.Base.X86 BmoX.Lower

/-- A label that is none of a place patched right away. -/
def esAjena : Instr Etiqueta → Bool
  | .label (.salto _) => false
  | .label _ => true
  | _ => false

/-- Code that binds only labels of places patched right away. -/
def SoloSaltos (code : Codigo) : Prop := code.all (fun i ↦ !esAjena i) = true

variable {code code' : Codigo}

/-- A jump to any other label goes past the code. -/
theorem SoloSaltos.is_eq_false (h : SoloSaltos code) {l : Etiqueta} (hl : ∀ k, l ≠ .salto k) :
    ∀ i ∈ code, i.is l = false := by
  intro i hi
  have hno := List.all_eq_true.mp h i hi
  cases i with
  | label l' =>
    cases l' with
    | salto k => exact decide_eq_false (hl k).symm
    | fresca k => exact absurd hno (by simp [esAjena])
    | fuera t => exact absurd hno (by simp [esAjena])
  | _ => rfl

theorem soloSaltos_append (h : SoloSaltos code) (h' : SoloSaltos code') : SoloSaltos (code ++ code')
  := by
  unfold SoloSaltos at *
  rw [List.all_append, h, h']
  rfl

theorem soloSaltos_dividir (modo : Modo) : SoloSaltos (dividir modo) := by
  cases modo <;> rfl

private theorem soloSaltos_escritos (n : Nat) : SoloSaltos (escritos n) := by
  induction n with
  | zero => rfl
  | succ n ih => exact ih

private theorem soloSaltos_leidos (n : Nat) : SoloSaltos (leidos n) := by
  induction n with
  | zero => rfl
  | succ n ih => exact soloSaltos_append ih rfl

private theorem soloSaltos_empaquetar (bytes : Nat) (conSigno : Bool) :
    SoloSaltos (empaquetar bytes conSigno) := by
  cases conSigno <;> exact soloSaltos_escritos (bytes - 1)

private theorem soloSaltos_desempaquetar (bytes : Nat) : SoloSaltos (desempaquetar bytes) :=
  soloSaltos_append rfl (soloSaltos_append (soloSaltos_leidos _) rfl)

namespace Codegen

variable {cg : Codegen}

private theorem soloSaltos_rescale (desde hasta : Nat) (modo : Modo) :
    SoloSaltos (rescaleRedondeado desde hasta modo) := by
  unfold rescaleRedondeado
  split_ifs
  · rfl
  · rfl
  · exact soloSaltos_append rfl (soloSaltos_dividir modo)

theorem soloSaltos_leeDe {packed : Option (Nat × Bool)} (h : leeDe packed = some code) :
    SoloSaltos code := by
  unfold leeDe at h
  cases packed with
  | none =>
    cases h
    rfl
  | some p =>
    simp only at h
    split at h
    · cases h
      exact soloSaltos_desempaquetar _
    · exact absurd h (by simp)

theorem soloSaltos_escribeEn {packed : Option (Nat × Bool)} (h : escribeEn packed = some code) :
    SoloSaltos code := by
  unfold escribeEn at h
  cases packed with
  | none =>
    cases h
    rfl
  | some p =>
    simp only at h
    split at h
    · cases h
      exact soloSaltos_empaquetar _ _
    · exact absurd h (by simp)

/-- Routines of addresses whose code binds such labels only. -/
def SaltosPropios (direccion : Texto → Texto → Option Codigo) : Prop :=
  ∀ {base idx : Texto} {code : Codigo}, direccion base idx = some code → SoloSaltos code

theorem soloSaltos_loadVarCon {direccion : Texto → Texto → Option Codigo} (hdir : SaltosPropios
  direccion)
    {name : Texto} (h : cg.loadVarCon direccion name = some code) : SoloSaltos code := by
  unfold loadVarCon at h
  split at h
  · simp only [Option.bind_eq_bind, Option.bind_eq_some_iff] at h
    obtain ⟨dir, hcode, lee, hlee, h⟩ := h
    cases h
    exact soloSaltos_append (hdir hcode) (soloSaltos_leeDe hlee)
  · obtain ⟨off, -, h⟩ := Option.bind_eq_some_iff.mp h
    split at h
    · obtain ⟨lee, hlee, h⟩ := Option.bind_eq_some_iff.mp h
      cases h
      exact soloSaltos_append rfl (soloSaltos_leeDe hlee)
    · cases h
      rfl

private theorem soloSaltos_loadOperandCon {direccion : Texto → Texto → Option Codigo}
    (hdir : SaltosPropios direccion) {name : Texto} {scale : Nat}
    (h : cg.loadOperandCon direccion name scale = some code) : SoloSaltos code := by
  unfold loadOperandCon at h
  split at h
  · obtain ⟨carga, hcarga, h⟩ := Option.bind_eq_some_iff.mp h
    cases h
    exact soloSaltos_append (soloSaltos_loadVarCon hdir hcarga) (soloSaltos_rescale ..)
  · obtain ⟨v, -, h⟩ := Option.bind_eq_some_iff.mp h
    cases h
    rfl

theorem saltosPropios_direccion (fuel : Nat) : SaltosPropios (cg.emitDireccionElemento fuel) := by
  induction fuel with
  | zero => exact fun h ↦ absurd h (by simp [emitDireccionElemento])
  | succ fuel ih =>
    intro base idx code h
    rw [emitDireccionElemento] at h
    simp only [Option.bind_eq_bind, Option.bind_eq_some_iff] at h
    obtain ⟨off, -, ⟨n, paso⟩, -, h⟩ := h
    split at h
    · split at h
      · exact absurd h (by simp)
      · cases h
        rfl
    · split at h
      · exact absurd h (by simp)
      · obtain ⟨carga, hcarga, h⟩ := Option.bind_eq_some_iff.mp h
        cases h
        exact soloSaltos_append (soloSaltos_loadOperandCon ih hcarga) rfl

/-- The code that stores binds such labels only. -/
theorem soloSaltos_storeVar {name : Texto} (h : cg.storeVar name = some code) : SoloSaltos code :=
  by
  unfold storeVar at h
  split at h
  · simp only [Option.bind_eq_bind, Option.bind_eq_some_iff] at h
    obtain ⟨dir, hdir, escribe, hescribe, h⟩ := h
    cases h
    exact soloSaltos_append rfl (soloSaltos_append (saltosPropios_direccion _ hdir)
      (soloSaltos_append rfl (soloSaltos_escribeEn hescribe)))
  · obtain ⟨off, -, h⟩ := Option.bind_eq_some_iff.mp h
    split at h
    · obtain ⟨escribe, hescribe, h⟩ := Option.bind_eq_some_iff.mp h
      cases h
      exact soloSaltos_append rfl (soloSaltos_escribeEn hescribe)
    · cases h
      rfl

end Codegen

end BmoX.Cobol
