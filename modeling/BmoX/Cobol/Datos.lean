import BmoX.Base.Signed
import BmoX.Cobol.Texto
import BmoX.Lower.Empaquetado

/-!
# The data of a program

`toolchain/lang/cobol/src/{pic,ast/data}.rs` and the first pass of `emit_program`,
`toolchain/lang/cobol/emisor-x86_64/src/codegen.rs:526–573`. Each datum gets a place in the frame of
the program: a word, or the bytes of its packed digits; a table gets as many as it has elements.
The compiler counts the bytes with numbers of 32 bits that wrap. In a frame of less than `2^31` bytes
none does.
-/

namespace BmoX.Cobol

open BmoX.Base BmoX.Base.X86 BmoX.Lower

/-- `pic.rs:34–39`. -/
inductive Usage
  | display
  | comp
  | comp3
  deriving DecidableEq

/-- A picture that has been parsed; `pic.rs:42–55`. -/
structure PicField where
  integerDigits : Nat
  scale : Nat
  signed : Bool
  numeric : Bool
  charCount : Nat
  usage : Usage
  deriving DecidableEq

namespace PicField

def totalDigits (f : PicField) : Nat := f.integerDigits + f.scale

/-- `pic.rs:64–80`. -/
def size (f : PicField) : Nat :=
  if !f.numeric then max f.charCount 1
  else
    match f.usage with
    | .display => max f.totalDigits 1
    | .comp3 => f.totalDigits / 2 + 1
    | .comp => if f.totalDigits ≤ 4 then 2 else if f.totalDigits ≤ 9 then 4 else 8

end PicField

/-- What a declaration says of a datum. -/
structure DataItem where
  level : Nat
  name : Texto
  picField : Option PicField
  usage : Usage
  occurs : Option Nat
  deriving DecidableEq

namespace DataItem

def storageSize (item : DataItem) : Nat := (item.picField.map PicField.size).getD 8

def elementos (item : DataItem) : Nat := item.occurs.getD 1

def scale (item : DataItem) : Nat := (item.picField.map PicField.scale).getD 0

/-- The bytes of one element, in whole words. -/
def aligned (item : DataItem) : Nat := (item.storageSize + 7) / 8 * 8

/-- The same as the compiler counts it; `codegen.rs:545–546`. -/
def aligned32 (item : DataItem) : Int :=
  let x := i32 (i32 item.storageSize + 7)
  x - x % 8

end DataItem

/-- What the compiler knows of the names; `codegen.rs:45–150`. An offset is from `rbp`, and a table
has its number of elements and the bytes from one to the next. -/
structure Codegen where
  varOffsets : Texto → Option Int
  varScales : Texto → Nat
  varPacked : Texto → Option (Nat × Bool)
  tablas : Texto → Option (Nat × Nat)
  nombresDeTablas : List Texto
  picFields : Texto → Option PicField
  stackSize : Nat

/-- `str::to_ascii_uppercase`. -/
def mayusculas (t : Texto) : Texto := t.map Char.toUpper

namespace Codegen

/-- Nothing is declared. -/
def new : Codegen :=
  ⟨fun _ ↦ none, fun _ ↦ 0, fun _ ↦ none, fun _ ↦ none, [], fun _ ↦ none, 0⟩

/-- The packing of a datum, where it has one. -/
def empaque (item : DataItem) : Option (Nat × Bool) :=
  if item.usage = .comp3 then item.picField.map fun campo ↦ (campo.size, campo.signed) else none

/-- A datum is declared; `codegen.rs:533–572`. A name of a condition takes no place. A number below
zero is kept as a word. -/
def declara (cg : Codegen) (item : DataItem) : Codegen :=
  if item.level = 88 then cg
  else
    let stackSize := i32 (cg.stackSize + i32 (item.aligned32 * i32 item.elementos))
    { varOffsets := Function.update cg.varOffsets item.name (some (i32 (-stackSize)))
      varScales := Function.update cg.varScales item.name item.scale
      varPacked := if (empaque item).isSome
        then Function.update cg.varPacked item.name (empaque item) else cg.varPacked
      tablas := if item.occurs.isSome
        then Function.update cg.tablas item.name
          (some (item.elementos, (ofSigned item.aligned32).toNat))
        else cg.tablas
      nombresDeTablas := if item.occurs.isSome then item.name :: cg.nombresDeTablas
        else cg.nombresDeTablas
      picFields := if item.picField.isSome
        then Function.update cg.picFields (mayusculas item.name) item.picField else cg.picFields
      stackSize := (ofSigned stackSize).toNat }

/-- The names that get a place; `registro.rs:403–406`. -/
def nombres (items : List DataItem) : List Texto :=
  (items.filter (·.level ≠ 88)).map (mayusculas ·.name)

/-- The tables of a program, or none where `calcular` finds a name twice; `codegen.rs:529,
registro.rs:425–433`. -/
def reparte (items : List DataItem) : Option Codegen :=
  if (nombres items).Nodup then some (items.foldl declara new) else none

/-- The bytes of the data. -/
def marco (items : List DataItem) : Nat :=
  ((items.filter (·.level ≠ 88)).map fun item ↦ item.aligned * item.elementos).sum

/-! ### The frame -/

variable (cg : Codegen)

/-- The bytes of a packed number, or of a word. -/
def anchoDe : Option (Nat × Bool) → Nat
  | some (bytes, _) => bytes
  | none => 8

/-- The bytes of a datum, or of each element of a table. -/
def ancho (name : Texto) : Nat := anchoDe (cg.varPacked name)

/-- The elements of a name, and the bytes from one to the next. -/
def hueco (name : Texto) : Nat × Nat := (cg.tablas name).getD (1, cg.ancho name)

/-- The bytes of all the elements. -/
def largo (name : Texto) : Nat := (cg.hueco name).1 * (cg.hueco name).2

/-- Every name has its own bytes of the frame, whose places are numbers of 32 bits. -/
structure Bien : Prop where
  pila : cg.stackSize < 2 ^ 31
  dentro : ∀ {name off}, cg.varOffsets name = some off →
    -(cg.stackSize : Int) ≤ off ∧ off + cg.largo name ≤ 0
  aparte : ∀ {a b x y}, cg.varOffsets a = some x → cg.varOffsets b = some y → a ≠ b →
    x + cg.largo a ≤ y ∨ y + cg.largo b ≤ x
  paso : ∀ name, cg.ancho name ≤ (cg.hueco name).2
  positivo : ∀ name, 0 < cg.ancho name
  libre : ∀ {name}, cg.varOffsets name = none → cg.tablas name = none ∧ cg.varPacked name = none

private theorem size_pos (f : PicField) : 0 < f.size := by
  unfold PicField.size
  split
  · omega
  · split
    · omega
    · omega
    · split_ifs <;> decide

private theorem ancho_le_aligned (item : DataItem) :
    0 < anchoDe (empaque item) ∧ anchoDe (empaque item) ≤ item.aligned := by
  unfold empaque DataItem.aligned DataItem.storageSize
  cases item.picField with
  | none => split_ifs <;> decide
  | some f =>
    have hpos := size_pos f
    simp only [Option.map_some, Option.getD_some]
    split_ifs <;> simp only [anchoDe] <;> omega

private theorem new_bien : new.Bien where
  pila := by decide
  dentro h := absurd h (by simp [new])
  aparte h := absurd h (by simp [new])
  paso _ := le_rfl
  positivo _ := Nat.succ_pos 7
  libre _ := ⟨rfl, rfl⟩

variable {cg}

theorem toNat_ofSigned_natCast {n : Nat} (h : n < 2 ^ 31) : (ofSigned (n : Int)).toNat = n := by
  rw [ofSigned_natCast, UInt64.toNat_ofNat_of_lt' (show n < 2 ^ 64 by omega)]

private theorem aligned32_eq {item : DataItem} (h : item.aligned < 2 ^ 31) :
    item.aligned32 = item.aligned := by
  unfold DataItem.aligned at *
  unfold DataItem.aligned32
  rw [i32_of_lt (x := item.storageSize) (by omega) (by omega), i32_of_lt (by omega) (by omega)]
  dsimp only
  push_cast
  omega

section

variable {item : DataItem} (hpos : 0 < item.elementos)
  (hmarco : cg.stackSize + item.aligned * item.elementos < 2 ^ 31)
include hpos hmarco

private theorem aligned_lt : item.aligned < 2 ^ 31 := by
  have haligned : item.aligned * 1 ≤ item.aligned * item.elementos :=
    Nat.mul_le_mul_left _ hpos
  omega

private theorem i32_stackSize : i32 (cg.stackSize + i32 (item.aligned32 * i32 item.elementos)) =
    ((cg.stackSize + item.aligned * item.elementos : Nat) : Int) := by
  have hcuantos : 1 * item.elementos ≤ item.aligned * item.elementos := by
    apply Nat.mul_le_mul_right
    have := ancho_le_aligned item
    omega
  rw [aligned32_eq (aligned_lt hpos hmarco),
    i32_of_lt (x := item.elementos) (by omega) (by omega), ← Nat.cast_mul,
    i32_of_lt (x := (item.aligned * item.elementos : Nat)) (by omega) (by omega), ← Nat.cast_add,
    i32_of_lt (by omega) (by omega)]

variable (hlevel : item.level ≠ 88)
include hlevel

private theorem declara_varOffsets (name : Texto) : (cg.declara item).varOffsets name =
    if name = item.name then some (-((cg.stackSize + item.aligned * item.elementos : Nat) : Int))
    else cg.varOffsets name := by
  unfold declara
  rw [if_neg hlevel]
  dsimp only
  rw [i32_stackSize hpos hmarco, i32_of_lt (by omega) (by omega)]
  exact Function.update_apply ..

private theorem declara_stackSize :
    (cg.declara item).stackSize = cg.stackSize + item.aligned * item.elementos := by
  unfold declara
  rw [if_neg hlevel]
  dsimp only
  rw [i32_stackSize hpos hmarco, toNat_ofSigned_natCast hmarco]

private theorem declara_tablas (h : cg.tablas item.name = none) (name : Texto) :
    (cg.declara item).tablas name = if name = item.name
      then (if item.occurs.isSome then some (item.elementos, item.aligned) else none)
      else cg.tablas name := by
  have haligned := aligned_lt hpos hmarco
  unfold declara
  rw [if_neg hlevel]
  dsimp only
  rw [aligned32_eq haligned, toNat_ofSigned_natCast haligned]
  split
  · exact Function.update_apply ..
  · split
    · next heq => rw [heq, h]
    · rfl

end

private theorem declara_varPacked {item : DataItem} (hlevel : item.level ≠ 88)
    (h : cg.varPacked item.name = none) (name : Texto) :
    (cg.declara item).varPacked name =
      if name = item.name then empaque item else cg.varPacked name := by
  unfold declara
  rw [if_neg hlevel]
  dsimp only
  split
  · exact Function.update_apply ..
  · next hnone =>
    split
    · next heq => rw [heq, h, Option.not_isSome_iff_eq_none.mp hnone]
    · rfl

/-- A new name gets the bytes below all the others. -/
theorem Bien.declara {item : DataItem} (h : cg.Bien) (hlibre : cg.varOffsets item.name = none)
    (hpos : 0 < item.elementos) (hmarco : cg.stackSize + item.aligned * item.elementos < 2 ^ 31) :
    (cg.declara item).Bien := by
  by_cases hlevel : item.level = 88
  · unfold Codegen.declara
    rwa [if_pos hlevel]
  obtain ⟨htabla, hpacked⟩ := h.libre hlibre
  have hancho (name : Texto) : (cg.declara item).ancho name =
      if name = item.name then anchoDe (empaque item) else cg.ancho name := by
    unfold ancho
    rw [declara_varPacked hlevel hpacked]
    split <;> rfl
  obtain ⟨hlleno, hle⟩ := ancho_le_aligned item
  have hhueco (name : Texto) (hne : name ≠ item.name) :
      (cg.declara item).hueco name = cg.hueco name := by
    unfold hueco
    rw [declara_tablas hpos hmarco hlevel htabla, hancho, if_neg hne, if_neg hne]
  have hlargo (name : Texto) (hne : name ≠ item.name) :
      (cg.declara item).largo name = cg.largo name := by
    unfold largo
    rw [hhueco name hne]
  have hnuevo : anchoDe (empaque item) ≤ ((cg.declara item).hueco item.name).2 ∧
      (cg.declara item).largo item.name ≤ item.aligned * item.elementos := by
    unfold largo hueco
    rw [declara_tablas hpos hmarco hlevel htabla, hancho, if_pos rfl, if_pos rfl]
    split
    · exact ⟨hle, (Nat.mul_comm ..).le⟩
    · next hnone =>
      unfold DataItem.elementos
      rw [Option.not_isSome_iff_eq_none.mp hnone]
      simpa using hle
  refine ⟨?_, ?_, ?_, ?_, ?_, ?_⟩
  · rwa [declara_stackSize hpos hmarco hlevel]
  · intro name off hoff
    rw [declara_varOffsets hpos hmarco hlevel] at hoff
    rw [declara_stackSize hpos hmarco hlevel]
    split at hoff
    · next heq =>
      cases hoff
      rw [heq]
      omega
    · next hne =>
      have := h.dentro hoff
      rw [hlargo _ hne]
      omega
  · intro a b x y hx hy hab
    rw [declara_varOffsets hpos hmarco hlevel] at hx hy
    split at hx
    · next ha =>
      cases hx
      rw [if_neg (by rwa [← ha, eq_comm])] at hy
      have := h.dentro hy
      subst ha
      left
      omega
    · next ha =>
      split at hy
      · next hb =>
        cases hy
        have := h.dentro hx
        subst hb
        right
        omega
      · next hb =>
        rw [hlargo _ ha, hlargo _ hb]
        exact h.aparte hx hy hab
  · intro name
    rw [hancho]
    split
    · next heq =>
      rw [heq]
      exact hnuevo.1
    · next hne =>
      rw [hhueco _ hne]
      exact h.paso name
  · intro name
    rw [hancho]
    split
    · exact hlleno
    · exact h.positivo name
  · intro name hnone
    rw [declara_varOffsets hpos hmarco hlevel] at hnone
    split at hnone
    · exact absurd hnone (by simp)
    · next hne =>
      rw [declara_tablas hpos hmarco hlevel htabla, declara_varPacked hlevel hpacked, if_neg hne, if_neg hne]
      exact h.libre hnone

/-- A name that is declared after others is not one of theirs, and the frame grows by its bytes. -/
theorem bien_foldl {items : List DataItem} (h : cg.Bien) (hnodup : (nombres items).Nodup)
    (hlibre : ∀ item ∈ items, item.level ≠ 88 → cg.varOffsets item.name = none)
    (hpos : ∀ item ∈ items, 0 < item.elementos) (hmarco : cg.stackSize + marco items < 2 ^ 31) :
    (items.foldl Codegen.declara cg).Bien := by
  induction items generalizing cg with
  | nil => exact h
  | cons item items ih =>
    rw [List.forall_mem_cons] at hlibre hpos
    rw [List.foldl_cons]
    by_cases hlevel : item.level = 88
    · have hsame : cg.declara item = cg := if_pos hlevel
      have hnodup' : (nombres items).Nodup := by
        unfold nombres at *
        rwa [List.filter_cons_of_neg (by simpa using hlevel)] at hnodup
      have hmarco' : marco (item :: items) = marco items := by
        unfold marco
        rw [List.filter_cons_of_neg (by simpa using hlevel)]
      rw [hsame]
      exact ih h hnodup' hlibre.2 hpos.2 (by rwa [hmarco'] at hmarco)
    · have hmarco' : marco (item :: items) = item.aligned * item.elementos + marco items := by
        unfold marco
        rw [List.filter_cons_of_pos (by simpa using hlevel), List.map_cons, List.sum_cons]
      rw [hmarco'] at hmarco
      have hcabe : cg.stackSize + item.aligned * item.elementos < 2 ^ 31 := by omega
      unfold nombres at hnodup
      rw [List.filter_cons_of_pos (by simpa using hlevel), List.map_cons, List.nodup_cons]
        at hnodup
      refine ih (h.declara (hlibre.1 hlevel) hpos.1 hcabe) hnodup.2 ?_ hpos.2 ?_
      · intro other hmem hother
        rw [declara_varOffsets hpos.1 hcabe hlevel, if_neg]
        · exact hlibre.2 other hmem hother
        · intro heq
          apply hnodup.1
          rw [List.mem_map]
          exact ⟨other, List.mem_filter.mpr ⟨hmem, by simpa using hother⟩, congrArg _ heq⟩
      · rw [declara_stackSize hpos.1 hcabe hlevel]
        omega

/-- The frame of a program. -/
theorem bien_of_reparte {items : List DataItem} (hpos : ∀ item ∈ items, 0 < item.elementos)
    (hmarco : marco items < 2 ^ 31) (h : reparte items = some cg) : cg.Bien := by
  unfold reparte at h
  split at h
  · next hnodup =>
    cases h
    exact bien_foldl new_bien hnodup (fun _ _ _ ↦ rfl) hpos ((Nat.zero_add _).trans_lt hmarco)
  · exact absurd h (by simp)

/-- What is kept of a datum is not changed by the declarations of others. -/
theorem foldl_otros {items : List DataItem} {item : DataItem}
    (h : ∀ other ∈ items, other.level ≠ 88 → mayusculas other.name ≠ mayusculas item.name) :
    (items.foldl declara cg).picFields (mayusculas item.name) =
        cg.picFields (mayusculas item.name) ∧
      (items.foldl declara cg).varPacked item.name = cg.varPacked item.name := by
  induction items generalizing cg with
  | nil => exact ⟨rfl, rfl⟩
  | cons other items ih =>
    rw [List.forall_mem_cons] at h
    obtain ⟨hpic, hpacked⟩ := @ih (cg.declara other) h.2
    rw [List.foldl_cons, hpic, hpacked]
    unfold declara
    split
    · exact ⟨rfl, rfl⟩
    · next hlevel =>
      have hmay := h.1 hlevel
      have hname : item.name ≠ other.name := by
        intro heq
        exact hmay (by rw [heq])
      constructor
      · dsimp only
        split
        · exact Function.update_of_ne hmay.symm ..
        · rfl
      · dsimp only
        split
        · exact Function.update_of_ne hname ..
        · rfl

/-- The picture and the packing of a datum that has been declared. -/
theorem declarado_of_reparte {items : List DataItem} (h : reparte items = some cg)
    {item : DataItem} (hitem : item ∈ items) (hlevel : item.level ≠ 88) {f : PicField}
    (hf : item.picField = some f) :
    cg.picFields (mayusculas item.name) = some f ∧ cg.varPacked item.name = empaque item := by
  unfold reparte at h
  split at h
  · next hnodup =>
    cases h
    obtain ⟨antes, despues, rfl⟩ := List.append_of_mem hitem
    unfold nombres at hnodup
    rw [List.filter_append, List.map_append, List.filter_cons_of_pos (by simpa using hlevel),
      List.map_cons, List.nodup_append, List.nodup_cons] at hnodup
    obtain ⟨-, ⟨hdespues, -⟩, hantes⟩ := hnodup
    have hdespues' : ∀ other ∈ despues, other.level ≠ 88 →
        mayusculas other.name ≠ mayusculas item.name := by
      intro other hmem hother heq
      apply hdespues
      rw [← heq]
      exact List.mem_map.mpr ⟨other, List.mem_filter.mpr ⟨hmem, by simpa using hother⟩, rfl⟩
    have hantes' : ∀ other ∈ antes, other.level ≠ 88 →
        mayusculas other.name ≠ mayusculas item.name := by
      intro other hmem hother
      exact hantes _ (List.mem_map.mpr
        ⟨other, List.mem_filter.mpr ⟨hmem, by simpa using hother⟩, rfl⟩) _ (List.mem_cons_self ..)
    obtain ⟨-, hpacked⟩ := @foldl_otros new antes item hantes'
    obtain ⟨hpic', hpacked'⟩ :=
      @foldl_otros ((antes.foldl declara new).declara item) despues item hdespues'
    rw [List.foldl_append, List.foldl_cons, hpic', hpacked', declara_varPacked hlevel hpacked]
    refine ⟨?_, if_pos rfl⟩
    unfold declara
    rw [if_neg hlevel]
    dsimp only
    rw [if_pos (by simp [hf]), Function.update_self, hf]
  · exact absurd h (by simp)

end Codegen

/-! ### Places -/

/-- A place of the frame, and how a number is kept there. -/
structure Sitio where
  dir : Nat
  packed : Option (Nat × Bool)
  deriving DecidableEq

namespace Sitio

/-- The number of a place, without its point. -/
def valor (s : Sitio) (mem : Memory) : Int :=
  match s.packed with
  | some (bytes, _) => empaquetado mem s.dir bytes
  | none => Base.signed (mem.read64 s.dir)

/-- What a place keeps of a number that fits a word. -/
def recibe (s : Sitio) (v : Int) : Int :=
  match s.packed with
  | some (bytes, signo) => recorta bytes signo v
  | none => v

/-- The bytes of a place. -/
def Ocupa (s : Sitio) (a : Nat) : Prop := s.dir ≤ a ∧ a < s.dir + Codegen.anchoDe s.packed

private theorem valor_congr {s : Sitio} {mem mem' : Memory} (hs : 0 < Codegen.anchoDe s.packed)
    (h : ∀ a, s.Ocupa a → mem' a = mem a) : s.valor mem' = s.valor mem := by
  unfold valor
  unfold Ocupa at h
  split
  · next heq =>
    rw [heq] at hs h
    exact empaquetado_congr hs fun x h1 h2 ↦ h x ⟨h1, h2⟩
  · next heq =>
    rw [heq] at h
    rw [Memory.read64_congr fun x h1 h2 ↦ h x ⟨h1, h2⟩]

end Sitio

namespace Codegen

variable (cg : Codegen)

/-- The places of the data: one for a datum, and one for each element of a table. -/
inductive Dato (m : Machine) : Sitio → Prop
  | intro {name off k} : cg.varOffsets name = some off → k < (cg.hueco name).1 →
      Dato m ⟨m.frame (off + (k * (cg.hueco name).2 : Nat)), cg.varPacked name⟩

/-- There is memory for the frame below `rbp`. -/
def Cabe (m : Machine) : Prop := cg.stackSize ≤ (m.reg .rbp).toNat

private theorem frame_eq {m : Machine} {disp : Int} (h : -((m.reg .rbp).toNat : Int) ≤ disp)
    (h0 : disp ≤ 0) : (m.frame disp : Int) = (m.reg .rbp).toNat + disp := by
  obtain ⟨k, hk⟩ := Int.eq_ofNat_of_zero_le (Int.neg_nonneg_of_nonpos h0)
  obtain rfl : disp = -(k : Int) := by omega
  have hlt := (m.reg .rbp).toNat_lt
  have hnat : (UInt64.ofNat k).toNat = k := by
    rw [UInt64.toNat_ofNat', Nat.mod_eq_of_lt (by omega)]
  unfold Machine.frame
  rw [ofSigned_neg, ofSigned_natCast, ← UInt64.sub_eq_add_neg, UInt64.toNat_sub_of_le _ _ (by
    rw [UInt64.le_iff_toNat_le]; omega), hnat]
  omega

section

variable {cg} {m : Machine} {s t : Sitio} (h : cg.Bien) (hcabe : cg.Cabe m)
include h hcabe

/-- An element is among the bytes of its name. -/
theorem frame_elemento {name : Texto} {off : Int} {k : Nat}
    (hoff : cg.varOffsets name = some off) (hk : k < (cg.hueco name).1) :
    (m.frame (off + (k * (cg.hueco name).2 : Nat)) : Int) =
        (m.reg .rbp).toNat + off + (k * (cg.hueco name).2 : Nat) ∧
      k * (cg.hueco name).2 + cg.ancho name ≤ cg.largo name := by
  have hdentro := h.dentro hoff
  have hpaso := h.paso name
  have hmul : (k + 1) * (cg.hueco name).2 ≤ (cg.hueco name).1 * (cg.hueco name).2 :=
    Nat.mul_le_mul_right _ hk
  rw [Nat.succ_mul] at hmul
  unfold largo at *
  unfold Cabe at hcabe
  refine ⟨?_, by omega⟩
  rw [frame_eq (by omega) (by omega)]
  omega

/-- A place is in memory, below `rbp`, and not empty. -/
theorem Dato.dentro (hs : cg.Dato m s) :
    0 < anchoDe s.packed ∧ s.dir + anchoDe s.packed ≤ (m.reg .rbp).toNat := by
  cases hs with
  | @intro name off k hoff hk =>
    obtain ⟨hframe, hle⟩ := frame_elemento h hcabe hoff hk
    have hdentro := h.dentro hoff
    refine ⟨h.positivo name, ?_⟩
    change m.frame _ + cg.ancho name ≤ _
    omega

/-- Two places have no byte in common. -/
theorem Dato.aparte (hs : cg.Dato m s) (ht : cg.Dato m t) (hne : s ≠ t) :
    s.dir + anchoDe s.packed ≤ t.dir ∨ t.dir + anchoDe t.packed ≤ s.dir := by
  cases hs with
  | @intro name off k hoff hk =>
    cases ht with
    | @intro name' off' k' hoff' hk' =>
      obtain ⟨hframe, hle⟩ := frame_elemento h hcabe hoff hk
      obtain ⟨hframe', hle'⟩ := frame_elemento h hcabe hoff' hk'
      change m.frame _ + cg.ancho name ≤ m.frame _ ∨ m.frame _ + cg.ancho name' ≤ m.frame _
      by_cases hname : name = name'
      · subst hname
        obtain rfl : off = off' := Option.some.inj (hoff.symm.trans hoff')
        have hpaso := h.paso name
        have hk : k ≠ k' := by
          rintro rfl
          exact hne rfl
        rcases Nat.lt_or_gt_of_ne hk with hlt | hlt
        · have hmul := Nat.mul_le_mul_right (cg.hueco name).2 hlt
          rw [Nat.succ_mul] at hmul
          omega
        · have hmul := Nat.mul_le_mul_right (cg.hueco name).2 hlt
          rw [Nat.succ_mul] at hmul
          omega
      · have haparte := h.aparte hoff hoff' hname
        omega

/-- What is written in a place does not change the others. -/
theorem Dato.valor_de_otro {mem mem' : Memory} (hs : cg.Dato m s) (ht : cg.Dato m t) (hne : t ≠ s)
    (hmem : ∀ a, ¬s.Ocupa a → mem' a = mem a) : t.valor mem' = t.valor mem := by
  have haparte := hs.aparte h hcabe ht hne.symm
  apply Sitio.valor_congr (ht.dentro h hcabe).1
  intro a ha
  apply hmem
  unfold Sitio.Ocupa at *
  omega

end

end Codegen

end BmoX.Cobol
