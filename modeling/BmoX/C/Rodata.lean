import BmoX.Base.Blocks
import BmoX.Base.Chunks
import BmoX.Base.Signed
import BmoX.C.Cadenas

/-!
# The addresses of the literals

`emisor-x86_64/src/codegen/mod.rs:436–616, 823–827`, `codegen/emitir/direccion.rs:39–44` and
`codegen/linking.rs:24–185`. The globals put their literals in the table, and then the bodies. The
code that wants the address of a literal is emitted with a hole, and the holes are filled with the
distances when the code is whole: a literal reaches its own bytes if and only if the walk entered it
somewhere.
-/

namespace BmoX.C

open BmoX.Base

/-! ### The table -/

/-- A program, of which the literals are read: those that the initializers of the globals hold, each
with its place in the data, the rest of which is `data`; and the bodies of the functions. -/
structure Programa where
  globales : List (Nat × Text)
  data : Bytes
  cuerpos : List (List (Stmt Text))

/-- What `compile` does with the literals of the globals; `codegen/mod.rs:443–452, 587–602`. -/
def ponGlobales : List (Nat × Text) → Recogida → List (Nat × Nat) → Recogida × List (Nat × Nat)
  | [], r, relocs => (r, relocs)
  | (off, s) :: gs, r, relocs =>
    match r.strings.findIdx? (· == s) with
    | some i => ponGlobales gs r (relocs ++ [(off, i)])
    | none =>
      let r := { r with strings := r.strings ++ [s] }
      ponGlobales gs r (relocs ++ [(off, r.strings.length - 1)])

/-- `collect_strings`; `codegen/mod.rs:823–827`. -/
def collectStrings : Recogida → List (List (Stmt Text)) → Recogida
  | r, [] => r
  | r, c :: cs => collectStrings (collectBlockStrings r c) cs

def Programa.puestas (p : Programa) : Recogida × List (Nat × Nat) :=
  ponGlobales p.globales ⟨[], false, false⟩ []

/-- The table, when the functions are emitted. -/
def Programa.strings (p : Programa) : List Text := (collectStrings p.puestas.1 p.cuerpos).strings

/-! ### The code -/

structure Fixup where
  leaOffset : Nat
  stringIdx : Nat
  deriving DecidableEq, Repr

/-- A piece of the code: the bytes of something else, or the load of the address of a literal. -/
inductive Trozo
  | bytes (b : Bytes)
  | cadena (s : Text)

structure Codigo where
  code : Bytes
  fixups : List Fixup

/-- `emitir_direccion`, at a literal; `direccion.rs:39–44`. -/
def Codigo.pon (strings : List Text) (c : Codigo) : Trozo → Codigo
  | .bytes b => { c with code := c.code ++ b }
  | .cadena s =>
    let code := c.code ++ [0x48, 0x8D, 0x05, 0, 0, 0, 0]
    ⟨code, c.fixups ++ [⟨code.length - 4, (strings.findIdx? (· == s)).getD 0⟩]⟩

/-! ### The image -/

/-- `hasta_pagina`; `decidir/imagen.rs:32–35`. -/
def hastaPagina (n : Nat) : Nat := (n + 4095) / 4096 * 4096

/-- `s.as_bytes()`. -/
def textBytes (s : Text) : Bytes := s.flatMap String.utf8EncodeChar

/-- The distance to `destino` in its hole; `linking.rs:101–104`. -/
def escribeDisp (destino : Nat) (code : Bytes) (f : Fixup) : Bytes :=
  splice code f.leaOffset (leBytes 4 (((destino : Int) - (f.leaOffset + 4)) % 2 ^ 32).toNat)

/-- The holes of the literals, and their bytes after the code; `linking.rs:87–109`. -/
def patchCadenas (va : Nat) (fixups : List Fixup) : Nat → Nat → List Text → Bytes → Bytes
  | _, _, [], code => code
  | idx, off, s :: ss, code =>
    let code := fixups.foldl
      (fun code f ↦ if f.stringIdx = idx then escribeDisp (va + off) code f else code) code
    patchCadenas va fixups (idx + 1) (off + (textBytes s).length + 1) ss (code ++ textBytes s ++
      [0])

/-- Where the literals start in their section; `linking.rs:160–166`. -/
def offCadena (strings : List Text) (k : Nat) : Nat :=
  ((strings.take k).map fun s ↦ (textBytes s).length + 1).sum

/-- The sections of a program, as `build_bef` takes them, and the pointers that the loader puts in
its data: for each where it goes and the place in `rodata` that it holds. -/
structure Imagen where
  code : Bytes
  rodata : Bytes
  data : Bytes
  relocs : List (Nat × Nat)

/-- `patch_all_fixups`; `linking.rs:24–185`. -/
def patchAllFixups (strings : List Text) (c : Codigo) (data : Bytes) (relocs : List (Nat × Nat)) :
    Imagen :=
  let instructionEnd := c.code.length
  let all := patchCadenas (hastaPagina instructionEnd) c.fixups 0 0 strings c.code
  { code := all.take instructionEnd
    rodata := all.drop instructionEnd
    data := data
    relocs := relocs.filterMap fun (off, idx) ↦
      if idx < strings.length then some (off, offCadena strings idx) else none }

/-- The sections go one after the other, each from a page on. -/
def Imagen.vaRodata (i : Imagen) : Nat := hastaPagina i.code.length

def Imagen.vaData (i : Imagen) : Nat := i.vaRodata + hastaPagina i.rodata.length

/-- The address that the instruction with the distance at `o` gives: that of the next one, and the
distance. -/
def Imagen.lea (i : Imagen) (o : Nat) : Int := o + 4 + i32 (leNat (slice i.code o 4))

/-- A program and the pieces of its code. -/
def Programa.compila (p : Programa) (ts : List Trozo) : Imagen :=
  patchAllFixups p.strings (ts.foldl (Codigo.pon p.strings) ⟨[], []⟩) p.data p.puestas.2

/-- The loads of literals among the pieces: where the distance of each stands. -/
def leas : Nat → List Trozo → List (Nat × Text)
  | _, [] => []
  | o, .bytes b :: ts => leas (o + b.length) ts
  | o, .cadena s :: ts => (o + 3, s) :: leas (o + 7) ts

/-! ### The table holds what the walk enters -/

section

variable {r : Recogida} {relocs : List (Nat × Nat)}

private theorem getElem?_of_prefix {α : Type*} {xs ys : List α} (h : xs <+: ys) {i : Nat} {x : α}
    (hx : xs[i]? = some x) : ys[i]? = some x := by
  obtain ⟨t, rfl⟩ := h
  exact (List.getElem?_append_left (List.getElem?_eq_some_iff.mp hx).1).trans hx

private theorem findIdx?_getD {strings : List Text} {s : Text} (h : s ∈ strings) :
    strings[(strings.findIdx? (· == s)).getD 0]? = some s := by
  cases hi : strings.findIdx? (· == s) with
  | none =>
    rw [List.findIdx?_eq_none_iff] at hi
    exact absurd (beq_self_eq_true s) (by rw [hi s h]; exact Bool.false_ne_true)
  | some i =>
    obtain ⟨hlt, hs, _⟩ := List.findIdx?_eq_some_iff_getElem.mp hi
    rw [Option.getD_some, List.getElem?_eq_getElem hlt, eq_of_beq hs]

/-- The literals of the globals are in the table, and each pointer has the index of its own. -/
theorem ponGlobales_spec (gs : List (Nat × Text)) (r : Recogida) (relocs : List (Nat × Nat)) :
    Recoge r (ponGlobales gs r relocs).1 (· ∈ gs.map (·.2)) ∧
      (∀ x ∈ relocs, x ∈ (ponGlobales gs r relocs).2) ∧
      ∀ g ∈ gs, ∃ k, (ponGlobales gs r relocs).1.strings[k]? = some g.2 ∧
        (g.1, k) ∈ (ponGlobales gs r relocs).2 := by
  induction gs generalizing r relocs with
  | nil => exact ⟨(Recoge.nada rfl).congr fun s ↦ by simp, fun x hx ↦ hx, List.forall_mem_nil _⟩
  | cons g gs ih =>
    obtain ⟨off, s⟩ := g
    obtain ⟨r', i, hr', hi, heq⟩ : ∃ r' i, Recoge r r' (· = s) ∧ r'.strings[i]? = some s ∧
        ponGlobales ((off, s) :: gs) r relocs = ponGlobales gs r' (relocs ++ [(off, i)]) := by
      rw [ponGlobales]
      cases hi : r.strings.findIdx? (· == s) with
      | some i =>
        obtain ⟨hlt, hs, _⟩ := List.findIdx?_eq_some_iff_getElem.mp hi
        have hs : r.strings[i]? = some s := by rw [List.getElem?_eq_getElem hlt, eq_of_beq hs]
        exact ⟨r, i, .esta (List.mem_of_getElem? hs), hs, rfl⟩
      | none =>
        rw [List.findIdx?_eq_none_iff] at hi
        refine ⟨_, _, .nueva fun hs ↦ ?_, ?_, rfl⟩
        · exact Bool.false_ne_true ((hi s hs).symm.trans (beq_self_eq_true s))
        · simp
    obtain ⟨hrec, hmem, hpone⟩ := ih r' (relocs ++ [(off, i)])
    rw [heq]
    refine ⟨(hr'.luego hrec).congr fun t ↦ by simp, fun x hx ↦ ?_, fun g hg ↦ ?_⟩
    · exact hmem x (List.mem_append_left _ hx)
    · obtain rfl | hg := List.mem_cons.mp hg
      · exact ⟨i, getElem?_of_prefix hrec.antes hi, hmem _ (by simp)⟩
      · exact hpone g hg

private theorem recoge_strings (r : Recogida) (cs : List (List (Stmt Text))) :
    Recoge r (collectStrings r cs) fun s ↦
      ∃ c ∈ cs, Alcanza (Stmt.impresasBlock c) (Stmt.exprsBlock c) s := by
  induction cs generalizing r with
  | nil => exact (Recoge.nada rfl).congr fun s ↦ by simp
  | cons c cs ih => exact ((recoge_block r c).luego (ih _)).congr fun s ↦ by simp

end

/-! ### The holes -/

section

variable {va off idx : Nat} {fs : List Fixup} {c tail : Bytes}

/-- The bytes of the distance to `destino`. -/
def dispBytes (destino : Nat) (f : Fixup) : Bytes :=
  leBytes 4 (((destino : Int) - (f.leaOffset + 4)) % 2 ^ 32).toNat

/-- Two holes have no byte in common. -/
def Fixup.Aparte (f g : Fixup) : Prop :=
  f.leaOffset + 4 ≤ g.leaOffset ∨ g.leaOffset + 4 ≤ f.leaOffset

theorem Fixup.Aparte.symm {f g : Fixup} (h : f.Aparte g) : g.Aparte f := Or.symm h

private theorem splice_append_left {a b r : Bytes} {o : Nat} (h : o + r.length ≤ a.length) :
    splice (a ++ b) o r = splice a o r ++ b := by
  rw [splice, splice, List.take_append_of_le_length (by omega), List.drop_append_of_le_length h,
    List.append_assoc, List.append_assoc, List.append_assoc]

/-- The holes of one literal: those that have its index are filled, the others stay. -/
theorem foldl_escribe (destino idx : Nat) (tail : Bytes)
    (hfs : ∀ f ∈ fs, f.leaOffset + 4 ≤ c.length)
    (haparte : fs.Pairwise Fixup.Aparte) :
    ∃ c', c'.length = c.length ∧
      fs.foldl (fun code f ↦ if f.stringIdx = idx then escribeDisp destino code f else code)
        (c ++ tail) = c' ++ tail ∧
      (∀ f ∈ fs, slice c' f.leaOffset 4 =
        if f.stringIdx = idx then dispBytes destino f else slice c f.leaOffset 4) ∧
      ∀ g : Fixup, (∀ f ∈ fs, f.Aparte g) → slice c' g.leaOffset 4 = slice c g.leaOffset 4 := by
  induction fs generalizing c with
  | nil => exact ⟨c, rfl, rfl, List.forall_mem_nil _, fun _ _ ↦ rfl⟩
  | cons f fs ih =>
    obtain ⟨hf, hfs⟩ := List.forall_mem_cons.mp hfs
    obtain ⟨hfa, haparte⟩ := List.pairwise_cons.mp haparte
    obtain ⟨c₁, hlen₁, hpaso, hf₁, hotros₁⟩ : ∃ c₁, c₁.length = c.length ∧
        (if f.stringIdx = idx then escribeDisp destino (c ++ tail) f else c ++ tail) = c₁ ++ tail ∧
        slice c₁ f.leaOffset 4 =
          (if f.stringIdx = idx then dispBytes destino f else slice c f.leaOffset 4) ∧
        ∀ g : Fixup, f.Aparte g → slice c₁ g.leaOffset 4 = slice c g.leaOffset 4 := by
      split
      · have hl : (dispBytes destino f).length = 4 := length_leBytes ..
        have hcabe : f.leaOffset + (dispBytes destino f).length ≤ c.length := by omega
        refine ⟨splice c f.leaOffset (dispBytes destino f), length_splice hcabe,
          splice_append_left hcabe, ?_, fun g hg ↦ ?_⟩
        · rw [← hl]
          exact slice_splice (by omega)
        · refine slice_splice_of_disjoint hcabe ?_
          rw [hl]
          exact hg.symm
      · exact ⟨c, rfl, rfl, rfl, fun _ _ ↦ rfl⟩
    obtain ⟨c', hlen, hfold, hlos, hotros⟩ := ih (fun g hg ↦ by rw [hlen₁]; exact hfs g hg) haparte
    refine ⟨c', hlen.trans hlen₁, ?_, ?_, fun g hg ↦ ?_⟩
    · rw [List.foldl_cons, hpaso, hfold]
    · intro g hg
      obtain rfl | hg := List.mem_cons.mp hg
      · rw [hotros g fun f hf ↦ (hfa f hf).symm, hf₁]
      · rw [hlos g hg, hotros₁ g (hfa g hg)]
    · obtain ⟨hfg, hg⟩ := List.forall_mem_cons.mp hg
      rw [hotros g hg, hotros₁ g hfg]

/-- The literals as they stand one after the other. -/
def rodataDe (strings : List Text) : Bytes := strings.flatMap fun s ↦ textBytes s ++ [0]

private theorem offCadena_succ (s : Text) (ss : List Text) (k : Nat) :
    offCadena (s :: ss) (k + 1) = (textBytes s).length + 1 + offCadena ss k := by
  rw [offCadena, List.take_succ_cons, List.map_cons, List.sum_cons, ← offCadena]

/-- All the holes: each holds the distance to the literal that its index gives, if there is one. -/
theorem patchCadenas_spec {ss : List Text} (hfs : ∀ f ∈ fs, f.leaOffset + 4 ≤ c.length)
    (haparte : fs.Pairwise Fixup.Aparte) :
    ∃ c', c'.length = c.length ∧
      patchCadenas va fs idx off ss (c ++ tail) = c' ++ tail ++ rodataDe ss ∧
      ∀ f ∈ fs, slice c' f.leaOffset 4 =
        if idx ≤ f.stringIdx ∧ f.stringIdx < idx + ss.length then
          dispBytes (va + off + offCadena ss (f.stringIdx - idx)) f
        else slice c f.leaOffset 4 := by
  induction ss generalizing idx off c tail with
  | nil =>
    refine ⟨c, rfl, (List.append_nil _).symm, fun f _ ↦ (if_neg fun h ↦ ?_).symm⟩
    exact absurd h.2 (Nat.not_lt.mpr h.1)
  | cons s ss ih =>
    obtain ⟨c₁, hlen₁, hfold, hlos₁, _⟩ :=
      foldl_escribe (va + off) idx tail hfs haparte
    obtain ⟨c', hlen, hpatch, hlos⟩ := @ih (off + (textBytes s).length + 1) (idx + 1) c₁
      (tail ++ textBytes s ++ [0]) (fun f hf ↦ by rw [hlen₁]; exact hfs f hf)
    refine ⟨c', hlen.trans hlen₁, ?_, fun f hf ↦ ?_⟩
    · rw [patchCadenas, hfold, List.append_assoc c₁, List.append_assoc c₁, hpatch]
      simp only [rodataDe, List.flatMap_cons, List.append_assoc]
    · rw [hlos f hf, hlos₁ f hf, List.length_cons]
      by_cases heq : f.stringIdx = idx
      · rw [if_neg (by omega), if_pos heq, if_pos (by omega), heq, Nat.sub_self]
        rfl
      · by_cases hin : idx ≤ f.stringIdx ∧ f.stringIdx < idx + (ss.length + 1)
        · obtain ⟨k, hk⟩ : ∃ k, f.stringIdx = idx + k + 1 := ⟨f.stringIdx - idx - 1, by omega⟩
          rw [if_pos (by omega), if_pos hin]
          have hsub : f.stringIdx - (idx + 1) = k := by omega
          have hsub' : f.stringIdx - idx = k + 1 := by omega
          rw [hsub, hsub', offCadena_succ]
          congr 1
          omega
        · rw [if_neg (by omega), if_neg heq, if_neg hin]

end

/-! ### Where the bytes of a literal are -/

section

variable {strings : List Text} {s t : Text} {j k : Nat}

private theorem slice_rodataDe (hk : strings[k]? = some s) :
    slice (rodataDe strings) (offCadena strings k) ((textBytes s).length + 1) = textBytes s ++ [0]
      := by
  induction strings generalizing k with
  | nil => exact nomatch hk
  | cons u ss ih =>
    cases k with
    | zero =>
      cases hk
      exact slice_append_self (by simp)
    | succ k =>
      rw [offCadena_succ, rodataDe, List.flatMap_cons, ← rodataDe, slice_append_right (by simp),
        List.length_append, List.length_singleton, Nat.add_sub_cancel_left]
      exact ih hk

private theorem offCadena_add_le (hj : strings[j]? = some s) (hjk : j < k) :
    offCadena strings j + (textBytes s).length + 1 ≤ offCadena strings k := by
  induction strings generalizing j k with
  | nil => exact nomatch hj
  | cons u ss ih =>
    obtain ⟨k, rfl⟩ : ∃ k', k = k' + 1 := ⟨k - 1, by omega⟩
    cases j with
    | zero =>
      cases hj
      rw [offCadena_succ]
      simp only [offCadena, List.take_zero, List.map_nil, List.sum_nil]
      omega
    | succ j =>
      have h := ih (k := k) hj (by omega)
      rw [offCadena_succ, offCadena_succ]
      omega

private theorem offCadena_add_le_length (hk : strings[k]? = some s) :
    offCadena strings k + (textBytes s).length + 1 ≤ (rodataDe strings).length := by
  have h := congrArg List.length (slice_rodataDe hk)
  rw [slice, List.length_take, List.length_drop, List.length_append, List.length_singleton] at h
  omega

end

/-! ### The pieces of the code -/

section

variable {strings : List Text} {c : Codigo} {ts : List Trozo}

/-- The index that a load of `s` gets. -/
def indiceDe (strings : List Text) (s : Text) : Nat := (strings.findIdx? (· == s)).getD 0

private theorem leas_mem {o : Nat} {x : Nat × Text} (h : x ∈ leas o ts) : o + 3 ≤ x.1 := by
  induction ts generalizing o with
  | nil => exact nomatch h
  | cons t ts ih =>
    cases t with
    | bytes b => exact (Nat.add_le_add_right (Nat.le_add_right ..) 3).trans (ih h)
    | cadena s =>
      obtain rfl | h := List.mem_cons.mp h
      · exact Nat.le_refl _
      · have := ih h
        omega

private theorem leas_pairwise (o : Nat) (ts : List Trozo) :
    (leas o ts).Pairwise fun x y ↦ x.1 + 4 ≤ y.1 := by
  induction ts generalizing o with
  | nil => exact .nil
  | cons t ts ih =>
    cases t with
    | bytes b => exact ih _
    | cadena s =>
      refine List.pairwise_cons.mpr ⟨fun x hx ↦ ?_, ih _⟩
      have := leas_mem hx
      show o + 3 + 4 ≤ x.1
      omega

/-- **The emission**: a hole for each load, within the code and apart from the others. -/
theorem foldl_pon (ts : List Trozo) (c : Codigo) :
    (ts.foldl (Codigo.pon strings) c).fixups =
        c.fixups ++ (leas c.code.length ts).map (fun x ↦ ⟨x.1, indiceDe strings x.2⟩) ∧
      (∃ b, (ts.foldl (Codigo.pon strings) c).code = c.code ++ b) ∧
      ∀ x ∈ leas c.code.length ts, x.1 + 4 ≤ (ts.foldl (Codigo.pon strings) c).code.length ∧
        slice (ts.foldl (Codigo.pon strings) c).code x.1 4 = [0, 0, 0, 0] := by
  induction ts generalizing c with
  | nil => exact ⟨(List.append_nil _).symm, ⟨[], (List.append_nil _).symm⟩, List.forall_mem_nil _⟩
  | cons t ts ih =>
    cases t with
    | bytes b =>
      obtain ⟨hfix, ⟨b', hcode⟩, hleas⟩ := ih (c.pon strings (.bytes b))
      have hlen : (c.pon strings (.bytes b)).code.length = c.code.length + b.length :=
        List.length_append
      rw [hlen] at hfix hleas
      exact ⟨hfix, ⟨b ++ b', hcode.trans (List.append_assoc ..)⟩, hleas⟩
    | cadena s =>
      obtain ⟨hfix, ⟨b', hcode⟩, hleas⟩ := ih (c.pon strings (.cadena s))
      have hlen : (c.pon strings (.cadena s)).code.length = c.code.length + 7 := List.length_append
      rw [hlen] at hfix hleas
      have hhueco : (c.pon strings (.cadena s)).fixups =
          c.fixups ++ [⟨c.code.length + 3, indiceDe strings s⟩] := by
        simp [Codigo.pon, indiceDe]
      refine ⟨?_, ⟨_, hcode.trans (List.append_assoc ..)⟩, List.forall_mem_cons.mpr ⟨?_, hleas⟩⟩
      · rw [List.foldl_cons, hfix, hhueco, List.append_assoc]
        rfl
      · rw [List.foldl_cons, hcode]
        constructor
        · rw [List.length_append, hlen]
          show c.code.length + 3 + 4 ≤ _
          omega
        · have hcabe : c.code.length + 3 + 4 ≤ (c.pon strings (.cadena s)).code.length := hlen.ge
          rw [slice_append_left hcabe]
          show slice (c.code ++ _) (c.code.length + 3) 4 = _
          rw [slice_append_right (Nat.le_add_right ..), Nat.add_sub_cancel_left]
          rfl

end

/-! ### The distances -/

private theorem i32_emod (x : Int) : i32 (x % 2 ^ 32) = i32 x := Int.emod_bmod ..

private theorem i32_eq_self_iff {x : Int} : i32 x = x ↔ -2 ^ 31 ≤ x ∧ x < 2 ^ 31 := by
  constructor
  · intro h
    have hle := Int.le_bmod (x := x) (m := 2 ^ 32) (by decide)
    have hlt := Int.bmod_lt (x := x) (m := 2 ^ 32) (by decide)
    rw [i32] at h
    omega
  · rintro ⟨h, h'⟩
    exact i32_of_lt h h'

private theorem leNat_dispBytes (destino : Nat) (f : Fixup) :
    i32 (leNat (dispBytes destino f)) = i32 ((destino : Int) - (f.leaOffset + 4)) := by
  have hnonneg := Int.emod_nonneg ((destino : Int) - (f.leaOffset + 4)) (b := 2 ^ 32) (by decide)
  have hlt := Int.emod_lt_of_pos ((destino : Int) - (f.leaOffset + 4)) (b := 2 ^ 32) (by decide)
  rw [dispBytes, leNat_leBytes, Nat.mod_eq_of_lt (by omega), Int.toNat_of_nonneg hnonneg, i32_emod]

/-! ### A literal and its bytes -/

/-- A literal of the program that the walk enters: it initializes a global, or the walk of the
bodies gathers it. -/
def Programa.Entra (p : Programa) (s : Text) : Prop :=
  s ∈ p.globales.map (·.2) ∨
    ∃ c ∈ p.cuerpos, Alcanza (Stmt.impresasBlock c) (Stmt.exprsBlock c) s

/-- A literal that stands in an expression of a body. -/
def Programa.Escrita (p : Programa) (s : Text) : Prop :=
  ∃ c ∈ p.cuerpos, ∃ e ∈ Stmt.exprsBlock c, Dentro Expr.partes s e

/-- One that stands there down a part that the walk leaves out. -/
def Programa.Olvida (p : Programa) (s : Text) : Prop :=
  ∃ c ∈ p.cuerpos, ∃ e ∈ Stmt.exprsBlock c, Olvidado s e

private theorem Programa.Escrita.entra_or_olvida {p : Programa} {s : Text} (h : p.Escrita s) :
    p.Entra s ∨ p.Olvida s := by
  obtain ⟨c, hc, e, he, hs⟩ := h
  obtain hr | ho := hs.recorridas_or_olvidado
  · exact .inl (.inr ⟨c, hc, .inr ⟨e, he, hr⟩⟩)
  · exact .inr ⟨c, hc, e, he, ho⟩

theorem Programa.recoge (p : Programa) :
    Recoge p.puestas.1 (collectStrings p.puestas.1 p.cuerpos) fun s ↦
      ∃ c ∈ p.cuerpos, Alcanza (Stmt.impresasBlock c) (Stmt.exprsBlock c) s :=
  recoge_strings _ _

private theorem Programa.mem_strings {p : Programa} {s : Text} : s ∈ p.strings ↔ p.Entra s := by
  rw [strings, p.recoge.mem, puestas, (ponGlobales_spec ..).1.mem]
  simp [Programa.Entra]

private theorem Programa.nodup_strings (p : Programa) : p.strings.Nodup :=
  p.recoge.nodup ((ponGlobales_spec ..).1.nodup List.nodup_nil)

variable {p : Programa} {ts : List Trozo}

/-- What the code and `rodata` are when the holes are filled. -/
theorem Programa.compila_spec (p : Programa) (ts : List Trozo) :
    (p.compila ts).rodata = rodataDe p.strings ∧
      ∀ x ∈ leas 0 ts, x.1 + 4 ≤ (p.compila ts).code.length ∧
        slice (p.compila ts).code x.1 4 =
          if indiceDe p.strings x.2 < p.strings.length then
            dispBytes ((p.compila ts).vaRodata + offCadena p.strings (indiceDe p.strings x.2))
              ⟨x.1, indiceDe p.strings x.2⟩
          else [0, 0, 0, 0] := by
  obtain ⟨hfix, _, hleas⟩ := @foldl_pon p.strings ts ⟨[], []⟩
  set c := ts.foldl (Codigo.pon p.strings) ⟨[], []⟩ with hc
  have hfix : c.fixups = (leas 0 ts).map fun x ↦ ⟨x.1, indiceDe p.strings x.2⟩ := hfix
  obtain ⟨c', hlen, hpatch, hlos⟩ :=
    @patchCadenas_spec (hastaPagina c.code.length) 0 0 c.fixups c.code [] p.strings
      (by
        rw [hfix]
        intro f hf
        obtain ⟨x, hx, rfl⟩ := List.mem_map.mp hf
        exact (hleas x hx).1)
      (by
        rw [hfix, List.pairwise_map]
        exact (leas_pairwise 0 ts).imp Or.inl)
  rw [List.append_nil, List.append_nil] at hpatch
  have hcode : (p.compila ts).code = c' := by
    rw [compila, patchAllFixups, ← hc]
    show (patchCadenas _ _ 0 0 _ _).take _ = c'
    rw [hpatch, ← hlen, List.take_left]
  refine ⟨?_, fun x hx ↦ ?_⟩
  · rw [compila, patchAllFixups, ← hc]
    show (patchCadenas _ _ 0 0 _ _).drop _ = _
    rw [hpatch, ← hlen, List.drop_left]
  · have hx' := hlos ⟨x.1, indiceDe p.strings x.2⟩ (by
      rw [hfix]
      exact List.mem_map_of_mem hx)
    rw [Imagen.vaRodata, hcode, hlen]
    refine ⟨(hleas x hx).1, hx'.trans ?_⟩
    rw [(hleas x hx).2]
    simp only [Nat.zero_le, true_and, Nat.zero_add, Nat.sub_zero, Nat.add_zero]

/-- The bytes of `s` start at the address `a` of the image. -/
def Imagen.Tramo (i : Imagen) (strings : List Text) (s : Text) (a : Int) : Prop :=
  ∃ k, strings[k]? = some s ∧ a = i.vaRodata + offCadena strings k

/-- The bytes of the literals are in the image, each with its zero, after the code and before the
globals, and no two literals share one. -/
structure Imagen.Separa (i : Imagen) (strings : List Text) : Prop where
  bytes : ∀ k s, strings[k]? = some s →
    slice i.rodata (offCadena strings k) ((textBytes s).length + 1) = textBytes s ++ [0]
  tras : i.code.length ≤ i.vaRodata
  ante : ∀ k s, strings[k]? = some s →
    i.vaRodata + offCadena strings k + (textBytes s).length + 1 ≤ i.vaData
  apartes : ∀ j k s t, strings[j]? = some s → strings[k]? = some t → s ≠ t →
    offCadena strings j + (textBytes s).length + 1 ≤ offCadena strings k ∨
      offCadena strings k + (textBytes t).length + 1 ≤ offCadena strings j

private theorem le_hastaPagina (n : Nat) : n ≤ hastaPagina n := by
  unfold hastaPagina
  omega

theorem Programa.separa (p : Programa) (ts : List Trozo) : (p.compila ts).Separa p.strings := by
  have hrodata := (p.compila_spec ts).1
  refine ⟨fun k s hk ↦ ?_, le_hastaPagina _, fun k s hk ↦ ?_, fun j k s t hj hk hst ↦ ?_⟩
  · rw [hrodata]
    exact slice_rodataDe hk
  · have hle := offCadena_add_le_length hk
    have hpag := le_hastaPagina (rodataDe p.strings).length
    rw [Imagen.vaData, hrodata]
    omega
  · obtain hlt | rfl | hgt := Nat.lt_trichotomy j k
    · exact .inl (offCadena_add_le hj hlt)
    · exact absurd (Option.some.inj (hj.symm.trans hk)) hst
    · exact .inr (offCadena_add_le hk hgt)

private theorem Programa.relocs_compila {g : Nat × Text} (hg : g ∈ p.globales) :
    ∃ k, p.strings[k]? = some g.2 ∧ (g.1, offCadena p.strings k) ∈ (p.compila ts).relocs := by
  obtain ⟨k, hk, hmem⟩ := (ponGlobales_spec p.globales ⟨[], false, false⟩ []).2.2 g hg
  have hk := getElem?_of_prefix p.recoge.antes hk
  exact ⟨k, hk, List.mem_filterMap.mpr ⟨(g.1, k), hmem, if_pos (List.getElem?_eq_some_iff.mp hk).1⟩⟩

/-- **A load gives the bytes of its own literal** if and only if the walk entered it somewhere, and
the distance has 31 bits. -/
theorem Programa.tramo_iff {x : Nat × Text} (hx : x ∈ leas 0 ts) :
    (p.compila ts).Tramo p.strings x.2 ((p.compila ts).lea x.1) ↔
      p.Entra x.2 ∧
        (p.compila ts).vaRodata + offCadena p.strings (indiceDe p.strings x.2) <
          x.1 + 4 + 2 ^ 31 := by
  obtain ⟨hcabe, hhueco⟩ := (p.compila_spec ts).2 x hx
  have hva : x.1 + 4 ≤ (p.compila ts).vaRodata := hcabe.trans (le_hastaPagina _)
  by_cases hs : x.2 ∈ p.strings
  · have hi := findIdx?_getD hs
    rw [← indiceDe] at hi
    rw [if_pos (List.getElem?_eq_some_iff.mp hi).1] at hhueco
    have hlea : (p.compila ts).lea x.1 = x.1 + 4 + i32 (((p.compila ts).vaRodata +
        offCadena p.strings (indiceDe p.strings x.2) : Nat) - ((x.1 : Int) + 4)) := by
      rw [Imagen.lea, hhueco, leNat_dispBytes]
    have hself := i32_eq_self_iff (x := ((p.compila ts).vaRodata +
        offCadena p.strings (indiceDe p.strings x.2) : Nat) - ((x.1 : Int) + 4))
    rw [Imagen.Tramo, hlea]
    constructor
    · rintro ⟨k, hk, heq⟩
      have hki : k = indiceDe p.strings x.2 :=
        (List.getElem?_inj (List.getElem?_eq_some_iff.mp hk).1 p.nodup_strings).mp
          (hk.trans hi.symm)
      subst hki
      refine ⟨Programa.mem_strings.mp hs, ?_⟩
      have := hself.mp (by omega)
      omega
    · rintro ⟨_, hlt⟩
      refine ⟨_, hi, ?_⟩
      have := hself.mpr (by omega)
      omega
  · refine iff_of_false ?_ fun h ↦ hs (Programa.mem_strings.mpr h.1)
    rintro ⟨k, hk, _⟩
    exact hs (List.mem_of_getElem? hk)

/-- Where every load is of a literal that the program writes, none of them stands in a part that the
walk leaves out, and the image has at most 2 GiB before its globals, every load gives its bytes. -/
theorem Programa.llegan_todas {p : Programa} (hescritas : ∀ x ∈ leas 0 ts, p.Escrita x.2)
    (hninguna : ∀ s, ¬p.Olvida s) (hchica : (p.compila ts).vaData ≤ 2 ^ 31) :
    ∀ x ∈ leas 0 ts, (p.compila ts).Tramo p.strings x.2 ((p.compila ts).lea x.1) := by
  intro x hx
  have hentra : p.Entra x.2 := (hescritas x hx).entra_or_olvida.resolve_right (hninguna x.2)
  have hi : p.strings[indiceDe p.strings x.2]? = some x.2 :=
    findIdx?_getD (Programa.mem_strings.mpr hentra)
  have hante := (p.separa ts).ante _ _ hi
  refine (p.tramo_iff hx).mpr ⟨hentra, ?_⟩
  omega

/-- **The literals reach their own bytes**: those of the globals always, and those that the code
loads if and only if the walk enters each of them somewhere and the distance to it has 31 bits. What
the walk does not enter stands in an index of a name, in what is stored at it, in a compound
assignment or in the object of a field that is assigned. -/
theorem cadenas_llegan_iff (p : Programa) (ts : List Trozo) :
    (p.compila ts).Separa p.strings ∧
      (∀ g ∈ p.globales, ∃ k, p.strings[k]? = some g.2 ∧
        (g.1, offCadena p.strings k) ∈ (p.compila ts).relocs) ∧
      ((∀ x ∈ leas 0 ts, (p.compila ts).Tramo p.strings x.2 ((p.compila ts).lea x.1)) ↔
        ∀ x ∈ leas 0 ts, p.Entra x.2 ∧
          (p.compila ts).vaRodata + offCadena p.strings (indiceDe p.strings x.2) <
            x.1 + 4 + 2 ^ 31) ∧
      ∀ s, p.Escrita s → p.Entra s ∨ p.Olvida s :=
  ⟨p.separa ts, fun _ hg ↦ p.relocs_compila hg, forall₂_congr fun _ hx ↦ p.tramo_iff hx,
    fun _ hs ↦ hs.entra_or_olvida⟩

/-- `f("hola"); a[0] = "x";` -/
def dosCadenas : Programa :=
  ⟨[], [], [[.expr (.call ['f'] [.stringLit "hola".toList]),
    .expr (.assignSubscript ['a'] (.int 0) (.stringLit ['x']))]]⟩

/-- Its loads, with the call between them. -/
def dosCargas : List Trozo :=
  [.cadena "hola".toList, .bytes [0xE8, 0, 0, 0, 0], .cadena ['x']]

/-- The load of the second literal gives the first one. -/
theorem dosCadenas_segunda :
    dosCadenas.Escrita ['x'] ∧ (15, ['x']) ∈ leas 0 dosCargas ∧
      (dosCadenas.compila dosCargas).lea 15 = 4096 ∧
      (dosCadenas.compila dosCargas).vaRodata = 4096 ∧
      slice (dosCadenas.compila dosCargas).rodata 0 5 = [0x68, 0x6F, 0x6C, 0x61, 0] ∧
      ¬ (dosCadenas.compila dosCargas).Tramo dosCadenas.strings ['x'] 4096 := by
  have hstrings : dosCadenas.strings = ["hola".toList] := by decide
  have hescrita : Dentro Expr.partes ['x']
      (.assignSubscript ['a'] (.int 0) (.stringLit ['x']) : Expr Text) :=
    .parte (List.mem_cons_of_mem _ (List.mem_singleton_self _)) .aqui
  refine ⟨⟨_, List.mem_singleton_self _, _, List.mem_cons_of_mem _ (List.mem_singleton_self _),
    hescrita⟩, by decide, by decide, by decide, by decide, ?_⟩
  rintro ⟨k, hk, _⟩
  rw [hstrings] at hk
  exact absurd (List.mem_of_getElem? hk) (by decide)

end BmoX.C
