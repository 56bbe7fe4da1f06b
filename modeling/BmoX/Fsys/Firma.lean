import BmoX.Fsys.Andar
import BmoX.Hash.Arbol
import Mathlib.Data.String.Basic

/-!
# Reading a file and checking its signature

`fsys/estratos/walk.rs:106–210` and `cursor.rs:490–532`. A file is read whole and then hashed, or
hashed while its beginning is copied. Both ways walk the same tree, with receivers that stop at
different pieces.
-/

namespace BmoX.Fsys

open BmoX.Base BmoX.Blake3 BmoX.Estratos

/-! ### The code -/

/-- `Firma`; `cursor.rs:497–505`. -/
inductive Firma
  | cuadra
  | noCuadra
  | ausente
  deriving DecidableEq

/-- `firma`: the verdict over bytes already read; `cursor.rs:522–532`. -/
def firma (n : Nodo) (datos : Bytes) : Firma :=
  match n.attr attrFirma with
  | none => .ausente
  | some a =>
    match a.datosResidentes with
    | none => .ausente
    | some d =>
      if d.length = 32 then
        if (blake3 datos).1 = d then .cuadra else .noCuadra
      else .ausente

/-- What `:firma` says, if it is there; `walk.rs:138–148`. -/
def guardada (n : Nodo) : Option Hash :=
  match n.attr attrFirma with
  | none => none
  | some f =>
    match f.datosResidentes with
    | none => none
    | some d => if h : d.length = 32 then some ⟨d, h⟩ else none

/-- The variables of `read_and_sign`: the hasher, the part of the destination that is filled, and
the bytes seen; `walk.rs:150–152`. No hasher would be a panic inside it. -/
structure Pasada where
  h : Option Hasher
  copiados : Bytes
  vistos : Nat

/-- What `read_and_sign` does with a piece; `walk.rs:169–191`. -/
def tragar (tam hueco : Nat) : Salida Pasada := fun p trozo ↦
  let util := min trozo.length (tam - p.vistos)
  if util = 0 then (p, false)
  else
    let h := p.h.bind (·.update (trozo.take util))
    let vistos := p.vistos + util
    let n := min util (hueco - p.copiados.length)
    (⟨h, p.copiados ++ trozo.take n, vistos⟩, vistos < tam)

/-- The end of `read_and_sign`; `walk.rs:199–208`. -/
def veredicto (guardada : Option Hash) (h : Option Hasher) : Firma :=
  match guardada with
  | none => .ausente
  | some g => if h.map Hasher.finalize = some g then .cuadra else .noCuadra

/-- `read_and_sign`: the beginning of a file in a buffer of `hueco` bytes, its size and its
verdict, in one pass; `walk.rs:131–210`. -/
def readAndSign (n : Nodo) (hueco : Nat) : Prog nucleo (Option (Bytes × Nat × Firma)) := do
  if n.tipo ≠ .archivo then return none
  else
    match n.attr attrDatos with
    | none => return none
    | some a =>
      match a.datosResidentes with
      | some d =>
        return some (d.take (min d.length hueco), d.length,
          veredicto (guardada n) (Hasher.new.update d))
      | none =>
        match a.raiz with
        | none => return none
        | some raiz =>
          match ← (descender readBlock raiz a.levels.toNat (nivelesScratch - 1)
              (tragar a.size.toNat hueco) ⟨some .new, [], 0⟩).run with
          | .error _ => return none
          | .ok p => return some (p.copiados, p.vistos, veredicto (guardada n) p.h)

/-! ### What a tree has to hand over -/

/-- The pieces of a tree before the first place that cannot be read, and what is wrong there. -/
abbrev Recorrido := List Bytes × Option FormatError

/-- One walk after another: nothing follows an error. -/
def Recorrido.sigue (x y : Recorrido) : Recorrido :=
  match x.2 with
  | none => (x.1 ++ y.1, y.2)
  | some _ => x

/-- The bytes a pointer promises on a disk of which some blocks cannot be read. -/
def leido (disco : UInt64 → Option Bloque) (scratch : Nat) (p : BlockPtr) :
    Except FormatError Bytes :=
  if scratch = 0 then .error .sinScratch
  else
    match disco p.lba with
    | none => .error .io
    | some b =>
      if p.off.toNat + p.len.toNat > bloque then .error .badField
      else
        let datos := slice b.1 p.off.toNat p.len.toNat
        if p.verifica datos then .ok datos else .error .badChecksum

/-- The trees under the records of an index block, up to the null pointer. -/
def recorreHijos (baja : BlockPtr → Recorrido) : List Bytes → Recorrido
  | [] => ([], none)
  | r :: rs =>
    match BlockPtr.decode r with
    | .error e => ([], some e)
    | .ok hijo => if hijo.esNulo then ([], none) else (baja hijo).sigue (recorreHijos baja rs)

/-- The tree under a pointer. -/
def recorre (disco : UInt64 → Option Bloque) : Nat → Nat → BlockPtr → Recorrido
  | niveles, scratch, p =>
    match leido disco scratch p with
    | .error e => ([], some e)
    | .ok d =>
      match niveles with
      | 0 => ([d], none)
      | niveles + 1 => recorreHijos (recorre disco niveles (scratch - 1)) (records ptrLen d)

/-- A block with a piece at its start, read through its pointer. -/
theorem leido_nuevo {disco : UInt64 → Option Bloque} {scratch : Nat} {lba : UInt64} {d : Bytes} (hscr : scratch ≠ 0)
    (hd : d.length ≤ bloque) (hlba : disco lba = some (Arr.pad bloque d)) :
    leido disco scratch (.nuevo lba 0 d) = .ok d := by
  have hlee : leePtr (fun _ ↦ Arr.pad bloque d) (.nuevo lba 0 d) = some d := leePtr_nuevo hd rfl
  rw [leePtr] at hlee
  rw [leido, if_neg hscr]
  change (match disco lba with | none => _ | some b => _) = _
  rw [hlba]
  dsimp only at hlee ⊢
  split at hlee
  · cases hlee
  next hfin =>
  rw [if_neg hfin]
  split at hlee
  · next hver => rw [if_pos hver, Option.some.inj hlee]
  · cases hlee

private theorem recorreHijos_nuevo {hijo : BlockPtr → Recorrido} {lba : UInt64} {d : Bytes}
    (hlba : lba ≠ 0) (hd : d.length ≤ bloque) (rs : List Bytes) :
    recorreHijos hijo ((BlockPtr.nuevo lba 0 d).encode :: rs) =
      (hijo (.nuevo lba 0 d)).sigue (recorreHijos hijo rs) := by
  have hn : ¬(BlockPtr.nuevo lba 0 d).esNulo = true := by simp [BlockPtr.esNulo, BlockPtr.nuevo, hlba]
  rw [recorreHijos, BlockPtr.decode_encode (enBloque_nuevo hd)]
  exact if_neg hn

/-- A receiver gets the pieces; the error only shows when it still wants more. -/
def entrega {τ : Type} (salida : Salida τ) (x : Recorrido) (e : τ × Bool) :
    Except FormatError (τ × Bool) :=
  match x.2 with
  | none => .ok (alimentar salida x.1 e)
  | some err =>
    if (alimentar salida x.1 e).2 then .error err else .ok (alimentar salida x.1 e)

section Entrega

variable {τ : Type} {salida : Salida τ} {x y : Recorrido} {e : τ × Bool}

private theorem entrega_parado (h : e.2 = false) : entrega salida x e = .ok e := by
  rw [entrega, alimentar_parado h]
  cases x.2 with
  | none => rfl
  | some err => exact if_neg (by rw [h]; exact Bool.false_ne_true)

private theorem entrega_sigue :
    entrega salida (x.sigue y) e =
      match entrega salida x e with
      | .error err => .error err
      | .ok e' => entrega salida y e' := by
  obtain ⟨ts, r⟩ := x
  cases r with
  | none => simp only [Recorrido.sigue, entrega, alimentar_append]
  | some err =>
    rw [Recorrido.sigue]
    dsimp only [entrega]
    split
    · rfl
    · next h => exact (entrega_parado (by simpa using h)).symm

end Entrega

section Exec

variable {I : Interface} {σ τ : Type} {h : Prog.Handler I σ} {s : σ} {src : Fuente I}
  {disco : UInt64 → Option Bloque} {salida : Salida τ}

/-- Reading what a pointer promises. -/
theorem exec_leerPuntero (hsrc : ∀ lba, Prog.exec h (src lba) s = (disco lba, s)) (scratch : Nat)
    (p : BlockPtr) :
    Prog.exec h (leerPuntero src scratch p).run s = (leido disco scratch p, s) := by
  rw [leerPuntero, leido]
  split
  · rfl
  · rw [Prog.exec_lift_bind, hsrc]
    cases disco p.lba with
    | none => rfl
    | some b =>
      dsimp only
      split
      · rfl
      · split <;> rfl

/-- Walking the records of an index block, for a receiver that wants more. -/
theorem exec_bajarHijos
    {baja : BlockPtr → τ × Bool → ExceptT FormatError (Prog I) (τ × Bool)}
    {hijo : BlockPtr → Recorrido}
    (hbaja : ∀ p e, Prog.exec h (baja p e).run s = (entrega salida (hijo p) e, s))
    (rs : List Bytes) {e : τ × Bool} (he : e.2 = true) :
    Prog.exec h (bajarHijos baja rs e).run s = (entrega salida (recorreHijos hijo rs) e, s) := by
  induction rs generalizing e with
  | nil => rfl
  | cons r rs ih =>
    rw [bajarHijos, recorreHijos]
    cases hr : BlockPtr.decode r with
    | error err =>
      have herr : entrega salida ([], some err) e = .error err := if_pos he
      dsimp only
      rw [herr]
      rfl
    | ok p =>
      have hlift : (liftM (Except.ok p : Except FormatError BlockPtr) :
          ExceptT FormatError (Prog I) BlockPtr) = pure p := rfl
      rw [hlift, pure_bind]
      dsimp only
      by_cases hn : p.esNulo = true
      · rw [if_pos hn, if_pos hn]
        rfl
      · rw [if_neg hn, if_neg hn, Prog.exec_run_bind, hbaja, entrega_sigue]
        cases entrega salida (hijo p) e with
        | error err => rfl
        | ok e' =>
          dsimp only
          split
          · next he' => exact ih he'
          · next he' =>
            rw [entrega_parado (by simpa using he')]
            rfl

/-- A walk hands over the pieces of its tree up to where it cannot be read. -/
theorem exec_bajar (hsrc : ∀ lba, Prog.exec h (src lba) s = (disco lba, s)) (niveles scratch : Nat)
    (p : BlockPtr) (e : τ × Bool) :
    Prog.exec h (bajar src salida niveles scratch p e).run s =
      (entrega salida (recorre disco niveles scratch p) e, s) := by
  induction niveles generalizing scratch p e with
  | zero =>
    rw [bajar]
    split
    · next he =>
      rw [Prog.exec_run_bind, exec_leerPuntero hsrc, recorre]
      cases leido disco scratch p with
      | error err => exact congrArg (·, s) (if_pos he).symm
      | ok d => exact congrArg (·, s) (congrArg Except.ok (if_pos he).symm)
    · next he =>
      rw [entrega_parado (by simpa using he)]
      rfl
  | succ niveles ih =>
    rw [bajar]
    split
    · next he =>
      rw [Prog.exec_run_bind, exec_leerPuntero hsrc, recorre]
      cases leido disco scratch p with
      | error err => exact congrArg (·, s) (if_pos he).symm
      | ok d => exact exec_bajarHijos (ih (scratch - 1)) _ he
    · next he =>
      rw [entrega_parado (by simpa using he)]
      rfl

theorem exec_descender (hsrc : ∀ lba, Prog.exec h (src lba) s = (disco lba, s)) (raiz : BlockPtr)
    (niveles scratch : Nat) (t : τ) :
    Prog.exec h (descender src raiz niveles scratch salida t).run s =
      ((entrega salida (recorre disco niveles scratch raiz) (t, true)).map Prod.fst, s) := by
  rw [descender, Prog.exec_run_bind, exec_bajar hsrc]
  cases entrega salida (recorre disco niveles scratch raiz) (t, true) <;> rfl

end Exec

/-! ### The two receivers -/

section Receptores

variable {tam hueco : Nat} {ts : List Bytes}

/-- The state of the pass after the bytes `v`: all hashed and counted, and copied as far as they
fit. -/
structure Pasada.Tras (hueco : Nat) (v : Bytes) (p : Pasada) : Prop where
  h : ∃ partes : List Bytes, partes.flatten = v ∧ p.h = partes.foldlM Hasher.update .new
  copiados : p.copiados = v.take hueco
  vistos : p.vistos = v.length

/-- The bytes of a stream before its first empty piece. -/
def hastaVacia : List Bytes → Bytes
  | [] => []
  | d :: ts => if d = [] then [] else d ++ hastaVacia ts

private theorem hastaVacia_prefix (ts : List Bytes) : hastaVacia ts <+: ts.flatten := by
  induction ts with
  | nil => exact List.nil_prefix
  | cons d ts ih =>
    rw [hastaVacia, List.flatten_cons]
    split
    · exact List.nil_prefix
    · exact (List.prefix_append_right_inj d).mpr ih

section Pasada

variable {p : Pasada} {v d : Bytes}

private theorem tragar_para (hp : p.Tras hueco v) (h : d = [] ∨ tam ≤ v.length) :
    tragar tam hueco p d = (p, false) := by
  rw [tragar, hp.vistos]
  apply if_pos
  rcases h with rfl | h
  · exact Nat.zero_min _
  · rw [Nat.sub_eq_zero_of_le h, Nat.min_zero]

/-- Any other piece is hashed and counted up to the size, and copied as far as it fits. -/
theorem tragar_sigue (hp : p.Tras hueco v) (hd : d ≠ []) (hv : v.length < tam) :
    (tragar tam hueco p d).1.Tras hueco ((v ++ d).take tam) ∧
      (tragar tam hueco p d).2 = decide ((v ++ d).length < tam) := by
  have hpos : 0 < d.length := List.length_pos_iff.mpr hd
  have htake : (v ++ d).take tam = v ++ d.take (min d.length (tam - v.length)) := by
    rw [List.take_append, List.take_of_length_le hv.le, Nat.min_comm, ← List.take_eq_take_min]
  rw [tragar, hp.vistos, if_neg (by omega)]
  refine ⟨⟨?_, ?_, ?_⟩, ?_⟩
  · obtain ⟨partes, hpartes, hh⟩ := hp.h
    refine ⟨partes ++ [d.take (min d.length (tam - v.length))], ?_, ?_⟩
    · rw [htake, List.flatten_append, hpartes, List.flatten_singleton]
    · rw [List.foldlM_append, ← hh]
      cases p.h <;> simp
  · have hueco_eq : hueco - (v.take hueco).length = hueco - v.length := by
      rw [List.length_take]
      omega
    dsimp only
    rw [htake, hp.copiados, hueco_eq, List.take_append, List.take_take, Nat.min_comm]
  · dsimp only
    rw [htake, List.length_append, List.length_take]
    omega
  · apply decide_eq_decide.mpr
    rw [List.length_append]
    omega

/-- The pass reads a stream up to its size or its first empty piece. -/
theorem alimentar_tragar (hp : p.Tras hueco v) (hv : v.length ≤ tam) :
    (alimentar (tragar tam hueco) ts (p, true)).1.Tras hueco ((v ++ hastaVacia ts).take tam) := by
  induction ts generalizing p v with
  | nil =>
    rw [hastaVacia, List.append_nil, List.take_of_length_le hv]
    exact hp
  | cons d ts ih =>
    rw [alimentar, if_pos rfl, hastaVacia]
    by_cases hd : d = []
    · rw [tragar_para hp (.inl hd), alimentar_parado rfl, if_pos hd, List.append_nil,
        List.take_of_length_le hv]
      exact hp
    rcases Nat.eq_or_lt_of_le hv with heq | hlt
    · rw [tragar_para hp (.inr heq.ge), alimentar_parado rfl, List.take_left' heq]
      exact hp
    · obtain ⟨htras, hsigue⟩ := tragar_sigue hp hd hlt
      rw [if_neg hd, ← List.append_assoc]
      generalize tragar tam hueco p d = q at htras hsigue
      obtain ⟨p', sigue⟩ := q
      dsimp only at htras hsigue
      by_cases hcabe : (v ++ d).length < tam
      · rw [decide_eq_true hcabe] at hsigue
        rw [List.take_of_length_le hcabe.le] at htras
        rw [hsigue]
        exact ih htras hcabe.le
      · rw [decide_eq_false hcabe] at hsigue
        rw [alimentar_parado hsigue, List.take_append_of_le_length (Nat.not_lt.mp hcabe)]
        exact htras

/-- The pass wants more until it has the size or meets an empty piece. -/
theorem alimentar_tragar_sigue (hp : p.Tras hueco v) :
    (alimentar (tragar tam hueco) ts (p, true)).2 = true ↔
      ts = [] ∨ [] ∉ ts ∧ v.length + ts.flatten.length < tam := by
  induction ts generalizing p v with
  | nil => simp [alimentar]
  | cons d ts ih =>
    have hne : d :: ts ≠ [] := List.cons_ne_nil d ts
    rw [alimentar, if_pos rfl, or_iff_right hne, List.mem_cons, List.flatten_cons,
      List.length_append]
    by_cases hpara : d = [] ∨ tam ≤ v.length
    · rw [tragar_para hp hpara, alimentar_parado rfl]
      apply iff_of_false Bool.false_ne_true
      rintro ⟨hd, hlen⟩
      rcases hpara with rfl | hv
      · exact hd (.inl rfl)
      · omega
    obtain ⟨hd, hv⟩ := not_or.mp hpara
    obtain ⟨htras, hsigue⟩ := tragar_sigue hp hd (Nat.not_le.mp hv)
    generalize tragar tam hueco p d = q at htras hsigue
    obtain ⟨p', sigue⟩ := q
    dsimp only at htras hsigue
    rw [List.length_append] at hsigue
    by_cases hcabe : v.length + d.length < tam
    · rw [decide_eq_true hcabe] at hsigue
      rw [List.take_of_length_le (by rw [List.length_append]; exact hcabe.le)] at htras
      rw [hsigue, ih htras, List.length_append]
      cases ts with
      | nil => simp [hcabe, Ne.symm hd]
      | cons d' ts => simp [Ne.symm hd, Nat.add_assoc]
    · rw [decide_eq_false hcabe] at hsigue
      rw [alimentar_parado hsigue, hsigue]
      apply iff_of_false Bool.false_ne_true
      rintro ⟨-, hlen⟩
      omega

private theorem veredicto_tras {n : Nodo} (hp : p.Tras hueco v) (hv : v.length < 2 ^ 64) :
    veredicto (guardada n) p.h = firma n v := by
  obtain ⟨partes, rfl, hh⟩ := hp.h
  obtain ⟨s, hs, hfin⟩ := finalize_partes hv.le
  rw [guardada, firma]
  cases n.attr attrFirma with
  | none => rfl
  | some a =>
    dsimp only
    cases a.datosResidentes with
    | none => rfl
    | some d =>
      dsimp only
      by_cases hd : d.length = 32
      · rw [dif_pos hd, if_pos hd]
        change (if p.h.map Hasher.finalize = some ⟨d, hd⟩ then Firma.cuadra else .noCuadra) = _
        have hiff : p.h.map Hasher.finalize = some ⟨d, hd⟩ ↔ (blake3 partes.flatten).1 = d := by
          rw [hh, hs, Option.map_some, hfin]
          exact Option.some_inj.trans Subtype.ext_iff
        exact if_congr hiff rfl rfl
      · rw [dif_neg hd, if_neg hd]
        rfl

end Pasada

end Receptores

/-! ### The two ways to read a file -/

/-- A machine that is only read from, and cannot read some blocks. -/
def soloLee (disco : UInt64 → Option Bloque) : Prog.Handler nucleo Unit
  | .lee lba, s => (disco lba, s)
  | .escribe _ _, s => (false, s)
  | .escribeSuper _ _, s => (false, s)
  | .vacia, s => (false, s)
  | .memoria, s => (⟨none, false⟩, s)
  | .fija _, s => ((), s)
  | .idDisco, s => (noHash, s)
  | .ahora, s => (0, s)
  | .pidActual, s => (0, s)
  | .tamano _, s => (none, s)
  | .abrirRangos _, s => (false, s)
  | .leerRango _ _ _, s => (⟨[], Nat.zero_le _⟩, s)

/-- A file node and its `:datos`. -/
structure Archivo where
  nodo : Nodo
  datos : Attr
  tipo_eq : nodo.tipo = .archivo
  attr_eq : nodo.attr attrDatos = some datos

namespace Archivo

variable (f : Archivo) (disco : UInt64 → Option Bloque) (hueco : Nat)

/-- What `flujo` reads of it. -/
def flujo : Option Bytes := (Prog.exec (soloLee disco) (Fsys.flujo f.datos hueco) ()).1

/-- What `read_and_sign` answers. -/
def pasada : Option (Bytes × Nat × Firma) :=
  (Prog.exec (soloLee disco) (readAndSign f.nodo hueco) ()).1

/-- The tree of its `:datos`, as far as the disk can be read. -/
def arbol : Recorrido :=
  recorre disco f.datos.levels.toNat (nivelesScratch - 1) f.datos.puntero

/-- The two paths agree: what `flujo` reads is what `read_and_sign` copies, counts and judges, and
a smaller buffer only shortens what is copied. -/
structure Acuerdo : Prop where
  lectura : ∀ b, f.flujo disco hueco = some b →
    f.pasada disco hueco = some (b, b.length, firma f.nodo b)
  menor : ∀ hueco' ≤ hueco, f.pasada disco hueco' =
    (f.pasada disco hueco).map fun r ↦ (r.1.take hueco', r.2)

/-- The content is in the node; or its tree cannot be read as far as the buffer; or before its
first empty piece it has as many bytes as the size, or all of them. -/
def Sano : Prop :=
  f.datos.esResidente = true ∨
    (f.arbol disco).2.isSome = true ∧ (f.arbol disco).1.flatten.length < hueco ∨
    f.datos.size.toNat ≤ (hastaVacia (f.arbol disco).1).length ∨
    hastaVacia (f.arbol disco).1 = (f.arbol disco).1.flatten

/-- The answer of a pass over the bytes `d`. -/
def respuesta (d : Bytes) : Bytes × Nat × Firma := (d.take hueco, d.length, firma f.nodo d)

variable {f disco hueco}

private theorem respuesta_cabe {d : Bytes} (h : d.length ≤ hueco) :
    f.respuesta hueco d = (d, d.length, firma f.nodo d) := by
  rw [respuesta, List.take_of_length_le h]

private theorem respuesta_menor {hueco' : Nat} (hh : hueco' ≤ hueco) (d : Bytes) :
    f.respuesta hueco' d = ((f.respuesta hueco d).1.take hueco', (f.respuesta hueco d).2) := by
  rw [respuesta, respuesta, List.take_take, Nat.min_eq_left hh]

section Arbol

variable {τ : Type} {salida : Salida τ} {t : τ}

private theorem exec_arbol_error (herr : (f.arbol disco).2.isSome = true)
    (hq : (alimentar salida (f.arbol disco).1 (t, true)).2 = true) :
    ∃ err, Prog.exec (soloLee disco) (descender readBlock f.datos.puntero f.datos.levels.toNat
      (nivelesScratch - 1) salida t).run () = (.error err, ()) := by
  obtain ⟨err, herr⟩ := Option.isSome_iff_exists.mp herr
  rw [exec_descender (fun _ ↦ rfl)]
  change ∃ err, ((entrega salida (f.arbol disco) (t, true)).map Prod.fst, ()) = _
  refine ⟨err, ?_⟩
  simp [entrega, herr, hq, Except.map]

private theorem exec_arbol_ok (h : ¬((f.arbol disco).2.isSome = true ∧
      (alimentar salida (f.arbol disco).1 (t, true)).2 = true)) :
    Prog.exec (soloLee disco) (descender readBlock f.datos.puntero f.datos.levels.toNat
      (nivelesScratch - 1) salida t).run () =
        (.ok (alimentar salida (f.arbol disco).1 (t, true)).1, ()) := by
  rw [exec_descender (fun _ ↦ rfl)]
  change ((entrega salida (f.arbol disco) (t, true)).map Prod.fst, ()) = _
  rw [entrega]
  cases herr : (f.arbol disco).2 with
  | none => rfl
  | some err =>
    have hq : ¬(alimentar salida (f.arbol disco).1 (t, true)).2 = true := fun hq ↦
      h ⟨by rw [herr]; rfl, hq⟩
    simp [hq, Except.map]

end Arbol

private theorem flujo_residente (h : f.datos.esResidente = true) (hh : f.datos.size.toNat ≤ hueco) :
    f.flujo disco hueco = some (f.datos.cuerpo.1.take f.datos.size.toNat) := by
  have hlen : (f.datos.cuerpo.1.take f.datos.size.toNat).length ≤ f.datos.size.toNat :=
    List.length_take_le ..
  rw [flujo, Fsys.flujo, Attr.datosResidentes, if_pos h]
  dsimp only
  rw [if_neg (by omega)]
  rfl

/-- A tree is read until the buffer is full. -/
theorem flujo_arbol (h : f.datos.esResidente = false) :
    f.flujo disco hueco =
      if (f.arbol disco).2.isSome = true ∧
          ((f.arbol disco).1 = [] ∨ (f.arbol disco).1.flatten.length < hueco) then none
      else some (((f.arbol disco).1.flatten.take hueco).take f.datos.size.toNat) := by
  have hvacio : ([] : Bytes).length ≤ hueco := Nat.zero_le hueco
  have hcaer : (alimentar (caer hueco) (f.arbol disco).1 ([], true)).1 =
      (f.arbol disco).1.flatten.take hueco := alimentar_caer hvacio
  have hsigue : (alimentar (caer hueco) (f.arbol disco).1 ([], true)).2 = true ↔ _ :=
    alimentar_caer_sigue hvacio
  rw [List.length_nil, Nat.zero_add] at hsigue
  have hno : ¬f.datos.esResidente = true := by simp [h]
  rw [flujo, Fsys.flujo, Attr.datosResidentes, Attr.raiz, if_neg hno, if_neg hno]
  dsimp only
  rw [Prog.exec_bind]
  by_cases hfalla : (f.arbol disco).2.isSome = true ∧
      ((f.arbol disco).1 = [] ∨ (f.arbol disco).1.flatten.length < hueco)
  · obtain ⟨err, hexec⟩ := exec_arbol_error hfalla.1 (hsigue.mpr hfalla.2)
    rw [hexec, if_pos hfalla]
    rfl
  · rw [exec_arbol_ok fun hn ↦ hfalla ⟨hn.1, hsigue.mp hn.2⟩, if_neg hfalla, hcaer,
      @List.take_eq_take_min _ _ f.datos.size.toNat]
    rfl

private theorem pasada_residente (h : f.datos.esResidente = true) :
    f.pasada disco hueco =
      some (f.respuesta hueco (f.datos.cuerpo.1.take f.datos.size.toNat)) := by
  have hd : (f.datos.cuerpo.1.take f.datos.size.toNat).length < 2 ^ 64 := by
    rw [List.length_take]
    have := f.datos.size.toNat_lt
    omega
  generalize hdef : f.datos.cuerpo.1.take f.datos.size.toNat = d at hd
  have htras : Pasada.Tras 0 d ⟨Hasher.new.update d, [], d.length⟩ :=
    ⟨⟨[d], by simp, by simp⟩, rfl, rfl⟩
  rw [pasada, readAndSign, if_neg (by simp [f.tipo_eq]), f.attr_eq]
  dsimp only
  rw [Attr.datosResidentes, if_pos h, hdef, respuesta, ← veredicto_tras htras hd,
    @List.take_eq_take_min _ _ hueco, Nat.min_comm]
  rfl

/-- A tree is hashed until its size or its first empty piece. -/
theorem pasada_arbol (h : f.datos.esResidente = false) :
    f.pasada disco hueco =
      if (f.arbol disco).2.isSome = true ∧ ((f.arbol disco).1 = [] ∨ [] ∉ (f.arbol disco).1 ∧
          (f.arbol disco).1.flatten.length < f.datos.size.toNat) then none
      else some (f.respuesta hueco ((hastaVacia (f.arbol disco).1).take f.datos.size.toNat)) := by
  have hini : Pasada.Tras hueco [] ⟨some .new, [], 0⟩ := ⟨⟨[], rfl, rfl⟩, List.take_nil.symm, rfl⟩
  have htras : Pasada.Tras hueco ((hastaVacia (f.arbol disco).1).take f.datos.size.toNat)
      (alimentar (tragar f.datos.size.toNat hueco) (f.arbol disco).1 (_, true)).1 :=
    alimentar_tragar hini (Nat.zero_le _)
  have hsigue : (alimentar (tragar f.datos.size.toNat hueco) (f.arbol disco).1 (_, true)).2 = true ↔
      _ := alimentar_tragar_sigue hini
  rw [List.length_nil, Nat.zero_add] at hsigue
  have hno : ¬f.datos.esResidente = true := by simp [h]
  rw [pasada, readAndSign, if_neg (by simp [f.tipo_eq]), f.attr_eq]
  dsimp only
  rw [Attr.datosResidentes, Attr.raiz, if_neg hno, if_neg hno]
  dsimp only
  rw [Prog.exec_bind]
  by_cases hfalla : (f.arbol disco).2.isSome = true ∧ ((f.arbol disco).1 = [] ∨
      [] ∉ (f.arbol disco).1 ∧ (f.arbol disco).1.flatten.length < f.datos.size.toNat)
  · obtain ⟨err, hexec⟩ := exec_arbol_error hfalla.1 (hsigue.mpr hfalla.2)
    rw [hexec, if_pos hfalla]
    rfl
  · have hlen : ((hastaVacia (f.arbol disco).1).take f.datos.size.toNat).length < 2 ^ 64 := by
      rw [List.length_take]
      have := f.datos.size.toNat_lt
      omega
    rw [exec_arbol_ok fun hn ↦ hfalla ⟨hn.1, hsigue.mp hn.2⟩, if_neg hfalla]
    dsimp only
    rw [respuesta, ← htras.copiados, ← htras.vistos, ← veredicto_tras htras hlen]
    rfl

private theorem pasada_menor {hueco' : Nat} (hh : hueco' ≤ hueco) :
    f.pasada disco hueco' = (f.pasada disco hueco).map fun r ↦ (r.1.take hueco', r.2) := by
  cases h : f.datos.esResidente with
  | true =>
    rw [pasada_residente h, pasada_residente h, respuesta_menor hh]
    rfl
  | false =>
    rw [pasada_arbol h, pasada_arbol h]
    split
    · rfl
    · rw [respuesta_menor hh]
      rfl

private theorem take_hastaVacia {ts : List Bytes} {tam : Nat}
    (h : tam ≤ (hastaVacia ts).length ∨ hastaVacia ts = ts.flatten) :
    (hastaVacia ts).take tam = ts.flatten.take tam := by
  rcases h with h | h
  · obtain ⟨resto, hresto⟩ := hastaVacia_prefix ts
    rw [← hresto, List.take_append_of_le_length h]
  · rw [h]

private theorem length_take_hastaVacia {ts : List Bytes} {tam : Nat}
    (h : ((hastaVacia ts).take tam).length = (ts.flatten.take tam).length) :
    tam ≤ (hastaVacia ts).length ∨ hastaVacia ts = ts.flatten := by
  have hpre := hastaVacia_prefix ts
  have hle := hpre.length_le
  rw [List.length_take, List.length_take] at h
  by_cases hc : tam ≤ (hastaVacia ts).length
  · exact .inl hc
  · exact .inr (hpre.eq_of_length (by omega))

/-- The two paths agree exactly when no empty piece hides bytes of the file. -/
theorem acuerdo_iff_sano (f : Archivo) (disco : UInt64 → Option Bloque) (sobra : Nat) :
    f.Acuerdo disco (f.datos.size.toNat + sobra) ↔ f.Sano disco (f.datos.size.toNat + sobra) := by
  have htam : f.datos.size.toNat ≤ f.datos.size.toNat + sobra := Nat.le_add_right ..
  generalize f.datos.size.toNat + sobra = hueco at htam
  have hcabe : ∀ d : Bytes, (d.take f.datos.size.toNat).length ≤ hueco := fun d ↦
    (List.length_take_le ..).trans htam
  have hcorto : ∀ d : Bytes, (d.take hueco).take f.datos.size.toNat = d.take f.datos.size.toNat :=
    fun d ↦ by rw [List.take_take, Nat.min_eq_left htam]
  cases h : f.datos.esResidente with
  | true =>
    refine iff_of_true ⟨fun b hb ↦ ?_, fun _ ↦ pasada_menor⟩ (.inl h)
    rw [flujo_residente h htam, Option.some_inj] at hb
    rw [pasada_residente h, ← hb, respuesta_cabe (hcabe _)]
  | false =>
    constructor
    · intro hac
      by_cases hfalla : (f.arbol disco).2.isSome = true ∧ (f.arbol disco).1.flatten.length < hueco
      · exact .inr (.inl hfalla)
      by_cases hts : (f.arbol disco).1 = []
      · exact .inr (.inr (.inr (by rw [hts]; rfl)))
      -- `flujo` reads the file, so both count the same bytes
      have hlee : f.flujo disco hueco = _ := flujo_arbol h
      rw [if_neg fun hn ↦ hfalla ⟨hn.1, hn.2.resolve_left hts⟩, hcorto] at hlee
      have hpasada := hac.lectura _ hlee
      rw [pasada_arbol h] at hpasada
      split at hpasada
      · cases hpasada
      · exact .inr (.inr (length_take_hastaVacia (Prod.mk.inj
          (Prod.mk.inj (Option.some.inj hpasada)).2).1))
    · intro hsano
      refine ⟨fun b hb ↦ ?_, fun _ ↦ pasada_menor⟩
      rw [flujo_arbol h] at hb
      split at hb
      · cases hb
      next hfalla =>
      cases hb
      have hc := hsano.resolve_left (by simp [h])
      have hc := hc.resolve_left fun hn ↦ hfalla ⟨hn.1, .inr hn.2⟩
      rw [pasada_arbol h, if_neg, take_hastaVacia hc, respuesta_cabe (hcabe _), hcorto]
      rintro ⟨herr, hts | ⟨-, hlen⟩⟩
      · exact hfalla ⟨herr, .inl hts⟩
      · exact hfalla ⟨herr, .inr (Nat.lt_of_lt_of_le hlen htam)⟩

/-- An index block over three pieces; the one in the middle is empty. -/
def indice : Bytes :=
  [BlockPtr.nuevo 2 0 [1], BlockPtr.nuevo 3 0 [], BlockPtr.nuevo 4 0 [2]].flatMap BlockPtr.encode

/-- A disk with those blocks. -/
def discoConVacia (lba : UInt64) : Option Bloque :=
  some (Arr.pad bloque (if lba = 1 then indice else if lba = 2 then [1] else if lba = 4 then [2]
    else []))

/-- The `:datos` of two bytes over that index block. -/
def datosConVacia : Attr :=
  ⟨.deTexto attrDatos (by decide), 2, 1, false, Arr.pad residenteMax [], .nuevo 1 0 indice⟩

/-- A file with that `:datos` and no signature. -/
def conVacia : Archivo where
  nodo := ⟨.archivo, [datosConVacia], by decide⟩
  datos := datosConVacia
  tipo_eq := rfl
  attr_eq := by simp [Nodo.attr, Attr.nombreStr, datosConVacia]

private theorem arbol_conVacia : conVacia.arbol discoConVacia = ([[1], [], [2]], none) := by
  have hlen : indice.length = 144 := length_flatMap_const BlockPtr.length_encode _
  have hraiz : leido discoConVacia 4 (.nuevo 1 0 indice) = .ok indice :=
    leido_nuevo (by decide) (by rw [hlen]; decide) rfl
  have hhoja : ∀ (lba : UInt64) (d : Bytes), d.length ≤ 1 →
      discoConVacia lba = some (Arr.pad bloque d) →
      recorre discoConVacia 0 3 (.nuevo lba 0 d) = ([d], none) := fun lba d hd hlba ↦ by
    rw [recorre, leido_nuevo (by decide) (hd.trans (by decide)) hlba]
  change recorre discoConVacia 1 4 (.nuevo 1 0 indice) = _
  rw [recorre, hraiz]
  dsimp only
  rw [indice, records_flatMap (by decide) BlockPtr.length_encode, List.map_cons, List.map_cons,
    List.map_cons, recorreHijos_nuevo (by decide) (by decide),
    recorreHijos_nuevo (by decide) (by decide), recorreHijos_nuevo (by decide) (by decide),
    hhoja 2 [1] (by decide) rfl, hhoja 3 [] (by decide) rfl, hhoja 4 [2] (by decide) rfl]
  rfl

/-- `flujo` reads the two bytes; `read_and_sign` stops before the second. -/
theorem vacia_en_medio :
    conVacia.flujo discoConVacia 2 = some [1, 2] ∧
      conVacia.pasada discoConVacia 2 = some ([1], 1, .ausente) ∧
      ¬conVacia.Acuerdo discoConVacia 2 := by
  have hflujo : conVacia.flujo discoConVacia 2 = some [1, 2] := by
    rw [flujo_arbol rfl, arbol_conVacia]
    rfl
  have hpasada : conVacia.pasada discoConVacia 2 = some ([1], 1, .ausente) := by
    have hfirma : firma conVacia.nodo [1] = .ausente := by
      simp [firma, Nodo.attr, conVacia, Attr.nombreStr, datosConVacia, attrDatos, attrFirma]
    rw [pasada_arbol rfl, arbol_conVacia]
    exact congrArg (fun v ↦ some (([1] : Bytes), 1, v)) hfirma
  refine ⟨hflujo, hpasada, fun hac ↦ ?_⟩
  have := hac.lectura _ hflujo
  rw [hpasada] at this
  cases this

end Archivo

end BmoX.Fsys
