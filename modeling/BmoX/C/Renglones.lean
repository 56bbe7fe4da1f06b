import BmoX.Base.Checked
import BmoX.Base.Utf8
import BmoX.C.Preprocesa

/-!
# An expansion is one line

Nothing that the scanners of the preprocessor copy, and no body of a macro, has an end of line in it, so
that a line of code is one line of the text.
-/

namespace BmoX.C.Pre

open BmoX.Base

/-- Text of one line. -/
def SinSalto (t : Text) : Prop := '\n' ∉ t

instance (t : Text) : Decidable (SinSalto t) := inferInstanceAs (Decidable (_ ∉ _))

theorem sinSalto_nil : SinSalto [] := List.not_mem_nil

theorem sinSalto_cons {c : Char} {t : Text} : SinSalto (c :: t) ↔ c ≠ '\n' ∧ SinSalto t := by
  unfold SinSalto
  rw [List.mem_cons, not_or]
  exact and_congr_left' ne_comm

private theorem sinSalto_append {a b : Text} : SinSalto (a ++ b) ↔ SinSalto a ∧ SinSalto b := by
  unfold SinSalto
  rw [List.mem_append, not_or]

theorem SinSalto.subset {a b : Text} (h : SinSalto b) (hsub : a ⊆ b) : SinSalto a :=
  fun hmem ↦ h (hsub hmem)

theorem SinSalto.dropWhile {t : Text} (h : SinSalto t) (p : Char → Bool) :
    SinSalto (t.dropWhile p) := h.subset (List.dropWhile_subset p)

theorem SinSalto.takeWhile {t : Text} (h : SinSalto t) (p : Char → Bool) :
    SinSalto (t.takeWhile p) := h.subset (List.takeWhile_subset p)

private theorem sinSalto_reverse {t : Text} : SinSalto t.reverse ↔ SinSalto t := by
  unfold SinSalto
  rw [List.mem_reverse]

theorem SinSalto.recortaFin {t : Text} (h : SinSalto t) (p : Char → Bool) :
    SinSalto (recortaFin p t) :=
  sinSalto_reverse.mpr ((sinSalto_reverse.mpr h).dropWhile p)

theorem SinSalto.trim {t : Text} (h : SinSalto t) : SinSalto (trim t) :=
  (h.dropWhile isBlank).recortaFin isBlank

/-! ### Scanners -/

private theorem sinSalto_latin {c : Char} (h : c ≠ '\n') : SinSalto (latin c) := by
  intro hmem
  obtain ⟨b, hb, heq⟩ := List.mem_map.mp hmem
  have hvalid : b.toNat.isValidChar := .inl (Nat.lt_of_lt_of_le b.toNat_lt (by decide))
  have hval : (Char.ofNat b.toNat).toNat = b.toNat := by
    rw [Char.ofNat, dif_pos hvalid]
    rfl
  have hnat : b.toNat = 10 := hval.symm.trans (congrArg Char.toNat heq)
  have hc := toNat_of_mem_utf8EncodeChar hb (by omega)
  exact h (Char.toNat_inj.mp (hc.trans hnat))

private theorem copiarLiteral_append (q : Char) (t : Text) :
    (copiarLiteral q t).1 ++ (copiarLiteral q t).2 = t := by
  fun_induction copiarLiteral q t with
  | case1 => rfl
  | case2 => rfl
  | case3 d r' hd out resto heq ih =>
    rw [heq] at ih
    exact congrArg (fun t ↦ '\\' :: d :: t) ih
  | case4 d r' hd out resto heq ih =>
    rw [heq] at ih
    exact congrArg ('\\' :: ·) ih
  | case5 => rfl
  | case6 c r hbarra hq out resto heq ih =>
    rw [heq] at ih
    exact congrArg (c :: ·) ih

theorem SinSalto.copiarLiteral {t : Text} (h : SinSalto t) (q : Char) :
    SinSalto (copiarLiteral q t).1 ∧ SinSalto (copiarLiteral q t).2 := by
  rw [← sinSalto_append, copiarLiteral_append]
  exact h

private theorem quita_eq {p t resto : Text} (h : quita p t = some resto) : t = p ++ resto := by
  fun_induction quita p t with
  | case1 t => exact Option.some.inj h
  | case2 => exact nomatch h
  | case3 ps c t ih => rw [List.cons_append, ← ih h]
  | case4 => exact nomatch h

private theorem busca_eq {p t antes despues : Text} (h : busca p t = some (antes, despues)) :
    t = antes ++ p ++ despues := by
  induction t generalizing antes with
  | nil =>
    rw [busca] at h
    split at h
    · next hp =>
      cases h
      rw [hp]
      rfl
    · exact nomatch h
  | cons c t ih =>
    rw [busca] at h
    split at h
    · next resto hq =>
      cases h
      exact quita_eq hq
    · obtain ⟨⟨antes', despues'⟩, hb, heq⟩ := Option.map_eq_some_iff.mp h
      cases heq
      rw [ih hb]
      rfl

theorem SinSalto.reemplaza {p con t : Text} (h : SinSalto t) (hcon : SinSalto con) :
    SinSalto (reemplaza p con t) := by
  unfold Pre.reemplaza
  generalize t.length = n
  induction n generalizing t with
  | zero => exact h
  | succ n ih =>
    rw [reemplazaDesde]
    split
    · next antes despues hb =>
      rw [busca_eq hb, sinSalto_append, sinSalto_append] at h
      exact sinSalto_append.mpr ⟨sinSalto_append.mpr ⟨h.1.1, hcon⟩, ih h.2⟩
    · exact h

/-- The arguments of a call, and what is left after it. -/
theorem SinSalto.recogerDesde {n : Nat} {t actual resto : Text} {nivel : Int}
    {args as : List Text} (ht : SinSalto t) (hargs : ∀ a ∈ args, SinSalto a)
    (hactual : SinSalto actual) (h : recogerDesde n t nivel args actual = some (as, resto)) :
    (∀ a ∈ as, SinSalto a) ∧ SinSalto resto := by
  have hmas {args : List Text} {a : Text} (hargs : ∀ a ∈ args, SinSalto a) (ha : SinSalto a) :
      ∀ x ∈ args ++ [a], SinSalto x := by
    intro x hx
    rcases List.mem_append.mp hx with hx | hx
    · exact hargs x hx
    · rwa [List.mem_singleton.mp hx]
  induction n generalizing t nivel args actual with
  | zero => exact nomatch h
  | succ n ih =>
    cases t with
    | nil => exact nomatch h
    | cons c r =>
      obtain ⟨hc, hr⟩ := sinSalto_cons.mp ht
      rw [Pre.recogerDesde] at h
      split at h
      · obtain ⟨hlit, hresto⟩ := hr.copiarLiteral c
        exact ih hresto hargs (sinSalto_append.mpr ⟨hactual, sinSalto_cons.mpr ⟨hc, hlit⟩⟩) h
      · have huno : SinSalto (actual ++ [c]) :=
          sinSalto_append.mpr ⟨hactual, sinSalto_cons.mpr ⟨hc, sinSalto_nil⟩⟩
        split at h
        · refine ih hr hargs ?_ h
          split
          · exact huno
          · exact hactual
        · split at h
          · split at h
            · dsimp only at h
              cases h
              refine ⟨?_, hr⟩
              split
              · exact hargs
              · exact hmas hargs hactual.trim
            · exact ih hr hargs huno h
          · split at h
            · exact ih hr (hmas hargs hactual.trim) sinSalto_nil h
            · exact ih hr hargs (sinSalto_append.mpr ⟨hactual, sinSalto_latin hc⟩) h

theorem SinSalto.recogerArgs {t resto : Text} {as : List Text} (ht : SinSalto t)
    (h : recogerArgs t = some (as, resto)) : (∀ a ∈ as, SinSalto a) ∧ SinSalto resto :=
  ht.recogerDesde (List.forall_mem_nil _) sinSalto_nil h

private theorem trasComentario_subset (t : Text) : trasComentario t ⊆ t := by
  fun_induction trasComentario t with
  | case1 r => exact List.subset_cons_of_subset _ (List.subset_cons_self ..)
  | case2 => exact List.Subset.refl _
  | case3 => exact List.nil_subset _
  | case4 c r _ _ ih => exact fun x hx ↦ List.mem_cons_of_mem c (ih hx)

theorem SinSalto.sinComentariosDesde {n : Nat} {q : Option Char} {t out : Text} (ht : SinSalto t)
    (h : sinComentariosDesde n q t = some out) : SinSalto out := by
  induction n generalizing q t out with
  | zero =>
    cases h
    exact sinSalto_nil
  | succ n ih =>
    cases t with
    | nil =>
      cases q <;> (cases h; exact sinSalto_nil)
    | cons c r =>
      obtain ⟨hc, hr⟩ := sinSalto_cons.mp ht
      have hpon {q : Option Char} {c : Char} {r : Text} (hc : c ≠ '\n') (hr : SinSalto r)
          (h : (Pre.sinComentariosDesde n q r).map (c :: ·) = some out) : SinSalto out := by
        obtain ⟨out', hout, rfl⟩ := Option.map_eq_some_iff.mp h
        exact sinSalto_cons.mpr ⟨hc, ih hr hout⟩
      unfold Pre.sinComentariosDesde at h
      cases q with
      | some q =>
        dsimp only at h
        split at h
        · split at h
          · next d r' =>
            obtain ⟨hd, hr'⟩ := sinSalto_cons.mp hr
            split at h
            · obtain ⟨out', hout, rfl⟩ := Option.map_eq_some_iff.mp h
              exact sinSalto_cons.mpr ⟨hc, sinSalto_cons.mpr ⟨hd, ih hr' hout⟩⟩
            · exact nomatch h
          · cases h
            exact sinSalto_cons.mpr ⟨hc, sinSalto_nil⟩
        · split at h
          · exact hpon hc hr h
          · exact hpon hc hr h
      | none =>
        dsimp only at h
        split at h
        · exact hpon hc hr h
        · split at h
          · next r' _ =>
            exact hpon (by decide) ((sinSalto_cons.mp hr).2.subset (trasComentario_subset r')) h
          · cases h
            exact sinSalto_nil
          · exact hpon hc hr h

theorem SinSalto.sinComentarios {t out : Text} (ht : SinSalto t)
    (h : sinComentarios t = some out) : SinSalto out := by
  obtain ⟨out', hout, rfl⟩ := Option.map_eq_some_iff.mp h
  exact (ht.sinComentariosDesde hout).trim

/-! ### Macros -/

theorem SinSalto.escapa {t : Text} (h : SinSalto t) : SinSalto (escapa t) := by
  intro hmem
  obtain ⟨c, hc, hsalto⟩ := List.mem_flatMap.mp hmem
  have hne : '\n' ≠ c := fun heq ↦ h (heq ▸ hc)
  split at hsalto
  · rcases List.mem_cons.mp hsalto with hno | hsalto
    · exact nomatch hno
    · exact hne (List.mem_singleton.mp hsalto)
  · exact hne (List.mem_singleton.mp hsalto)

private theorem sinSalto_uneComas {args : List Text} (h : ∀ a ∈ args, SinSalto a) :
    SinSalto (uneComas args) := by
  fun_induction uneComas args with
  | case1 => exact sinSalto_nil
  | case2 a => exact h a List.mem_cons_self
  | case3 a as _ ih =>
    obtain ⟨ha, has⟩ := List.forall_mem_cons.mp h
    exact sinSalto_append.mpr ⟨sinSalto_append.mpr ⟨ha, by decide⟩, ih has⟩

private theorem sinSalto_getD {args : List Text} (h : ∀ a ∈ args, SinSalto a) (k : Nat) :
    SinSalto (args.getD k []) := by
  rw [List.getD_eq_getElem?_getD]
  cases hk : args[k]? with
  | none => exact sinSalto_nil
  | some a => exact h a (List.mem_of_getElem? hk)

namespace MacroDef

variable {m : MacroDef} {args : List Text} (hargs : ∀ a ∈ args, SinSalto a)

include hargs

theorem sinSalto_nombre {name : Text} (hname : SinSalto name) : SinSalto (m.nombre args name) := by
  unfold nombre
  split
  · exact sinSalto_uneComas fun a ha ↦ hargs a (List.mem_of_mem_drop ha)
  · split
    · exact sinSalto_getD hargs _
    · exact hname

theorem sinSalto_sustituirDesde {n : Nat} {t out : Text} (ht : SinSalto t) (hout : SinSalto out) :
    SinSalto (sustituirDesde m args n t out) := by
  induction n generalizing t out with
  | zero => exact hout
  | succ n ih =>
    cases t with
    | nil => exact hout
    | cons c r =>
      obtain ⟨hc, hr⟩ := sinSalto_cons.mp ht
      unfold sustituirDesde
      dsimp only
      split
      · obtain ⟨hlit, hresto⟩ := hr.copiarLiteral c
        exact ih hresto (sinSalto_append.mpr ⟨hout, sinSalto_cons.mpr ⟨hc, hlit⟩⟩)
      · split
        · split
          · exact ih ((sinSalto_cons.mp hr).2.dropWhile _) (hout.recortaFin _)
          · split
            · next k _ =>
              refine ih (hr.dropWhile _) ?_
              have hcadena := (sinSalto_getD hargs k).escapa
              exact sinSalto_append.mpr ⟨sinSalto_append.mpr ⟨sinSalto_append.mpr
                ⟨hout, by decide⟩, hcadena⟩, by decide⟩
            · exact ih hr (sinSalto_append.mpr ⟨hout, sinSalto_cons.mpr ⟨hc, sinSalto_nil⟩⟩)
        · split
          · exact ih (ht.dropWhile _)
              (sinSalto_append.mpr ⟨hout, sinSalto_nombre hargs (ht.takeWhile _)⟩)
          · exact ih hr (sinSalto_append.mpr ⟨hout, sinSalto_latin hc⟩)

private theorem sinSalto_sustituir (hm : SinSalto m.body) : SinSalto (sustituir m args) :=
  sinSalto_sustituirDesde hargs hm sinSalto_nil

end MacroDef

/-- The macros of a table have bodies of one line. -/
def Macros.Limpia (m : Macros) : Prop := ∀ p ∈ m, SinSalto p.2.body

namespace Macros.Limpia

variable {m : Macros} (h : m.Limpia)

include h

theorem get {name : Text} {d : MacroDef} (hd : m.get name = some d) : SinSalto d.body := by
  obtain ⟨l, l', rfl, -⟩ := List.lookup_eq_some_iff.mp hd
  exact h (name, d) (List.mem_append_right _ List.mem_cons_self)

theorem remove (name : Text) : (m.remove name).Limpia :=
  fun p hp ↦ h p (List.mem_of_mem_filter hp)

theorem insert {name : Text} {d : MacroDef} (hd : SinSalto d.body) :
    (m.insert name d).Limpia := by
  intro p hp
  rcases List.mem_cons.mp hp with rfl | hp
  · exact hd
  · exact h.remove name p hp

theorem orInsert {otras : Macros} (hotras : otras.Limpia) : (m.orInsert otras).Limpia := by
  unfold Macros.orInsert
  induction otras generalizing m with
  | nil => exact h
  | cons p ps ih =>
    obtain ⟨hp, hps⟩ := List.forall_mem_cons.mp hotras
    rw [List.foldl_cons]
    refine ih ?_ hps
    split
    · exact h
    · exact h.insert hp

/-! ### Expansion -/

variable {line : Nat}

theorem reemplazo {name resto : Text} (hname : SinSalto name) (hresto : SinSalto resto) :
    SinSalto (reemplazo m line name resto).1 ∧ SinSalto (reemplazo m line name resto).2.1 := by
  unfold Pre.reemplazo
  split
  · exact ⟨hname, hresto⟩
  · next d hd =>
    split
    · unfold llamada
      dsimp only
      split
      · split
        · exact ⟨hname, hresto⟩
        · next args fin hargs =>
          obtain ⟨has, hfin⟩ := (hresto.dropWhile _).recogerArgs hargs
          split
          · exact ⟨MacroDef.sinSalto_sustituir has (h.get hd), hfin⟩
          · exact ⟨hname, hresto⟩
      · exact ⟨hname, hresto⟩
    · exact ⟨h.get hd, hresto⟩

theorem pasadaDesde {n : Nat} {t : Text} (ht : SinSalto t) :
    SinSalto (pasadaDesde m line n t).1 := by
  induction n generalizing t with
  | zero => exact sinSalto_nil
  | succ n ih =>
    cases t with
    | nil => exact sinSalto_nil
    | cons c r =>
      obtain ⟨hc, hr⟩ := sinSalto_cons.mp ht
      rw [Pre.pasadaDesde]
      split
      · obtain ⟨hlit, hresto⟩ := hr.copiarLiteral c
        exact sinSalto_append.mpr ⟨sinSalto_cons.mpr ⟨hc, hlit⟩, ih hresto⟩
      · split
        · obtain ⟨hpor, hresto⟩ := @reemplazo m h line _ _ (ht.takeWhile isIdentChar)
            (ht.dropWhile isIdentChar)
          exact sinSalto_append.mpr ⟨hpor, ih hresto⟩
        · exact sinSalto_cons.mpr ⟨hc, ih hr⟩

theorem pasadas {n : Nat} {t : Text} {es : List CError} (ht : SinSalto t) :
    SinSalto (pasadas m line n t es).1 := by
  induction n generalizing t es with
  | zero => exact ht
  | succ n ih =>
    rw [Pre.pasadas]
    dsimp only
    split
    · exact ht
    · exact ih (h.pasadaDesde ht)

end Macros.Limpia

theorem SinSalto.conLinea {t : Text} (h : SinSalto t) (line : Nat) : SinSalto (conLinea line t) := by
  have hnumero : SinSalto (toString line).toList := by
    intro hmem
    have hdigit := Nat.isDigit_of_mem_toDigits (by decide) (by decide)
      (show '\n' ∈ Nat.toDigits 10 line by simpa using hmem)
    exact nomatch hdigit
  unfold Pre.conLinea
  split
  · exact (h.reemplaza hnumero).reemplaza (by decide)
  · exact h

/-- **The expansion of a line is one line.** -/
theorem Macros.Limpia.expandLine {m : Macros} (h : m.Limpia) {line : Nat} {t : Text}
    (ht : SinSalto t) : SinSalto (expandLine m line t).1 := by
  change SinSalto (conLinea line (Pre.pasadas m line MAX_PASADAS (conLinea line t) []).1)
  exact (h.pasadas (ht.conLinea line)).conLinea line

theorem oPanico_eq_ok {α : Type} {o : Option α} {a : α} (h : oPanico o = .ok a) : o = some a := by
  cases o with
  | none => exact nomatch h
  | some a' =>
    cases h
    rfl

/-- A definition has a body of one line. -/
theorem Macros.Limpia.handleDefine {m m' : Macros} (h : m.Limpia) {line : Nat} {variadic : Bool}
    {rest : Text} (hrest : SinSalto rest) (hm : handleDefine m line variadic rest = .ok m') :
    m'.Limpia := by
  have hresto : SinSalto (palabra (trim rest)).2 := hrest.trim.dropWhile _
  unfold Pre.handleDefine at hm
  generalize palabra (trim rest) = p at hm hresto
  obtain ⟨name, resto⟩ := p
  dsimp only at hm hresto
  split at hm
  · exact nomatch hm
  · split at hm
    · unfold defineFuncion at hm
      split at hm
      · exact nomatch hm
      · next dentro tras hb =>
        have htras : SinSalto tras := by
          have hdrop : SinSalto (resto.drop 1) := hresto.subset (List.drop_subset _ _)
          rw [busca_eq hb, sinSalto_append] at hdrop
          exact hdrop.2
        dsimp only at hm
        split at hm
        · exact nomatch hm
        · obtain ⟨body, hbody, hm⟩ := bind_eq_ok.mp hm
          cases hm
          exact h.insert (htras.sinComentarios (oPanico_eq_ok hbody))
    · obtain ⟨body, hbody, hm⟩ := bind_eq_ok.mp hm
      cases hm
      exact h.insert (hresto.sinComentarios (oPanico_eq_ok hbody))

/-! ### Lines -/

private theorem sinSalto_endLine {l : Text} (h : SinSalto l) : SinSalto (endLine l) := by
  unfold endLine
  split
  · exact sinSalto_reverse.mpr (sinSalto_cons.mp h).2
  · exact sinSalto_reverse.mpr h

theorem sinSalto_linesFrom {l t : Text} (hl : SinSalto l) : ∀ x ∈ linesFrom l t, SinSalto x := by
  fun_induction linesFrom l t with
  | case1 => exact List.forall_mem_nil _
  | case2 l _ => exact List.forall_mem_singleton.mpr (sinSalto_reverse.mpr hl)
  | case3 l t ih => exact List.forall_mem_cons.mpr ⟨sinSalto_endLine hl, ih sinSalto_nil⟩
  | case4 l c t hc ih => exact ih (sinSalto_cons.mpr ⟨hc, hl⟩)

theorem sinSalto_lines (t : Text) : ∀ x ∈ lines t, SinSalto x := sinSalto_linesFrom sinSalto_nil

/-- A line with those that are joined to it. -/
theorem sinSalto_unir {raw : Text} {ls : List Text} (hraw : SinSalto raw)
    (hls : ∀ x ∈ ls, SinSalto x) :
    SinSalto (unir raw ls).1 ∧ ∀ x ∈ (unir raw ls).2, SinSalto x := by
  induction ls generalizing raw with
  | nil => exact ⟨hraw, hls⟩
  | cons l ls ih =>
    obtain ⟨hl, htail⟩ := List.forall_mem_cons.mp hls
    rw [unir]
    split
    · exact ih (sinSalto_append.mpr ⟨hraw.subset (List.dropLast_subset raw), hl.trim⟩) htail
    · exact ⟨hraw, hls⟩

theorem sinSalto_unirLlamada {n : Nat} {fuente : Text} {ls : List Text} (hf : SinSalto fuente)
    (hls : ∀ x ∈ ls, SinSalto x) :
    SinSalto (unirLlamada n fuente ls).1 ∧ ∀ x ∈ (unirLlamada n fuente ls).2, SinSalto x := by
  induction n generalizing fuente ls with
  | zero => exact ⟨hf, hls⟩
  | succ n ih =>
    cases ls with
    | nil => exact ⟨hf, hls⟩
    | cons l ls =>
      obtain ⟨hl, htail⟩ := List.forall_mem_cons.mp hls
      rw [unirLlamada]
      split
      · exact ih (sinSalto_append.mpr ⟨hf, sinSalto_cons.mpr ⟨by decide, hl.trim⟩⟩) htail
      · exact ⟨hf, hls⟩

end BmoX.C.Pre
