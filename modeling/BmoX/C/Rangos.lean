import BmoX.C.Renglones

/-!
# The record of the headers of the system

The ranges of a text are the lines that come from headers of the system, unless a header of the user has
one inside: what the preprocessor of that header had noted is dropped with it.
-/

namespace BmoX.C.Pre

open BmoX.Base

/-! ### Lines of a text -/

/-- The text of some lines. -/
def texto (lineas : List (Text × Bool)) : Text := lineas.flatMap fun p ↦ p.1 ++ ['\n']

/-- A text, by the lines that it is. -/
structure Renglonado (t : Text) (lineas : List (Text × Bool)) : Prop where
  texto_eq : t = texto lineas
  sinSalto : ∀ p ∈ lineas, SinSalto p.1

theorem texto_append (as bs : List (Text × Bool)) : texto (as ++ bs) = texto as ++ texto bs :=
  List.flatMap_append

namespace Renglonado

theorem nil : Renglonado [] [] := ⟨rfl, List.forall_mem_nil _⟩

variable {t u : Text} {as bs : List (Text × Bool)}

theorem append (h : Renglonado t as) (h' : Renglonado u bs) : Renglonado (t ++ u) (as ++ bs) :=
  ⟨by rw [h.texto_eq, h'.texto_eq, texto_append],
    fun p hp ↦ (List.mem_append.mp hp).elim (h.sinSalto p) (h'.sinSalto p)⟩

theorem linea {l : Text} (h : SinSalto l) (b : Bool) : Renglonado (l ++ ['\n']) [(l, b)] :=
  ⟨(List.flatMap_singleton ..).symm, List.forall_mem_singleton.mpr h⟩

/-- Other marks. -/
theorem map (h : Renglonado t as) (f : Text × Bool → Bool) :
    Renglonado t (as.map fun p ↦ (p.1, f p)) := by
  obtain ⟨htexto, hsin⟩ := h
  refine ⟨?_, ?_⟩
  · rw [htexto, texto, texto, List.flatMap_map]
  · intro p hp
    obtain ⟨q, hq, rfl⟩ := List.mem_map.mp hp
    exact hsin q hq

private theorem newlines_eq (h : Renglonado t as) : newlines t = as.length := by
  obtain ⟨rfl, hsin⟩ := h
  induction as with
  | nil => rfl
  | cons p as ih =>
    obtain ⟨hp, has⟩ := List.forall_mem_cons.mp hsin
    have hcero : p.1.count '\n' = 0 := List.count_eq_zero.mpr hp
    have htail : (texto as).count '\n' = as.length := ih has
    change (p.1 ++ ['\n'] ++ texto as).count '\n' = as.length + 1
    rw [List.count_append, List.count_append, hcero, htail, List.count_singleton_self]
    omega

end Renglonado

/-! ### Ranges -/

/-- The line `k` is in a range, from one. -/
def Cubierta (rangos : List (Nat × Nat)) (k : Nat) : Prop := ∃ r ∈ rangos, r.1 ≤ k ∧ k ≤ r.2

/-- The line `k` comes from a header of the system. -/
def DelSistema (lineas : List (Text × Bool)) (k : Nat) : Prop :=
  1 ≤ k ∧ ∃ t, lineas[k - 1]? = some (t, true)

private theorem delSistema_nil (k : Nat) : ¬DelSistema [] k := fun ⟨_, _, hno⟩ ↦ nomatch hno

theorem DelSistema.le {lineas : List (Text × Bool)} {k : Nat} (h : DelSistema lineas k) :
    1 ≤ k ∧ k ≤ lineas.length := by
  obtain ⟨hk, t, ht⟩ := h
  have hlt := (List.getElem?_eq_some_iff.mp ht).1
  exact ⟨hk, by omega⟩

private theorem delSistema_append (as bs : List (Text × Bool)) (k : Nat) :
    DelSistema (as ++ bs) k ↔
      DelSistema as k ∨ as.length < k ∧ DelSistema bs (k - as.length) := by
  unfold DelSistema
  by_cases hk : k ≤ as.length
  · constructor
    · rintro ⟨h1, t, ht⟩
      rw [List.getElem?_append_left (by omega)] at ht
      exact .inl ⟨h1, t, ht⟩
    · rintro (⟨h1, t, ht⟩ | ⟨hno, -⟩)
      · exact ⟨h1, t, by rw [List.getElem?_append_left (by omega), ht]⟩
      · omega
  · have hindex : k - 1 - as.length = k - as.length - 1 := by omega
    constructor
    · rintro ⟨h1, t, ht⟩
      rw [List.getElem?_append_right (by omega), hindex] at ht
      exact .inr ⟨by omega, by omega, t, ht⟩
    · rintro (⟨h1, t, ht⟩ | ⟨h1, h2, t, ht⟩)
      · have hlt := (List.getElem?_eq_some_iff.mp ht).1
        omega
      · exact ⟨by omega, t, by rw [List.getElem?_append_right (by omega), hindex, ht]⟩

/-- Where all the lines come from the system. -/
theorem delSistema_of_all {lineas : List (Text × Bool)} (h : ∀ p ∈ lineas, p.2 = true) (k : Nat) :
    DelSistema lineas k ↔ 1 ≤ k ∧ k ≤ lineas.length := by
  refine ⟨DelSistema.le, fun ⟨h1, hk⟩ ↦ ⟨h1, ?_⟩⟩
  have hlt : k - 1 < lineas.length := by omega
  refine ⟨lineas[k - 1].1, ?_⟩
  rw [List.getElem?_eq_getElem hlt, ← h _ (List.getElem_mem hlt)]

private theorem exists_delSistema (lineas : List (Text × Bool)) :
    (∃ k, DelSistema lineas k) ↔ ∃ t, (t, true) ∈ lineas := by
  constructor
  · rintro ⟨k, -, t, ht⟩
    exact ⟨t, List.mem_of_getElem? ht⟩
  · rintro ⟨t, ht⟩
    obtain ⟨i, hi⟩ := List.getElem?_of_mem ht
    exact ⟨i + 1, Nat.le_add_left .., t, hi⟩

private theorem cubierta_append (rangos : List (Nat × Nat)) (r : Nat × Nat) (k : Nat) :
    Cubierta (rangos ++ [r]) k ↔ Cubierta rangos k ∨ r.1 ≤ k ∧ k ≤ r.2 := by
  unfold Cubierta
  simp only [List.mem_append, List.mem_singleton, or_and_right, exists_or, exists_eq_left]

/-- What the loop keeps: the text is the lines, the ranges are of lines of the system, and all of them
are in one where none was lost. -/
structure Anotado (defines : Macros) (rangos : List (Nat × Nat)) (output : Text) (rastro : Rastro) :
    Prop where
  limpia : defines.Limpia
  renglones : Renglonado output rastro.lineas
  alcanza : rastro.alcanza = true ↔ ∃ t, (t, true) ∈ rastro.lineas
  cubiertas : ∀ k, Cubierta rangos k → DelSistema rastro.lineas k
  perdido : rastro.perdido = true ↔ ∃ k, DelSistema rastro.lineas k ∧ ¬Cubierta rangos k

section

variable {R : Type}

def Estado.Bien (s : Estado R) : Prop :=
  Anotado s.pp.defines s.pp.rangosSistema s.output s.rastro

def Salida.Bien (s : Salida R) : Prop :=
  Anotado s.pp.defines s.pp.rangosSistema s.output s.rastro

namespace Estado.Bien

variable {s : Estado R} (h : s.Bien)

include h

theorem conDefines {m : Macros} (hm : m.Limpia) : (s.conDefines m).Bien :=
  ⟨hm, h.renglones, h.alcanza, h.cubiertas, h.perdido⟩

/-- A line of code is of the user. -/
theorem emite {expanded : Text} (hx : SinSalto expanded) (es : List CError) :
    (s.emite expanded es).Bien := by
  have hsis (k : Nat) : DelSistema (s.rastro.lineas ++ [(expanded, false)]) k ↔
      DelSistema s.rastro.lineas k := by
    rw [delSistema_append]
    refine or_iff_left fun ⟨_, _, t, ht⟩ ↦ ?_
    have hmem := List.mem_of_getElem? ht
    exact nomatch congrArg Prod.snd (List.mem_singleton.mp hmem)
  refine ⟨h.limpia, ?_, ?_, ?_, ?_⟩
  · have happ := h.renglones.append (.linea hx false)
    rwa [← List.append_assoc] at happ
  · refine h.alcanza.trans ?_
    rw [← exists_delSistema, ← exists_delSistema]
    exact exists_congr fun k ↦ (hsis k).symm
  · exact fun k hk ↦ (hsis k).mpr (h.cubiertas k hk)
  · exact h.perdido.trans (exists_congr fun k ↦ and_congr_left' (hsis k).symm)

private theorem incluye_renglones {included : Salida R} (hi : included.Bien) (delSistema : Bool) :
    Renglonado (s.incluye delSistema included).output
      (s.incluye delSistema included).rastro.lineas :=
  (h.renglones.append (hi.renglones.map fun p ↦ p.2 || delSistema)).append
    (.linea sinSalto_nil delSistema)

/-- A header of the system: its lines are one range. -/
theorem incluye_sistema {included : Salida R} (hi : included.Bien) :
    (s.incluye true included).Bien := by
  have hreng := h.incluye_renglones hi true
  have hantes := h.renglones.newlines_eq
  have hdespues := hreng.newlines_eq
  let nuevas := included.rastro.lineas.map (fun p ↦ (p.1, p.2 || true)) ++ [([], true)]
  have hlineas : (s.incluye true included).rastro.lineas = s.rastro.lineas ++ nuevas :=
    List.append_assoc ..
  have hrangos : (s.incluye true included).pp.rangosSistema = s.pp.rangosSistema ++
      [(newlines s.output + 1, newlines (s.incluye true included).output)] := rfl
  have htodas : ∀ p ∈ nuevas, p.2 = true := by
    intro p hp
    rcases List.mem_append.mp hp with hp | hp
    · obtain ⟨q, -, rfl⟩ := List.mem_map.mp hp
      exact Bool.or_true _
    · rw [List.mem_singleton.mp hp]
  have hsis (k : Nat) : DelSistema (s.incluye true included).rastro.lineas k ↔
      DelSistema s.rastro.lineas k ∨
        s.rastro.lineas.length < k ∧ k ≤ s.rastro.lineas.length + nuevas.length := by
    rw [hlineas, delSistema_append, delSistema_of_all htodas]
    refine or_congr_right ⟨fun ⟨h1, h2, h3⟩ ↦ ⟨h1, ?_⟩, fun ⟨h1, h2⟩ ↦ ⟨h1, ?_⟩⟩ <;> omega
  have hcub (k : Nat) : Cubierta (s.incluye true included).pp.rangosSistema k ↔
      Cubierta s.pp.rangosSistema k ∨
        s.rastro.lineas.length < k ∧ k ≤ s.rastro.lineas.length + nuevas.length := by
    rw [hrangos, cubierta_append, hdespues, hantes, hlineas, List.length_append]
    exact or_congr_right (and_congr_left' Nat.succ_le_iff)
  refine ⟨h.limpia.orInsert hi.limpia, hreng, ?_, fun k hk ↦ ?_, ?_⟩
  · refine iff_of_true (by simp [Estado.incluye]) ⟨[], ?_⟩
    rw [hlineas]
    exact List.mem_append_right _ (List.mem_append_right _ (List.mem_singleton_self _))
  · exact (hsis k).mpr (((hcub k).mp hk).imp_left (h.cubiertas k))
  · have hperdido : (s.incluye true included).rastro.perdido = s.rastro.perdido := by
      simp [Estado.incluye]
    rw [hperdido, h.perdido]
    refine exists_congr fun k ↦ ?_
    rw [hsis, hcub, not_or]
    constructor
    · rintro ⟨hk, hno⟩
      have hle := hk.le
      exact ⟨.inl hk, hno, by omega⟩
    · rintro ⟨hk, hno, hno'⟩
      exact ⟨hk.resolve_right hno', hno⟩

/-- A header of the user: the lines of the system that it has are lost. -/
theorem incluye_usuario {included : Salida R} (hi : included.Bien) :
    (s.incluye false included).Bien := by
  have hreng := h.incluye_renglones hi false
  have hlineas : (s.incluye false included).rastro.lineas =
      s.rastro.lineas ++ (included.rastro.lineas ++ [([], false)]) := by
    have hmap : included.rastro.lineas.map (fun p ↦ (p.1, p.2 || false)) =
        included.rastro.lineas := by
      simp only [Bool.or_false, Prod.mk.eta, List.map_id']
    change s.rastro.lineas ++ included.rastro.lineas.map _ ++ _ = _
    rw [hmap, List.append_assoc]
  have hsis (k : Nat) : DelSistema (s.incluye false included).rastro.lineas k ↔
      DelSistema s.rastro.lineas k ∨ s.rastro.lineas.length < k ∧
        DelSistema included.rastro.lineas (k - s.rastro.lineas.length) := by
    rw [hlineas, delSistema_append, delSistema_append]
    refine or_congr_right (and_congr_right fun _ ↦ or_iff_left fun ⟨_, _, t, ht⟩ ↦ ?_)
    have hmem := List.mem_of_getElem? ht
    exact nomatch congrArg Prod.snd (List.mem_singleton.mp hmem)
  have halgo : included.rastro.alcanza = true ↔ ∃ k, DelSistema included.rastro.lineas k :=
    hi.alcanza.trans (exists_delSistema _).symm
  refine ⟨h.limpia.orInsert hi.limpia, hreng, ?_, fun k hk ↦ ?_, ?_⟩
  · have halcanza : (s.incluye false included).rastro.alcanza =
        (s.rastro.alcanza || included.rastro.alcanza) := by
      simp [Estado.incluye]
    rw [halcanza, Bool.or_eq_true, h.alcanza, hi.alcanza, hlineas, ← exists_or]
    refine exists_congr fun t ↦ ?_
    simp [List.mem_append]
  · exact (hsis k).mpr (.inl (h.cubiertas k hk))
  · have hperdido : (s.incluye false included).rastro.perdido =
        (s.rastro.perdido || included.rastro.alcanza) := by
      simp [Estado.incluye]
    have hrangos : (s.incluye false included).pp.rangosSistema = s.pp.rangosSistema := rfl
    rw [hperdido, Bool.or_eq_true, h.perdido, halgo, hrangos]
    constructor
    · rintro (⟨k, hk, hno⟩ | ⟨k, hk⟩)
      · exact ⟨k, (hsis k).mpr (.inl hk), hno⟩
      · have hpos := hk.le.1
        refine ⟨s.rastro.lineas.length + k, (hsis _).mpr (.inr ⟨by omega, ?_⟩), fun hno ↦ ?_⟩
        · rwa [Nat.add_sub_cancel_left]
        · have hle := (h.cubiertas _ hno).le
          omega
    · rintro ⟨k, hk, hno⟩
      rcases (hsis k).mp hk with hk | ⟨-, hk⟩
      · exact .inl ⟨k, hk, hno⟩
      · exact .inr ⟨_, hk⟩

theorem incluye {included : Salida R} (hi : included.Bien) (delSistema : Bool) :
    (s.incluye delSistema included).Bien := by
  cases delSistema with
  | true => exact h.incluye_sistema hi
  | false => exact h.incluye_usuario hi

end Estado.Bien

/-! ### The loop -/

variable {disco : Disco R} {orden : Macros → List Text} {file : R}
  {pre : Preprocessor R → Text → R → Except Fallo (Salida R)}

/-- What the preprocessor of a header keeps to. -/
def Sub (pre : Preprocessor R → Text → R → Except Fallo (Salida R)) : Prop :=
  ∀ pp source file included, pp.defines.Limpia → pp.rangosSistema = [] →
    pre pp source file = .ok included → included.Bien

theorem Estado.Bien.directiva (hpre : Sub pre) {s s' : Estado R} (h : s.Bien) {cmd rest : Text}
    (hrest : SinSalto rest) (hs : directiva disco orden pre file s cmd rest = .ok s') :
    s'.Bien := by
  unfold Pre.directiva at hs
  dsimp only at hs
  split at hs
  · -- `define`
    split at hs
    · obtain ⟨m, hm, rfl⟩ := map_eq_ok.mp hs
      exact h.conDefines (h.limpia.handleDefine hrest hm)
    · cases hs
      exact h
  · -- `undef`
    split at hs
    · cases hs
      exact h.conDefines (h.limpia.remove _)
    · cases hs
      exact h
  · -- `include`
    split at hs
    · obtain ⟨⟨content, p⟩, -, hs⟩ := bind_eq_ok.mp hs
      obtain ⟨included, hi, hs⟩ := bind_eq_ok.mp hs
      cases hs
      exact h.incluye (hpre s.pp.sub content p included h.limpia rfl hi) _
    · cases hs
      exact h
  · cases hs
    exact h
  · cases hs
    exact h
  · obtain ⟨p, -, rfl⟩ := map_eq_ok.mp hs
    exact h
  · split at hs
    · cases hs
      exact h
    · cases hs
      exact h
  · split at hs
    · cases hs
      exact h
    · obtain ⟨p, -, rfl⟩ := map_eq_ok.mp hs
      exact h
  · cases hs
    exact h
  · split at hs
    · exact nomatch hs
    · cases hs
      exact h
  · cases hs
    exact h

/-- **A turn** keeps the record. -/
theorem Estado.Bien.turno (hpre : Sub pre) {s s' : Estado R} (h : s.Bien) {i : Nat} {l : Text}
    {ls resto : List Text} (hl : SinSalto l) (hls : ∀ x ∈ ls, SinSalto x)
    (hs : turno disco orden pre file s i l ls = .ok (s', resto)) :
    s'.Bien ∧ ∀ x ∈ resto, SinSalto x := by
  obtain ⟨hraw, hquedan⟩ := sinSalto_unir hl.trim hls
  have hlinea : ({ s with pp := { s.pp with line := i + 1 } } : Estado R).Bien := h
  unfold Pre.turno at hs
  dsimp only at hs
  generalize unir (trim l) ls = p at hs hraw hquedan
  obtain ⟨raw, quedan⟩ := p
  dsimp only at hs hraw hquedan
  split at hs
  · obtain ⟨s'', hs'', heq⟩ := map_eq_ok.mp hs
    cases heq
    unfold conDirectiva at hs''
    obtain ⟨t, ht, hs''⟩ := bind_eq_ok.mp hs''
    have hsin := hraw.sinComentarios (oPanico_eq_ok ht)
    refine ⟨hlinea.directiva hpre ?_ hs'', hquedan⟩
    have hdrop : SinSalto ((trim t).drop 1) := hsin.trim.subset (List.drop_subset _ _)
    exact (((hdrop.dropWhile isBlank).dropWhile isBlank).dropWhile _).dropWhile isBlank
  · have hs := Except.ok.inj hs
    unfold conCodigo at hs
    split at hs
    · have hjunta (b : Bool) :
          SinSalto (if b then unirLlamada 32 raw quedan else (raw, quedan)).1 ∧
            ∀ x ∈ (if b then unirLlamada 32 raw quedan else (raw, quedan)).2, SinSalto x := by
        cases b with
        | true => exact sinSalto_unirLlamada hraw hquedan
        | false => exact ⟨hraw, hquedan⟩
      have hq := hjunta (hayMacroFuncion s.pp.defines raw)
      dsimp only at hs
      generalize (if hayMacroFuncion s.pp.defines raw = true then unirLlamada 32 raw quedan
        else (raw, quedan)) = q at hs hq
      cases hs
      exact ⟨hlinea.emite (hlinea.limpia.expandLine hq.1) _, hq.2⟩
    · cases hs
      exact ⟨hlinea, hquedan⟩

/-- The whole loop. -/
theorem Estado.Bien.bucle (hpre : Sub pre) {n i : Nat} {s s' : Estado R} (h : s.Bien)
    {ls : List Text} (hls : ∀ x ∈ ls, SinSalto x)
    (hs : bucle disco orden pre file n i ls s = .ok s') : s'.Bien := by
  induction n generalizing i ls s with
  | zero =>
    cases hs
    exact h
  | succ n ih =>
    cases ls with
    | nil =>
      cases hs
      exact h
    | cons l ls =>
      obtain ⟨hl, htail⟩ := List.forall_mem_cons.mp hls
      obtain ⟨⟨s'', resto⟩, hturno, hs⟩ := bind_eq_ok.mp hs
      obtain ⟨hbien, hresto⟩ := h.turno hpre hl htail hturno
      exact ih hbien hresto hs

variable [DecidableEq R]

/-- **A whole text, with its headers.** -/
theorem sub_preprocess (disco : Disco R) (orden : Macros → List Text) (n : Nat) :
    Sub (preprocess disco orden n) := by
  induction n with
  | zero => exact fun pp source file included _ _ hno ↦ nomatch hno
  | succ n ih =>
    intro pp source file included hlimpia hrangos hs
    obtain ⟨s, hs, htermina⟩ := bind_eq_ok.mp hs
    have hdir : (pp.conDirectorio (disco.parent file)).defines = pp.defines ∧
        (pp.conDirectorio (disco.parent file)).rangosSistema = [] := by
      unfold Preprocessor.conDirectorio
      split
      · split
        · exact ⟨rfl, hrangos⟩
        · exact ⟨rfl, hrangos⟩
      · exact ⟨rfl, hrangos⟩
    have hnada : (⟨pp.conDirectorio (disco.parent file), [], [.abierta true], ⟨[], false, false⟩⟩ :
        Estado R).Bien := by
      refine ⟨hdir.1 ▸ hlimpia, .nil, ?_, fun k ⟨r, hr, _⟩ ↦ ?_, ?_⟩
      · exact iff_of_false Bool.false_ne_true fun ⟨_, hno⟩ ↦ nomatch hno
      · rw [hdir.2] at hr
        exact nomatch hr
      · exact iff_of_false Bool.false_ne_true fun ⟨k, hk, _⟩ ↦ delSistema_nil k hk
    have hbien := hnada.bucle ih (sinSalto_lines source) hs
    unfold Estado.termina at htermina
    split at htermina
    · exact nomatch htermina
    · split at htermina
      · exact nomatch htermina
      · cases htermina
        exact hbien

/-- The record is exact: a line of the text is in a range if it comes from a header of the system. -/
def Salida.Exacta (s : Salida R) : Prop :=
  ∀ k, Cubierta s.pp.rangosSistema k ↔ DelSistema s.rastro.lineas k

omit [DecidableEq R] in
private theorem limpia_new (variadicMacros : Bool) (includePaths : List R) :
    (Preprocessor.new variadicMacros includePaths).defines.Limpia :=
  (Macros.Limpia.insert (List.forall_mem_nil _) (by decide)).insert (by decide)

/-- **The record of the headers of the system is exact where no header of the user has one**: the text
is the lines, each with whether a header of the system is on the way to it, and the ranges are of lines
that have one. -/
theorem exacta_iff {disco : Disco R} {orden : Macros → List Text} {n : Nat}
    {variadicMacros : Bool} {includePaths : List R} {source : Text} {file : R} {s : Salida R}
    (h : preprocess disco orden n (.new variadicMacros includePaths) source file = .ok s) :
    Renglonado s.output s.rastro.lineas ∧
      (∀ k, Cubierta s.pp.rangosSistema k → DelSistema s.rastro.lineas k) ∧
      (s.Exacta ↔ s.rastro.perdido = false) := by
  have hbien := sub_preprocess disco orden n _ source file s
    (limpia_new variadicMacros includePaths) rfl h
  refine ⟨hbien.renglones, hbien.cubiertas, ?_⟩
  rw [← Bool.not_eq_true, hbien.perdido]
  constructor
  · rintro hexacta ⟨k, hk, hno⟩
    exact hno ((hexacta k).mpr hk)
  · intro hno k
    refine ⟨hbien.cubiertas k, fun hk ↦ ?_⟩
    by_contra hcub
    exact hno ⟨k, hk, hcub⟩

end

/-- Files by their names, in one directory. -/
def disco (files : List (Text × Text)) : Disco Text where
  parent _ := some []
  join _ path := path
  fileName path := some path
  exists_ path := (files.lookup path).isSome
  read path := (files.lookup path).elim (.error "not found") .ok
  display path := String.ofList path

/-- A header of the user and one of the system that includes it. -/
def conCorchetes : Disco Text :=
  disco [(['u'], "int z;".toList), (['h'], "#include \"u\"\nint x;".toList)]

/-- A file that includes a header of the user, which includes one of the system. -/
def conComillas : Disco Text :=
  disco [(['a'], "#include <b>".toList), (['b'], "int x;".toList)]

/-- Both headers included, the user's first and alone. -/
theorem exacta_corchetes :
    ∃ s, preprocess conCorchetes (·.map (·.1)) 4 (.new true [])
        "#include \"u\"\n#include <h>\nint y;".toList ['f'] = .ok s ∧
      s.pp.rangosSistema = [(3, 6)] ∧ s.Exacta := by
  obtain ⟨s, hs, hrangos, hperdido⟩ : ∃ s, preprocess conCorchetes (·.map (·.1)) 4 (.new true [])
      "#include \"u\"\n#include <h>\nint y;".toList ['f'] = .ok s ∧
        s.pp.rangosSistema = [(3, 6)] ∧ s.rastro.perdido = false :=
    ⟨_, by rfl, by rfl, by rfl⟩
  exact ⟨s, hs, hrangos, (exacta_iff hs).2.2.mpr hperdido⟩

/-- The line of the header of the system is in no range. -/
theorem perdida_comillas :
    ∃ s, preprocess conComillas (·.map (·.1)) 3 (.new true [])
        "#include \"a\"".toList ['f'] = .ok s ∧ DelSistema s.rastro.lineas 1 ∧
      ¬ Cubierta s.pp.rangosSistema 1 ∧ ¬ s.Exacta := by
  obtain ⟨s, hs, hrangos, hlinea⟩ :
      ∃ s, preprocess conComillas (·.map (·.1)) 3 (.new true [])
          "#include \"a\"".toList ['f'] = .ok s ∧ s.pp.rangosSistema = [] ∧
        s.rastro.lineas[0]? = some ("int x;".toList, true) :=
    ⟨_, by rfl, by rfl, by rfl⟩
  have hdel : DelSistema s.rastro.lineas 1 := ⟨Nat.le_refl 1, _, hlinea⟩
  have hno : ¬ Cubierta s.pp.rangosSistema 1 := by
    rintro ⟨r, hr, _⟩
    rw [hrangos] at hr
    exact nomatch hr
  exact ⟨s, hs, hdel, hno, fun hexacta ↦ hno ((hexacta 1).mpr hdel)⟩

end BmoX.C.Pre
