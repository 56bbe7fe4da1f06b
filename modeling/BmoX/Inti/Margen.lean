import BmoX.Inti.Barrido

/-!
# The margin makes a tree

What a line does to the stack of open widths is one definition, and the pieces of the margin are the
difference that it makes. No other piece is one of the margin.
-/

namespace BmoX.Inti.Lexico

open BmoX.Base

/-! ### Nesting -/

def EsMargen (c : Clase) : Prop := c = .Sangra ∨ c = .Desangra

instance (c : Clase) : Decidable (EsMargen c) := inferInstanceAs (Decidable (_ ∨ _))

/-- How many blocks some pieces open, and how many they close. -/
def sangras (ps : List Pieza) : Nat := ps.countP (·.clase = .Sangra)

def desangras (ps : List Pieza) : Nat := ps.countP (·.clase = .Desangra)

@[simp] theorem sangras_append (ps qs : List Pieza) :
    sangras (ps ++ qs) = sangras ps + sangras qs := List.countP_append

@[simp] theorem desangras_append (ps qs : List Pieza) :
    desangras (ps ++ qs) = desangras ps + desangras qs := List.countP_append

/-- Pieces that no prefix closes more blocks of than it opens, `n` being open before them. -/
def Encaja (n : Nat) (ps : List Pieza) : Prop :=
  ∀ k, desangras (ps.take k) ≤ n + sangras (ps.take k)

private theorem encaja_nil (n : Nat) : Encaja n [] := by
  intro k
  rw [List.take_nil]
  exact Nat.zero_le _

theorem Encaja.append {n m : Nat} {ps qs : List Pieza} (hp : Encaja n ps) (hq : Encaja m qs)
    (hm : desangras ps + m = n + sangras ps) : Encaja n (ps ++ qs) := by
  intro k
  rw [List.take_append, sangras_append, desangras_append]
  rcases Nat.le_total k ps.length with hk | hk
  · rw [Nat.sub_eq_zero_of_le hk, List.take_zero]
    exact hp k
  · rw [List.take_of_length_le hk]
    have h := hq (k - ps.length)
    omega

/-- Pieces that are not of the margin. -/
def Llano (ps : List Pieza) : Prop := ∀ p ∈ ps, ¬EsMargen p.clase

private theorem Llano.sangras {ps : List Pieza} (h : Llano ps) : sangras ps = 0 :=
  List.countP_eq_zero.mpr fun p hp hno ↦ h p hp (.inl (of_decide_eq_true hno))

private theorem Llano.desangras {ps : List Pieza} (h : Llano ps) : desangras ps = 0 :=
  List.countP_eq_zero.mpr fun p hp hno ↦ h p hp (.inr (of_decide_eq_true hno))

private theorem Llano.encaja {ps : List Pieza} (h : Llano ps) (n : Nat) : Encaja n ps := by
  intro k
  have htake : Llano (ps.take k) := fun p hp ↦ h p (List.mem_of_mem_take hp)
  rw [htake.desangras]
  exact Nat.zero_le _

private theorem llano_append {ps qs : List Pieza} (hp : Llano ps) (hq : Llano qs) : Llano (ps ++ qs) :=
  fun p h ↦ (List.mem_append.mp h).elim (hp p) (hq p)

private theorem encaja_cierra {n k : Nat} (h : k ≤ n) (s : Sitio) :
    Encaja n (List.replicate k ⟨.Desangra, s⟩) := by
  intro i
  have hd : desangras (List.replicate (min i k) ⟨.Desangra, s⟩) = min i k := by
    rw [desangras, List.countP_replicate]
    rfl
  rw [List.take_replicate, hd]
  omega

@[simp] theorem sangras_cierra (k : Nat) (s : Sitio) :
    sangras (List.replicate k ⟨.Desangra, s⟩) = 0 := by
  rw [sangras, List.countP_replicate]
  rfl

@[simp] theorem desangras_cierra (k : Nat) (s : Sitio) :
    desangras (List.replicate k ⟨.Desangra, s⟩) = k := by
  rw [desangras, List.countP_replicate]
  rfl

/-! ### The stack of widths -/

/-- The widths that are open at a line of a width: those of more are closed, and it is open. -/
def abre (ancho : Nat) (niveles : List Nat) : List Nat :=
  let quedan := niveles.dropWhile (ancho < ·)
  if quedan.head? = some ancho then quedan else ancho :: quedan

/-- Widths that are open: each is of more than the one outside of it, and the outermost is the
margin of the file. -/
structure Abiertos (niveles : List Nat) : Prop where
  creciente : niveles.Pairwise (· > ·)
  base : niveles.getLast? = some 0

private theorem abiertos_nuevo : Abiertos Sangrador.nuevo.niveles :=
  ⟨List.pairwise_singleton _ _, rfl⟩

private theorem salir_eq (ancho : Nat) (niveles : List Nat) :
    Sangrador.salir ancho niveles = (niveles.dropWhile (ancho < ·),
      List.replicate (niveles.length - (niveles.dropWhile (ancho < ·)).length) .Desangra) := by
  induction niveles with
  | nil => rfl
  | cons m ns ih =>
    rw [Sangrador.salir, List.dropWhile_cons]
    by_cases hm : m > ancho
    · have hlen := (List.dropWhile_suffix (l := ns) (ancho < ·)).length_le
      rw [if_pos hm, if_pos (decide_eq_true hm), ih, List.length_cons, Nat.succ_sub hlen]
      rfl
    · rw [if_neg hm, if_neg (by simpa using hm), Nat.sub_self]
      rfl

namespace Abiertos

variable {niveles : List Nat} (h : Abiertos niveles)

private theorem head_le (ancho : Nat) {m : Nat} (hm : (niveles.dropWhile (ancho < ·)).head? = some m) :
    m ≤ ancho := by
  have hno := List.head?_dropWhile_not (ancho < ·) niveles
  rw [hm] at hno
  simpa using hno

include h

theorem ne_nil : niveles ≠ [] := by
  intro hno
  have hbase := h.base
  rw [hno] at hbase
  exact nomatch hbase

/-- The base is never closed. -/
theorem quedan (ancho : Nat) : Abiertos (niveles.dropWhile (ancho < ·)) := by
  obtain ⟨hcre, hbase⟩ := h
  induction niveles with
  | nil => exact nomatch hbase
  | cons m ns ih =>
    rw [List.dropWhile_cons]
    by_cases hm : ancho < m
    · rw [if_pos (decide_eq_true hm)]
      obtain ⟨-, hns⟩ := List.pairwise_cons.mp hcre
      cases ns with
      | nil =>
        rw [List.getLast?_singleton, Option.some_inj] at hbase
        omega
      | cons m' ns => exact ih hns (by rwa [List.getLast?_cons_cons] at hbase)
    · rw [if_neg (by simpa using hm)]
      exact ⟨hcre, hbase⟩

theorem abre (ancho : Nat) : Abiertos (Lexico.abre ancho niveles) := by
  have hq := h.quedan ancho
  unfold Lexico.abre
  dsimp only
  by_cases hhead : (niveles.dropWhile (ancho < ·)).head? = some ancho
  · rw [if_pos hhead]
    exact hq
  · rw [if_neg hhead]
    obtain ⟨m, ns, heq⟩ := List.exists_cons_of_ne_nil hq.ne_nil
    have hle := head_le ancho (m := m) (by rw [heq]; rfl)
    have hne : m ≠ ancho := fun hno ↦ hhead (by rw [heq, hno]; rfl)
    rw [heq] at hq ⊢
    refine ⟨List.pairwise_cons.mpr ⟨?_, hq.creciente⟩, ?_⟩
    · intro x hx
      rcases List.mem_cons.mp hx with rfl | hx
      · omega
      · have hlt := (List.pairwise_cons.mp hq.creciente).1 x hx
        omega
    · rw [List.getLast?_cons_cons]
      exact hq.base

private theorem idxOf_head {ancho : Nat} (hhead : niveles.head? = some ancho) :
    niveles.reverse.idxOf ancho + 1 = niveles.length := by
  obtain ⟨hcre, -⟩ := h
  cases niveles with
  | nil => exact nomatch hhead
  | cons m ns =>
    obtain rfl := Option.some.inj hhead
    have hno : m ∉ ns.reverse := fun hno ↦
      Nat.lt_irrefl m ((List.pairwise_cons.mp hcre).1 m (List.mem_reverse.mp hno))
    rw [List.reverse_cons, List.idxOf_append_of_notMem hno, List.idxOf_cons_self,
      List.length_reverse, List.length_cons, Nat.add_zero]

/-- The width of a block that is open. -/
theorem mem_iff (ancho : Nat) :
    ancho ∈ niveles ↔ (niveles.dropWhile (ancho < ·)).head? = some ancho := by
  obtain ⟨hcre, -⟩ := h
  constructor
  · intro hmem
    induction niveles with
    | nil => exact nomatch hmem
    | cons m ns ih =>
      obtain ⟨hlt, hns⟩ := List.pairwise_cons.mp hcre
      rw [List.dropWhile_cons]
      rcases List.mem_cons.mp hmem with rfl | hmem
      · rw [if_neg (by simp)]
        rfl
      · rw [if_pos (decide_eq_true (hlt ancho hmem))]
        exact ih hns hmem
  · intro hhead
    exact (List.dropWhile_suffix _).subset (List.mem_of_mem_head? hhead)

end Abiertos

private theorem head?_abre (ancho : Nat) (niveles : List Nat) :
    (abre ancho niveles).head? = some ancho := by
  unfold abre
  dsimp only
  by_cases hhead : (niveles.dropWhile (ancho < ·)).head? = some ancho
  · rw [if_pos hhead, hhead]
  · rw [if_neg hhead]
    rfl

/-! ### One line -/

/-- The places of the warnings of a margin. -/
def raras (as : List Aviso) : List Sitio := (as.filter (·.codigo = .SANGRIA_RARA)).map Aviso.sitio

@[simp] theorem raras_append (as bs : List Aviso) : raras (as ++ bs) = raras as ++ raras bs := by
  rw [raras, List.filter_append, List.map_append]
  rfl

/-- Warnings of other things. -/
def SinRaras (as : List Aviso) : Prop := ∀ a ∈ as, a.codigo ≠ .SANGRIA_RARA

theorem SinRaras.raras {as : List Aviso} (h : SinRaras as) : raras as = [] := by
  have hnada : as.filter (·.codigo = .SANGRIA_RARA) = [] :=
    List.filter_eq_nil_iff.mpr fun a ha hno ↦ h a ha (of_decide_eq_true hno)
  rw [Lexico.raras, hnada]
  rfl

private theorem sinRaras_nil : SinRaras [] := fun _ hno ↦ nomatch hno

private theorem sinRaras_append {as bs : List Aviso} (ha : SinRaras as) (hb : SinRaras bs) :
    SinRaras (as ++ bs) := fun a h ↦ (List.mem_append.mp h).elim (ha a) (hb a)

private theorem sinRaras_singleton {a : Aviso} (h : a.codigo ≠ .SANGRIA_RARA) : SinRaras [a] := by
  intro b hb
  rwa [List.mem_singleton.mp hb]

/-- The pieces that a line of a width begins with. -/
def entra (ancho : Nat) (niveles : List Nat) : List Clase :=
  List.replicate (niveles.length - (niveles.dropWhile (ancho < ·)).length) .Desangra ++
    if ancho ∈ niveles then [] else [.Sangra]

/-- **What `medir` does**: the line is nested by its width, and a width that no block has, nor the
next one within, is reported. -/
theorem medir_eq {s : Sangrador} (h : Abiertos s.niveles) (ancho : Nat) (sitio : Sitio)
    (linea : Text) :
    ∃ avisos, s.medir ancho sitio linea =
        (⟨abre ancho s.niveles⟩, entra ancho s.niveles, avisos) ∧
      raras avisos = if ancho ∉ s.niveles ∧ ancho ≠ s.margen + ANCHO then [sitio] else [] := by
  obtain ⟨niveles⟩ := s
  obtain ⟨m, ns, rfl⟩ := List.exists_cons_of_ne_nil h.ne_nil
  have hmargen : (Sangrador.mk (m :: ns)).margen = m := rfl
  have hlt := (List.pairwise_cons.mp h.creciente).1
  unfold Sangrador.medir
  dsimp only
  rw [hmargen]
  rcases Nat.lt_trichotomy ancho m with hsale | rfl | hentra
  · rw [if_neg (by omega), if_neg (by omega), salir_eq]
    dsimp only
    have hcabeza : ((m :: ns).dropWhile (ancho < ·)).headD 0 ≠ ancho ↔ ancho ∉ m :: ns := by
      obtain ⟨m', ns', heq⟩ := List.exists_cons_of_ne_nil (h.quedan ancho).ne_nil
      rw [h.mem_iff, heq]
      exact not_congr (Option.some_inj (a := m')).symm
    unfold abre entra
    dsimp only
    by_cases hmem : ancho ∈ m :: ns
    · rw [if_neg (fun hno ↦ hcabeza.mp hno hmem), if_pos ((h.mem_iff ancho).mp hmem), if_pos hmem,
        List.append_nil]
      exact ⟨[], rfl, (if_neg fun hno ↦ hno.1 hmem).symm⟩
    · rw [if_pos (hcabeza.mpr hmem), if_neg (fun hno ↦ hmem ((h.mem_iff ancho).mpr hno)),
        if_neg hmem]
      refine ⟨_, rfl, ?_⟩
      rw [if_pos ⟨hmem, by unfold ANCHO; omega⟩]
      rfl
  · rw [if_pos rfl]
    have hdrop : (ancho :: ns).dropWhile (ancho < ·) = ancho :: ns := by
      rw [List.dropWhile_cons, if_neg (by simp)]
    refine ⟨[], ?_, (if_neg fun hno ↦ hno.1 List.mem_cons_self).symm⟩
    rw [abre, entra, hdrop, if_pos (List.head?_cons (a := ancho)), if_pos List.mem_cons_self,
      Nat.sub_self]
    rfl
  · rw [if_neg (by omega), if_pos hentra]
    have hdrop : (m :: ns).dropWhile (ancho < ·) = m :: ns := by
      rw [List.dropWhile_cons, if_neg (by simpa using hentra.le)]
    have hno : ancho ∉ m :: ns := by
      intro hmem
      rcases List.mem_cons.mp hmem with rfl | hmem
      · exact Nat.lt_irrefl _ hentra
      · exact Nat.lt_irrefl _ ((hlt ancho hmem).trans hentra)
    have hhead : (m :: ns).head? ≠ some ancho := fun heq ↦ hno (List.mem_of_mem_head? heq)
    have habre : abre ancho (m :: ns) = ancho :: m :: ns := by rw [abre, hdrop, if_neg hhead]
    have hclases : entra ancho (m :: ns) = [.Sangra] := by
      rw [entra, hdrop, if_neg hno, Nat.sub_self]
      rfl
    rw [habre, hclases]
    refine ⟨_, rfl, ?_⟩
    by_cases huno : ancho = m + ANCHO
    · rw [if_neg (not_not.mpr huno), if_neg fun h ↦ h.2 huno]
      rfl
    · rw [if_pos huno, if_pos ⟨hno, huno⟩]
      rfl

private theorem length_abre {niveles : List Nat} (h : Abiertos niveles) (ancho : Nat) :
    (abre ancho niveles).length = (niveles.dropWhile (ancho < ·)).length +
      if ancho ∈ niveles then 0 else 1 := by
  unfold abre
  dsimp only
  by_cases hmem : ancho ∈ niveles
  · rw [if_pos ((h.mem_iff ancho).mp hmem), if_pos hmem, Nat.add_zero]
  · rw [if_neg fun hno ↦ hmem ((h.mem_iff ancho).mpr hno), if_neg hmem, List.length_cons]

/-- The pieces of a margin are those that the stack is longer and shorter by. -/
theorem entra_piezas {niveles : List Nat} (h : Abiertos niveles) (ancho : Nat) (s : Sitio) :
    Encaja (niveles.length - 1) ((entra ancho niveles).map (Pieza.mk · s)) ∧
      desangras ((entra ancho niveles).map (Pieza.mk · s)) + (abre ancho niveles).length =
        sangras ((entra ancho niveles).map (Pieza.mk · s)) + niveles.length := by
  have hquedan := List.length_pos_of_ne_nil (h.quedan ancho).ne_nil
  have hle := (List.dropWhile_suffix (l := niveles) (ancho < ·)).length_le
  have hcierra := encaja_cierra (n := niveles.length - 1)
    (k := niveles.length - (niveles.dropWhile (ancho < ·)).length) (by omega) s
  rw [length_abre h, entra, List.map_append, List.map_replicate]
  by_cases hmem : ancho ∈ niveles
  · rw [if_pos hmem, if_pos hmem, List.map_nil, List.append_nil, desangras_cierra, sangras_cierra]
    exact ⟨hcierra, by omega⟩
  · rw [if_neg hmem, if_neg hmem]
    have huno : Encaja ((niveles.dropWhile (ancho < ·)).length - 1)
        ([Clase.Sangra].map (Pieza.mk · s)) := by
      intro k
      cases k with
      | zero => exact Nat.zero_le _
      | succ k =>
        rw [List.map_singleton, List.take_succ_cons, List.take_nil]
        exact Nat.zero_le _
    refine ⟨hcierra.append huno ?_, ?_⟩
    · rw [desangras_cierra, sangras_cierra]
      omega
    · rw [desangras_append, sangras_append, desangras_cierra, sangras_cierra]
      have hs : sangras ([Clase.Sangra].map (Pieza.mk · s)) = 1 := rfl
      have hd : desangras ([Clase.Sangra].map (Pieza.mk · s)) = 0 := rfl
      rw [hs, hd]
      omega

/-! ### The body of a line -/

/-- What the body of a line does: its pieces and its warnings are not of the margin. -/
structure Barrido.Sigue (b b' : Barrido) : Prop where
  piezas : ∃ c, b'.piezas = b.piezas ++ c ∧ Llano c
  avisos : ∃ as, b'.avisos = b.avisos ++ as ∧ SinRaras as
  sangrador : b'.sangrador = b.sangrador

namespace Barrido.Sigue

theorem refl (b : Barrido) : b.Sigue b :=
  ⟨⟨[], (List.append_nil _).symm, fun _ hno ↦ nomatch hno⟩,
    ⟨[], (List.append_nil _).symm, sinRaras_nil⟩, rfl⟩

theorem trans {b b' b'' : Barrido} (h : b.Sigue b') (h' : b'.Sigue b'') : b.Sigue b'' := by
  obtain ⟨⟨c, hc, hllano⟩, ⟨as, has, hsin⟩, hs⟩ := h
  obtain ⟨⟨c', hc', hllano'⟩, ⟨as', has', hsin'⟩, hs'⟩ := h'
  exact ⟨⟨c ++ c', by rw [hc', hc, List.append_assoc], llano_append hllano hllano'⟩,
    ⟨as ++ as', by rw [has', has, List.append_assoc], sinRaras_append hsin hsin'⟩, hs'.trans hs⟩

theorem pieza (b : Barrido) (c : Clase) (hc : ¬EsMargen c) (s : Sitio) : b.Sigue (b.pieza c s) :=
  ⟨⟨[⟨c, s⟩], rfl, fun p hp ↦ by rwa [List.mem_singleton.mp hp]⟩,
    ⟨[], (List.append_nil _).symm, sinRaras_nil⟩, rfl⟩

theorem avisa (b : Barrido) {as : List Aviso} (h : SinRaras as) : b.Sigue (b.avisa as) :=
  ⟨⟨[], (List.append_nil _).symm, fun _ hno ↦ nomatch hno⟩, ⟨as, rfl, h⟩, rfl⟩

theorem parejas (b : Barrido) (ps : List (Signo × Sitio)) :
    b.Sigue { b with parejas := ps } :=
  ⟨⟨[], (List.append_nil _).symm, fun _ hno ↦ nomatch hno⟩,
    ⟨[], (List.append_nil _).symm, sinRaras_nil⟩, rfl⟩

end Barrido.Sigue

namespace Renglon

variable (g : Renglon)

private theorem sinRaras_textoDesde (r : Text) (i : Nat) (salida : Text) (avisos : List Aviso)
    (h : SinRaras avisos) : SinRaras (g.textoDesde r i salida avisos).2.2 := by
  induction r, i, salida, avisos using Renglon.textoDesde.induct g with
  | case1 i salida avisos => exact h
  | case2 r i salida avisos => exact h
  | case3 i salida avisos =>
    exact sinRaras_append h (sinRaras_singleton fun hno ↦ nomatch hno)
  | case4 i salida avisos c r e he ih =>
    rw [textoDesde, he]
    exact ih h
  | case5 i salida avisos c r he ih =>
    rw [textoDesde, he]
    exact ih (sinRaras_append h (sinRaras_singleton fun hno ↦ nomatch hno))
  | case6 i salida avisos c r hcomilla hbarra hbarra' ih =>
    rw [textoDesde]
    · exact ih h
    all_goals assumption

private theorem sinRaras_leerTexto (r : Text) (i : Nat) : SinRaras (g.leerTexto r i).2.2 := by
  have h := g.sinRaras_textoDesde r (i + 1) [] [] sinRaras_nil
  unfold leerTexto
  cases ht : g.textoDesde r (i + 1) [] [] with
  | mk texto resto =>
    obtain ⟨k, avisos⟩ := resto
    rw [ht] at h
    cases texto with
    | some t => exact h
    | none => exact sinRaras_append h (sinRaras_singleton fun hno ↦ nomatch hno)

private theorem sinRaras_leerDecimal (cs : Text) (i : Nat) : SinRaras (g.leerDecimal cs i).2.2 := by
  unfold leerDecimal fraccion
  dsimp only
  by_cases h : puntoDecimal (cs.dropWhile esDigito)
  · rw [if_pos h]
    split
    · exact sinRaras_singleton fun hno ↦ nomatch hno
    · exact sinRaras_nil
  · rw [if_neg h]
    exact sinRaras_nil

private theorem sinRaras_leerHex (x : Char) (r : Text) (i : Nat) : SinRaras (g.leerHex x r i).2.2 := by
  unfold leerHex
  dsimp only
  by_cases h : (r.takeWhile esHex).isEmpty
  · rw [if_pos h]
    exact sinRaras_singleton fun hno ↦ nomatch hno
  · rw [if_neg h]
    dsimp only
    split
    · exact sinRaras_singleton fun hno ↦ nomatch hno
    · exact sinRaras_nil

private theorem sinRaras_leerNumero (cs : Text) (i : Nat) : SinRaras (g.leerNumero cs i).2.2 := by
  unfold leerNumero
  split
  · split
    · exact g.sinRaras_leerHex _ _ _
    · exact g.sinRaras_leerDecimal _ _
  · exact g.sinRaras_leerDecimal _ _

variable (u : Unicode) (v : Vocabulario)

private theorem sigue_palabra (p : Text) (i : Nat) (b : Barrido) : b.Sigue (g.palabra u v p i b) := by
  unfold palabra
  cases v.reconocer p with
  | some s => exact .pieza b (.Palabra s) (not_or.mpr ⟨nofun, nofun⟩) _
  | none =>
    dsimp only
    split
    · exact .pieza b (.Tipo p) (not_or.mpr ⟨nofun, nofun⟩) _
    · have hnombre (b' : Barrido) := Barrido.Sigue.pieza b' (.Nombre p)
        (not_or.mpr ⟨nofun, nofun⟩) (g.sitioDe i)
      split
      · exact hnombre b
      · have hsin : SinRaras [g.noAscii p i] := sinRaras_singleton nofun
        exact (Barrido.Sigue.avisa b hsin).trans (hnombre _)

private theorem sigue_pareja (s : Signo) (sitio : Sitio) (b : Barrido) : b.Sigue (g.pareja s sitio b) := by
  unfold pareja
  split
  · exact .parejas b _
  · split
    · exact .refl b
    · split
      · dsimp only
        split
        · exact .parejas b _
        · exact (Barrido.Sigue.parejas b _).trans
            (.avisa _ (sinRaras_singleton fun hno ↦ nomatch hno))
      · exact .avisa b (sinRaras_singleton fun hno ↦ nomatch hno)

private theorem sigue_signo (cs : Text) (c : Char) (i : Nat) (b : Barrido) :
    b.Sigue (g.signo cs c i b).1 := by
  unfold signo
  split
  · exact (g.sigue_pareja _ _ b).trans (.pieza _ (.Signo _) (not_or.mpr ⟨nofun, nofun⟩) _)
  · exact .avisa b (sinRaras_singleton fun hno ↦ nomatch hno)

private theorem sigue_lee (c : Char) (r : Text) (i : Nat) (b : Barrido) :
    b.Sigue (g.lee u v c r i b).1 := by
  unfold lee
  split
  · have h := Barrido.Sigue.avisa b (g.sinRaras_leerTexto r i)
    dsimp only
    split
    · exact h.trans (.pieza _ (.Texto _) (not_or.mpr ⟨nofun, nofun⟩) _)
    · exact h
  · split
    · exact .avisa b (sinRaras_singleton fun hno ↦ nomatch hno)
    · split
      · have h := Barrido.Sigue.avisa b (g.sinRaras_leerNumero (c :: r) i)
        dsimp only
        split
        · exact h.trans (.pieza _ (.Numero _) (not_or.mpr ⟨nofun, nofun⟩) _)
        · exact h
      · split
        · exact g.sigue_palabra u v _ i b
        · exact g.sigue_signo _ c i b

/-- **The body of a line has no piece of the margin.** -/
theorem sigue_barrerDesde (n : Nat) (cs : Text) (i : Nat) (b : Barrido) :
    b.Sigue (g.barrerDesde u v n cs i b) := by
  induction n generalizing cs i b with
  | zero => exact .refl b
  | succ n ih =>
    cases cs with
    | nil => exact .refl b
    | cons c r =>
      rw [barrerDesde]
      split
      · exact ih r (i + 1) b
      · split
        · exact .refl b
        · exact (g.sigue_lee u v c r i b).trans (ih _ _ _)

private theorem sigue_cuerpo (b : Barrido) : b.Sigue (b.cuerpo u v g) := by
  have h := g.sigue_barrerDesde u v g.cuerpo.length g.cuerpo 0 b
  unfold Barrido.cuerpo
  dsimp only
  split
  · exact h.trans (.pieza _ .FinLinea (not_or.mpr ⟨nofun, nofun⟩) _)
  · exact h

end Renglon

/-! ### The margin of a line -/

private theorem sinRaras_margenDesde (linea : Text) (n : Nat) (r : Text) (ancho : Nat) (avisos : List Aviso)
    (h : SinRaras avisos) : SinRaras (margenDesde linea n r ancho avisos).2.2 := by
  induction r, ancho, avisos using margenDesde.induct linea n with
  | case1 ancho avisos r ih =>
    rw [margenDesde]
    exact ih h
  | case2 ancho avisos r ih =>
    rw [margenDesde]
    refine ih ?_
    split
    · exact sinRaras_singleton nofun
    · exact h
  | case3 r ancho avisos hblanco htab =>
    rw [margenDesde]
    · exact h
    all_goals assumption

/-- Whether a line begins a logical line: no pair is open and it has content. -/
def Barrido.empieza (b : Barrido) (n : Nat) (linea : Text) : Bool :=
  b.parejas.isEmpty && !sinContenido (medirMargen linea n).2.1

/-- What a line does that begins a logical line. -/
structure Barrido.Entra (b b' : Barrido) (ancho : Nat) (sitio : Sitio) : Prop where
  piezas : ∃ c, b'.piezas =
    b.piezas ++ (Lexico.entra ancho b.sangrador.niveles).map (Pieza.mk · sitio) ++ c ∧ Llano c
  niveles : b'.sangrador.niveles = abre ancho b.sangrador.niveles
  avisos : raras b'.avisos = raras b.avisos ++
    if ancho ∉ b.sangrador.niveles ∧ ancho ≠ b.sangrador.margen + ANCHO then [sitio] else []

section

variable (u : Unicode) (v : Vocabulario)

private theorem linea_empieza {b : Barrido} (h : Abiertos b.sangrador.niveles) {n : Nat} {linea : Text}
    (he : b.empieza n linea) :
    b.Entra (b.linea u v n linea) (medirMargen linea n).1 ⟨n, (medirMargen linea n).1 + 1⟩ := by
  obtain ⟨hparejas, hcon⟩ := Bool.and_eq_true_iff.mp he
  have hsin := sinRaras_margenDesde linea n linea 0 [] sinRaras_nil
  obtain ⟨avisos, hmedir, hraras⟩ := medir_eq h (medirMargen linea n).1
    ⟨n, (medirMargen linea n).1 + 1⟩ linea
  unfold Barrido.linea
  rw [if_pos hparejas]
  dsimp only
  rw [if_neg (by simpa using hcon)]
  change b.Entra (Barrido.cuerpo u v _ _) _ _
  rw [show (b.avisa (medirMargen linea n).2.2).sangrador = b.sangrador from rfl, hmedir]
  obtain ⟨⟨c, hc, hllano⟩, ⟨as, has, hsin'⟩, hs⟩ := Renglon.sigue_cuerpo
    ⟨n, (medirMargen linea n).1, (medirMargen linea n).2.1⟩ u v
    { (b.avisa (medirMargen linea n).2.2).avisa avisos with
      sangrador := ⟨abre (medirMargen linea n).1 b.sangrador.niveles⟩
      piezas := b.piezas ++ (entra (medirMargen linea n).1 b.sangrador.niveles).map
        (Pieza.mk · ⟨n, (medirMargen linea n).1 + 1⟩) }
  refine ⟨⟨c, hc, hllano⟩, congrArg Sangrador.niveles hs, (congrArg raras has).trans ?_⟩
  rw [raras_append, hsin'.raras, List.append_nil, ← hraras]
  change raras (b.avisos ++ _ ++ avisos) = _
  rw [raras_append, raras_append]
  rw [SinRaras.raras (show SinRaras (medirMargen linea n).2.2 from hsin), List.append_nil]

private theorem linea_sigue {b : Barrido} {n : Nat} {linea : Text} (he : ¬b.empieza n linea) :
    b.Sigue (b.linea u v n linea) := by
  unfold Barrido.linea
  by_cases hparejas : b.parejas.isEmpty
  · have hsin := sinRaras_margenDesde linea n linea 0 [] sinRaras_nil
    have hcon : sinContenido (medirMargen linea n).2.1 := by
      simpa [Barrido.empieza, hparejas] using he
    rw [if_pos hparejas]
    dsimp only
    rw [if_pos hcon]
    exact .avisa b hsin
  · rw [if_neg hparejas]
    exact Renglon.sigue_cuerpo _ u v b

/-! ### A run -/

/-- Between two lines the open blocks are the widths that are open, but the margin of the file. -/
structure Barrido.Sano (b : Barrido) : Prop where
  niveles : Abiertos b.sangrador.niveles
  encaja : Encaja 0 b.piezas
  cuenta : desangras b.piezas + b.sangrador.niveles.length = sangras b.piezas + 1

namespace Barrido.Sano

theorem nuevo : Barrido.nuevo.Sano := ⟨abiertos_nuevo, encaja_nil 0, rfl⟩

variable {b b' : Barrido} (h : b.Sano)

include h

theorem sigue (hs : b.Sigue b') : b'.Sano := by
  obtain ⟨⟨c, hc, hllano⟩, -, hsangrador⟩ := hs
  have hpos := List.length_pos_of_ne_nil h.niveles.ne_nil
  have hcuenta := h.cuenta
  refine ⟨hsangrador ▸ h.niveles, ?_, ?_⟩
  · rw [hc]
    exact h.encaja.append (hllano.encaja (b.sangrador.niveles.length - 1)) (by omega)
  · rw [hc, desangras_append, sangras_append, hllano.desangras, hllano.sangras, hsangrador]
    exact hcuenta

variable {ancho : Nat} {sitio : Sitio} (he : b.Entra b' ancho sitio)

include he

theorem entra : b'.Sano := by
  obtain ⟨⟨c, hc, hllano⟩, hniveles, -⟩ := he
  obtain ⟨hencaja, hdif⟩ := entra_piezas h.niveles ancho sitio
  have hpos := List.length_pos_of_ne_nil h.niveles.ne_nil
  have hcuenta := h.cuenta
  have hmargen := h.encaja.append hencaja (by omega)
  refine ⟨hniveles ▸ h.niveles.abre ancho, ?_, ?_⟩
  · rw [hc]
    refine hmargen.append (hllano.encaja ((abre ancho b.sangrador.niveles).length - 1)) ?_
    have hpos' := List.length_pos_of_ne_nil (h.niveles.abre ancho).ne_nil
    rw [desangras_append, sangras_append]
    omega
  · rw [hc, hniveles, desangras_append, sangras_append, hllano.desangras, hllano.sangras,
      desangras_append, sangras_append]
    omega

private theorem anida : ∃ c, b'.piezas =
      b.piezas ++ (Lexico.entra ancho b.sangrador.niveles).map (Pieza.mk · sitio) ++ c ∧ Llano c ∧
    sangras (b.piezas ++ (Lexico.entra ancho b.sangrador.niveles).map (Pieza.mk · sitio)) =
      desangras (b.piezas ++ (Lexico.entra ancho b.sangrador.niveles).map (Pieza.mk · sitio)) +
        b'.sangrador.niveles.reverse.idxOf ancho := by
  obtain ⟨⟨c, hc, hllano⟩, hniveles, -⟩ := he
  have hdif := (entra_piezas h.niveles ancho sitio).2
  have hidx := (h.niveles.abre ancho).idxOf_head (head?_abre ancho _)
  have hcuenta := h.cuenta
  refine ⟨c, hc, hllano, ?_⟩
  rw [sangras_append, desangras_append, hniveles]
  omega

end Barrido.Sano

theorem Barrido.Sano.linea {b : Barrido} (h : b.Sano) (n : Nat) (linea : Text) :
    (b.linea u v n linea).Sano := by
  by_cases he : b.empieza n linea
  · exact h.entra (linea_empieza u v h.niveles he)
  · exact h.sigue (linea_sigue u v he)

theorem Barrido.Sano.lineas (ls : List Text) (n : Nat) {b : Barrido} (h : b.Sano) :
    (b.lineas u v n ls).Sano := by
  induction ls generalizing n b with
  | nil => exact h
  | cons l ls ih => exact ih (n + 1) (h.linea u v n l)

/-- What the sweep gathers, no line takes back. -/
theorem prefijo_linea {b : Barrido} (h : Abiertos b.sangrador.niveles) (n : Nat) (linea : Text) :
    b.piezas <+: (b.linea u v n linea).piezas ∧
      raras b.avisos <+: raras (b.linea u v n linea).avisos := by
  by_cases he : b.empieza n linea
  · obtain ⟨⟨c, hc, -⟩, -, havisos⟩ := linea_empieza u v h he
    exact ⟨⟨_, by rw [hc, List.append_assoc]⟩, ⟨_, havisos.symm⟩⟩
  · obtain ⟨⟨c, hc, -⟩, ⟨as, has, -⟩, -⟩ := linea_sigue u v he
    exact ⟨⟨c, hc.symm⟩, ⟨raras as, by rw [has, raras_append]⟩⟩

private theorem prefijo_lineas (ls : List Text) (n : Nat) {b : Barrido} (h : b.Sano) :
    b.piezas <+: (b.lineas u v n ls).piezas ∧
      raras b.avisos <+: raras (b.lineas u v n ls).avisos := by
  induction ls generalizing n b with
  | nil => exact ⟨List.prefix_rfl, List.prefix_rfl⟩
  | cons l ls ih =>
    obtain ⟨hp, hr⟩ := prefijo_linea u v h.niveles n l
    obtain ⟨hp', hr'⟩ := ih (n + 1) (h.linea u v n l)
    exact ⟨hp.trans hp', hr.trans hr'⟩

private theorem lineas_append (ls ms : List Text) (n : Nat) (b : Barrido) :
    b.lineas u v n (ls ++ ms) = (b.lineas u v n ls).lineas u v (n + ls.length) ms := by
  induction ls generalizing n b with
  | nil => rfl
  | cons l ls ih =>
    rw [List.cons_append, Barrido.lineas, Barrido.lineas, ih, List.length_cons,
      Nat.add_assoc, Nat.add_comm 1]

/-- What the sweep has gathered before the line `k`, from none. -/
def antes (fuente : Text) (k : Nat) : Barrido :=
  Barrido.nuevo.lineas u v 1 ((lines fuente).take k)

private theorem antes_sano (fuente : Text) (k : Nat) : (antes u v fuente k).Sano :=
  Barrido.Sano.nuevo.lineas u v _ 1

private theorem antes_succ (fuente : Text) (i : Fin (lines fuente).length) :
    antes u v fuente (i + 1) = (antes u v fuente i).linea u v (i + 1) (lines fuente)[i] := by
  unfold antes
  rw [List.take_succ_eq_append_getElem i.isLt, lineas_append, List.length_take,
    Nat.min_eq_left i.isLt.le, Nat.add_comm 1]
  rfl

private theorem prefijo_antes (fuente : Text) (k : Nat) :
    (antes u v fuente k).piezas <+: (barrer u v fuente).1 ∧
      raras (antes u v fuente k).avisos <+: raras (barrer u v fuente).2 := by
  obtain ⟨hp, hr⟩ := prefijo_lineas u v ((lines fuente).drop k)
    (1 + ((lines fuente).take k).length) (antes_sano u v fuente k)
  unfold antes at hp hr ⊢
  rw [← lineas_append, List.take_append_drop] at hp hr
  refine ⟨hp.trans (List.prefix_append _ _), hr.trans ?_⟩
  unfold barrer
  dsimp only
  rw [raras_append]
  exact List.prefix_append _ _

/-- **The margin is balanced**, whatever a source is. -/
theorem barrer_encaja (fuente : Text) :
    Encaja 0 (barrer u v fuente).1 ∧
      sangras (barrer u v fuente).1 = desangras (barrer u v fuente).1 := by
  have h := Barrido.Sano.nuevo.lineas u v (lines fuente) 1
  have hcuenta := h.cuenta
  have hpos := List.length_pos_of_ne_nil h.niveles.ne_nil
  unfold barrer
  dsimp only
  generalize Barrido.nuevo.lineas u v 1 (lines fuente) = b at *
  generalize (b.piezas.getLast?.map Pieza.sitio).getD default = ultima
  have hfin : Llano [⟨.Fin, ultima⟩] := by
    intro p hp
    rw [List.mem_singleton.mp hp]
    exact not_or.mpr ⟨nofun, nofun⟩
  have hcierra := (encaja_cierra (Nat.le_refl (b.sangrador.niveles.length - 1)) ultima).append
    (hfin.encaja 0) (by rw [desangras_cierra, sangras_cierra])
  rw [Sangrador.cerrar, List.map_append, List.map_replicate]
  refine ⟨h.encaja.append hcierra (by omega), ?_⟩
  rw [sangras_append, sangras_append, desangras_append, desangras_append, sangras_cierra,
    desangras_cierra, List.map_singleton, hfin.sangras, hfin.desangras]
  omega

/-- How deep the line `i` is nested, from none. -/
def hondura (fuente : Text) (i : Nat) : Nat :=
  let ps := (antes u v fuente (i + 1)).piezas
  sangras ps - desangras ps

/-- **The margin makes a tree**: the pieces of it are balanced, and a logical line is nested by
where its width is in the stack of open ones. A width that no block has, nor the next one within, is
reported and is then a block of its own. -/
theorem sangria_arbol (fuente : Text) :
    (∀ k, desangras ((barrer u v fuente).1.take k) ≤ sangras ((barrer u v fuente).1.take k)) ∧
    sangras (barrer u v fuente).1 = desangras (barrer u v fuente).1 ∧
    ∀ i : Fin (lines fuente).length,
      let b := antes u v fuente i
      let b' := antes u v fuente (i + 1)
      let ancho := (medirMargen (lines fuente)[i] (i + 1)).1
      let sitio : Sitio := ⟨i + 1, ancho + 1⟩
      b'.piezas <+: (barrer u v fuente).1 ∧
      raras b'.avisos <+: raras (barrer u v fuente).2 ∧
      if b.empieza (i + 1) (lines fuente)[i] then
        hondura u v fuente i = b'.sangrador.niveles.reverse.idxOf ancho ∧
        (∃ c, b'.piezas =
            b.piezas ++ (entra ancho b.sangrador.niveles).map (Pieza.mk · sitio) ++ c ∧ Llano c) ∧
        b'.sangrador.niveles = abre ancho b.sangrador.niveles ∧
        raras b'.avisos = raras b.avisos ++
          if ancho ∉ b.sangrador.niveles ∧ ancho ≠ b.sangrador.margen + ANCHO then [sitio] else []
      else
        (∃ c, b'.piezas = b.piezas ++ c ∧ Llano c) ∧
        b'.sangrador = b.sangrador ∧
        raras b'.avisos = raras b.avisos := by
  obtain ⟨hencaja, hfin⟩ := barrer_encaja u v fuente
  refine ⟨fun k ↦ Nat.zero_add (sangras _) ▸ hencaja k, hfin, fun i ↦ ?_⟩
  dsimp only
  obtain ⟨hp, hr⟩ := prefijo_antes u v fuente (i + 1)
  refine ⟨hp, hr, ?_⟩
  have hsano := antes_sano u v fuente i
  unfold hondura
  rw [antes_succ]
  split
  · next he =>
    have hentra := linea_empieza u v hsano.niveles he
    obtain ⟨c, hc, hllano, hanida⟩ := hsano.anida hentra
    refine ⟨?_, hentra.piezas, hentra.niveles, hentra.avisos⟩
    dsimp only
    rw [hc, sangras_append, desangras_append (_ ++ _), hllano.sangras, hllano.desangras, hanida]
    omega
  · next he =>
    obtain ⟨hpiezas, ⟨as, has, hsin⟩, hsangrador⟩ := linea_sigue u v he
    exact ⟨hpiezas, hsangrador, by rw [has, raras_append, hsin.raras, List.append_nil]⟩

end

/-- The fourth line goes back to a width that no block has; the nearest one out of it has four
spaces. -/
def vuelveRara (cuarta : Nat) : Text :=
  ['a', '\n'] ++ List.replicate 4 ' ' ++ ['b', '\n'] ++ List.replicate 8 ' ' ++ ['c', '\n'] ++
    List.replicate cuarta ' ' ++ ['d', '\n'] ++ List.replicate 8 ' ' ++ ['e']

/-- The line after it is not nested as if it had that width. -/
theorem vuelveRara_hondura :
    (antes .ascii .es (vuelveRara 6) 3).sangrador.niveles = [8, 4, 0] ∧
      (antes .ascii .es (vuelveRara 4) 3).sangrador.niveles = [8, 4, 0] ∧
      raras (barrer .ascii .es (vuelveRara 6)).2 = [⟨4, 7⟩, ⟨5, 9⟩] ∧
      hondura .ascii .es (vuelveRara 6) 4 = 3 ∧ hondura .ascii .es (vuelveRara 4) 4 = 2 := by
  decide

end BmoX.Inti.Lexico
