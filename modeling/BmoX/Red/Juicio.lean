import BmoX.Base.RateWindow
import BmoX.Red.Salida
import Mathlib.Data.List.Induction
import Mathlib.Data.Nat.SuccPred

/-!
# Tap and flights, one call at a time

What each function of the tap and of the register of flights does to what happened so far.

The tap against all that happened to it: a frame leaves under a grant that is neither spent nor
over, and a frame that is refused spends none of it. Then the flights against the frames that left.
-/

namespace BmoX.Red.Salida

open BmoX.Base

/-! ### The purpose of the tap -/

/-- A grant: until when, how many frames, and how many of them have left. -/
structure Permiso where
  hasta : Nat
  concedidas : Nat
  gastadas : Nat

/-- The grant in force after something more happened. -/
def Permiso.tras : Option Permiso → Suceso → Option Permiso
  | _, .abierto ahora plazo cupo =>
    if 0 < plazo.toNat ∧ 0 < cupo.toNat then
      some ⟨min (ahora.toNat + plazo.toNat) (2 ^ 64 - 1), cupo.toNat, 0⟩
    else none
  | _, .cerrado => none
  | q, .salio .. => q.map fun q ↦ { q with gastadas := q.gastadas + 1 }
  | q, _ => q

/-- The grant in force after all that happened. -/
def permiso (h : List Suceso) : Option Permiso := h.foldl Permiso.tras none

/-- The frames that left: the slot of each, what the process gave, and when. -/
def salidas (h : List Suceso) : List (Fin anillo × Bytes × UInt64) := h.filterMap fun
  | .salio casilla trama ahora => some (casilla, trama, ahora)
  | _ => none

/-- The slots that landed. -/
def aterrizadas (h : List Suceso) : List (Fin anillo) := h.filterMap fun
  | .aterrizo casilla => some casilla
  | _ => none

/-- A frame with the zeros that bring it to the shortest length. -/
def rellena (trama : Bytes) : Bytes := trama ++ zeros (max trama.length minima - trama.length)

/-- A frame of ours: our source, a destination, ARP or IPv4. -/
structure Correcta (miMac : Arr 6) (trama : Bytes) : Prop where
  corta : 14 ≤ trama.length
  larga : trama.length ≤ maxima
  origen : slice trama 6 6 = miMac.1
  destino : slice trama 0 6 ≠ zeros 6
  tipo : slice trama 12 2 = [0x08, 0x06] ∨ slice trama 12 2 = [0x08, 0x00]

/-- Every frame that left was ours and left under a grant. -/
def Juzgadas (miMac : Arr 6) (h : List Suceso) : Prop :=
  ∀ n casilla trama ahora, h[n]? = some (.salio casilla trama ahora) →
    Correcta miMac trama ∧ ∃ q, permiso (h.take n) = some q ∧ ahora.toNat < q.hasta ∧
      q.gastadas < q.concedidas

/-- A refusal changes neither flights nor rate, and the quota only where the grant was over, which
closes the tap. -/
def SinGasto (h : List Suceso) : Prop :=
  ∀ no antes despues, Suceso.negada no antes despues ∈ h → despues.1 = antes.1 ∧
    despues.2.segundo = antes.2.segundo ∧ despues.2.enEste = antes.2.enEste ∧
    (despues.2.cupo = antes.2.cupo ∨
      (no = .grifo .caducado ∧ despues.2.cupo = 0 ∧ despues.2.abierto = false))

section

variable {h : List Suceso} {s : Suceso} {miMac : Arr 6} {trama : Bytes} {ahora : UInt64}
  {casilla : Fin anillo}

private theorem permiso_concat : permiso (h ++ [s]) = Permiso.tras (permiso h) s := by
  rw [permiso, List.foldl_append]
  rfl

@[simp] theorem Permiso.tras_negada {q : Option Permiso} {no : Fallo} {a b : Vuelos × Grifo} :
    Permiso.tras q (.negada no a b) = q := by
  cases q <;> rfl

@[simp] theorem Permiso.tras_aterrizo {q : Option Permiso} :
    Permiso.tras q (.aterrizo casilla) = q := by
  cases q <;> rfl

@[simp] theorem Permiso.tras_salio {q : Option Permiso} :
    Permiso.tras q (.salio casilla trama ahora) =
      q.map fun q ↦ { q with gastadas := q.gastadas + 1 } := by
  cases q <;> rfl

@[simp] theorem salidas_singleton : salidas [s] = match s with
    | .salio casilla trama ahora => [(casilla, trama, ahora)]
    | _ => [] := by
  cases s <;> rfl

@[simp] theorem aterrizadas_singleton : aterrizadas [s] = match s with
    | .aterrizo casilla => [casilla]
    | _ => [] := by
  cases s <;> rfl

@[simp] theorem salidas_append (h h' : List Suceso) : salidas (h ++ h') = salidas h ++ salidas h' :=
  List.filterMap_append

@[simp] theorem aterrizadas_append (h h' : List Suceso) :
    aterrizadas (h ++ h') = aterrizadas h ++ aterrizadas h' :=
  List.filterMap_append

theorem length_rellena : (rellena trama).length = max trama.length minima := by
  rw [rellena, List.length_append, length_zeros]
  omega

/-- Padding changes none of the fields of a frame. -/
theorem Correcta.rellena (hc : Correcta miMac trama) : Correcta miMac (rellena trama) ∧
    minima ≤ (Salida.rellena trama).length ∧ (Salida.rellena trama).length ≤ maxima := by
  have h14 := hc.corta
  have hmax := hc.larga
  have hslice : ∀ o n, o + n ≤ 14 → slice (Salida.rellena trama) o n = slice trama o n :=
    fun o n hon ↦ slice_append_left (by omega)
  refine ⟨⟨?_, ?_, ?_, ?_, ?_⟩, ?_, ?_⟩
  · rw [length_rellena]
    omega
  · rw [length_rellena]
    simp only [Salida.minima, Salida.maxima] at *
    omega
  · rw [hslice 6 6 (by omega), hc.origen]
  · rw [hslice 0 6 (by omega)]
    exact hc.destino
  · rw [hslice 12 2 (by omega)]
    exact hc.tipo
  · rw [length_rellena]
    exact Nat.le_max_right ..
  · rw [length_rellena]
    simp only [Salida.minima, Salida.maxima] at *
    omega

/-- Something other than a frame leaves the frames judged. -/
theorem Juzgadas.concat (hj : Juzgadas miMac h) (hs : ∀ casilla trama ahora,
    s = .salio casilla trama ahora → Correcta miMac trama ∧ ∃ q, permiso h = some q ∧
      ahora.toNat < q.hasta ∧ q.gastadas < q.concedidas) : Juzgadas miMac (h ++ [s]) := by
  intro n casilla trama ahora hn
  by_cases hlt : n < h.length
  · rw [List.getElem?_append_left hlt] at hn
    rw [List.take_append_of_le_length hlt.le]
    exact hj n casilla trama ahora hn
  · rw [List.getElem?_append_right (by omega), List.getElem?_singleton] at hn
    split at hn
    · next h0 =>
      have hlen : n = h.length := by omega
      cases hn
      rw [hlen, List.take_left']
      · exact hs _ _ _ rfl
      · rfl
    · cases hn

theorem SinGasto.concat (hg : SinGasto h) (hs : ∀ no antes despues, s ≠ .negada no antes despues) :
    SinGasto (h ++ [s]) := by
  intro no antes despues hmem
  rcases List.mem_append.mp hmem with hmem | hmem
  · exact hg no antes despues hmem
  · exact absurd (List.mem_singleton.mp hmem).symm (hs no antes despues)

/-- Between two openings at most what the first granted leaves. -/
theorem Juzgadas.cupo {pre mid : List Suceso} {t plazo : UInt64} {c : UInt32}
    (hj : Juzgadas miMac (pre ++ .abierto t plazo c :: mid))
    (hmid : ∀ s ∈ mid, ∀ t plazo c, s ≠ .abierto t plazo c) : (salidas mid).length ≤ c.toNat := by
  -- the grant that is in force within `mid` is the one of the opening, with `mid` taken off it
  have hgrant : ∀ l, l <+: mid → ∀ q, permiso (pre ++ .abierto t plazo c :: l) = some q →
      q.concedidas = c.toNat ∧ q.gastadas = (salidas l).length := by
    intro l hl
    induction l using List.reverseRecOn with
    | nil =>
      intro q hq
      rw [permiso_concat, Permiso.tras] at hq
      split at hq
      · cases hq
        exact ⟨rfl, rfl⟩
      · cases hq
    | append_singleton l s ih =>
      intro q hq
      have ih := ih ((List.prefix_append l [s]).trans hl)
      have hs : s ∈ mid := hl.subset (by simp)
      rw [← List.cons_append, ← List.append_assoc, permiso_concat] at hq
      rw [salidas_append]
      cases s with
      | abierto t' plazo' c' => exact absurd rfl (hmid _ hs t' plazo' c')
      | cerrado => cases hq
      | salio casilla trama ahora =>
        rw [Permiso.tras_salio] at hq
        obtain ⟨q', hq', rfl⟩ := Option.map_eq_some_iff.mp hq
        obtain ⟨h1, h2⟩ := ih q' hq'
        exact ⟨h1, by simp [h2]⟩
      | negada no antes despues =>
        rw [Permiso.tras_negada] at hq
        obtain ⟨h1, h2⟩ := ih q hq
        exact ⟨h1, by simp [h2]⟩
      | aterrizo casilla =>
        rw [Permiso.tras_aterrizo] at hq
        obtain ⟨h1, h2⟩ := ih q hq
        exact ⟨h1, by simp [h2]⟩
  induction mid using List.reverseRecOn with
  | nil => exact Nat.zero_le _
  | append_singleton l s ih =>
    have hjl : Juzgadas miMac (pre ++ .abierto t plazo c :: l) := by
      intro n casilla trama ahora hn
      have hlt := (List.getElem?_eq_some_iff.mp hn).1
      have hfull := hj n casilla trama ahora (by
        rw [← List.cons_append, ← List.append_assoc, List.getElem?_append_left hlt]
        exact hn)
      rwa [← List.cons_append, ← List.append_assoc, List.take_append_of_le_length hlt.le] at hfull
    have ih := ih hjl (fun s hs ↦ hmid s (List.mem_append_left _ hs))
      fun l' hl' ↦ hgrant l' (hl'.trans (List.prefix_append l [s]))
    rw [salidas_append, List.length_append]
    cases s with
    | salio casilla trama ahora =>
      have hlast : (pre ++ .abierto t plazo c :: (l ++ [Suceso.salio casilla trama ahora]))[
          (pre ++ .abierto t plazo c :: l).length]? = some (.salio casilla trama ahora) := by
        rw [← List.cons_append, ← List.append_assoc, List.getElem?_append_right le_rfl]
        simp
      obtain ⟨-, q, hq, -, hlt⟩ := hj _ _ _ _ hlast
      rw [← List.cons_append, ← List.append_assoc, List.take_left'] at hq
      · obtain ⟨h1, h2⟩ := hgrant l (List.prefix_append l _) q hq
        simp only [salidas_singleton, List.length_singleton] at *
        omega
      · rfl
    | _ => simpa using ih

end

/-! ### Tap and flights, one call at a time -/

/-! ### Judging a frame -/

/-- The tap after a refusal. -/
structure Grifo.Negado (no : NoSale) (g g' : Grifo) : Prop where
  segundo : g'.segundo = g.segundo
  enEste : g'.enEste = g.enEste
  salieron : g'.salieron = g.salieron
  cupo : (g'.cupo = g.cupo ∧ g'.abierto = g.abierto ∧ g'.hasta = g.hasta) ∨
    (no = .caducado ∧ g'.cupo = 0 ∧ g'.abierto = false)

/-- The tap after a frame was let through. -/
structure Grifo.Concedido (miMac : Arr 6) (trama : Bytes) (ahora : UInt64) (g g' : Grifo) : Prop where
  correcta : Correcta miMac trama
  abierto : g.abierto = true
  plazo : ahora < g.hasta
  cupo : g.cupo ≠ 0
  abierto' : g'.abierto = true
  hasta : g'.hasta = g.hasta
  cupo' : g'.cupo = g.cupo - 1
  salieron : g'.salieron = g.salieron + 1
  ritmo : (ahora.toNat < g.segundo.toNat + Salida.segundo ∧ g.enEste.toNat < ritmoMax ∧
      g'.segundo = g.segundo ∧ g'.enEste = g.enEste + 1) ∨
    (g.segundo.toNat + Salida.segundo ≤ ahora.toNat ∧ g'.segundo = ahora ∧ g'.enEste = 1)

/-- A frame that is refused writes nothing; one that is let through is copied, zeros after it. -/
theorem Grifo.juzgar_cases (g : Grifo) (trama : Bytes) (miMac : Arr 6) (ahora : UInt64)
    (dir sitio : Nat) :
    (∃ no g', g.juzgar trama miMac ahora dir sitio = pure (.error no, g') ∧ g.Negado no g') ∨
    ∃ g', g.juzgar trama miMac ahora dir sitio = (do
        pide (.copiar dir trama)
        pide (.copiar (dir + trama.length) (zeros (max trama.length minima - trama.length)))
        return (.ok (max trama.length minima), g')) ∧
      g.Concedido miMac trama ahora g' := by
  have hno : ∀ no, (∃ no' g', (pure (.error no, { g with negadas := g.negadas + 1, ultimoNo := some no })
      : Prog corral (Except NoSale Nat × Grifo)) = pure (.error no', g') ∧ g.Negado no' g') :=
    fun no ↦ ⟨no, _, rfl, rfl, rfl, rfl, .inl ⟨rfl, rfl, rfl⟩⟩
  rw [juzgar, juzgarSinContar]
  by_cases habierto : (!g.abierto) = true
  · rw [if_pos habierto]
    exact .inl (hno _)
  rw [if_neg habierto]
  by_cases hplazo : ahora ≥ g.hasta
  · rw [if_pos hplazo]
    exact .inl ⟨_, _, rfl, rfl, rfl, rfl, .inr ⟨rfl, rfl, rfl⟩⟩
  rw [if_neg hplazo]
  by_cases hcupo : g.cupo = 0
  · rw [if_pos hcupo]
    exact .inl (hno _)
  rw [if_neg hcupo]
  by_cases hcorta : trama.length < 14
  · rw [if_pos hcorta]
    exact .inl (hno _)
  rw [if_neg hcorta]
  by_cases hlarga : trama.length > maxima
  · rw [if_pos hlarga]
    exact .inl (hno _)
  rw [if_neg hlarga]
  by_cases horigen : slice trama 6 6 ≠ miMac.1
  · rw [if_pos horigen]
    exact .inl (hno _)
  rw [if_neg horigen]
  by_cases hdestino : slice trama 0 6 = zeros 6
  · rw [if_pos hdestino]
    exact .inl (hno _)
  rw [if_neg hdestino]
  by_cases htipo : slice trama 12 2 ≠ [0x08, 0x06] ∧ slice trama 12 2 ≠ [0x08, 0x00]
  · rw [if_pos htipo]
    exact .inl (hno _)
  rw [if_neg htipo]
  by_cases hsitio : sitio < max trama.length minima
  · rw [if_pos hsitio]
    exact .inl (hno _)
  rw [if_neg hsitio]
  have hcorrecta : Correcta miMac trama := by
    refine ⟨by omega, by omega, not_not.mp horigen, hdestino, ?_⟩
    by_contra hc
    exact htipo (not_or.mp hc)
  have hplazo' : ahora < g.hasta := by
    rw [UInt64.lt_iff_toNat_lt]
    rw [ge_iff_le, UInt64.le_iff_toNat_le] at hplazo
    omega
  have habierto' : g.abierto = true := by simpa using habierto
  by_cases hseg : (restaSat ahora g.segundo).toNat ≥ Salida.segundo
  · -- a new window: the count begins at this frame
    have hcero : ¬(0 : UInt32).toNat ≥ ritmoMax := by decide
    simp only [if_pos hseg, if_neg hcero]
    have hfin : g.segundo.toNat + Salida.segundo ≤ ahora.toNat := by
      rw [toNat_restaSat] at hseg
      simp only [Salida.segundo] at hseg ⊢
      omega
    exact .inr ⟨_, rfl, hcorrecta, habierto', hplazo', hcupo, habierto', rfl, rfl, rfl,
      .inr ⟨hfin, rfl, rfl⟩⟩
  · simp only [if_neg hseg]
    rw [toNat_restaSat] at hseg
    by_cases hritmo : g.enEste.toNat ≥ ritmoMax
    · rw [if_pos hritmo]
      exact .inl (hno _)
    · rw [if_neg hritmo]
      exact .inr ⟨_, rfl, hcorrecta, habierto', hplazo', hcupo, habierto', rfl, rfl, rfl,
        .inl ⟨by omega, by omega, rfl, rfl⟩⟩

/-! ### The tap and what happened -/

/-- The tap goes with what happened, `reloj` being the time now. -/
structure Grifo.Lleva (h : List Suceso) (reloj : UInt64) (g : Grifo) : Prop where
  permiso : g.abierto = true → ∃ q, permiso h = some q ∧ q.hasta = g.hasta.toNat ∧
    q.gastadas + g.cupo.toNat = q.concedidas
  ritmo : RateWindow Salida.segundo ritmoMax g.segundo.toNat g.enEste.toNat
    ((salidas h).map fun x ↦ x.2.2.toNat)
  segundo_le : g.segundo ≤ reloj
  salieron : g.salieron = UInt64.ofNat (salidas h).length

namespace Grifo.Lleva

variable {h : List Suceso} {reloj ahora : UInt64} {g g' : Grifo} {miMac : Arr 6} {trama : Bytes}

theorem cerrado (t : UInt64) : Lleva [] t .cerrado :=
  ⟨fun h ↦ (by cases h), RateWindow.start, UInt64.le_iff_toNat_le.mpr (Nat.zero_le t.toNat), rfl⟩

theorem mono (hg : g.Lleva h ahora) (ht : ahora ≤ reloj) : g.Lleva h reloj :=
  ⟨hg.permiso, hg.ritmo, UInt64.le_trans hg.segundo_le ht, hg.salieron⟩

theorem abrir (hg : g.Lleva h ahora) (duracion : UInt64) (cupo : UInt32) :
    (g.abrir ahora duracion cupo).2.Lleva (h ++ [Suceso.abierto ahora (g.abrir ahora duracion cupo).1.1
      (g.abrir ahora duracion cupo).1.2]) ahora := by
  refine ⟨fun habierto ↦ ?_, ?_, hg.segundo_le, ?_⟩
  · simp only [Grifo.abrir, Bool.and_eq_true, decide_eq_true_eq] at habierto
    obtain ⟨hd, hc⟩ := habierto
    rw [permiso_concat, Permiso.tras, if_pos ⟨UInt64.lt_iff_toNat_lt.mp hd, UInt32.lt_iff_toNat_lt.mp hc⟩]
    refine ⟨_, rfl, ?_, Nat.zero_add _⟩
    rw [Grifo.abrir, toNat_sumaSat]
  · rw [salidas_append]
    simp only [salidas_singleton, List.append_nil]
    exact hg.ritmo
  · rw [salidas_append]
    simp only [salidas_singleton, List.append_nil]
    exact hg.salieron

theorem cerrar (hg : g.Lleva h ahora) : g.cerrar.Lleva (h ++ [Suceso.cerrado]) ahora := by
  refine ⟨fun habierto ↦ (by cases habierto), ?_, hg.segundo_le, ?_⟩
  · rw [salidas_append]
    simp only [salidas_singleton, List.append_nil]
    exact hg.ritmo
  · rw [salidas_append]
    simp only [salidas_singleton, List.append_nil]
    exact hg.salieron

theorem negada {no : NoSale} (hg : g.Lleva h ahora) (hn : g.Negado no g') (f : Fallo)
    (antes despues : Vuelos × Grifo) : g'.Lleva (h ++ [Suceso.negada f antes despues]) ahora := by
  refine ⟨fun habierto ↦ ?_, ?_, hn.segundo ▸ hg.segundo_le, ?_⟩
  · rw [permiso_concat, Permiso.tras_negada]
    rcases hn.cupo with ⟨hc, ha, hh⟩ | ⟨-, -, ha⟩
    · rw [hc, hh]
      exact hg.permiso (ha ▸ habierto)
    · rw [ha] at habierto
      cases habierto
  · rw [salidas_append, hn.segundo, hn.enEste]
    simpa using hg.ritmo
  · rw [salidas_append, hn.salieron]
    simpa using hg.salieron

theorem aterrizo (hg : g.Lleva h ahora) (cs : List (Fin anillo)) :
    g.Lleva (h ++ cs.map .aterrizo) ahora := by
  have hnada : salidas (cs.map Suceso.aterrizo) = [] := by
    simp [salidas, List.filterMap_map]
  refine ⟨fun habierto ↦ ?_, ?_, hg.segundo_le, ?_⟩
  · obtain ⟨q, hq, hrest⟩ := hg.permiso habierto
    refine ⟨q, ?_, hrest⟩
    clear hnada
    induction cs using List.reverseRecOn with
    | nil => rwa [List.map_nil, List.append_nil]
    | append_singleton cs c ih =>
      rw [List.map_append, ← List.append_assoc]
      exact permiso_concat.trans (Permiso.tras_aterrizo.trans ih)
  · rw [salidas_append, hnada, List.append_nil]
    exact hg.ritmo
  · rw [salidas_append, hnada, List.append_nil]
    exact hg.salieron

/-- A frame that is let through leaves under the grant in force. -/
theorem salio (hg : g.Lleva h ahora) (hc : g.Concedido miMac trama ahora g') (casilla : Fin anillo) :
    g'.Lleva (h ++ [Suceso.salio casilla trama ahora]) ahora ∧
      ∃ q, Salida.permiso h = some q ∧ ahora.toNat < q.hasta ∧ q.gastadas < q.concedidas := by
  obtain ⟨q, hq, hhasta, hgast⟩ := hg.permiso hc.abierto
  have hpos : 0 < g.cupo.toNat := by
    rw [Nat.pos_iff_ne_zero]
    exact fun h0 ↦ hc.cupo (UInt32.toNat_inj.mp h0)
  have hplazo := UInt64.lt_iff_toNat_lt.mp hc.plazo
  refine ⟨⟨fun _ ↦ ⟨{ q with gastadas := q.gastadas + 1 }, ?_, ?_, ?_⟩, ?_, ?_, ?_⟩, q, hq, by omega,
    by omega⟩
  · rw [permiso_concat, hq]
    rfl
  · rw [hc.hasta]
    exact hhasta
  · have hcupo : (g.cupo - 1).toNat = g.cupo.toNat - 1 := UInt32.toNat_sub_of_le _ _
      (UInt32.le_iff_toNat_le.mpr hpos)
    rw [hc.cupo', hcupo]
    simp only
    omega
  · have htimes : (salidas (h ++ [Suceso.salio casilla trama ahora])).map (fun x ↦ x.2.2.toNat) =
        (salidas h).map (fun x ↦ x.2.2.toNat) ++ [ahora.toNat] := by
      simp
    have hseg := UInt64.le_iff_toNat_le.mp hg.segundo_le
    rw [htimes]
    rcases hc.ritmo with ⟨hlt, hmax, hs, he⟩ | ⟨hge, hs, he⟩
    · have hsuc : (g.enEste + 1).toNat = g.enEste.toNat + 1 := by
        rw [UInt32.toNat_add, UInt32.toNat_one]
        simp only [ritmoMax] at hmax
        omega
      rw [hs, he, hsuc]
      exact hg.ritmo.count hmax hseg hlt
    · rw [hs, he]
      exact hg.ritmo.next (by decide) (by decide) hge
  · rcases hc.ritmo with ⟨-, -, hs, -⟩ | ⟨-, hs, -⟩
    · rw [hs]
      exact hg.segundo_le
    · rw [hs]
      exact UInt64.le_refl _
  · rw [hc.salieron, hg.salieron, salidas_append, List.length_append]
    simp

end Grifo.Lleva

/-! ### The flights and what happened -/

/-- The slot of the `k`-th frame. -/
def casillaDe (k : Nat) : Fin anillo := Fin.ofNat anillo k

private theorem casillaDe_succ (k : Nat) : casillaDe (k + 1) = casillaDe k + 1 := by
  apply Fin.ext
  simp [casillaDe, Fin.val_add]

private theorem casillaDe_add (k : Nat) : casillaDe (k + anillo) = casillaDe k := by
  apply Fin.ext
  simp [casillaDe]

theorem casillaDe_ne {j k : Nat} (hjk : j < k) (hk : k < j + anillo) : casillaDe j ≠ casillaDe k := by
  intro h
  have hval : j % anillo = k % anillo := congrArg Fin.val h
  simp only [anillo] at hval hk
  omega

/-- After `d` frames left and `a` of their slots landed, those between are in flight. -/
structure Vuelos.Lleva (d a : Nat) (v : Vuelos) : Prop where
  le : a ≤ d
  cabe : d ≤ a + anillo
  siguiente : v.siguiente = casillaDe d
  masVieja : v.masVieja = casillaDe a
  enVuelo : v.enVuelo = d - a
  ocupadas : ∀ k, a ≤ k → k < d → v.casillas (casillaDe k) ≠ .libre
  libres : ∀ k, d ≤ k → k < a + anillo → v.casillas (casillaDe k) = .libre
  despegues : v.despegues = UInt64.ofNat d
  aterrizajes : v.aterrizajes = UInt64.ofNat a

namespace Vuelos.Lleva

variable {d a : Nat} {v : Vuelos} {ahora : UInt64}

theorem nuevo : Lleva 0 0 .nuevo :=
  ⟨le_rfl, Nat.zero_le _, rfl, rfl, rfl, fun _ _ h ↦ absurd h (Nat.not_lt_zero _), fun _ _ _ ↦ rfl,
    rfl, rfl⟩

/-- With a slot left, it is the one after the last. -/
theorem proxima (hv : v.Lleva d a) :
    v.proxima = if d = a + anillo then .error .anilloLleno else .ok (casillaDe d) := by
  have hle := hv.le
  rw [Vuelos.proxima, hv.enVuelo, hv.siguiente]
  by_cases h : d = a + anillo
  · rw [if_pos (by omega), if_pos h]
  · rw [if_neg (by omega), if_neg h]

theorem despegar (hv : v.Lleva d a) (hd : d ≠ a + anillo) (ahora : UInt64) :
    ∃ v', v.despegar (casillaDe d) ahora = .ok v' ∧ v'.Lleva (d + 1) a := by
  have hle := hv.le
  have hcabe := hv.cabe
  have hlibre : v.casillas (casillaDe d) = .libre := hv.libres d le_rfl (by omega)
  refine ⟨{ v with
    casillas := Function.update v.casillas (casillaDe d) (.enVuelo ahora)
    siguiente := v.siguiente + 1
    enVuelo := v.enVuelo + 1
    despegues := v.despegues + 1 }, ?_, ⟨by omega, by omega, ?_, hv.masVieja, ?_, fun k hak hkd ↦ ?_, fun k hdk hka ↦ ?_, ?_,
    hv.aterrizajes⟩⟩
  · rw [Vuelos.despegar, hv.proxima, if_neg hd]
    simp [bind, Except.bind, hlibre, pure, Except.pure]
  · simp [hv.siguiente, casillaDe_succ]
  · simp only [hv.enVuelo]
    omega
  · simp only
    by_cases hk : k = d
    · rw [hk, Function.update_self]
      exact fun h ↦ by cases h
    · rw [Function.update_of_ne (casillaDe_ne (by omega) (by omega))]
      exact hv.ocupadas k hak (by omega)
  · simp only
    rw [Function.update_of_ne (casillaDe_ne (by omega) (by omega)).symm]
    exact hv.libres k (by omega) hka
  · simp [hv.despegues]

theorem masVieja? (hv : v.Lleva d a) : v.masVieja? = if d = a then none else some (casillaDe a) := by
  have hle := hv.le
  rw [Vuelos.masVieja?, hv.enVuelo, hv.masVieja]
  by_cases h : d = a
  · rw [if_pos (by omega), if_pos h]
  · rw [if_neg (by omega), if_neg h]

/-- The oldest slot in flight lands, once the card has let go of it. -/
theorem recoger (hv : v.Lleva d a) (hd : d ≠ a) (ahora : UInt64) :
    v.recoger true ahora = (.nada, v) ∧
      ∃ t v', v.recoger false ahora = (.aterrizo (casillaDe a) t, v') ∧ v'.Lleva d (a + 1) := by
  have hle := hv.le
  have hcabe := hv.cabe
  have hm : v.masVieja? = some (casillaDe a) := by rw [hv.masVieja?, if_neg hd]
  have hocupada := hv.ocupadas a le_rfl (by omega)
  cases hcas : v.casillas (casillaDe a) with
  | libre => exact absurd hcas hocupada
  | enVuelo desde =>
    refine ⟨by simp [Vuelos.recoger, hm], restaSat ahora desde, { v with
        casillas := Function.update v.casillas (casillaDe a) .libre
        masVieja := v.masVieja + 1
        enVuelo := v.enVuelo - 1
        aterrizajes := v.aterrizajes + 1 },
      by simp [Vuelos.recoger, hm, hcas],
      ⟨by omega, by omega, hv.siguiente, ?_, ?_, fun k hak hkd ↦ ?_, fun k hdk hka ↦ ?_, hv.despegues,
        ?_⟩⟩
    · simp [hv.masVieja, casillaDe_succ]
    · simp only [hv.enVuelo]
      omega
    · simp only
      rw [Function.update_of_ne (casillaDe_ne (by omega) (by omega)).symm]
      exact hv.ocupadas k (by omega) hkd
    · simp only
      by_cases hk : k = a + anillo
      · rw [hk, casillaDe_add, Function.update_self]
      · rw [Function.update_of_ne]
        · exact hv.libres k hdk (by omega)
        · by_cases hka' : a < k
          · exact (casillaDe_ne hka' (by omega)).symm
          · omega
    · simp [hv.aterrizajes]

/-- The slots in flight are those from the oldest on, around the ring. -/
theorem intervalo (hv : v.Lleva d a) (i : Fin anillo) :
    v.casillas i ≠ .libre ↔ ∃ k < v.enVuelo, i = v.masVieja + Fin.ofNat anillo k := by
  have hle := hv.le
  have hcabe := hv.cabe
  have hcas : ∀ k, v.masVieja + Fin.ofNat anillo k = casillaDe (a + k) := by
    intro k
    apply Fin.ext
    simp [hv.masVieja, casillaDe, Fin.val_add]
  -- every slot is the one of some frame from the oldest on
  obtain ⟨j, hj, hij⟩ : ∃ j < anillo, i = casillaDe (a + j) := by
    refine ⟨(i.val + (anillo - a % anillo)) % anillo, Nat.mod_lt _ (by decide), ?_⟩
    apply Fin.ext
    have hi := i.isLt
    simp only [casillaDe, Fin.val_ofNat, anillo] at hi ⊢
    omega
  constructor
  · intro h
    refine ⟨j, ?_, by rw [hcas, hij]⟩
    rw [hv.enVuelo]
    by_contra hge
    exact h (hij ▸ hv.libres (a + j) (by omega) (by omega))
  · rintro ⟨k, hk, hik⟩
    rw [hv.enVuelo] at hk
    rw [hik, hcas]
    exact hv.ocupadas (a + k) (by omega) (by omega)

end Vuelos.Lleva

end BmoX.Red.Salida
