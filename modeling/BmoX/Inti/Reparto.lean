import BmoX.Inti.Marco

/-!
# Registers and lives

`toolchain/lang/inti/emisor-x86_64/src/marco.rs:236–467`. The life of a temporal goes from its first
touch to its last one, or to the end of a function with jumps. Of two temporals with one register, the
life of the first ends before that of a later one starts.
-/

namespace BmoX.Inti

/-! ### Lives -/

/-- What the touches of the instructions from the `i`-th on make of the life of a temporal. -/
def vida (t : Temporal) : Nat → List Instr → Tramo → Tramo
  | _, [], e => e
  | i, instr :: resto, e => vida t (i + 1) resto (if t ∈ toques instr then e.toca i else e)

private theorem toca_toca (i : Nat) (e : Tramo) : (e.toca i).toca i = e.toca i := by
  unfold Tramo.toca
  simp only [Option.getD_some, Tramo.mk.injEq, true_and]
  split <;> simp_all

private theorem getElem?_foldl_toca (i : Nat) (l : List Temporal) (ts : List Tramo) (t : Temporal) :
    (l.foldl (fun ts t ↦ ts.modify t (Tramo.toca i)) ts)[t]? =
      ts[t]?.map fun e ↦ if t ∈ l then e.toca i else e := by
  induction l generalizing ts with
  | nil => simp
  | cons a l ih =>
    rw [List.foldl_cons, ih, List.getElem?_modify]
    cases ts[t]? with
    | none => rfl
    | some e =>
      by_cases ha : a = t
      · simp [ha, toca_toca]
      · simp [ha, Ne.symm ha]

private theorem getElem?_tramosDesde (i : Nat) (is : List Instr) (ts : List Tramo) (t : Temporal) :
    (tramosDesde i is ts)[t]? = ts[t]?.map (vida t i is) := by
  induction is generalizing i ts with
  | nil =>
    rw [tramosDesde]
    exact (Option.map_id' (x := ts[t]?)).symm
  | cons instr is ih =>
    rw [tramosDesde, ih, getElem?_foldl_toca, Option.map_map]
    rfl

private theorem vida_conserva (t : Temporal) (i : Nat) (is : List Instr) (e : Tramo) :
    e.muere ≤ (vida t i is e).muere ∧ ∀ n, e.nace = some n → (vida t i is e).nace = some n := by
  induction is generalizing i e with
  | nil => exact ⟨le_rfl, fun n h ↦ h⟩
  | cons instr is ih =>
    rw [vida]
    obtain ⟨hmuere, hnace⟩ := ih (i + 1) (if t ∈ toques instr then e.toca i else e)
    constructor
    · refine le_trans ?_ hmuere
      split
      · unfold Tramo.toca
        dsimp only
        split <;> omega
      · exact le_rfl
    · intro n hn
      apply hnace
      split
      · unfold Tramo.toca
        rw [hn]
        rfl
      · exact hn

/-- A touch is in the life. -/
theorem vida_toque (t : Temporal) {i k : Nat} {is : List Instr} {e : Tramo} {instr : Instr}
    (hk : is[k]? = some instr) (ht : t ∈ toques instr) (he : ∀ n, e.nace = some n → n ≤ i) :
    i + k ≤ (vida t i is e).muere ∧ ∃ n, (vida t i is e).nace = some n ∧ n ≤ i + k := by
  induction is generalizing i k e with
  | nil => cases hk
  | cons instr' is ih =>
    rw [vida]
    cases k with
    | zero =>
      cases hk
      rw [if_pos ht]
      obtain ⟨hmuere, hnace⟩ := vida_conserva t (i + 1) is (e.toca i)
      constructor
      · refine le_trans ?_ hmuere
        unfold Tramo.toca
        dsimp only
        split <;> omega
      · refine ⟨e.nace.getD i, hnace _ rfl, ?_⟩
        cases hn : e.nace with
        | none => exact le_rfl
        | some n => exact he n hn
    | succ k =>
      have hsig := @ih (i + 1) k (if t ∈ toques instr' then e.toca i else e) hk ?_
      · rwa [show i + 1 + k = i + (k + 1) by omega] at hsig
      · intro n hn
        split at hn
        · cases hn
          cases hn : e.nace with
          | none => exact Nat.le_succ i
          | some n => exact (he n hn).trans (Nat.le_succ i)
        · exact (he n hn).trans (Nat.le_succ i)

private theorem vida_nace (t : Temporal) {i n : Nat} {is : List Instr} {e : Tramo}
    (hn : (vida t i is e).nace = some n) :
    e.nace = some n ∨ ∃ k instr, is[k]? = some instr ∧ t ∈ toques instr ∧ n = i + k := by
  induction is generalizing i e with
  | nil => exact .inl hn
  | cons instr is ih =>
    rw [vida] at hn
    rcases ih hn with he | ⟨k, instr', hk, ht, rfl⟩
    · split at he
      next ht =>
        cases hnace : e.nace with
        | none =>
          unfold Tramo.toca at he
          rw [hnace] at he
          cases he
          exact .inr ⟨0, instr, rfl, ht, rfl⟩
        | some n' =>
          unfold Tramo.toca at he
          rw [hnace] at he
          exact .inl he
      next => exact .inl he
    · exact .inr ⟨k + 1, instr', hk, ht, by omega⟩

variable {f : FuncionIr} {tramos : List Tramo}

/-- What the lives of a function are. -/
structure Vidas (f : FuncionIr) (tramos : List Tramo) : Prop where
  nace : ∀ {t n : Nat} {e : Tramo}, tramos[t]? = some e → e.nace = some n →
    ∃ instr, f.instrucciones[n]? = some instr ∧ t ∈ toques instr
  toque : ∀ {t j : Nat} {instr}, f.instrucciones[j]? = some instr → t ∈ toques instr →
    ∃ (e : Tramo) (n : Nat), tramos[t]? = some e ∧ e.nace = some n ∧ n ≤ j ∧ j ≤ e.muere
  saltos : haySaltos f → ∀ {t n : Nat} {e : Tramo}, tramos[t]? = some e → e.nace = some n →
    e.muere = f.instrucciones.length

theorem vidas_of_tramosDeVida (h : tramosDeVida f = some tramos) : Vidas f tramos := by
  unfold tramosDeVida at h
  split at h
  next hdeclarados =>
    let base := tramosDesde 0 f.instrucciones (List.replicate f.temporales ⟨none, 0⟩)
    have hbase (t : Temporal) (ht : t < f.temporales) :
        base[t]? = some (vida t 0 f.instrucciones ⟨none, 0⟩) := by
      rw [getElem?_tramosDesde, List.getElem?_replicate, if_pos ht]
      rfl
    have hlargo {t : Temporal} {e : Tramo} (he : base[t]? = some e) : t < f.temporales := by
      rw [getElem?_tramosDesde, List.getElem?_replicate] at he
      by_contra hno
      rw [if_neg hno] at he
      cases he
    have hnace {t : Temporal} {e : Tramo} {n : Nat} (he : base[t]? = some e)
        (hn : e.nace = some n) : ∃ instr, f.instrucciones[n]? = some instr ∧ t ∈ toques instr := by
      rw [hbase t (hlargo he)] at he
      cases he
      rcases vida_nace t hn with hno | ⟨k, instr, hk, ht, rfl⟩
      · cases hno
      · exact ⟨instr, by rwa [Nat.zero_add], ht⟩
    have htoque {t : Temporal} {j : Nat} {instr : Instr} (hj : f.instrucciones[j]? = some instr)
        (ht : t ∈ toques instr) : ∃ e n, base[t]? = some e ∧ e.nace = some n ∧ n ≤ j ∧
          j ≤ e.muere := by
      have hdecl : t < f.temporales := by
        have hi := List.all_eq_true.mp hdeclarados instr (List.mem_of_getElem? hj)
        simpa using List.all_eq_true.mp hi t ht
      obtain ⟨hmuere, n, hn, hle⟩ := @vida_toque t 0 j f.instrucciones ⟨none, 0⟩ instr hj ht (by simp)
      rw [Nat.zero_add] at hmuere hle
      exact ⟨_, n, hbase t hdecl, hn, hle, hmuere⟩
    cases h
    by_cases hsaltos : haySaltos f = true
    · rw [if_pos hsaltos]
      have hmap {t : Temporal} {e : Tramo}
          (he : (base.map fun t ↦ if t.nace.isSome
            then { t with muere := f.instrucciones.length } else t)[t]? = some e) :
          ∃ e', base[t]? = some e' ∧ e'.nace = e.nace ∧
            (e.nace.isSome → e.muere = f.instrucciones.length) := by
        rw [List.getElem?_map, Option.map_eq_some_iff] at he
        obtain ⟨e', he', rfl⟩ := he
        refine ⟨e', he', ?_, fun hsome ↦ ?_⟩
        · split <;> rfl
        · split at hsome
          next hs => rw [if_pos hs]
          next hs => exact absurd hsome hs
      refine ⟨?_, ?_, ?_⟩
      · intro t e n he hn
        obtain ⟨e', he', heq, -⟩ := hmap he
        exact hnace he' (heq.trans hn)
      · intro t j instr hj ht
        obtain ⟨e, n, he, hn, hle, -⟩ := htoque hj ht
        refine ⟨{ e with muere := f.instrucciones.length }, n, ?_, hn, hle, ?_⟩
        · change (base.map _)[t]? = _
          rw [List.getElem?_map, he, Option.map_some, if_pos (by rw [hn]; rfl)]
        · exact (List.getElem?_eq_some_iff.mp hj).1.le
      · intro _ t e n he hn
        obtain ⟨e', -, -, hfin⟩ := hmap he
        exact hfin (by rw [hn]; rfl)
    · rw [if_neg hsaltos]
      exact ⟨hnace, htoque, fun h ↦ absurd h hsaltos⟩
  next => cases h

/-! ### Registers -/

/-- The life of a temporal ends before that of one of the first `k` starts. -/
def Antes (tramos : List Tramo) (k : Nat) (t : Temporal) : Prop :=
  ∃ (e : Tramo) (c : Nat) (e' : Tramo) (n : Nat), tramos[t]? = some e ∧ c < k ∧
    tramos[c]? = some e' ∧ e'.nace = some n ∧ e.muere < n

theorem Antes.mono {k k' : Nat} {t : Temporal} (h : Antes tramos k t) (hle : k ≤ k') :
    Antes tramos k' t := by
  obtain ⟨e, c, e', n, he, hc, he', hn, hlt⟩ := h
  exact ⟨e, c, e', n, he, hc.trans_le hle, he', hn, hlt⟩

/-- The registers of the first `k` temporals. -/
structure Reparto.Bien (tramos : List Tramo) (pool : List Nat) (k : Nat) (r : Reparto) : Prop where
  largo : r.sitios.length = tramos.length
  registros : (r.libres ++ r.vivos.map Vivo.reg).Perm pool
  vivo : ∀ v ∈ r.vivos, v.temporal < k ∧ r.sitios[v.temporal]? = some (.registro v.reg) ∧
    ∃ e, tramos[v.temporal]? = some e ∧ e.muere = v.fin
  asignado : ∀ {t reg : Nat}, r.sitios[t]? = some (.registro reg) → t < k ∧ reg ∈ pool ∧
    (∃ (e : Tramo) (n : Nat), tramos[t]? = some e ∧ e.nace = some n) ∧
    ((∃ v ∈ r.vivos, v.temporal = t ∧ v.reg = reg) ∨ Antes tramos k t)
  aparte : ∀ {a b reg : Nat}, a < b → r.sitios[a]? = some (.registro reg) →
    r.sitios[b]? = some (.registro reg) → Antes tramos (b + 1) a

variable {pool : List Nat} {k : Nat} {r : Reparto}

private theorem foldl_devuelve (vs : List Vivo) (ls : List Nat) :
    (vs.foldl (fun ls v ↦ v.reg :: ls) ls).Perm (ls ++ vs.map Vivo.reg) := by
  induction vs generalizing ls with
  | nil => simp
  | cons v vs ih =>
    rw [List.foldl_cons, List.map_cons]
    exact (ih _).trans (List.perm_middle.symm.trans (by simp))

/-- **One step of the allocation**: what it keeps. -/
theorem Reparto.Bien.asigna (hpool : pool.Nodup) (h : r.Bien tramos pool k) {tramo : Tramo}
    (hk : tramos[k]? = some tramo) : (r.asigna k tramo).Bien tramos pool (k + 1) := by
  have hklt : k < tramos.length := (List.getElem?_eq_some_iff.mp hk).1
  unfold Reparto.asigna
  cases hnace : tramo.nace with
  | none =>
    dsimp only
    refine ⟨h.largo, h.registros, fun v hv ↦ ?_, fun {t reg} ht ↦ ?_, h.aparte⟩
    · obtain ⟨hlt, hrest⟩ := h.vivo v hv
      exact ⟨hlt.trans (Nat.lt_succ_self k), hrest⟩
    · obtain ⟨hlt, hmem, hvive, hdonde⟩ := h.asignado ht
      refine ⟨hlt.trans (Nat.lt_succ_self k), hmem, hvive, hdonde.imp_right fun ha ↦ ?_⟩
      exact ha.mono (Nat.le_succ k)
  | some n =>
    dsimp only
    -- what has ended, ended before this one
    have hfin {v : Vivo} (hv : v ∈ r.vivos) (hlt : v.fin < n) : Antes tramos (k + 1) v.temporal := by
      obtain ⟨-, -, e, he, hmuere⟩ := h.vivo v hv
      exact ⟨e, k, tramo, n, he, Nat.lt_succ_self k, hk, hnace, by omega⟩
    have hperm : ((r.vivos.filter (·.fin < n)).foldl (fun ls v ↦ v.reg :: ls) r.libres ++
        (r.vivos.filter (¬ ·.fin < n)).map Vivo.reg).Perm pool := by
      refine List.Perm.trans ?_ h.registros
      refine ((foldl_devuelve _ _).append_right _).trans ?_
      rw [List.append_assoc, ← List.map_append]
      apply List.Perm.append_left
      apply List.Perm.map
      have hfilter := List.filter_append_perm (fun v : Vivo ↦ decide (v.fin < n)) r.vivos
      simpa only [decide_not] using hfilter
    have hquien {t : Temporal} {reg : Nat} (ht : r.sitios[t]? = some (.registro reg)) :
        (∃ v ∈ r.vivos.filter (¬ ·.fin < n), v.temporal = t ∧ v.reg = reg) ∨
          Antes tramos (k + 1) t := by
      obtain ⟨-, -, -, ⟨v, hv, rfl, rfl⟩ | ha⟩ := h.asignado ht
      · by_cases hlt : v.fin < n
        · exact .inr (hfin hv hlt)
        · exact .inl ⟨v, List.mem_filter.mpr ⟨hv, by simpa using hlt⟩, rfl, rfl⟩
      · exact .inr (ha.mono (Nat.le_succ k))
    have hsigue {v : Vivo} (hv : v ∈ r.vivos.filter (¬ ·.fin < n)) : v ∈ r.vivos :=
      (List.mem_filter.mp hv).1
    split
    next reg resto hlibres =>
      rw [hlibres] at hperm
      have hset {t : Temporal} (hne : t ≠ k) :
          (r.sitios.set k (.registro reg))[t]? = r.sitios[t]? :=
        List.getElem?_set_ne hne.symm
      have hself : (r.sitios.set k (.registro reg))[k]? = some (.registro reg) :=
        List.getElem?_set_self (by rw [h.largo]; exact hklt)
      refine ⟨by rw [List.length_set, h.largo], ?_, ?_, ?_, ?_⟩
      · refine List.Perm.trans ?_ hperm
        rw [List.map_append, ← List.append_assoc]
        exact (List.perm_append_singleton reg _)
      · intro v hv
        rcases List.mem_append.mp hv with hv | hv
        · obtain ⟨hlt, hsitio, hvida⟩ := h.vivo v (hsigue hv)
          exact ⟨hlt.trans (Nat.lt_succ_self k), by rwa [hset hlt.ne], hvida⟩
        · rw [List.mem_singleton] at hv
          subst hv
          exact ⟨Nat.lt_succ_self k, hself, tramo, hk, rfl⟩
      · intro t reg' ht
        by_cases hkt : t = k
        · subst hkt
          rw [hself] at ht
          cases ht
          refine ⟨Nat.lt_succ_self t, hperm.subset (by simp), ⟨tramo, n, hk, hnace⟩, .inl ?_⟩
          exact ⟨⟨tramo.muere, reg, t⟩, by simp, rfl, rfl⟩
        · rw [hset hkt] at ht
          obtain ⟨hlt, hmem, hvive, -⟩ := h.asignado ht
          refine ⟨hlt.trans (Nat.lt_succ_self k), hmem, hvive, ?_⟩
          rcases hquien ht with ⟨v, hv, hvt, hvr⟩ | ha
          · exact .inl ⟨v, List.mem_append_left _ hv, hvt, hvr⟩
          · exact .inr ha
      · intro a b reg' hab ha hb
        by_cases hbk : b = k
        · subst hbk
          rw [hself] at hb
          cases hb
          rw [hset hab.ne] at ha
          -- one that were still alive would have its register twice
          rcases hquien ha with ⟨v, hv, hvt, hvr⟩ | hantes
          · exfalso
            have hnodup := hperm.nodup_iff.mpr hpool
            rw [List.cons_append, List.nodup_cons] at hnodup
            apply hnodup.1
            apply List.mem_append_right
            rw [← hvr]
            exact List.mem_map_of_mem hv
          · exact hantes
        · rw [hset hbk] at hb
          have hblt := (h.asignado hb).1
          rw [hset (hab.trans hblt).ne] at ha
          exact h.aparte hab ha hb
    next hlibres =>
      rw [hlibres] at hperm
      refine ⟨h.largo, hperm, fun v hv ↦ ?_, fun {t reg} ht ↦ ?_, h.aparte⟩
      · obtain ⟨hlt, hrest⟩ := h.vivo v (hsigue hv)
        exact ⟨hlt.trans (Nat.lt_succ_self k), hrest⟩
      · obtain ⟨hlt, hmem, hvive, -⟩ := h.asignado ht
        exact ⟨hlt.trans (Nat.lt_succ_self k), hmem, hvive, hquien ht⟩

/-- **The allocation**, over all the temporals. -/
theorem Reparto.Bien.reparteDesde (hpool : pool.Nodup) {pre resto : List Tramo}
    (htramos : tramos = pre ++ resto) (h : r.Bien tramos pool pre.length) :
    (reparteDesde pre.length resto r).Bien tramos pool tramos.length := by
  induction resto generalizing pre r with
  | nil =>
    rw [Inti.reparteDesde, htramos, List.append_nil]
    rwa [htramos, List.append_nil] at h
  | cons tramo resto ih =>
    rw [Inti.reparteDesde]
    have hk : tramos[pre.length]? = some tramo := by
      rw [htramos]
      simp
    have hsig := @ih (r.asigna pre.length tramo) (pre ++ [tramo]) (by simp [htramos])
    rw [List.length_append, List.length_singleton] at hsig
    exact hsig (h.asigna hpool hk)

/-- The registers that a function gives to its temporals. -/
theorem bien_of_reparte {enPila : Temporal → Int} {disponibles preservados : List Nat}
    {sitios : List Sitio} (hpool : (Inti.pool f disponibles preservados).Nodup)
    (h : reparte f enPila disponibles preservados = some sitios)
    (hno : Inti.pool f disponibles preservados ≠ []) :
    ∃ tramos r, tramosDeVida f = some tramos ∧ sitios = r.sitios ∧
      Reparto.Bien tramos (Inti.pool f disponibles preservados) tramos.length r := by
  unfold reparte at h
  rw [if_neg hno] at h
  obtain ⟨tramos, htramos, h⟩ := Option.bind_eq_some_iff.mp h
  cases h
  refine ⟨tramos, _, htramos, rfl, ?_⟩
  refine Reparto.Bien.reparteDesde hpool (List.nil_append tramos).symm ?_
  have hlargo : tramos.length = f.temporales := by
    unfold tramosDeVida at htramos
    split at htramos
    · cases htramos
      have hdesde (i : Nat) (is : List Instr) (ts : List Tramo) :
          (tramosDesde i is ts).length = ts.length := by
        induction is generalizing i ts with
        | nil => rfl
        | cons instr is ih =>
          rw [tramosDesde, ih]
          induction toques instr generalizing ts with
          | nil => rfl
          | cons t l ih' => rw [List.foldl_cons, ih', List.length_modify]
      split
      · rw [List.length_map, hdesde, List.length_replicate]
      · rw [hdesde, List.length_replicate]
    · cases htramos
  have hpila {t : Temporal} {reg : Nat}
      (ht : ((List.range f.temporales).map fun t ↦ Sitio.pila (enPila t))[t]? =
        some (.registro reg)) : False := by
    rw [List.getElem?_map, Option.map_eq_some_iff] at ht
    obtain ⟨t', -, hno⟩ := ht
    cases hno
  have hlen : ((List.range f.temporales).map fun t ↦ Sitio.pila (enPila t)).length =
      tramos.length := by
    rw [List.length_map, List.length_range, hlargo]
  exact ⟨hlen, by simp, fun v hv ↦ absurd hv (by simp), fun ht ↦ (hpila ht).elim,
    fun _ ha ↦ (hpila ha).elim⟩

end BmoX.Inti
