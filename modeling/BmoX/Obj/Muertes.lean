import BmoX.Obj.Llamadas

/-!
# Servers that die

What `process_died` of `kernel/src/ring0/obj/endpoint.rs:398–419` leaves of the callers of a
server. A call waits first in the queue of its endpoint and then, once `wait_for` took it, in a
reply capability alone; `process_died` looks at the queues.
-/

namespace BmoX.Obj.Rpc

open BmoX.Base Cap Sistema

/-- The task waits for an answer: `esperando` and not `lista`. -/
def Sistema.Aguarda (k : Sistema) (t : Fin maxTasks) : Prop :=
  (k.respuestas t).esperando = true ∧ (k.respuestas t).lista = false

/-- A call of the task stands in the queue of an endpoint. -/
def Sistema.EnCola (k : Sistema) (idx : Fin maxEndpoints) (t : Fin maxTasks) : Prop :=
  t ∈ (k.endpoints idx).cola.toList.map Call.callerTid

/-- The task waits for the answer to a call it made to an endpoint of `pid`. -/
def Traza.Pendiente (s : Traza) (pid : UInt32) (t : Fin maxTasks) : Prop :=
  s.sistema.Aguarda t ∧
    ∃ n c, s.enCurso t = some n ∧ s.llamadas[n]? = some c ∧ c.servidor = pid

/-- The death of `pid` leaves nobody waiting for it: whoever waited is told that the endpoint is
dead, and woken. -/
structure Traza.Avisa (s : Traza) (pid : UInt32) : Prop where
  nadie : ∀ t, ¬ (s.paso (.muere pid)).Pendiente pid t
  avisado : ∀ t, s.Pendiente pid t →
    let k := (s.paso (.muere pid)).sistema
    (k.respuestas t).lista = true ∧ (k.respuestas t).code = errorEndpointDead ∧
      (k.respuestas t).value = 0 ∧
      (s.sistema.tareas t = .bloqueada (.reply t) 0 → k.tareas t = .corre)

/-- No call to `pid` has been taken off its queue and not yet answered. -/
def Traza.SinTomadas (s : Traza) (pid : UInt32) : Prop :=
  ∀ t, s.Pendiente pid t → ∃ idx, s.sistema.EnCola idx t

/-! ### Where the calls are -/

/-- The reply capability in a slot, if it holds one: the task it answers. -/
def Sistema.ReplyDe (k : Sistema) (p : Fin maxProcs) (i : Fin slotsPerProc) (tid : Nat) : Prop :=
  (k.tablas p i).live = true ∧ (k.tablas p i).kind = kindReply ∧ tidDe (k.tablas p i).object = tid

/-- A call is in one queue or in one reply capability, and its caller waits. -/
structure Cuentas (s : Traza) : Prop where
  duermen : Duermen s.sistema
  cerrada : ∀ idx, (s.sistema.endpoints idx).vivo = false →
    (s.sistema.endpoints idx).cola.count = 0
  cola : ∀ idx t, s.sistema.EnCola idx t → s.sistema.Aguarda t ∧
    ∃ n c, s.enCurso t = some n ∧ s.llamadas[n]? = some c ∧ c.idx = idx ∧
      c.servidor = (s.sistema.endpoints idx).servidorPid
  una : ∀ idx, ((s.sistema.endpoints idx).cola.toList.map Call.callerTid).Nodup
  reply : ∀ p i tid, s.sistema.ReplyDe p i tid →
    ∃ t : Fin maxTasks, tid = t ∧ s.sistema.Aguarda t ∧ ∀ idx, ¬ s.sistema.EnCola idx t
  replyUna : ∀ p i p' i' tid, s.sistema.ReplyDe p i tid → s.sistema.ReplyDe p' i' tid →
    p = p' ∧ i = i'

namespace Cuentas

variable {s : Traza}

private theorem inicial : Cuentas .inicial where
  duermen := ⟨fun _ h ↦ (by cases h), fun _ _ _ h ↦ (by cases h), fun _ _ h ↦ (by cases h)⟩
  cerrada _ _ := rfl
  cola _ _ h := absurd h List.not_mem_nil
  una _ := List.nodup_nil
  reply _ _ _ h := by cases h.1
  replyUna _ _ _ _ _ h := by cases h.1

private theorem cola_unica (hs : Cuentas s) {idx idx' : Fin maxEndpoints} {t : Fin maxTasks}
    (h : s.sistema.EnCola idx t) (h' : s.sistema.EnCola idx' t) : idx = idx' := by
  obtain ⟨-, n, c, hcur, hc, hidx, -⟩ := hs.cola idx t h
  obtain ⟨-, n', c', hcur', hc', hidx', -⟩ := hs.cola idx' t h'
  rw [hcur, Option.some.injEq] at hcur'
  rw [← hcur', hc, Option.some.injEq] at hc'
  rw [← hidx, ← hidx', hc']

private theorem vivo_of_enCola (hs : Cuentas s) {idx : Fin maxEndpoints} {t : Fin maxTasks}
    (h : s.sistema.EnCola idx t) : (s.sistema.endpoints idx).vivo = true := by
  by_contra hv
  have hn := Ring.toList_eq_nil.mpr (hs.cerrada idx (by simpa using hv))
  rw [EnCola, hn] at h
  cases h

private theorem avanza (hs : Cuentas s) {causa : Causa} {k : Sistema}
    (q : Fin maxEndpoints → List Nat) (e : UInt32 → UInt64 → Option Nat)
    (hr : ∀ t, Deja (s.sistema.respuestas t) (k.respuestas t)) (hd : Duermen k)
    (hcerr : ∀ idx, (k.endpoints idx).vivo = false → (k.endpoints idx).cola.count = 0)
    (hcola : ∀ idx t, k.EnCola idx t → s.sistema.EnCola idx t ∧
      (k.endpoints idx).servidorPid = (s.sistema.endpoints idx).servidorPid)
    (hsal : ∀ t ∈ Traza.recien s.sistema k, ∀ idx, ¬ k.EnCola idx t)
    (huna : ∀ idx, ((k.endpoints idx).cola.toList.map Call.callerTid).Nodup)
    (hreply : ∀ p i tid, k.ReplyDe p i tid →
      ∃ t : Fin maxTasks, tid = t ∧ k.Aguarda t ∧ ∀ idx, ¬ k.EnCola idx t)
    (hrepu : ∀ p i p' i' tid, k.ReplyDe p i tid → k.ReplyDe p' i' tid → p = p' ∧ i = i') :
    Cuentas { s.avanza causa k with colas := q, emision := e } where
  duermen := hd
  cerrada := hcerr
  cola idx t h := by
    obtain ⟨h', hserv⟩ := hcola idx t h
    obtain ⟨⟨he, hl⟩, n, c, hcur, hc, hidx, hcs⟩ := hs.cola idx t h'
    have hl' : (k.respuestas t).lista = false := by
      by_contra hne
      exact hsal t (mem_recien.mpr ⟨hl, by simpa using hne⟩) idx h
    refine ⟨⟨?_, hl'⟩, n, c, hcur, hc, hidx, ?_⟩
    · exact (lista_of_deja (hr t)).2.1.trans he
    · exact hcs.trans hserv.symm
  una := huna
  reply := hreply
  replyUna := hrepu

private theorem aguarda_of_not_recien {k : Sistema} {t : Fin maxTasks}
    (hr : Deja (s.sistema.respuestas t) (k.respuestas t)) (ha : s.sistema.Aguarda t)
    (hno : t ∉ Traza.recien s.sistema k) : k.Aguarda t := by
  refine ⟨(lista_of_deja hr).2.1.trans ha.1, ?_⟩
  by_contra hne
  exact hno (mem_recien.mpr ⟨ha.2, by simpa using hne⟩)

private theorem replyDe_of_sinNuevas {k k' : Sistema} (ht : SinNuevas k.tablas k'.tablas)
    {p : Fin maxProcs} {i : Fin slotsPerProc} {tid : Nat} (h : k'.ReplyDe p i tid) :
    k.ReplyDe p i tid := by
  obtain ⟨hl, hk, htid⟩ := h
  have heq := ht p i hl hk
  rw [heq] at hl hk htid
  exact ⟨hl, hk, htid⟩

private theorem quieta (hs : Cuentas s) (causa : Causa) {k : Sistema}
    (hr : k.respuestas = s.sistema.respuestas) (hd : Duermen k)
    (he : ∀ idx, k.endpoints idx = s.sistema.endpoints idx ∨
      (s.sistema.endpoints idx).vivo = false ∧ (k.endpoints idx).cola.count = 0)
    (ht : SinNuevas s.sistema.tablas k.tablas) : Cuentas (s.avanza causa k) := by
  have hdeja : ∀ t, Deja (s.sistema.respuestas t) (k.respuestas t) := fun t ↦ by
    rw [hr]
    exact .igual
  have hcola : ∀ idx t, k.EnCola idx t → s.sistema.EnCola idx t ∧
      (k.endpoints idx).servidorPid = (s.sistema.endpoints idx).servidorPid := by
    intro idx t h
    rcases he idx with heq | ⟨-, hn⟩
    · rw [EnCola, heq] at h
      exact ⟨h, congrArg Endpoint.servidorPid heq⟩
    · rw [EnCola, Ring.toList_eq_nil.mpr hn] at h
      cases h
  refine hs.avanza s.colas s.emision hdeja hd (fun idx hv ↦ ?_) hcola
    (fun t h ↦ absurd h (not_mem_recien hr t)) (fun idx ↦ ?_) (fun p i tid h ↦ ?_)
    fun p i p' i' tid h h' ↦ hs.replyUna p i p' i' tid (replyDe_of_sinNuevas ht h)
      (replyDe_of_sinNuevas ht h')
  · rcases he idx with heq | ⟨-, hn⟩
    · rw [heq] at hv ⊢
      exact hs.cerrada idx hv
    · exact hn
  · rcases he idx with heq | ⟨-, hn⟩
    · rw [heq]
      exact hs.una idx
    · rw [Ring.toList_eq_nil.mpr hn]
      exact List.nodup_nil
  · obtain ⟨t, htid, ha, hno⟩ := hs.reply p i tid (replyDe_of_sinNuevas ht h)
    exact ⟨t, htid, aguarda_of_not_recien (hdeja t) ha (not_mem_recien hr t),
      fun idx h ↦ hno idx (hcola idx t h).1⟩

private theorem tablas (hs : Cuentas s) {t : Tablas} (ht : SinNuevas s.sistema.tablas t) :
    Cuentas (s.avanza .otra { s.sistema with tablas := t }) :=
  hs.quieta _ rfl ⟨hs.duermen.duerme, hs.duermen.clave, hs.duermen.pendiente⟩ (fun _ ↦ .inl rfl) ht

private theorem tareas (hs : Cuentas s) (causa : Causa) {f : Nat → Tarea}
    (hd : Duermen { s.sistema with tareas := f }) :
    Cuentas (s.avanza causa { s.sistema with tareas := f }) :=
  hs.quieta _ rfl hd (fun _ ↦ .inl rfl) fun _ _ _ _ ↦ rfl

/-! ### The steps -/

private theorem crea (hs : Cuentas s) (pid : UInt32) (canal : Nat) :
    Cuentas (s.paso (.crea pid canal)) := by
  simp only [Traza.paso, create]
  split
  · exact hs.quieta _ rfl hs.duermen (fun _ ↦ .inl rfl) fun _ _ _ _ ↦ rfl
  · next i hi =>
    have hv : (s.sistema.endpoints i).vivo = false := by simpa using List.find?_some hi
    refine hs.quieta _ rfl ⟨hs.duermen.duerme, hs.duermen.clave, hs.duermen.pendiente⟩
      (fun idx ↦ ?_) (sinNuevas_grant _ _ _ _ (by decide))
    by_cases h : idx = i
    · subst h
      refine .inr ⟨hv, ?_⟩
      simp only [ponEndpoint, Function.update_self]
      rfl
    · left
      simp only [ponEndpoint, Function.update_of_ne h]

private theorem conecta (hs : Cuentas s) (idx : Fin maxEndpoints) (pid : UInt32) :
    Cuentas (s.paso (.conecta idx pid)) := by
  simp only [Traza.paso, grantClient]
  split
  · exact hs.quieta _ rfl hs.duermen (fun _ ↦ .inl rfl) fun _ _ _ _ ↦ rfl
  · exact hs.tablas (sinNuevas_grant _ _ _ _ (by decide))

private theorem vence (hs : Cuentas s) (tid : Nat) : Cuentas (s.paso (.vence tid)) := by
  simp only [Traza.paso]
  split
  · next k d hb =>
    split
    · exact hs
    · next hd =>
      refine hs.tareas _ (hs.duermen.tarea (.inr ⟨fun h ↦ ?_, fun h ↦ ?_⟩) fun _ _ h ↦ by cases h)
      · rw [hb] at h
        cases h
        exact hd rfl
      · rw [hb] at h
        cases h
  · exact hs

private theorem not_aguarda_of_corre (hs : Cuentas s) {t : Fin maxTasks}
    (hp : s.sistema.tareas t = .corre) : ¬ s.sistema.Aguarda t := by
  rintro ⟨he, hl⟩
  rcases hs.duermen.duerme t he hl with h | h
  · rw [hp] at h
    cases h
  · rw [hp] at h
    cases h

private theorem aceptada (hs : Cuentas s) {t : Fin maxTasks} {idx : Fin maxEndpoints}
    (hn : (s.sistema.endpoints idx).cola.count < queue) (op : UInt64)
    (args : UInt64 × UInt64 × UInt64) (hp : s.sistema.tareas t = .corre)
    (hv : (s.sistema.endpoints idx).vivo = true) :
    Cuentas (s.acepta t idx op args (s.sistema.encolada t idx hn op args)) := by
  have hnoa := hs.not_aguarda_of_corre hp
  generalize hk : s.sistema.encolada t idx hn op args = k
  have hend : k.endpoints = Function.update s.sistema.endpoints idx
      { s.sistema.endpoints idx with
        cola := (s.sistema.endpoints idx).cola.push ⟨t, op, args⟩ hn
        seq := (s.sistema.endpoints idx).seq + 1 } := by
    rw [← hk]
    rfl
  have hres : k.respuestas = Function.update s.sistema.respuestas t
      ⟨true, false, (s.sistema.respuestas t).gen + 1, 0, 0⟩ := by
    rw [← hk]
    rfl
  have htab : k.tablas = s.sistema.tablas := by
    rw [← hk]
    rfl
  have hag : ∀ u, u ≠ t → (k.Aguarda u ↔ s.sistema.Aguarda u) := fun u hu ↦ by
    rw [Aguarda, hres, Function.update_of_ne hu]
    rfl
  -- the queues are as before, but for the caller at the end of one
  have hcola : ∀ j, (k.endpoints j).cola.toList.map Call.callerTid =
      (s.sistema.endpoints j).cola.toList.map Call.callerTid ++ if j = idx then [t] else [] := by
    intro j
    rw [hend]
    by_cases hj : j = idx
    · rw [hj, Function.update_self, Ring.toList_push, List.map_append, if_pos rfl]
      rfl
    · rw [Function.update_of_ne hj, if_neg hj, List.append_nil]
  have hen : ∀ {j u}, k.EnCola j u → s.sistema.EnCola j u ∨ j = idx ∧ u = t := by
    intro j u h
    rw [EnCola, hcola] at h
    rcases List.mem_append.mp h with h | h
    · exact .inl h
    · split at h
      · next hj => exact .inr ⟨hj, List.mem_singleton.mp h⟩
      · cases h
  have hserv : ∀ j, (k.endpoints j).servidorPid = (s.sistema.endpoints j).servidorPid := by
    intro j
    rw [hend]
    by_cases hj : j = idx
    · rw [hj, Function.update_self]
    · rw [Function.update_of_ne hj]
  refine ⟨?_, fun j h ↦ ?_, fun j u h ↦ ?_, fun j ↦ ?_, fun p i tid h ↦ ?_,
    fun p i p' i' tid h h' ↦ ?_⟩
  · rw [← hk]
    exact hs.duermen.encolada hn op args
  · simp only [Traza.acepta, Traza.avanza, hend] at h ⊢
    by_cases hj : j = idx
    · rw [hj, Function.update_self] at h
      simp only [hv] at h
      cases h
    · rw [Function.update_of_ne hj] at h ⊢
      exact hs.cerrada j h
  · simp only [Traza.acepta, Traza.avanza] at h ⊢
    rw [hserv j]
    rcases hen h with h | ⟨rfl, rfl⟩
    · obtain ⟨ha, n, c, hcur, hc, hidx, hcs⟩ := hs.cola j u h
      have hu : u ≠ t := by
        rintro rfl
        exact hnoa ha
      refine ⟨(hag u hu).mpr ha, n, c, ?_, ?_, hidx, hcs⟩
      · rw [Function.update_of_ne (Fin.val_ne_of_ne hu)]
        exact hcur
      · rw [List.getElem?_append_left (List.getElem?_eq_some_iff.mp hc).1]
        exact hc
    · refine ⟨⟨?_, ?_⟩, s.llamadas.length, ⟨u, j, (s.sistema.endpoints j).servidorPid, op, args,
        s.hechas u + 1⟩, Function.update_self .., ?_, rfl, rfl⟩
      · rw [hres, Function.update_self]
      · rw [hres, Function.update_self]
      · rw [List.getElem?_append_right (le_refl _), Nat.sub_self]
        rfl
  · simp only [Traza.acepta, Traza.avanza]
    rw [hcola]
    split
    · next hj =>
      refine List.nodup_append.mpr ⟨hs.una j, List.nodup_singleton _, fun a ha b hb hab ↦ ?_⟩
      rw [hab, List.mem_singleton.mp hb] at ha
      exact hnoa (hs.cola j t ha).1
    · rw [List.append_nil]
      exact hs.una j
  · simp only [Traza.acepta, Traza.avanza, ReplyDe, htab] at h
    obtain ⟨u, htid, ha, hno⟩ := hs.reply p i tid h
    have hu : u ≠ t := by
      rintro rfl
      exact hnoa ha
    refine ⟨u, htid, (hag u hu).mpr ha, fun j hj ↦ ?_⟩
    rcases hen hj with hj | ⟨-, hut⟩
    · exact hno j hj
    · exact hu hut
  · simp only [Traza.acepta, Traza.avanza, ReplyDe, htab] at h h'
    exact hs.replyUna p i p' i' tid h h'

private theorem llama (hs : Cuentas s) (tid : Nat) (idx : Fin maxEndpoints) (op : UInt64)
    (args : UInt64 × UInt64 × UInt64) (hp : s.sistema.tareas tid = .corre) :
    Cuentas (s.paso (.llama tid idx op args)) := by
  simp only [Traza.paso]
  rcases s.sistema.call_cases tid idx op args with ⟨out, hcall, hout, -⟩ | ⟨t, hn, rfl, hv, hcall⟩
  · rw [hcall]
    simp only [if_pos hout]
    exact hs.quieta _ rfl hs.duermen (fun _ ↦ .inl rfl) fun _ _ _ _ ↦ rfl
  · rw [hcall]
    simp only
    rw [if_neg (by decide)]
    exact hs.aceptada hn op args hp hv

private theorem enCola_tomada (hs : Cuentas s) {idx : Fin maxEndpoints} {k : Sistema}
    (hn : 0 < (s.sistema.endpoints idx).cola.count)
    (hk : k.endpoints = (s.sistema.tomada idx).endpoints) :
    (∀ j t, k.EnCola j t → s.sistema.EnCola j t ∧
      (k.endpoints j).servidorPid = (s.sistema.endpoints j).servidorPid) ∧
    (∀ j, (k.endpoints j).vivo = false → (k.endpoints j).cola.count = 0) ∧
    (∀ j, ((k.endpoints j).cola.toList.map Call.callerTid).Nodup) ∧
    s.sistema.EnCola idx (s.sistema.endpoints idx).cola.front.callerTid ∧
    ∀ j, ¬ k.EnCola j (s.sistema.endpoints idx).cola.front.callerTid := by
  have hend := hk.trans (s.sistema.tomada_eq idx).2.2.2
  have hlist := (s.sistema.endpoints idx).cola.toList_pop .emptyOne hn
  have huna := hs.una idx
  rw [hlist, List.map_cons, List.nodup_cons] at huna
  have hfront : s.sistema.EnCola idx (s.sistema.endpoints idx).cola.front.callerTid := by
    rw [EnCola, hlist]
    exact List.mem_cons_self
  have hcola : ∀ j t, k.EnCola j t → s.sistema.EnCola j t := by
    intro j t h
    by_cases hj : j = idx
    · subst hj
      rw [EnCola, hend, Function.update_self] at h
      rw [EnCola, hlist]
      exact List.mem_cons_of_mem _ h
    · rw [EnCola, hend, Function.update_of_ne hj] at h
      exact h
  refine ⟨fun j t h ↦ ⟨hcola j t h, ?_⟩, fun j hv ↦ ?_, fun j ↦ ?_, hfront, fun j h ↦ ?_⟩
  · rw [hend]
    by_cases hj : j = idx
    · rw [hj, Function.update_self]
    · rw [Function.update_of_ne hj]
  · rw [hend] at hv ⊢
    by_cases hj : j = idx
    · subst hj
      rw [Function.update_self] at hv ⊢
      simp only [Ring.pop, hs.cerrada j hv]
    · rw [Function.update_of_ne hj] at hv ⊢
      exact hs.cerrada j hv
  · rw [hend]
    by_cases hj : j = idx
    · rw [hj, Function.update_self]
      exact huna.2
    · rw [Function.update_of_ne hj]
      exact hs.una j
  · have hj := hs.cola_unica (hcola j _ h) hfront
    subst hj
    rw [EnCola, hend, Function.update_self] at h
    exact huna.1 h

private theorem replyDe_grant (k k' : Sistema) {pid gen : UInt32} {idx : Fin maxEndpoints}
    {t : Fin maxTasks} {h : UInt64}
    (hg : grant k.tablas pid kindReply rightWrite (objeto gen idx t) = (some h, k'.tablas)) :
    ∃ q i, ∀ {p' i' tid'}, k'.ReplyDe p' i' tid' →
      (p' = q ∧ i' = i) ∧ tid' = t ∨ k.ReplyDe p' i' tid' := by
  obtain ⟨q, i, -, -, -, htab⟩ := grant_eq_some hg
  refine ⟨q, i, ?_⟩
  rintro p' i' tid' ⟨hl, hk, ht⟩
  simp only [htab, poner_apply] at hl hk ht
  split at hl
  · next hpi =>
    rw [if_pos hpi, (campos_objeto gen idx t t.isLt).1] at ht
    exact .inl ⟨hpi, ht.symm⟩
  · next hpi =>
    rw [if_neg hpi] at hk ht
    exact .inr ⟨hl, hk, ht⟩

private theorem espera (hs : Cuentas s) (tid : Nat) (idx : Fin maxEndpoints) (pid : UInt32)
    (deadline : UInt64) (hp : s.sistema.tareas tid = .corre) :
    Cuentas (s.paso (.espera tid idx pid deadline)) := by
  simp only [Traza.paso]
  rcases s.sistema.waitFor_cases tid idx pid deadline with ⟨hv, hw⟩ | ⟨hv, hn, hw⟩ | ⟨hv, hn, hw⟩
  · rw [hw, if_neg fun h ↦ by simp [hv] at h]
    exact hs.quieta _ rfl hs.duermen (fun _ ↦ .inl rfl) fun _ _ _ _ ↦ rfl
  · rw [hw, if_neg fun h ↦ by omega]
    refine hs.tareas _ (hs.duermen.tarea (.inr ⟨fun h ↦ ?_, fun h ↦ ?_⟩) fun _ _ h ↦ by cases h)
    · rw [hp] at h
      cases h
    · rw [hp] at h
      cases h
  · rw [if_pos ⟨hv, hn⟩]
    obtain ⟨hres, htar, htab, -⟩ := s.sistema.tomada_eq idx
    rcases hw with ⟨h, tablas, hg, hw⟩ | ⟨-, hw⟩
    · rw [hw]
      obtain ⟨hcola, hcerr, huna, hfront, hfuera⟩ := hs.enCola_tomada hn
        (k := { s.sistema.tomada idx with tablas := tablas }) rfl
      have hdeja : ∀ t, Deja (s.sistema.respuestas t) ((s.sistema.tomada idx).respuestas t) :=
        fun t ↦ by
          rw [hres]
          exact .igual
      obtain ⟨q, i, hreply⟩ := replyDe_grant s.sistema
        { s.sistema.tomada idx with tablas := tablas } hg
      refine hs.avanza _ _ hdeja (hs.duermen.of_avance (.of_eq hres htar)) hcerr hcola
        (fun t ht ↦ absurd ht (not_mem_recien hres t)) huna (fun p' i' tid' h' ↦ ?_)
        fun p' i' p'' i'' tid' h' h'' ↦ ?_
      · rcases hreply h' with ⟨-, rfl⟩ | h'
        · exact ⟨_, rfl, aguarda_of_not_recien (hdeja _) (hs.cola idx _ hfront).1
            (not_mem_recien hres _), hfuera⟩
        · obtain ⟨t, rfl, ha, hno⟩ := hs.reply p' i' tid' h'
          exact ⟨t, rfl, aguarda_of_not_recien (hdeja t) ha (not_mem_recien hres t),
            fun j hj ↦ hno j (hcola j t hj).1⟩
      · -- the caller taken just now had no reply capability: it stood in the queue
        have hlibre : ∀ {p i}, ¬ s.sistema.ReplyDe p i
            (s.sistema.endpoints idx).cola.front.callerTid := by
          intro p i hr
          obtain ⟨t, ht, -, hno⟩ := hs.reply p i _ hr
          exact hno idx (Fin.ext ht ▸ hfront)
        rcases hreply h' with ⟨⟨rfl, rfl⟩, rfl⟩ | h'
        · rcases hreply h'' with ⟨⟨rfl, rfl⟩, -⟩ | h''
          · exact ⟨rfl, rfl⟩
          · exact absurd h'' hlibre
        · rcases hreply h'' with ⟨-, rfl⟩ | h''
          · exact absurd h' hlibre
          · exact hs.replyUna p' i' p'' i'' tid' h' h''
    · rw [hw]
      obtain ⟨hcola, hcerr, huna, hfront, hfuera⟩ := hs.enCola_tomada hn
        (complete_endpoints (s.sistema.tomada idx) (s.sistema.endpoints idx).cola.front.callerTid
          (s.sistema.respuestas (s.sistema.endpoints idx).cola.front.callerTid).gen
          errorEndpointOcupado 0)
      have hav := (Avance.of_eq hres htar).trans (complete_avance (s.sistema.tomada idx)
        (s.sistema.endpoints idx).cola.front.callerTid
        (s.sistema.respuestas (s.sistema.endpoints idx).cola.front.callerTid).gen
        errorEndpointOcupado 0)
      have hsin : SinNuevas s.sistema.tablas ((s.sistema.tomada idx).complete
          (s.sistema.endpoints idx).cola.front.callerTid
          (s.sistema.respuestas (s.sistema.endpoints idx).cola.front.callerTid).gen
          errorEndpointOcupado 0).tablas := by
        rw [complete_tablas, htab]
        exact fun _ _ _ _ ↦ rfl
      refine hs.avanza _ _ hav.respuestas (hs.duermen.of_avance hav) hcerr hcola (fun t ht ↦ ?_)
        huna (fun p i tid h ↦ ?_) fun p i p' i' tid h h' ↦ hs.replyUna p i p' i' tid
          (replyDe_of_sinNuevas hsin h) (replyDe_of_sinNuevas hsin h')
      · obtain ⟨htt, -⟩ := Inv.recien_complete hres rfl ht
        rw [← Fin.ext htt]
        exact hfuera
      · obtain ⟨t, rfl, ha, hno⟩ := hs.reply p i tid (replyDe_of_sinNuevas hsin h)
        refine ⟨t, rfl, aguarda_of_not_recien (hav.respuestas t) ha fun ht ↦ ?_,
          fun j hj ↦ hno j (hcola j t hj).1⟩
        obtain ⟨htt, -⟩ := Inv.recien_complete hres rfl ht
        exact hno idx (Fin.ext htt ▸ hfront)

private theorem responde (hs : Cuentas s) (pid : UInt32) (handle : UInt64) (code : UInt32)
    (value : UInt64) : Cuentas (s.paso (.responde pid handle code value)) := by
  cases hr : resolve s.sistema.tablas pid handle rightWrite with
  | error e =>
    simp only [Traza.paso, invokeReply, hr]
    exact hs
  | ok r =>
    by_cases hk : r.kind = kindReply
    · rw [Inv.paso_responde hr hk]
      obtain ⟨p, i, hp, hl, hmask, hg, hh, -, rfl⟩ := resolve_eq_ok.mp hr
      -- the handle is the only reply capability for its caller, and is taken back
      have hesta : s.sistema.ReplyDe p i (tidDe (s.sistema.tablas p i).object) := ⟨hl, hk, rfl⟩
      have hrev : (revoke s.sistema.tablas pid handle).2 =
          s.sistema.tablas.poner p i (s.sistema.tablas p i).soltar := by
        rw [hh, revoke_encode hp hmask hl hg]
      have hsin := sinNuevas_revoke s.sistema.tablas pid handle
      have hav := s.sistema.complete_avance (tidDe (s.sistema.tablas p i).object)
        (genDe (s.sistema.tablas p i).object) code value
      have hcola : ∀ j t, (s.sistema.replyTo pid handle (s.sistema.tablas p i).object code
          value).2.EnCola j t → s.sistema.EnCola j t := by
        intro j t h
        simpa only [EnCola, replyTo, complete_endpoints] using h
      have hreply : ∀ {p' i' tid}, (s.sistema.replyTo pid handle (s.sistema.tablas p i).object code
          value).2.ReplyDe p' i' tid → s.sistema.ReplyDe p' i' tid := by
        intro p' i' tid h
        refine replyDe_of_sinNuevas ?_ h
        simp only [replyTo, complete_tablas]
        exact hsin
      refine hs.avanza s.colas s.emision hav.respuestas ?_ (fun j hv ↦ ?_) (fun j t h ↦ ⟨hcola j t h, ?_⟩)
        (fun t ht j h ↦ ?_) (fun j ↦ ?_) (fun p' i' tid h ↦ ?_)
        fun p' i' p'' i'' tid h h' ↦ hs.replyUna p' i' p'' i'' tid (hreply h) (hreply h')
      · have hd := hs.duermen.of_avance hav
        exact ⟨hd.duerme, hd.clave, hd.pendiente⟩
      · simp only [complete_endpoints] at hv ⊢
        exact hs.cerrada j hv
      · simp only [complete_endpoints]
      · obtain ⟨htt, -⟩ := Inv.recien_complete rfl rfl ht
        obtain ⟨u, hu, -, hno⟩ := hs.reply p i _ hesta
        rw [Fin.ext (htt.symm.trans hu)] at h
        exact hno j (hcola j u h)
      · simp only [complete_endpoints]
        exact hs.una j
      · obtain ⟨u, rfl, ha, hno⟩ := hs.reply p' i' tid (hreply h)
        refine ⟨u, rfl, aguarda_of_not_recien (hav.respuestas u) ha fun ht ↦ ?_,
          fun j hj ↦ hno j (hcola j u hj)⟩
        obtain ⟨htt, -⟩ := Inv.recien_complete rfl rfl ht
        rw [← htt] at h
        obtain ⟨rfl, rfl⟩ := hs.replyUna p' i' p i _ (hreply h) hesta
        have hl' := h.1
        simp only [complete_tablas, hrev, poner_apply, and_self, if_true] at hl'
        cases hl'
    · simp only [Traza.paso, invokeReply, hr, if_neg hk]
      exact hs

private theorem muere (hs : Cuentas s) (pid : UInt32) : Cuentas (s.paso (.muere pid)) := by
  obtain ⟨hcierra, hotra⟩ := s.sistema.processDied_spec pid
  have hcola : ∀ j t, (s.sistema.processDied pid).EnCola j t → s.sistema.EnCola j t ∧
      (s.sistema.processDied pid).endpoints j = s.sistema.endpoints j := by
    intro j t h
    rcases hcierra.endpoints j with heq | ⟨-, -, -, hn⟩
    · rw [EnCola, heq] at h
      exact ⟨h, heq⟩
    · rw [EnCola, Ring.toList_eq_nil.mpr hn] at h
      cases h
  -- who is answered stood in the queue of an endpoint that closed
  have hflip : ∀ t ∈ Traza.recien s.sistema (s.sistema.processDied pid), ∃ idx,
      s.sistema.EnCola idx t ∧ (s.sistema.endpoints idx).vivo = true ∧
        (s.sistema.endpoints idx).servidorPid = pid := by
    intro t ht
    rcases hcierra.llenas t with heq | ⟨-, -, idx, ll, hll, hv, hp, htt⟩
    · obtain ⟨hl, hl'⟩ := mem_recien.mp ht
      rw [heq, hl] at hl'
      cases hl'
    · exact ⟨idx, htt ▸ List.mem_map_of_mem hll, hv, hp⟩
  have hsin : SinNuevas s.sistema.tablas (s.sistema.processDied pid).tablas := by
    rw [hcierra.tablas]
    exact fun _ _ _ _ ↦ rfl
  simp only [Traza.paso]
  refine hs.avanza _ s.emision hcierra.avance.respuestas (hs.duermen.of_avance hcierra.avance)
    (fun j hv ↦ ?_) (fun j t h ↦ ⟨(hcola j t h).1, congrArg Endpoint.servidorPid (hcola j t h).2⟩)
    (fun t ht j h ↦ ?_) (fun j ↦ ?_) (fun p i tid h ↦ ?_)
    fun p i p' i' tid h h' ↦ hs.replyUna p i p' i' tid (replyDe_of_sinNuevas hsin h)
      (replyDe_of_sinNuevas hsin h')
  · rcases hcierra.endpoints j with heq | ⟨-, -, -, hn⟩
    · rw [heq] at hv ⊢
      exact hs.cerrada j hv
    · exact hn
  · obtain ⟨idx, hidx, hv, hp⟩ := hflip t ht
    obtain ⟨h, heq⟩ := hcola j t h
    have hj := hs.cola_unica h hidx
    subst hj
    rw [← heq] at hv hp
    exact hotra j hv hp
  · rcases hcierra.endpoints j with heq | ⟨-, -, -, hn⟩
    · rw [heq]
      exact hs.una j
    · rw [Ring.toList_eq_nil.mpr hn]
      exact List.nodup_nil
  · obtain ⟨t, rfl, ha, hno⟩ := hs.reply p i tid (replyDe_of_sinNuevas hsin h)
    refine ⟨t, rfl, aguarda_of_not_recien (hcierra.avance.respuestas t) ha fun ht ↦ ?_,
      fun j hj ↦ hno j (hcola j t hj).1⟩
    obtain ⟨idx, hidx, -⟩ := hflip t ht
    exact hno idx hidx

/-- One step moves each call as a whole. -/
theorem paso (hs : Cuentas s) {o : Orden} (hp : s.Posible o) : Cuentas (s.paso o) := by
  cases o with
  | crea pid canal => exact hs.crea pid canal
  | conecta idx pid => exact hs.conecta idx pid
  | llama tid idx op args => exact hs.llama tid idx op args hp
  | espera tid idx pid deadline => exact hs.espera tid idx pid deadline hp
  | responde pid handle code value => exact hs.responde pid handle code value
  | muere pid => exact hs.muere pid
  | concede pid kind rights object => exact hs.tablas (sinNuevas_grant _ _ _ _ hp)
  | revoca pid handle => exact hs.tablas (sinNuevas_revoke _ _ _)
  | revocaTodo pid => exact hs.tablas (sinNuevas_revokeAll _ _)
  | vence tid => exact hs.vence tid
  | termina tid => exact hs.tareas _ (hs.duermen.tarea (.inl rfl) fun _ _ h ↦ by cases h)

end Cuentas

theorem Recorrido.cuentas {C : Traza → Orden → Prop} {s : Traza} (h : Recorrido C s) :
    Cuentas s := by
  induction h with
  | inicial => exact Cuentas.inicial
  | paso o _ hp _ ih => exact ih.paso hp

/-! ### Who is told -/

namespace Sistema

private theorem lista_complete {k : Sistema} {t : Fin maxTasks} (code : UInt32) (value : UInt64)
    (he : (k.respuestas t).esperando = true) :
    ((k.complete t (k.respuestas t).gen code value).respuestas t).lista = true := by
  by_cases hl : (k.respuestas t).lista = true
  · exact ((k.complete_avance t (k.respuestas t).gen code value).respuestas t).lista hl
  · rw [complete_respuestas _ _ he (by simpa using hl), if_pos rfl]

private theorem lista_vaciar (idx : Fin maxEndpoints) (n : Nat) {k : Sistema} {t : Fin maxTasks}
    (hn : n ≤ (k.endpoints idx).cola.count) (he : (k.respuestas t).esperando = true)
    (ht : t ∈ ((k.endpoints idx).cola.toList.take n).map Call.callerTid) :
    ((vaciar idx n k).respuestas t).lista = true := by
  induction n generalizing k with
  | zero => cases ht
  | succ n ih =>
    have hav : Avance k (k.vaciarUna idx) := by
      have h : Avance k (k.desencolar idx) := .of_eq rfl rfl
      rw [vaciarUna]
      exact h.trans (complete_avance ..)
    have hself : (k.vaciarUna idx).endpoints idx =
        { k.endpoints idx with cola := (k.endpoints idx).cola.pop .emptyOne } := by
      rw [vaciarUna, complete_endpoints]
      exact Function.update_self ..
    have hcount : n ≤ ((k.vaciarUna idx).endpoints idx).cola.count := by
      rw [hself]
      exact Nat.le_sub_of_add_le hn
    rw [(k.endpoints idx).cola.toList_pop .emptyOne (by omega), List.take_succ_cons,
      List.map_cons, List.mem_cons] at ht
    rw [vaciar]
    rcases ht with rfl | ht
    · refine ((vaciar_spec idx n hcount).1.respuestas _).lista ?_
      exact lista_complete (k := k.desencolar idx) errorEndpointDead 0 he
    · refine ih hcount ?_ (by rw [hself]; exact ht)
      exact (lista_of_deja (hav.respuestas t)).2.1.trans he

private theorem lista_cerrar (pid : UInt32) {k : Sistema} {idx : Fin maxEndpoints}
    {t : Fin maxTasks} (hv : (k.endpoints idx).vivo = true)
    (hp : (k.endpoints idx).servidorPid = pid) (he : (k.respuestas t).esperando = true)
    (ht : k.EnCola idx t) : ((cerrar pid k idx).respuestas t).lista = true := by
  rw [cerrar, if_neg (by simp [hv, hp])]
  refine lista_vaciar idx _ (le_refl _) he ?_
  rw [← Ring.length_toList, List.take_length]
  exact ht

private theorem lista_foldl_cerrar (pid : UInt32) {l : List (Fin maxEndpoints)} {k : Sistema}
    {idx : Fin maxEndpoints} {t : Fin maxTasks} (hidx : idx ∈ l)
    (hv : (k.endpoints idx).vivo = true) (hp : (k.endpoints idx).servidorPid = pid)
    (he : (k.respuestas t).esperando = true) (ht : k.EnCola idx t) :
    ((l.foldl (cerrar pid) k).respuestas t).lista = true := by
  induction l generalizing k with
  | nil => cases hidx
  | cons i l ih =>
    rw [List.foldl_cons]
    by_cases hi : idx = i
    · subst hi
      exact ((foldl_cerrar pid l _).1.avance.respuestas t).lista (lista_cerrar pid hv hp he ht)
    · obtain ⟨hc, -, hotros⟩ := cerrar_spec pid k i
      have heq := hotros idx hi
      refine ih ((List.mem_cons.mp hidx).resolve_left hi) ?_ ?_ ?_ ?_
      · rw [heq]
        exact hv
      · rw [heq]
        exact hp
      · exact (lista_of_deja (hc.avance.respuestas t)).2.1.trans he
      · rw [EnCola, heq]
        exact ht

/-- `process_died` tells every waiting caller in a queue of the process, and wakes it. -/
theorem avisa_processDied {k : Sistema} {pid : UInt32} {idx : Fin maxEndpoints} {t : Fin maxTasks}
    (hv : (k.endpoints idx).vivo = true) (hp : (k.endpoints idx).servidorPid = pid)
    (ha : k.Aguarda t) (ht : k.EnCola idx t) :
    ((k.processDied pid).respuestas t).lista = true ∧
    ((k.processDied pid).respuestas t).code = errorEndpointDead ∧
    ((k.processDied pid).respuestas t).value = 0 ∧
    (k.tareas t = .bloqueada (.reply t) 0 → (k.processDied pid).tareas t = .corre) := by
  obtain ⟨hcierra, -⟩ := k.processDied_spec pid
  have hl : ((k.processDied pid).respuestas t).lista = true :=
    lista_foldl_cerrar pid (List.mem_finRange idx) hv hp ha.1 ht
  have hllena : ((k.processDied pid).respuestas t).code = errorEndpointDead ∧
      ((k.processDied pid).respuestas t).value = 0 := by
    rcases hcierra.llenas t with heq | ⟨hc, hval, -⟩
    · rw [heq, ha.2] at hl
      cases hl
    · exact ⟨hc, hval⟩
  refine ⟨hl, hllena.1, hllena.2, fun hb ↦ ?_⟩
  rcases hcierra.avance.tareas t with heq | ⟨hc, -⟩
  · exact absurd (heq.trans hb) (hcierra.avance.despierta t 0 ha.2 hl)
  · exact hc

end Sistema

/-! ### Whole runs -/

/-- In every run, the death of a server leaves nobody waiting for it exactly when none of its
calls was taken and not yet answered. -/
theorem muerte_avisa_sii {s : Traza} (h : Recorrido (fun _ _ ↦ True) s) (pid : UInt32) :
    s.Avisa pid ↔ s.SinTomadas pid := by
  have hs := h.cuentas
  obtain ⟨hcierra, -⟩ := s.sistema.processDied_spec pid
  constructor
  · intro ha t ht
    by_contra hno
    refine ha.nadie t ⟨?_, ht.2⟩
    rcases hcierra.llenas t with heq | ⟨-, -, idx, ll, hll, -, -, htt⟩
    · refine ⟨?_, ?_⟩
      · exact (congrArg Reply.esperando heq).trans ht.1.1
      · exact (congrArg Reply.lista heq).trans ht.1.2
    · exact absurd ⟨idx, htt ▸ List.mem_map_of_mem hll⟩ hno
  · intro hsin
    have havisa : ∀ t, s.Pendiente pid t → ∃ idx, (s.sistema.endpoints idx).vivo = true ∧
        (s.sistema.endpoints idx).servidorPid = pid ∧ s.sistema.EnCola idx t := by
      intro t ht
      obtain ⟨idx, hidx⟩ := hsin t ht
      obtain ⟨-, n, c, hcur, hc, -, hserv⟩ := hs.cola idx t hidx
      obtain ⟨-, n', c', hcur', hc', rfl⟩ := ht
      rw [hcur, Option.some.injEq] at hcur'
      rw [← hcur', hc, Option.some.injEq] at hc'
      subst hc'
      exact ⟨idx, hs.vivo_of_enCola hidx, hserv.symm, hidx⟩
    refine ⟨fun t ht ↦ ?_, fun t ht ↦ ?_⟩
    rotate_left
    · obtain ⟨idx, hv, hp, hidx⟩ := havisa t ht
      exact avisa_processDied hv hp ht.1 hidx
    -- who waits after the death waited before
    have hantes : s.Pendiente pid t := by
      refine ⟨?_, ht.2⟩
      have hdeja := hcierra.avance.respuestas t
      refine ⟨(lista_of_deja hdeja).2.1.symm.trans ht.1.1, ?_⟩
      by_contra hl
      have hl' := hdeja.lista (by simpa using hl)
      have := ht.1.2
      simp only [Traza.paso, Traza.avanza] at this
      rw [this] at hl'
      cases hl'
    obtain ⟨idx, hv, hp, hidx⟩ := havisa t hantes
    have hl := (avisa_processDied hv hp hantes.1 hidx).1
    have := ht.1.2
    simp only [Traza.paso, Traza.avanza] at this
    rw [this] at hl
    cases hl

/-- A server, process 1, with a call of task 2 still in its queue. -/
private def llamadaUna : Traza := (Traza.inicial.paso (.crea 1 0)).paso (.llama 2 0 5 (0, 0, 0))

/-- The caller of a queued call is told that its server died. -/
theorem primera_llamada_avisada :
    ((llamadaUna.paso (.muere 1)).sistema.respuestas 2).code = errorEndpointDead ∧
      (llamadaUna.paso (.muere 1)).sistema.tareas 2 = .corre := by
  have hrun : Recorrido (fun _ _ ↦ True) llamadaUna :=
    .paso _ (.paso _ .inicial trivial trivial) rfl trivial
  have hpend : llamadaUna.Pendiente 1 2 := ⟨⟨rfl, rfl⟩, 0, _, rfl, rfl, rfl⟩
  have hsin : llamadaUna.SinTomadas 1 := by
    rintro t ⟨⟨he, -⟩, -⟩
    refine ⟨0, ?_⟩
    have ht : t = 2 := by
      by_contra hne
      have hres : llamadaUna.sistema.respuestas t = .emptyOne := Function.update_of_ne hne ..
      rw [hres] at he
      cases he
    rw [ht]
    exact List.mem_singleton.mpr rfl
  obtain ⟨-, hcode, -, hcorre⟩ := ((muerte_avisa_sii hrun 1).mpr hsin).avisado 2 hpend
  exact ⟨hcode, hcorre rfl⟩

/-- The caller of a call that was taken waits for ever once its server died. -/
theorem llamada_tomada_huerfana :
    ¬ ∀ s, Recorrido (fun _ _ ↦ True) s → ∀ pid, s.Avisa pid := by
  intro hall
  have hav := (hall tomadaUna recorrido_tomadaUna.mono 1).nadie 2
  exact hav ⟨⟨rfl, rfl⟩, 0, _, rfl, rfl, rfl⟩

end BmoX.Obj.Rpc
