import BmoX.Obj.Endpoint

/-!
# Exactly one answer for each call

A run of the endpoint calls of `kernel/src/ring0/obj/endpoint.rs` beside a ledger of it: which
calls were accepted, which call each queue entry is, for which call each reply handle was issued,
and which calls were completed, by what. The ledger reads the reply slots: a call is completed
when the slot of its caller turns ready.
-/

namespace BmoX.Obj.Rpc

open BmoX.Base Cap Sistema

/-- An accepted call. Its `orden` says the how-manieth call of its task it is. -/
structure Llamada where
  tid : Nat
  idx : Fin maxEndpoints
  servidor : UInt32
  op : UInt64
  args : UInt64 × UInt64 × UInt64
  orden : Nat

/-- What a step that completes a call was: a reply, with the call its handle was last issued for;
the death of a process; a `wait_for` that found no slot for its reply handle; or none of these. -/
inductive Causa
  | respuesta (para : Option Nat) (code : UInt32) (value : UInt64)
  | muerte (pid : UInt32)
  | sinHueco (idx : Fin maxEndpoints)
  | otra

/-- A completed call: the last one of its task, what completed it, and what its caller got. -/
structure Final where
  llamada : Option Nat
  causa : Causa
  code : UInt32
  value : UInt64

/-- The kernel state with the ledger of the run that led to it; call `n` is the `n`-th of
`llamadas`. -/
structure Traza where
  sistema : Sistema
  llamadas : List Llamada
  colas : Fin maxEndpoints → List Nat
  enCurso : Nat → Option Nat
  emision : UInt32 → UInt64 → Option Nat
  finales : List Final

/-- The start: nothing called yet. -/
def Traza.inicial : Traza := ⟨Rpc.inicial, [], fun _ ↦ [], fun _ ↦ none, fun _ _ ↦ none, []⟩

/-- What can happen: the calls of `endpoint.rs`, with the task that makes them where it matters;
grants of other kinds, revocations; a deadline that passes, and the end of a task. -/
inductive Orden
  | crea (pid : UInt32) (canal : Nat)
  | conecta (idx : Fin maxEndpoints) (pid : UInt32)
  | llama (tid : Nat) (idx : Fin maxEndpoints) (op : UInt64) (args : UInt64 × UInt64 × UInt64)
  | espera (tid : Nat) (idx : Fin maxEndpoints) (pid : UInt32) (deadline : UInt64)
  | responde (pid : UInt32) (handle : UInt64) (code : UInt32) (value : UInt64)
  | muere (pid : UInt32)
  | concede (pid : UInt32) (kind : UInt8) (rights object : UInt64)
  | revoca (pid : UInt32) (handle : UInt64)
  | revocaTodo (pid : UInt32)
  | vence (tid : Nat)
  | termina (tid : Nat)

namespace Traza

/-- The accepted calls of a task so far. -/
def hechas (s : Traza) (tid : Nat) : Nat := s.llamadas.countP (·.tid = tid)

/-- The callers whose slot turned ready between two states. -/
def recien (k k' : Sistema) : List (Fin maxTasks) :=
  (List.finRange maxTasks).filter fun t ↦ !(k.respuestas t).lista && (k'.respuestas t).lista

/-- Move to a new kernel state and enter in the ledger the calls it completes. -/
def avanza (s : Traza) (causa : Causa) (k : Sistema) : Traza :=
  { s with
    sistema := k
    finales := (recien s.sistema k).map (fun t ↦
      ⟨s.enCurso t, causa, (k.respuestas t).code, (k.respuestas t).value⟩) ++ s.finales }

/-- Enter an accepted call in the ledger. -/
def acepta (s : Traza) (tid : Nat) (idx : Fin maxEndpoints) (op : UInt64)
    (args : UInt64 × UInt64 × UInt64) (k : Sistema) : Traza :=
  { s.avanza .otra k with
    llamadas := s.llamadas ++
      [⟨tid, idx, (s.sistema.endpoints idx).servidorPid, op, args, s.hechas tid + 1⟩]
    colas := Function.update s.colas idx (s.colas idx ++ [s.llamadas.length])
    enCurso := Function.update s.enCurso tid (some s.llamadas.length) }

/-- One step, with its entries in the ledger. -/
def paso (s : Traza) : Orden → Traza
  | .crea pid canal => s.avanza .otra (s.sistema.create pid canal).2
  | .conecta idx pid => s.avanza .otra (s.sistema.grantClient idx pid).2
  | .llama tid idx op args =>
    let (out, k) := s.sistema.call tid idx op args
    if out.code = errorEndpointDead ∨ out.code = errorEndpointOcupado then s.avanza .otra k
    else s.acepta tid idx op args k
  | .espera tid idx pid deadline =>
    let (out, k) := s.sistema.waitFor tid idx pid deadline
    let s' := s.avanza (.sinHueco idx) k
    if (s.sistema.endpoints idx).vivo = true ∧ 0 < (s.sistema.endpoints idx).cola.count then
      { s' with
        colas := Function.update s.colas idx (s.colas idx).tail
        emision := if out.code = 0 then
            Function.update s.emision pid
              (Function.update (s.emision pid) out.value (s.colas idx).head?)
          else s.emision }
    else s'
  | .responde pid handle code value =>
    match s.sistema.invokeReply pid handle code value with
    | some (_, k) => s.avanza (.respuesta (s.emision pid handle) code value) k
    | none => s
  | .muere pid =>
    { s.avanza (.muerte pid) (s.sistema.processDied pid) with
      colas := fun idx ↦
        if (s.sistema.endpoints idx).vivo = true ∧ (s.sistema.endpoints idx).servidorPid = pid then []
        else s.colas idx }
  | .concede pid kind rights object =>
    s.avanza .otra
      { s.sistema with tablas := (grant s.sistema.tablas pid kind rights object).2 }
  | .revoca pid handle =>
    s.avanza .otra { s.sistema with tablas := (revoke s.sistema.tablas pid handle).2 }
  | .revocaTodo pid => s.avanza .otra { s.sistema with tablas := revokeAllSlots s.sistema.tablas pid }
  | .vence tid =>
    match s.sistema.tareas tid with
    | .bloqueada _ deadline =>
      if deadline = 0 then s
      else s.avanza .otra { s.sistema with tareas := Function.update s.sistema.tareas tid .corre }
    | _ => s
  | .termina tid =>
    s.avanza .otra { s.sistema with tareas := Function.update s.sistema.tareas tid .terminada }

/-- What the rest of the kernel keeps to: a system call is made by a task that runs, and reply
capabilities are granted by `wait_for` alone. -/
def Posible (s : Traza) : Orden → Prop
  | .llama tid _ _ _ => s.sistema.tareas tid = .corre
  | .espera tid _ _ _ => s.sistema.tareas tid = .corre
  | .concede _ kind _ _ => kind ≠ kindReply
  | _ => True

/-- A task that calls has made fewer than 65535 accepted calls before. -/
def PocasLlamadas (s : Traza) : Orden → Prop
  | .llama tid _ _ _ => s.hechas tid < 65535
  | _ => True

end Traza

/-- The runs in which every step satisfies `C`. -/
inductive Recorrido (C : Traza → Orden → Prop) : Traza → Prop
  | inicial : Recorrido C .inicial
  | paso {s : Traza} (o : Orden) (h : Recorrido C s) (hp : s.Posible o) (hc : C s o) :
    Recorrido C (s.paso o)

/-- The completion was due to call `n`: it came through the reply handle issued for that very call
and brought what that reply said, or from the death of its server, or from the `wait_for` that took
it off its endpoint and found no slot. -/
def Final.Debido (f : Final) (n : Nat) (c : Llamada) : Prop :=
  match f.causa with
  | .respuesta para code value => para = some n ∧ f.code = code ∧ f.value = value
  | .muerte pid => pid = c.servidor ∧ f.code = errorEndpointDead
  | .sinHueco idx => idx = c.idx ∧ f.code = errorEndpointOcupado
  | .otra => False

/-- Call `n` has been completed. -/
def Traza.Terminada (s : Traza) (n : Nat) : Prop := ∃ f ∈ s.finales, f.llamada = some n

/-- The caller of `c`, the `n`-th call, still sleeps in it. -/
def Traza.Espera (s : Traza) (n : Nat) (c : Llamada) : Prop :=
  s.enCurso c.tid = some n ∧ s.sistema.tareas c.tid = .bloqueada (.reply c.tid) 0

/-- Calls are answered exactly as they should. -/
structure Traza.Exacta (s : Traza) : Prop where
  /-- No call is completed twice. -/
  unaVez : (s.finales.map Final.llamada).Nodup
  /-- What is completed is an accepted call, by what was due to it. -/
  debido : ∀ f ∈ s.finales, ∃ n c, f.llamada = some n ∧ s.llamadas[n]? = some c ∧ f.Debido n c
  /-- A live reply handle was issued for a call; a reply through it completes that call, with its
  code and value, if the caller still sleeps in it, and no call at all once it was completed. -/
  respuesta : ∀ pid handle r, resolve s.sistema.tablas pid handle rightWrite = .ok r →
    r.kind = kindReply → ∃ n c, s.emision pid handle = some n ∧ s.llamadas[n]? = some c ∧
      ∀ code value,
        (s.Espera n c →
          (s.paso (.responde pid handle code value)).finales =
            ⟨some n, .respuesta (some n) code value, code, value⟩ :: s.finales ∧
          (s.paso (.responde pid handle code value)).sistema.frames =
            ⟨c.tid, code, value⟩ :: s.sistema.frames ∧
          (s.paso (.responde pid handle code value)).sistema.tareas c.tid = .corre) ∧
        (s.Terminada n → (s.paso (.responde pid handle code value)).finales = s.finales)

/-! ### The invariant -/

/-- Entry `ll` of the queue of `idx` is call `n`: the last of its task, not completed, and made to
the server that still serves there. -/
def Traza.Encolada (s : Traza) (idx : Fin maxEndpoints) (ll : Call) (n : Nat) : Prop :=
  ∃ c, s.llamadas[n]? = some c ∧ c.tid = ll.callerTid ∧ c.idx = idx ∧
    c.servidor = (s.sistema.endpoints idx).servidorPid ∧ s.enCurso c.tid = some n ∧
    (s.sistema.respuestas ll.callerTid).lista = false

/-- A task whose answer is still to come sleeps on its own slot without a deadline, or is gone. -/
structure Duermen (k : Sistema) : Prop where
  duerme : ∀ t : Fin maxTasks, (k.respuestas t).esperando = true → (k.respuestas t).lista = false →
    k.tareas t = .bloqueada (.reply t) 0 ∨ k.tareas t = .terminada
  clave : ∀ t u d, k.tareas t = .bloqueada (.reply u) d → u = t
  pendiente : ∀ (t : Fin maxTasks) d, k.tareas t = .bloqueada (.reply t) d →
    (k.respuestas t).lista = false

/-- Every live reply capability is the one issued for a call that is in no queue any more. -/
def Traza.Emitidas (s : Traza) : Prop :=
  ∀ p i, (s.sistema.tablas p i).live = true → (s.sistema.tablas p i).kind = kindReply →
    ∃ pid n c, indicePid pid = some p ∧
      s.emision pid (encode kindReply (s.sistema.tablas p i).generation (UInt64.ofNat i)) = some n ∧
      s.llamadas[n]? = some c ∧
      (s.sistema.tablas p i).object = objeto (UInt32.ofNat c.orden) c.idx c.tid ∧
      ∀ idx, n ∉ s.colas idx

/-- What the kernel state and the ledger say of each other. -/
structure Inv (s : Traza) : Prop where
  gen : ∀ t : Fin maxTasks, (s.sistema.respuestas t).gen.toNat = s.hechas t
  pocas : ∀ t, s.hechas t ≤ 65535
  llamada : ∀ n c, s.llamadas[n]? = some c → c.tid < maxTasks ∧ c.orden ≤ s.hechas c.tid ∧
    (c.orden = s.hechas c.tid ↔ s.enCurso c.tid = some n)
  enCurso : ∀ t n, s.enCurso t = some n → ∃ c, s.llamadas[n]? = some c ∧ c.tid = t
  nadie : ∀ t : Fin maxTasks, s.enCurso t = none → (s.sistema.respuestas t).esperando = false
  abierta : ∀ (t : Fin maxTasks) n, s.enCurso t = some n →
    (s.sistema.respuestas t).esperando = true ∧
      ((s.sistema.respuestas t).lista = true ↔ s.Terminada n)
  tareas : Duermen s.sistema
  cola : ∀ idx, List.Forall₂ (s.Encolada idx) (s.sistema.endpoints idx).cola.toList (s.colas idx)
  orden : ∀ idx, (s.colas idx).Nodup
  cerrada : ∀ idx, (s.sistema.endpoints idx).vivo = false →
    (s.sistema.endpoints idx).cola.count = 0
  emitidas : s.Emitidas
  unaVez : (s.finales.map Final.llamada).Nodup
  debido : ∀ f ∈ s.finales, ∃ n c, f.llamada = some n ∧ s.llamadas[n]? = some c ∧ f.Debido n c

private theorem inv_inicial : Inv .inicial where
  gen _ := rfl
  pocas _ := Nat.zero_le _
  llamada _ _ h := by cases h
  enCurso _ _ h := by cases h
  nadie _ _ := rfl
  abierta _ _ h := by cases h
  tareas := ⟨fun _ h ↦ (by cases h), fun _ _ _ h ↦ (by cases h), fun _ _ h ↦ (by cases h)⟩
  cola _ := .nil
  orden _ := .nil
  cerrada _ _ := rfl
  emitidas _ _ h := by cases h
  unaVez := .nil
  debido _ h := by cases h

/-- A slot after an advance is ready if it was, or if it was just filled. -/
theorem lista_of_deja {r r' : Reply} (h : Deja r r') :
    r'.gen = r.gen ∧ r'.esperando = r.esperando ∧
      (r'.lista = true → r.lista = false → r.esperando = true) := by
  cases h with
  | igual =>
    refine ⟨rfl, rfl, fun h h' ↦ ?_⟩
    rw [h] at h'
    cases h'
  | llena code value he hl => exact ⟨rfl, rfl, fun _ _ ↦ he⟩

/-- Sleepers sleep on after an advance, except those whose slot is ready. -/
theorem Duermen.of_avance {k k' : Sistema} (h : Duermen k) (hav : Avance k k') :
    Duermen k' := by
  refine ⟨fun t he hl ↦ ?_, fun t u d hb ↦ ?_, fun t d hb ↦ ?_⟩
  · have hdeja := hav.respuestas t
    have hl' : (k.respuestas t).lista = false := by
      by_contra hne
      rw [hdeja.lista (by simpa using hne)] at hl
      cases hl
    rw [(lista_of_deja hdeja).2.1] at he
    rcases hav.tareas t with heq | ⟨-, u, d, hb, hlu⟩
    · rw [heq]
      exact h.duerme t he hl'
    · rw [← Fin.ext (h.clave _ _ _ hb)] at hl
      rw [hlu] at hl
      cases hl
  · rcases hav.tareas t with heq | ⟨hc, -⟩
    · exact h.clave t u d (heq ▸ hb)
    · rw [hc] at hb
      cases hb
  · rcases hav.tareas t with heq | ⟨hc, -⟩
    · by_contra hl
      exact hav.despierta t d (h.pendiente t d (heq ▸ hb)) (by simpa using hl) hb
    · rw [hc] at hb
      cases hb

private theorem wakeByKey_endpoint (k : Sistema) (idx : Fin maxEndpoints) (t : Nat) :
    (∀ u d, (k.wakeByKey (.endpoint idx)).tareas t = .bloqueada (.reply u) d ↔
      k.tareas t = .bloqueada (.reply u) d) ∧
    ((k.wakeByKey (.endpoint idx)).tareas t = .terminada ↔ k.tareas t = .terminada) := by
  simp only [wakeByKey]
  rcases k.tareas t with _ | ⟨_ | _, _⟩ | _ <;> simp
  split <;> simp

/-- A task goes to sleep on its slot as its call is queued. -/
theorem Duermen.encolada {k : Sistema} (h : Duermen k) {t : Fin maxTasks}
    {idx : Fin maxEndpoints} (hn : (k.endpoints idx).cola.count < queue) (op : UInt64)
    (args : UInt64 × UInt64 × UInt64) : Duermen (k.encolada t idx hn op args) := by
  refine ⟨fun u he hl ↦ ?_, fun u v d hb ↦ ?_, fun u d hb ↦ ?_⟩
  · simp only [Sistema.encolada] at he hl ⊢
    by_cases hu : u = t
    · subst hu
      rw [Function.update_self]
      exact .inl rfl
    · rw [Function.update_of_ne hu] at he hl
      rw [Function.update_of_ne (Fin.val_ne_of_ne hu), (wakeByKey_endpoint _ _ _).1,
        (wakeByKey_endpoint _ _ _).2]
      exact h.duerme u he hl
  · simp only [Sistema.encolada] at hb
    by_cases hu : u = t
    · rw [hu, Function.update_self] at hb
      cases hb
      exact hu.symm
    · rw [Function.update_of_ne hu, (wakeByKey_endpoint _ _ _).1] at hb
      exact h.clave u v d hb
  · simp only [Sistema.encolada] at hb ⊢
    by_cases hu : u = t
    · rw [hu, Function.update_self]
    · rw [Function.update_of_ne (Fin.val_ne_of_ne hu), (wakeByKey_endpoint _ _ _).1] at hb
      rw [Function.update_of_ne hu]
      exact h.pendiente u d hb

/-- A task that does not sleep on a slot moves, to a state that is not sleep on a slot. -/
theorem Duermen.tarea {k : Sistema} (h : Duermen k) {tid : Nat} {nueva : Tarea}
    (hde : nueva = .terminada ∨ k.tareas tid ≠ .bloqueada (.reply tid) 0 ∧
      k.tareas tid ≠ .terminada)
    (hn : ∀ u d, nueva ≠ .bloqueada (.reply u) d) :
    Duermen { k with tareas := Function.update k.tareas tid nueva } := by
  refine ⟨fun t he hl ↦ ?_, fun t u d hb ↦ ?_, fun t d hb ↦ ?_⟩
  · by_cases htt : (t : Nat) = tid
    · subst htt
      simp only [Function.update_self]
      rcases hde with rfl | ⟨hne, hne'⟩
      · exact .inr rfl
      · rcases h.duerme t he hl with h | h
        · exact absurd h hne
        · exact absurd h hne'
    · simp only [Function.update_of_ne htt]
      exact h.duerme t he hl
  · by_cases htt : t = tid
    · subst htt
      simp only [Function.update_self] at hb
      exact absurd hb (hn u d)
    · simp only [Function.update_of_ne htt] at hb
      exact h.clave t u d hb
  · by_cases htt : (t : Nat) = tid
    · subst htt
      simp only [Function.update_self] at hb
      exact absurd hb (hn t d)
    · simp only [Function.update_of_ne htt] at hb
      exact h.pendiente t d hb

theorem mem_recien {k k' : Sistema} {t : Fin maxTasks} :
    t ∈ Traza.recien k k' ↔ (k.respuestas t).lista = false ∧ (k'.respuestas t).lista = true := by
  simp [Traza.recien]

theorem not_mem_recien {k k' : Sistema} (h : k'.respuestas = k.respuestas)
    (t : Fin maxTasks) : t ∉ Traza.recien k k' := by
  rw [mem_recien, h]
  rintro ⟨hl, hl'⟩
  rw [hl] at hl'
  cases hl'

namespace Inv

variable {s : Traza}

private theorem recien_enCurso (hs : Inv s) {k : Sistema}
    (hr : ∀ t, Deja (s.sistema.respuestas t) (k.respuestas t)) {t : Fin maxTasks}
    (ht : t ∈ Traza.recien s.sistema k) :
    ∃ n c, s.enCurso t = some n ∧ s.llamadas[n]? = some c ∧ c.tid = t ∧ ¬ s.Terminada n ∧
      (s.sistema.respuestas t).lista = false ∧ (k.respuestas t).lista = true := by
  obtain ⟨hl, hl'⟩ := mem_recien.mp ht
  have he := (lista_of_deja (hr t)).2.2 hl' hl
  cases hn : s.enCurso t with
  | none =>
    rw [hs.nadie t hn] at he
    cases he
  | some n =>
    obtain ⟨c, hc, hct⟩ := hs.enCurso t n hn
    refine ⟨n, c, rfl, hc, hct, fun hT ↦ ?_, hl, hl'⟩
    rw [(hs.abierta t n hn).2.mpr hT] at hl
    cases hl

/-- A step that fills slots of waiting callers, for due causes, keeps the ledger in order. -/
theorem avanza (hs : Inv s) {causa : Causa} {k : Sistema}
    (q : Fin maxEndpoints → List Nat) (e : UInt32 → UInt64 → Option Nat)
    (hr : ∀ t, Deja (s.sistema.respuestas t) (k.respuestas t)) (hd : Duermen k)
    (hdeb : ∀ (t : Fin maxTasks) n c, s.enCurso t = some n → s.llamadas[n]? = some c → c.tid = t →
      t ∈ Traza.recien s.sistema k →
      Final.Debido ⟨some n, causa, (k.respuestas t).code, (k.respuestas t).value⟩ n c)
    (hcola : ∀ idx, List.Forall₂ (Traza.Encolada { s with sistema := k } idx)
      (k.endpoints idx).cola.toList (q idx))
    (hnodup : ∀ idx, (q idx).Nodup)
    (hcerr : ∀ idx, (k.endpoints idx).vivo = false → (k.endpoints idx).cola.count = 0)
    (hemi : Traza.Emitidas { s with sistema := k, colas := q, emision := e }) :
    Inv { s.avanza causa k with colas := q, emision := e } where
  gen t := (congrArg UInt32.toNat (lista_of_deja (hr t)).1).trans (hs.gen t)
  pocas := hs.pocas
  llamada := hs.llamada
  enCurso := hs.enCurso
  nadie t h := (lista_of_deja (hr t)).2.1.trans (hs.nadie t h)
  abierta t n hn := by
    obtain ⟨he, hiff⟩ := hs.abierta t n hn
    refine ⟨(lista_of_deja (hr t)).2.1.trans he, fun hl ↦ ?_, fun hT ↦ ?_⟩
    · by_cases hl0 : (s.sistema.respuestas t).lista = true
      · obtain ⟨f, hf, hfn⟩ := hiff.mp hl0
        exact ⟨f, List.mem_append_right _ hf, hfn⟩
      · refine ⟨⟨s.enCurso t, causa, _, _⟩, List.mem_append_left _ (List.mem_map.mpr ⟨t, ?_, rfl⟩), hn⟩
        exact mem_recien.mpr ⟨by simpa using hl0, hl⟩
    · obtain ⟨f, hf, hfn⟩ := hT
      rcases List.mem_append.mp hf with hf | hf
      · obtain ⟨u, hu, rfl⟩ := List.mem_map.mp hf
        obtain ⟨m, c, hm, hc, hcu, -, -, hl'⟩ := hs.recien_enCurso hr hu
        obtain ⟨c', hc', hct⟩ := hs.enCurso t n hn
        simp only [hm, Option.some.injEq] at hfn
        rw [← hfn, hc] at hc'
        cases hc'
        rw [← Fin.ext (hcu.symm.trans hct)]
        exact hl'
      · exact (hr t).lista (hiff.mpr ⟨f, hf, hfn⟩)
  tareas := hd
  cola := hcola
  orden := hnodup
  cerrada := hcerr
  emitidas := hemi
  unaVez := by
    simp only [Traza.avanza, List.map_append, List.map_map]
    refine List.nodup_append.mpr ⟨?_, hs.unaVez, ?_⟩
    · refine ((List.nodup_finRange _).filter _).map_on ?_
      intro t ht u hu htu
      obtain ⟨m, c, hm, hc, hct, -⟩ := hs.recien_enCurso hr ht
      obtain ⟨m', c', hm', hc', hct', -⟩ := hs.recien_enCurso hr hu
      simp only [Function.comp_apply, hm, hm', Option.some.injEq] at htu
      rw [htu, hc'] at hc
      cases hc
      exact Fin.ext (hct.symm.trans hct')
    · intro a ha b hb hab
      obtain ⟨t, ht, rfl⟩ := List.mem_map.mp ha
      obtain ⟨f, hf, rfl⟩ := List.mem_map.mp hb
      obtain ⟨n, c, hn, -, -, hno, -⟩ := hs.recien_enCurso hr ht
      exact hno ⟨f, hf, hab.symm.trans hn⟩
  debido f hf := by
    rcases List.mem_append.mp hf with hf | hf
    · obtain ⟨t, ht, rfl⟩ := List.mem_map.mp hf
      obtain ⟨n, c, hn, hc, hct, -⟩ := hs.recien_enCurso hr ht
      exact ⟨n, c, hn, hc, hn ▸ hdeb t n c hn hc hct ht⟩
    · exact hs.debido f hf

end Inv

/-! ### Capability tables -/

/-- No reply capability is live in `t'` that was not live in `t`. -/
def SinNuevas (t t' : Tablas) : Prop :=
  ∀ p i, (t' p i).live = true → (t' p i).kind = kindReply → t' p i = t p i

theorem sinNuevas_grant (t : Tablas) (pid : UInt32) {kind : UInt8} (rights object : UInt64)
    (hk : kind ≠ kindReply) : SinNuevas t (grant t pid kind rights object).2 := by
  intro p i _ hr
  rcases h : grant t pid kind rights object with ⟨_ | x, t'⟩
  · rw [grant_eq_none h]
  · obtain ⟨q, j, -, -, -, rfl⟩ := grant_eq_some h
    rw [h] at hr
    simp only [poner_apply] at hr ⊢
    split at hr
    · exact absurd hr hk
    · next hne => rw [if_neg hne]

theorem sinNuevas_revoke (t : Tablas) (pid : UInt32) (h : UInt64) :
    SinNuevas t (revoke t pid h).2 := by
  intro p i hl _
  rcases hr : revoke t pid h with ⟨_ | _, t'⟩
  · rw [revoke_eq_false hr]
  · obtain ⟨q, j, -, -, -, -, rfl⟩ := revoke_eq_true hr
    rw [hr] at hl
    simp only [poner_apply] at hl ⊢
    split at hl
    · cases hl
    · next hne => rw [if_neg hne]

theorem sinNuevas_revokeAll (t : Tablas) (pid : UInt32) :
    SinNuevas t (revokeAllSlots t pid) := by
  intro p i hl _
  rw [revokeAllSlots_apply] at hl ⊢
  split at hl
  · cases hl
  · next hne => rw [if_neg hne]

namespace Inv

variable {s : Traza}

private theorem emitidas_of (hs : Inv s) {k : Sistema} {q : Fin maxEndpoints → List Nat}
    (ht : SinNuevas s.sistema.tablas k.tablas) (hq : ∀ idx, q idx ⊆ s.colas idx) :
    Traza.Emitidas { s with sistema := k, colas := q } := by
  intro p i hl hr
  have heq := ht p i hl hr
  simp only at hl hr ⊢
  rw [heq] at hl hr ⊢
  obtain ⟨pid, n, c, hp, hem, hc, hobj, hno⟩ := hs.emitidas p i hl hr
  exact ⟨pid, n, c, hp, hem, hc, hobj, fun idx hn ↦ hno idx (hq idx hn)⟩

private theorem quieta (hs : Inv s) (causa : Causa) {k : Sistema}
    (hr : k.respuestas = s.sistema.respuestas) (hd : Duermen k)
    (he : ∀ idx, k.endpoints idx = s.sistema.endpoints idx ∨
      (s.sistema.endpoints idx).vivo = false ∧ (k.endpoints idx).cola.count = 0)
    (ht : SinNuevas s.sistema.tablas k.tablas) : Inv (s.avanza causa k) := by
  refine hs.avanza s.colas s.emision (fun t ↦ hr ▸ .igual) hd ?_ ?_ hs.orden ?_
    (hs.emitidas_of ht fun _ ↦ List.Subset.refl _)
  · exact fun t _ _ _ _ _ ht ↦ absurd ht (not_mem_recien hr t)
  · intro idx
    rcases he idx with heq | ⟨hv, hn⟩
    · rw [heq]
      refine (hs.cola idx).imp fun ll n ⟨c, hc, hct, hci, hcs, hcur, hl⟩ ↦
        ⟨c, hc, hct, hci, ?_, hcur, ?_⟩
      · rw [hcs]
        exact congrArg Endpoint.servidorPid heq.symm
      · exact (congrArg Reply.lista (congrFun hr _)).trans hl
    · have hnil := hs.cola idx
      rw [Ring.toList_eq_nil.mpr (hs.cerrada idx hv), List.forall₂_nil_left_iff] at hnil
      rw [Ring.toList_eq_nil.mpr hn, hnil]
      exact .nil
  · intro idx hv
    rcases he idx with heq | ⟨-, hn⟩
    · rw [heq] at hv ⊢
      exact hs.cerrada idx hv
    · exact hn

end Inv

namespace Inv

variable {s : Traza}

/-! ### The steps that complete no call -/

private theorem crea (hs : Inv s) (pid : UInt32) (canal : Nat) : Inv (s.paso (.crea pid canal)) := by
  simp only [Traza.paso, create]
  split
  · exact hs.quieta _ rfl hs.tareas (fun _ ↦ .inl rfl) fun _ _ _ _ ↦ rfl
  · next i hi =>
    have hv : (s.sistema.endpoints i).vivo = false := by simpa using List.find?_some hi
    refine hs.quieta _ rfl ⟨hs.tareas.duerme, hs.tareas.clave, hs.tareas.pendiente⟩ (fun idx ↦ ?_) (sinNuevas_grant _ _ _ _ (by decide))
    by_cases h : idx = i
    · subst h
      refine .inr ⟨hv, ?_⟩
      simp only [ponEndpoint, Function.update_self]
      rfl
    · left
      simp only [ponEndpoint, Function.update_of_ne h]

private theorem conecta (hs : Inv s) (idx : Fin maxEndpoints) (pid : UInt32) :
    Inv (s.paso (.conecta idx pid)) := by
  simp only [Traza.paso, grantClient]
  split
  · exact hs.quieta _ rfl hs.tareas (fun _ ↦ .inl rfl) fun _ _ _ _ ↦ rfl
  · exact hs.quieta _ rfl ⟨hs.tareas.duerme, hs.tareas.clave, hs.tareas.pendiente⟩ (fun _ ↦ .inl rfl)
      (sinNuevas_grant _ _ _ _ (by decide))

private theorem tablas (hs : Inv s) {t : Tablas} (ht : SinNuevas s.sistema.tablas t) :
    Inv (s.avanza .otra { s.sistema with tablas := t }) :=
  hs.quieta _ rfl ⟨hs.tareas.duerme, hs.tareas.clave, hs.tareas.pendiente⟩ (fun _ ↦ .inl rfl) ht

private theorem tarea (hs : Inv s) (tid : Nat) {nueva : Tarea} (causa : Causa)
    (h : nueva = .terminada ∨ s.sistema.tareas tid ≠ .bloqueada (.reply tid) 0 ∧
      s.sistema.tareas tid ≠ .terminada)
    (hn : ∀ u d, nueva ≠ .bloqueada (.reply u) d) :
    Inv (s.avanza causa
      { s.sistema with tareas := Function.update s.sistema.tareas tid nueva }) :=
  hs.quieta _ rfl (hs.tareas.tarea h hn) (fun _ ↦ .inl rfl) fun _ _ _ _ ↦ rfl

private theorem vence (hs : Inv s) (tid : Nat) : Inv (s.paso (.vence tid)) := by
  simp only [Traza.paso]
  split
  · next k d hb =>
    split
    · exact hs
    · next hd =>
      refine hs.tarea tid .otra (.inr ⟨fun h ↦ ?_, fun h ↦ ?_⟩) fun _ _ h ↦ by cases h
      · rw [hb] at h
        cases h
        exact hd rfl
      · rw [hb] at h
        cases h
  · exact hs

/-! ### A call -/

private theorem lt_of_llamada {n : Nat} {c : Llamada} (h : s.llamadas[n]? = some c) :
    n < s.llamadas.length :=
  (List.getElem?_eq_some_iff.mp h).1

private theorem encolada_of_mem (hs : Inv s) {idx : Fin maxEndpoints} {n : Nat}
    (hn : n ∈ s.colas idx) :
    ∃ ll ∈ (s.sistema.endpoints idx).cola.toList, s.Encolada idx ll n := by
  obtain ⟨hlen, hzip⟩ := List.forall₂_iff_zip.mp (hs.cola idx)
  obtain ⟨k, hk, rfl⟩ := List.getElem_of_mem hn
  have hmem : ((s.sistema.endpoints idx).cola.toList[k], (s.colas idx)[k]) ∈
      List.zip (s.sistema.endpoints idx).cola.toList (s.colas idx) :=
    List.mem_iff_getElem.mpr ⟨k, by rw [List.length_zip]; omega, List.getElem_zip⟩
  exact ⟨_, List.getElem_mem _, hzip hmem⟩

private theorem no_encolada_of_corre (hs : Inv s) {idx : Fin maxEndpoints} {ll : Call} {n : Nat}
    (h : s.Encolada idx ll n) : s.sistema.tareas ll.callerTid ≠ .corre := by
  intro hcorre
  obtain ⟨c, hc, hct, -, -, hcur, hl⟩ := h
  rw [hct] at hcur
  rcases hs.tareas.duerme _ (hs.abierta _ _ hcur).1 hl with h | h
  · rw [hcorre] at h
    cases h
  · rw [hcorre] at h
    cases h

private theorem hechas_acepta (s : Traza) (t : Fin maxTasks) (idx : Fin maxEndpoints) (op : UInt64)
    (args : UInt64 × UInt64 × UInt64) (k : Sistema) (u : Nat) :
    (s.acepta t idx op args k).hechas u = s.hechas u + if u = t then 1 else 0 := by
  simp only [Traza.hechas, Traza.acepta, List.countP_append, List.countP_singleton,
    decide_eq_true_eq, @eq_comm _ (t : Nat) u]

private theorem llamadas_acepta (s : Traza) (t : Fin maxTasks) (idx : Fin maxEndpoints)
    (op : UInt64) (args : UInt64 × UInt64 × UInt64) (k : Sistema) {n : Nat} {c : Llamada} :
    (s.acepta t idx op args k).llamadas[n]? = some c ↔ s.llamadas[n]? = some c ∨
      n = s.llamadas.length ∧
        c = ⟨t, idx, (s.sistema.endpoints idx).servidorPid, op, args, s.hechas t + 1⟩ := by
  simp only [Traza.acepta]
  rcases Nat.lt_trichotomy n s.llamadas.length with h | h | h
  · rw [List.getElem?_append_left h]
    exact ⟨.inl, fun h' ↦ h'.resolve_right fun h'' ↦ h.ne h''.1⟩
  · subst h
    rw [List.getElem?_append_right (le_refl _), Nat.sub_self, List.getElem?_eq_none (le_refl _)]
    simp [eq_comm]
  · rw [List.getElem?_eq_none (by simp; omega), List.getElem?_eq_none (by omega)]
    simp [h.ne']

private theorem finales_acepta (s : Traza) (t : Fin maxTasks) {idx : Fin maxEndpoints}
    (hn : (s.sistema.endpoints idx).cola.count < queue) (op : UInt64)
    (args : UInt64 × UInt64 × UInt64) :
    (s.acepta t idx op args (s.sistema.encolada t idx hn op args)).finales = s.finales := by
  have hrec : Traza.recien s.sistema (s.sistema.encolada t idx hn op args) = [] := by
    refine List.filter_eq_nil_iff.mpr fun u _ ↦ ?_
    simp only [Sistema.encolada]
    by_cases hu : u = t
    · subst hu
      simp
    · rw [Function.update_of_ne hu, Bool.not_and_self]
      decide
  simp [Traza.acepta, Traza.avanza, hrec]

private theorem aceptada (hs : Inv s) {t : Fin maxTasks} {idx : Fin maxEndpoints}
    (hn : (s.sistema.endpoints idx).cola.count < queue) (op : UInt64)
    (args : UInt64 × UInt64 × UInt64) (hp : s.sistema.tareas t = .corre)
    (hc : s.hechas t < 65535) (hv : (s.sistema.endpoints idx).vivo = true) :
    Inv (s.acepta t idx op args (s.sistema.encolada t idx hn op args)) := by
  have hgen := hs.gen t
  have hfin := finales_acepta s t hn op args
  have hhechas := hechas_acepta s t idx op args (s.sistema.encolada t idx hn op args)
  have hllam : ∀ {n c}, _ ↔ _ :=
    @llamadas_acepta s t idx op args (s.sistema.encolada t idx hn op args)
  -- an entry of a queue is of a sleeping task, so not of this one
  have hotro : ∀ {j ll n}, s.Encolada j ll n → ll.callerTid ≠ t :=
    fun h heq ↦ hs.no_encolada_of_corre h (heq ▸ hp)
  refine
    { gen := fun u ↦ ?_, pocas := fun u ↦ ?_, llamada := fun n c h ↦ ?_, enCurso := fun u n h ↦ ?_
      nadie := fun u h ↦ ?_, abierta := fun u n h ↦ ?_, tareas := ?_
      cola := fun j ↦ ?_, orden := fun j ↦ ?_, cerrada := fun j h ↦ ?_, emitidas := fun p i hl hr ↦ ?_
      unaVez := ?_, debido := fun f hf ↦ ?_ }
  · rw [hhechas]
    by_cases hu : u = t
    · subst hu
      simp only [Traza.acepta, Traza.avanza, Sistema.encolada, Function.update_self, if_true,
        UInt32.toNat_add, hgen, UInt32.toNat_one]
      omega
    · simp only [Traza.acepta, Traza.avanza, Sistema.encolada, Function.update_of_ne hu,
        if_neg fun h ↦ hu (Fin.ext h), Nat.add_zero, hs.gen u]
  · rw [hhechas]
    have := hs.pocas u
    split
    · next h =>
      rw [h]
      omega
    · omega
  · rw [hhechas]
    simp only [Traza.acepta]
    rcases hllam.mp h with h | ⟨rfl, rfl⟩
    · obtain ⟨ht, hle, hiff⟩ := hs.llamada n c h
      refine ⟨ht, by omega, ?_⟩
      by_cases hct : c.tid = t
      · rw [if_pos hct, hct, Function.update_self, Option.some.injEq]
        rw [hct] at hle
        have := lt_of_llamada h
        omega
      · rw [if_neg hct, Function.update_of_ne hct]
        exact hiff
    · simp
  · simp only [Traza.acepta] at h
    by_cases hu : u = t
    · subst hu
      rw [Function.update_self] at h
      cases h
      exact ⟨_, hllam.mpr (.inr ⟨rfl, rfl⟩), rfl⟩
    · rw [Function.update_of_ne hu] at h
      obtain ⟨c, hc, hct⟩ := hs.enCurso u n h
      exact ⟨c, hllam.mpr (.inl hc), hct⟩
  · have hu : u ≠ t := by
      rintro rfl
      simp [Traza.acepta] at h
    simp only [Traza.acepta, Function.update_of_ne (Fin.val_ne_of_ne hu)] at h
    simp only [Traza.acepta, Traza.avanza, Sistema.encolada, Function.update_of_ne hu]
    exact hs.nadie u h
  · rw [Traza.Terminada, hfin]
    by_cases hu : u = t
    · subst hu
      simp only [Traza.acepta, Function.update_self, Option.some.injEq] at h
      simp only [Traza.acepta, Traza.avanza, Sistema.encolada, Function.update_self, true_and,
        Bool.false_eq_true, false_iff]
      rintro ⟨f, hf, hfn⟩
      obtain ⟨m, c, hm, hc, -⟩ := hs.debido f hf
      rw [hm, Option.some.injEq] at hfn
      exact absurd (lt_of_llamada hc) (by omega)
    · simp only [Traza.acepta, Function.update_of_ne (Fin.val_ne_of_ne hu)] at h
      simp only [Traza.acepta, Traza.avanza, Sistema.encolada, Function.update_of_ne hu]
      exact hs.abierta u n h
  · exact hs.tareas.encolada hn op args
  · have hmono : ∀ ll n, s.Encolada j ll n →
        (s.acepta t idx op args (s.sistema.encolada t idx hn op args)).Encolada j ll n := by
      rintro ll n h
      have hne := hotro h
      obtain ⟨c, hc, hct, hci, hcs, hcur, hl⟩ := h
      refine ⟨c, hllam.mpr (.inl hc), hct, hci, ?_, ?_, ?_⟩
      · rw [hcs]
        simp only [Traza.acepta, Traza.avanza, Sistema.encolada]
        by_cases hj : j = idx
        · rw [hj, Function.update_self]
        · rw [Function.update_of_ne hj]
      · simp only [Traza.acepta]
        rw [Function.update_of_ne, hcur]
        rw [hct]
        exact Fin.val_ne_of_ne hne
      · simp only [Traza.acepta, Traza.avanza, Sistema.encolada, Function.update_of_ne hne]
        exact hl
    have hcola := (hs.cola j).imp hmono
    by_cases hj : j = idx
    · subst hj
      have hcolas : (s.acepta t j op args (s.sistema.encolada t j hn op args)).colas j =
          s.colas j ++ [s.llamadas.length] := Function.update_self ..
      have hend : (s.acepta t j op args (s.sistema.encolada t j hn op args)).sistema.endpoints j =
          { s.sistema.endpoints j with
            cola := (s.sistema.endpoints j).cola.push ⟨t, op, args⟩ hn
            seq := (s.sistema.endpoints j).seq + 1 } := Function.update_self ..
      rw [hcolas, hend, Ring.toList_push]
      refine List.rel_append hcola (.cons ⟨_, hllam.mpr (.inr ⟨rfl, rfl⟩), rfl, rfl, ?_, ?_, ?_⟩ .nil)
      · rw [hend]
      · exact Function.update_self ..
      · simp only [Traza.acepta, Traza.avanza, Sistema.encolada, Function.update_self]
    · simp only [Traza.acepta, Traza.avanza, Sistema.encolada, Function.update_of_ne hj]
      exact hcola
  · simp only [Traza.acepta]
    by_cases hj : j = idx
    · subst hj
      rw [Function.update_self]
      refine List.nodup_append.mpr ⟨hs.orden j, List.nodup_singleton _, fun a ha b hb ↦ ?_⟩
      obtain ⟨ll, -, c, hc, -⟩ := hs.encolada_of_mem ha
      rw [List.mem_singleton.mp hb]
      exact (lt_of_llamada hc).ne
    · rw [Function.update_of_ne hj]
      exact hs.orden j
  · simp only [Traza.acepta, Traza.avanza, Sistema.encolada] at h ⊢
    by_cases hj : j = idx
    · subst hj
      rw [Function.update_self] at h
      simp only at h
      rw [hv] at h
      cases h
    · rw [Function.update_of_ne hj] at h ⊢
      exact hs.cerrada j h
  · obtain ⟨pid, n, c, hpid, hem, hc, hobj, hno⟩ := hs.emitidas p i hl hr
    refine ⟨pid, n, c, hpid, hem, hllam.mpr (.inl hc), hobj, fun j ↦ ?_⟩
    simp only [Traza.acepta]
    by_cases hj : j = idx
    · subst hj
      rw [Function.update_self, List.mem_append, List.mem_singleton, not_or]
      exact ⟨hno j, (lt_of_llamada hc).ne⟩
    · rw [Function.update_of_ne hj]
      exact hno j
  · rw [hfin]
    exact hs.unaVez
  · rw [hfin] at hf
    obtain ⟨n, c, hn', hc, hd⟩ := hs.debido f hf
    exact ⟨n, c, hn', hllam.mpr (.inl hc), hd⟩

private theorem llama (hs : Inv s) (tid : Nat) (idx : Fin maxEndpoints) (op : UInt64)
    (args : UInt64 × UInt64 × UInt64) (hp : s.sistema.tareas tid = .corre)
    (hc : s.hechas tid < 65535) : Inv (s.paso (.llama tid idx op args)) := by
  simp only [Traza.paso]
  rcases s.sistema.call_cases tid idx op args with ⟨out, hcall, hout, -⟩ | ⟨t, hn, rfl, hv, hcall⟩
  · rw [hcall]
    simp only [if_pos hout]
    exact hs.quieta _ rfl hs.tareas (fun _ ↦ .inl rfl) fun _ _ _ _ ↦ rfl
  · rw [hcall]
    simp only
    rw [if_neg (by decide)]
    exact hs.aceptada hn op args hp hc hv

/-! ### The steps that complete calls -/

private theorem encolada_of_mem_cola (hs : Inv s) {idx : Fin maxEndpoints} {ll : Call}
    (hll : ll ∈ (s.sistema.endpoints idx).cola.toList) :
    ∃ n ∈ s.colas idx, s.Encolada idx ll n := by
  obtain ⟨hlen, hzip⟩ := List.forall₂_iff_zip.mp (hs.cola idx)
  obtain ⟨k, hk, rfl⟩ := List.getElem_of_mem hll
  have hmem : ((s.sistema.endpoints idx).cola.toList[k], (s.colas idx)[k]) ∈
      List.zip (s.sistema.endpoints idx).cola.toList (s.colas idx) :=
    List.mem_iff_getElem.mpr ⟨k, by rw [List.length_zip]; omega, List.getElem_zip⟩
  exact ⟨_, List.getElem_mem _, hzip hmem⟩

private theorem idx_of_mem (hs : Inv s) {j : Fin maxEndpoints} {n : Nat} {c : Llamada}
    (hn : n ∈ s.colas j) (hc : s.llamadas[n]? = some c) : c.idx = j := by
  obtain ⟨ll, -, c', hc', -, hci, -⟩ := hs.encolada_of_mem hn
  rw [hc] at hc'
  cases hc'
  exact hci

private theorem colas_of {k : Sistema} {q : Fin maxEndpoints → List Nat}
    (hq : ∀ j, List.Forall₂ (s.Encolada j) (k.endpoints j).cola.toList (q j))
    (hserv : ∀ j, (k.endpoints j).servidorPid = (s.sistema.endpoints j).servidorPid ∨ q j = [])
    (hflip : ∀ u n, u ∈ Traza.recien s.sistema k → s.enCurso u = some n → ∀ j, n ∉ q j) (j) :
    List.Forall₂ (Traza.Encolada { s with sistema := k } j) (k.endpoints j).cola.toList (q j) := by
  obtain ⟨hlen, hzip⟩ := List.forall₂_iff_zip.mp (hq j)
  refine List.forall₂_iff_zip.mpr ⟨hlen, fun {ll n} hmem ↦ ?_⟩
  have hn := (List.of_mem_zip hmem).2
  obtain ⟨c, hc, hct, hci, hcs, hcur, hl⟩ := hzip hmem
  refine ⟨c, hc, hct, hci, ?_, hcur, ?_⟩
  · rcases hserv j with h | h
    · rw [hcs]
      exact h.symm
    · rw [h] at hn
      cases hn
  · by_contra hl'
    rw [hct] at hcur
    exact hflip _ n (mem_recien.mpr ⟨hl, by simpa using hl'⟩) hcur j hn

/-- Answering one caller completes at most the call it waits in. -/
theorem recien_complete {k0 k : Sistema} {tid : Nat} {gen code : UInt32} {value : UInt64}
    (h0 : k0.respuestas = s.sistema.respuestas)
    (hk : k.respuestas = (k0.complete tid gen code value).respuestas) {u : Fin maxTasks}
    (hu : u ∈ Traza.recien s.sistema k) :
    tid = u ∧ gen = (s.sistema.respuestas u).gen ∧ (k.respuestas u).code = code ∧
      (k.respuestas u).value = value := by
  obtain ⟨hl, hl'⟩ := mem_recien.mp hu
  rw [hk] at hl' ⊢
  rcases k0.complete_cases tid gen code value with h | ⟨t, rfl, he, hlt, rfl⟩
  · rw [h, h0, hl] at hl'
    cases hl'
  · rw [complete_respuestas _ _ he hlt] at hl' ⊢
    split at hl'
    · next hut => simp [hut, h0]
    · rw [h0, hl] at hl'
      cases hl'

private theorem cabeza (hs : Inv s) {idx : Fin maxEndpoints}
    (hn : 0 < (s.sistema.endpoints idx).cola.count) :
    ∃ n ns, s.colas idx = n :: ns ∧ s.Encolada idx (s.sistema.endpoints idx).cola.front n ∧
      List.Forall₂ (s.Encolada idx) ((s.sistema.endpoints idx).cola.pop .emptyOne).toList ns := by
  have h := hs.cola idx
  rw [Ring.toList_pop _ Call.emptyOne hn] at h
  obtain ⟨n, ns, hhead, htail, hcolas⟩ := List.forall₂_cons_left_iff.mp h
  exact ⟨n, ns, hcolas, hhead, htail⟩

private theorem colas_tomada (hs : Inv s) {idx : Fin maxEndpoints} {n : Nat} {ns : List Nat}
    (hcolas : s.colas idx = n :: ns)
    (htail : List.Forall₂ (s.Encolada idx)
      ((s.sistema.endpoints idx).cola.pop .emptyOne).toList ns) {k : Sistema}
    (hk : k.endpoints = (s.sistema.tomada idx).endpoints) :
    (∀ j, List.Forall₂ (s.Encolada j) (k.endpoints j).cola.toList
      (Function.update s.colas idx (s.colas idx).tail j)) ∧
    (∀ j, (k.endpoints j).servidorPid = (s.sistema.endpoints j).servidorPid) ∧
    (∀ j, (Function.update s.colas idx (s.colas idx).tail j).Nodup) ∧
    (∀ j, (k.endpoints j).vivo = false → (k.endpoints j).cola.count = 0) ∧
    (∀ j, Function.update s.colas idx (s.colas idx).tail j ⊆ s.colas j) ∧
    ∀ c, s.llamadas[n]? = some c → c.idx = idx →
      ∀ j, n ∉ Function.update s.colas idx (s.colas idx).tail j := by
  have hend := (s.sistema.tomada_eq idx).2.2.2
  have hnodup := hs.orden idx
  rw [hcolas, List.nodup_cons] at hnodup
  rw [hcolas, List.tail_cons]
  simp only [hk, hend]
  refine ⟨fun j ↦ ?_, fun j ↦ ?_, fun j ↦ ?_, fun j hv ↦ ?_, fun j ↦ ?_, fun c hc hci j hj ↦ ?_⟩
  all_goals by_cases h : j = idx
  · subst h
    rw [Function.update_self, Function.update_self]
    exact htail
  · rw [Function.update_of_ne h, Function.update_of_ne h]
    exact hs.cola j
  · rw [h, Function.update_self]
  · rw [Function.update_of_ne h]
  · rw [h, Function.update_self]
    exact hnodup.2
  · rw [Function.update_of_ne h]
    exact hs.orden j
  · subst h
    rw [Function.update_self] at hv ⊢
    simp only [Ring.pop, hs.cerrada j hv]
  · rw [Function.update_of_ne h] at hv ⊢
    exact hs.cerrada j hv
  · rw [h, Function.update_self, hcolas]
    exact List.subset_cons_self ..
  · rw [Function.update_of_ne h]
    exact List.Subset.refl _
  · rw [h, Function.update_self] at hj
    exact hnodup.1 hj
  · rw [Function.update_of_ne h] at hj
    exact h ((hs.idx_of_mem hj hc).symm.trans hci)

private theorem emitidas_grant (hs : Inv s) {k : Sistema} {q : Fin maxEndpoints → List Nat}
    {pid : UInt32} {object h : UInt64} {tablas : Tablas} {o : Option Nat} {n : Nat} {c : Llamada}
    (ho : o = some n) (hg : grant s.sistema.tablas pid kindReply rightWrite object = (some h, tablas))
    (hk : k.tablas = tablas) (hq : ∀ j, q j ⊆ s.colas j) (hno : ∀ j, n ∉ q j)
    (hc : s.llamadas[n]? = some c) (hobj : object = objeto (UInt32.ofNat c.orden) c.idx c.tid) :
    Traza.Emitidas { s with
      sistema := k, colas := q
      emision := Function.update s.emision pid (Function.update (s.emision pid) h o) } := by
  subst ho
  obtain ⟨p, i, hp, -, rfl, rfl⟩ := grant_eq_some hg
  have hreply : kindReply ≤ handleKindMask := by decide
  intro p' i' hl hr
  simp only [hk, poner_apply] at hl hr ⊢
  split at hl
  · next hpi =>
    obtain ⟨rfl, rfl⟩ := hpi
    simp only [and_self, if_true]
    exact ⟨pid, n, c, hp, by rw [Function.update_self, Function.update_self], hc, hobj, hno⟩
  · next hpi =>
    rw [if_neg hpi] at hr ⊢
    obtain ⟨pid', n', c', hp', hem, hc', hobj', hno'⟩ := hs.emitidas p' i' hl hr
    refine ⟨pid', n', c', hp', ?_, hc', hobj', fun j hj ↦ hno' j (hq j hj)⟩
    by_cases hpid : pid' = pid
    · subst hpid
      rw [hp, Option.some.injEq] at hp'
      subst hp'
      rw [Function.update_self, Function.update_of_ne, hem]
      -- two handles of one process name two slots
      intro heq
      have := congrArg indexDe heq
      rw [(campos_encode hreply _ i').2.2.1, (campos_encode hreply _ i).2.2.1] at this
      exact hpi ⟨rfl, Fin.ext this⟩
    · rw [Function.update_of_ne hpid]
      exact hem

private theorem espera (hs : Inv s) (tid : Nat) (idx : Fin maxEndpoints) (pid : UInt32)
    (deadline : UInt64) (hp : s.sistema.tareas tid = .corre) :
    Inv (s.paso (.espera tid idx pid deadline)) := by
  simp only [Traza.paso]
  rcases s.sistema.waitFor_cases tid idx pid deadline with ⟨hv, hw⟩ | ⟨hv, hn, hw⟩ | ⟨hv, hn, hw⟩
  · rw [hw, if_neg fun h ↦ by simp [hv] at h]
    exact hs.quieta _ rfl hs.tareas (fun _ ↦ .inl rfl) fun _ _ _ _ ↦ rfl
  · rw [hw, if_neg fun h ↦ by omega]
    refine hs.tarea tid _ (.inr ⟨fun h ↦ ?_, fun h ↦ ?_⟩) fun _ _ h ↦ by cases h
    · rw [hp] at h
      cases h
    · rw [hp] at h
      cases h
  · rw [if_pos ⟨hv, hn⟩]
    obtain ⟨n, ns, hcolas, ⟨c, hc, hct, hci, hcs, hcur, hl⟩, htail⟩ := hs.cabeza hn
    obtain ⟨hres, htar, htab, -⟩ := s.sistema.tomada_eq idx
    have hgen : (s.sistema.respuestas (s.sistema.endpoints idx).cola.front.callerTid).gen =
        UInt32.ofNat c.orden := by
      rw [(hs.llamada n c hc).2.2.mpr hcur, hct, ← hs.gen, UInt32.ofNat_toNat]
    rcases hw with ⟨h, tablas, hg, hw⟩ | ⟨-, hw⟩
    · rw [hw]
      obtain ⟨hq, hserv, hnodup, hcerr, hsub, hno⟩ := hs.colas_tomada hcolas htail
        (k := { s.sistema.tomada idx with tablas := tablas }) rfl
      simp only [if_true]
      refine hs.avanza _ _ (fun t ↦ ?_) ?_ ?_ (colas_of hq (fun j ↦ .inl (hserv j)) ?_) hnodup hcerr
        (hs.emitidas_grant (by rw [hcolas, List.head?_cons]) hg rfl hsub (hno c hc hci) hc ?_)
      · simp only [hres]
        exact .igual
      · exact hs.tareas.of_avance (.of_eq hres htar)
      · exact fun t _ _ _ _ _ ht ↦ absurd ht (not_mem_recien hres t)
      · exact fun t _ ht ↦ absurd ht (not_mem_recien hres t)
      · rw [hgen, hci, hct]
    · rw [hw]
      obtain ⟨hq, hserv, hnodup, hcerr, hsub, hno⟩ := hs.colas_tomada hcolas htail
        (complete_endpoints (s.sistema.tomada idx) (s.sistema.endpoints idx).cola.front.callerTid
          (s.sistema.respuestas (s.sistema.endpoints idx).cola.front.callerTid).gen
          errorEndpointOcupado 0)
      have hav := (Avance.of_eq hres htar).trans (complete_avance (s.sistema.tomada idx)
        (s.sistema.endpoints idx).cola.front.callerTid
        (s.sistema.respuestas (s.sistema.endpoints idx).cola.front.callerTid).gen
        errorEndpointOcupado 0)
      rw [if_neg (show ¬ errorEndpointOcupado = 0 by decide)]
      refine hs.avanza _ _ hav.respuestas (hs.tareas.of_avance hav) (fun t n' c' hcur' hc' _ ht ↦ ?_)
        (colas_of hq (fun j ↦ .inl (hserv j)) fun t n' ht hcur' ↦ ?_) hnodup hcerr
        (hs.emitidas_of ?_ hsub)
      · obtain ⟨htt, -, hcode, -⟩ := recien_complete hres rfl ht
        rw [hct, htt, hcur', Option.some.injEq] at hcur
        rw [hcur, hc] at hc'
        cases hc'
        exact ⟨hci.symm, hcode⟩
      · obtain ⟨htt, -⟩ := recien_complete hres rfl ht
        rw [hct, htt, hcur', Option.some.injEq] at hcur
        rw [hcur]
        exact hno c hc hci
      · rw [complete_tablas, htab]
        exact fun _ _ _ _ ↦ rfl

private theorem reply_viva (hs : Inv s) {pid : UInt32} {handle : UInt64} {r : Resolved}
    (hr : resolve s.sistema.tablas pid handle rightWrite = .ok r) (hk : r.kind = kindReply) :
    ∃ n c, s.emision pid handle = some n ∧ s.llamadas[n]? = some c ∧ tidDe r.object = c.tid ∧
      genDe r.object = UInt32.ofNat c.orden ∧ ∀ idx, n ∉ s.colas idx := by
  obtain ⟨p, i, hp, hl, -, -, hh, -, rfl⟩ := resolve_eq_ok.mp hr
  obtain ⟨pid', n, c, hp', hem, hc, hobj, hno⟩ := hs.emitidas p i hl hk
  rw [indicePid_inj hp' hp] at hem
  obtain ⟨htid, hle, -⟩ := hs.llamada n c hc
  obtain ⟨h1, h2⟩ := campos_objeto (UInt32.ofNat c.orden) c.idx c.tid htid
  refine ⟨n, c, ?_, hc, ?_, ?_, hno⟩
  · rw [hh, ← hem]
    exact congrArg (fun k ↦ s.emision pid (encode k _ _)) hk
  · rw [hobj, h1]
  · -- sixteen bits hold the generation of a task with few calls
    have := hs.pocas c.tid
    rw [hobj, ← UInt32.toNat_inj, h2, UInt32.toNat_ofNat']
    omega

/-- What a reply through a live handle does. -/
theorem paso_responde {pid : UInt32} {handle : UInt64} {r : Resolved}
    (hr : resolve s.sistema.tablas pid handle rightWrite = .ok r) (hk : r.kind = kindReply)
    (code : UInt32) (value : UInt64) :
    s.paso (.responde pid handle code value) =
      s.avanza (.respuesta (s.emision pid handle) code value)
        (s.sistema.replyTo pid handle r.object code value).2 := by
  simp only [Traza.paso, invokeReply, hr, if_pos hk]

/-- A reply for a call completes that call or none: the generation of the call is that of its task
only while it is the last one. -/
private theorem recien_responde (hs : Inv s) {pid : UInt32} {handle object : UInt64} {code : UInt32}
    {value : UInt64} {n : Nat} {c : Llamada} (hc : s.llamadas[n]? = some c)
    (htid : tidDe object = c.tid) (hgen : genDe object = UInt32.ofNat c.orden) {t : Fin maxTasks}
    (ht : t ∈ Traza.recien s.sistema (s.sistema.replyTo pid handle object code value).2) :
    c.tid = t ∧ s.enCurso t = some n := by
  obtain ⟨htt, hg, -⟩ := recien_complete rfl rfl ht
  rw [htid] at htt
  obtain ⟨-, hle, hiff⟩ := hs.llamada n c hc
  have hp := hs.pocas c.tid
  rw [hgen, ← UInt32.toNat_inj, hs.gen t, ← htt, UInt32.toNat_ofNat',
    Nat.mod_eq_of_lt (by omega)] at hg
  exact ⟨htt, htt ▸ hiff.mp hg⟩

private theorem responde (hs : Inv s) (pid : UInt32) (handle : UInt64) (code : UInt32)
    (value : UInt64) : Inv (s.paso (.responde pid handle code value)) := by
  cases hr : resolve s.sistema.tablas pid handle rightWrite with
  | error e =>
    simp only [Traza.paso, invokeReply, hr]
    exact hs
  | ok r =>
    by_cases hk : r.kind = kindReply
    · rw [paso_responde hr hk]
      obtain ⟨n, c, hem, hc, htid, hgen, hno⟩ := hs.reply_viva hr hk
      have hav := s.sistema.complete_avance (tidDe r.object) (genDe r.object) code value
      refine hs.avanza s.colas s.emision hav.respuestas ?_ (fun t n' c' hcur hc' _ ht ↦ ?_)
        (colas_of (fun j ↦ ?_) (fun j ↦ .inl ?_) fun t n' ht hcur j ↦ ?_) hs.orden (fun j ↦ ?_)
        (hs.emitidas_of ?_ fun _ ↦ List.Subset.refl _)
      · have hd := hs.tareas.of_avance hav
        exact ⟨hd.duerme, hd.clave, hd.pendiente⟩
      · obtain ⟨-, -, hcode, hvalue⟩ := recien_complete rfl rfl ht
        rw [(hs.recien_responde hc htid hgen ht).2, Option.some.injEq] at hcur
        rw [← hcur]
        exact ⟨hem, hcode, hvalue⟩
      · simp only [complete_endpoints]
        exact hs.cola j
      · simp only [complete_endpoints]
      · rw [(hs.recien_responde hc htid hgen ht).2, Option.some.injEq] at hcur
        rw [← hcur]
        exact hno j
      · simp only [complete_endpoints]
        exact hs.cerrada j
      · simp only [complete_tablas]
        exact sinNuevas_revoke _ _ _
    · simp only [Traza.paso, invokeReply, hr, if_neg hk]
      exact hs

private theorem muere (hs : Inv s) (pid : UInt32) : Inv (s.paso (.muere pid)) := by
  obtain ⟨hcierra, hotra⟩ := s.sistema.processDied_spec pid
  -- who is answered waited in the queue of an endpoint of the dead process
  have hflip : ∀ {t n}, t ∈ Traza.recien s.sistema (s.sistema.processDied pid) →
      s.enCurso t = some n → ((s.sistema.processDied pid).respuestas t).code = errorEndpointDead ∧
        ∃ c, s.llamadas[n]? = some c ∧ c.servidor = pid ∧
          (s.sistema.endpoints c.idx).vivo = true ∧ (s.sistema.endpoints c.idx).servidorPid = pid := by
    intro t n ht hcur
    rcases hcierra.llenas t with heq | ⟨hcode, -, idx, ll, hll, hv, hp, htt⟩
    · obtain ⟨hl, hl'⟩ := mem_recien.mp ht
      rw [heq, hl] at hl'
      cases hl'
    · obtain ⟨n', -, c, hc, hct, hci, hcs, hcur', -⟩ := hs.encolada_of_mem_cola hll
      rw [hct, htt, hcur, Option.some.injEq] at hcur'
      subst hcur' hci
      exact ⟨hcode, c, hc, hcs.trans hp, hv, hp⟩
  have hend : ∀ j, (s.sistema.processDied pid).endpoints j = s.sistema.endpoints j ∧
      ¬ ((s.sistema.endpoints j).vivo = true ∧ (s.sistema.endpoints j).servidorPid = pid) ∨
      ((s.sistema.endpoints j).vivo = true ∧ (s.sistema.endpoints j).servidorPid = pid) ∧
        ((s.sistema.processDied pid).endpoints j).cola.count = 0 := by
    intro j
    rcases hcierra.endpoints j with heq | ⟨hv, hp, -, hn⟩
    · left
      refine ⟨heq, fun h ↦ ?_⟩
      have := hotra j
      rw [heq] at this
      exact this h.1 h.2
    · exact .inr ⟨⟨hv, hp⟩, hn⟩
  simp only [Traza.paso]
  refine hs.avanza _ s.emision hcierra.avance.respuestas (hs.tareas.of_avance hcierra.avance)
    (fun t n c hcur hc _ ht ↦ ?_) (colas_of (fun j ↦ ?_) (fun j ↦ ?_) fun t n ht hcur j ↦ ?_)
    (fun j ↦ ?_) (fun j h ↦ ?_) (hs.emitidas_of ?_ fun j ↦ ?_)
  · obtain ⟨hcode, c', hc', hserv, -⟩ := hflip ht hcur
    rw [hc] at hc'
    cases hc'
    exact ⟨hserv.symm, hcode⟩
  · rcases hend j with ⟨heq, hno⟩ | ⟨hyes, hn⟩
    · rw [heq, if_neg hno]
      exact hs.cola j
    · rw [if_pos hyes, Ring.toList_eq_nil.mpr hn]
      exact .nil
  · rcases hend j with ⟨heq, -⟩ | ⟨hyes, -⟩
    · exact .inl (congrArg Endpoint.servidorPid heq)
    · exact .inr (if_pos hyes)
  · obtain ⟨-, c, hc, -, hyes⟩ := hflip ht hcur
    split
    · exact List.not_mem_nil
    · next hno =>
      intro hn
      rw [hs.idx_of_mem hn hc] at hyes
      exact hno hyes
  · split
    · exact .nil
    · exact hs.orden j
  · rcases hend j with ⟨heq, -⟩ | ⟨-, hn⟩
    · rw [heq] at h ⊢
      exact hs.cerrada j h
    · exact hn
  · rw [hcierra.tablas]
    exact fun _ _ _ _ ↦ rfl
  · split
    · exact List.nil_subset _
    · exact List.Subset.refl _

/-- One step of a task with few calls keeps kernel and ledger in step. -/
theorem paso (hs : Inv s) {o : Orden} (hp : s.Posible o) (hc : s.PocasLlamadas o) :
    Inv (s.paso o) := by
  cases o with
  | crea pid canal => exact hs.crea pid canal
  | conecta idx pid => exact hs.conecta idx pid
  | llama tid idx op args => exact hs.llama tid idx op args hp hc
  | espera tid idx pid deadline => exact hs.espera tid idx pid deadline hp
  | responde pid handle code value => exact hs.responde pid handle code value
  | muere pid => exact hs.muere pid
  | concede pid kind rights object => exact hs.tablas (sinNuevas_grant _ _ _ _ hp)
  | revoca pid handle => exact hs.tablas (sinNuevas_revoke _ _ _)
  | revocaTodo pid => exact hs.tablas (sinNuevas_revokeAll _ _)
  | vence tid => exact hs.vence tid
  | termina tid => exact hs.tarea tid _ (.inl rfl) fun _ _ h ↦ by cases h

end Inv

theorem Recorrido.inv {s : Traza} (h : Recorrido Traza.PocasLlamadas s) : Inv s := by
  induction h with
  | inicial => exact inv_inicial
  | paso o _ hp hc ih => exact ih.paso hp hc

/-! ### Whole runs -/

/-- In a run where no task makes more than 65535 accepted calls, calls are answered exactly. -/
theorem llamadas_exactas {s : Traza} (h : Recorrido Traza.PocasLlamadas s) : s.Exacta := by
  have hs := h.inv
  refine ⟨hs.unaVez, hs.debido, fun pid handle r hr hk ↦ ?_⟩
  obtain ⟨n, c, hem, hc, htid, hgen, -⟩ := hs.reply_viva hr hk
  refine ⟨n, c, hem, hc, fun code value ↦ ?_⟩
  rw [Inv.paso_responde hr hk]
  have hav := s.sistema.complete_avance (tidDe r.object) (genDe r.object) code value
  refine ⟨fun ⟨hcur, hduerme⟩ ↦ ?_, fun hT ↦ ?_⟩
  · obtain ⟨ht, -, hiff⟩ := hs.llamada n c hc
    obtain ⟨t, ht⟩ : ∃ t : Fin maxTasks, c.tid = t := ⟨⟨c.tid, ht⟩, rfl⟩
    rw [ht] at hcur hduerme hiff htid
    have he := (hs.abierta t n hcur).1
    have hl := hs.tareas.pendiente t 0 hduerme
    have hg : genDe r.object = (s.sistema.respuestas t).gen := by
      rw [hgen, hiff.mpr hcur, ← hs.gen t, UInt32.ofNat_toNat]
    have hresp := complete_respuestas code value he hl
    obtain ⟨hframes, hcorre⟩ := complete_dormida code value he hl hduerme
    have hrec : Traza.recien s.sistema
        (s.sistema.replyTo pid handle r.object code value).2 = [t] := by
      refine List.perm_singleton.mp ((List.perm_ext_iff_of_nodup
        ((List.nodup_finRange _).filter _) (List.nodup_singleton _)).mpr fun u ↦ ?_)
      rw [List.mem_singleton]
      refine ⟨fun hu ↦ Fin.ext ((hs.recien_responde hc (htid.trans ht.symm) hgen hu).1.symm.trans ht),
        ?_⟩
      rintro rfl
      refine mem_recien.mpr ⟨hl, ?_⟩
      rw [replyTo, htid, hg, hresp, if_pos rfl]
    rw [ht]
    simp only [Traza.avanza, hrec, List.map_cons, List.map_nil, List.cons_append, List.nil_append,
      hcur, hem]
    simp only [replyTo, htid, hg, hresp, if_true, hframes, hcorre, and_self]
  · have hrec : Traza.recien s.sistema (s.sistema.replyTo pid handle r.object code value).2 = [] := by
      refine List.eq_nil_iff_forall_not_mem.mpr fun t ht ↦ ?_
      obtain ⟨m, -, hcur, -, -, hno, -⟩ := hs.recien_enCurso hav.respuestas ht
      rw [(hs.recien_responde hc htid hgen ht).2, Option.some.injEq] at hcur
      exact hno (hcur ▸ hT)
    simp only [Traza.avanza, hrec, List.map_nil, List.nil_append]

/-- A server, process 1, with a call of task 2 taken. -/
def tomadaUna : Traza :=
  ((Traza.inicial.paso (.crea 1 0)).paso (.llama 2 0 5 (0, 0, 0))).paso (.espera 3 0 1 0)

theorem recorrido_tomadaUna : Recorrido Traza.PocasLlamadas tomadaUna :=
  .paso _ (.paso _ (.paso _ .inicial trivial trivial) rfl (show 0 < 65535 by decide)) rfl trivial

/-- The first call of a run is answered with what its server replied. -/
theorem primera_llamada_respondida :
    (tomadaUna.paso (.responde 1 (encode kindReply 1 1) 7 9)).finales =
      [⟨some 0, .respuesta (some 0) 7 9, 7, 9⟩] := by
  obtain ⟨n, c, hem, hc, hresp⟩ := (llamadas_exactas recorrido_tomadaUna).respuesta 1
    (encode kindReply 1 1) ⟨kindReply, rightWrite, objeto 1 0 2⟩ (by decide) rfl
  have hn : n = 0 := Option.some.inj (hem.symm.trans rfl)
  subst hn
  have hc' : c = ⟨2, 0, 1, 5, 0, 1⟩ := Option.some.inj (hc.symm.trans rfl)
  subst hc'
  exact ((hresp 7 9).1 ⟨rfl, rfl⟩).1

/-! ### A task with many calls -/

/-- Endpoint 0, of process 1, is open and idle; tasks 2 and 3 run; process 1 has a free slot. -/
private structure Ociosa (s : Traza) : Prop where
  vivo : (s.sistema.endpoints 0).vivo = true
  vacia : (s.sistema.endpoints 0).cola.count = 0
  cola : s.colas 0 = []
  cliente : s.sistema.tareas 2 = .corre
  servidor : s.sistema.tareas 3 = .corre
  libre : ∃ i, primeraLibre (s.sistema.tablas 1) = some i

/-- Task 2 calls endpoint 0. -/
private def llamada0 (s : Traza) : Traza := s.paso (.llama 2 0 0 (0, 0, 0))

/-- Task 2 calls endpoint 0 and task 3, of process 1, takes the call. -/
private def pide (s : Traza) : Traza := (llamada0 s).paso (.espera 3 0 1 0)

/-- What is so once the call was taken under `h`. -/
private structure Pedida (s s' : Traza) (h : UInt64) : Prop where
  llamada : s'.llamadas =
    s.llamadas ++ [⟨2, 0, (s.sistema.endpoints 0).servidorPid, 0, (0, 0, 0), s.hechas 2 + 1⟩]
  enCurso : s'.enCurso 2 = some s.llamadas.length
  emision : s'.emision 1 h = some s.llamadas.length
  viva : resolve s'.sistema.tablas 1 h rightWrite =
    .ok ⟨kindReply, rightWrite, objeto ((s.sistema.respuestas 2).gen + 1) 0 2⟩
  respuesta : s'.sistema.respuestas 2 = ⟨true, false, (s.sistema.respuestas 2).gen + 1, 0, 0⟩
  duerme : s'.sistema.tareas 2 = .bloqueada (.reply 2) 0
  vivo : (s'.sistema.endpoints 0).vivo = true
  vacia : (s'.sistema.endpoints 0).cola.count = 0
  cola : s'.colas 0 = []
  servidor : s'.sistema.tareas 3 = .corre
  libre : ∃ i, primeraLibre ((revoke s'.sistema.tablas 1 h).2 1) = some i

private theorem llamada0_eq {s : Traza} (h : Ociosa s) :
    ∃ hn, llamada0 s = s.acepta 2 0 0 (0, 0, 0) (s.sistema.encolada 2 0 hn 0 (0, 0, 0)) := by
  rcases s.sistema.call_cases 2 0 0 (0, 0, 0) with ⟨out, -, -, hno⟩ | ⟨t, hn, ht, -, hcall⟩
  · rcases hno with hno | hno | hno
    · exact absurd hno (by decide)
    · rw [h.vivo] at hno
      cases hno
    · rw [h.vacia] at hno
      exact absurd hno (by decide)
  · have ht : t = 2 := Fin.ext ht.symm
    subst ht
    refine ⟨hn, ?_⟩
    simp only [llamada0, Traza.paso, hcall]
    exact if_neg (by decide)

private theorem primeraLibre_soltar (t : Tablas) (p : Fin maxProcs) (i : Fin slotsPerProc)
    (c : CapSlot) : ∃ j, primeraLibre (t.poner p i c.soltar p) = some j := by
  cases h : primeraLibre (t.poner p i c.soltar p) with
  | some j => exact ⟨j, rfl⟩
  | none =>
    have := List.find?_eq_none.mp h i (List.mem_finRange i)
    rw [poner_apply, if_pos ⟨rfl, rfl⟩] at this
    exact absurd rfl this

private theorem pide_spec {s : Traza} (h : Ociosa s) :
    (llamada0 s).sistema.tareas 3 = .corre ∧ ∃ handle, Pedida s (pide s) handle := by
  obtain ⟨hn, heq⟩ := llamada0_eq h
  obtain ⟨i, hi⟩ := h.libre
  rw [pide, heq]
  generalize hk : s.sistema.encolada 2 0 hn 0 (0, 0, 0) = k
  have hend : k.endpoints 0 = { s.sistema.endpoints 0 with
      cola := (s.sistema.endpoints 0).cola.push ⟨2, 0, 0, 0, 0⟩ hn
      seq := (s.sistema.endpoints 0).seq + 1 } := by
    rw [← hk]
    simp only [Sistema.encolada, Function.update_self]
  have hres : k.respuestas 2 = ⟨true, false, (s.sistema.respuestas 2).gen + 1, 0, 0⟩ := by
    rw [← hk]
    simp only [Sistema.encolada, Function.update_self]
  have htab : k.tablas = s.sistema.tablas := by
    rw [← hk]
    rfl
  have htar2 : k.tareas 2 = .bloqueada (.reply 2) 0 := by
    rw [← hk]
    simp only [Sistema.encolada]
    exact Function.update_self (2 : Nat) _ _
  have htar3 : k.tareas 3 = .corre := by
    rw [← hk]
    simp only [Sistema.encolada]
    rw [Function.update_of_ne (by decide), wakeByKey]
    simp only [h.servidor]
  have hvivo : (k.endpoints 0).vivo = true := by
    rw [hend]
    exact h.vivo
  have hcount : (k.endpoints 0).cola.count = 1 := by
    rw [hend]
    exact congrArg (· + 1) h.vacia
  have hfront : (k.endpoints 0).cola.front = ⟨2, 0, 0, 0, 0⟩ := by
    have hpop := (k.endpoints 0).cola.toList_pop .emptyOne (by omega)
    rw [hend, Ring.toList_push, Ring.toList_eq_nil.mpr h.vacia, List.nil_append] at hpop
    rw [hend]
    exact (List.cons.inj hpop).1.symm
  have hgrant : grant k.tablas 1 kindReply rightWrite
      (objeto (k.respuestas (k.endpoints 0).cola.front.callerTid).gen 0
        (k.endpoints 0).cola.front.callerTid) =
      (some (encode kindReply (siguiente (s.sistema.tablas 1 i).generation) (UInt64.ofNat i)),
        s.sistema.tablas.poner 1 i ⟨kindReply, true, siguiente (s.sistema.tablas 1 i).generation,
          rightWrite, objeto ((s.sistema.respuestas 2).gen + 1) 0 2⟩) := by
    rw [hfront, hres, htab]
    simp only [grant]
    rw [dif_pos (by decide)]
    simp only [show (⟨UInt32.toNat 1, by decide⟩ : Fin maxProcs) = 1 from rfl, hi]
    rfl
  refine ⟨htar3, encode kindReply (siguiente (s.sistema.tablas 1 i).generation) (UInt64.ofNat i), ?_⟩
  rcases k.waitFor_cases 3 0 1 0 with ⟨hv, -⟩ | ⟨-, h0, -⟩ | ⟨-, -, ⟨h', t', hg, hw⟩ | ⟨⟨t', hg⟩, -⟩⟩
  · rw [hvivo] at hv
    cases hv
  · omega
  · rw [hgrant] at hg
    cases hg
    obtain ⟨hres', htar', -, hend'⟩ := k.tomada_eq 0
    have hsis : (s.acepta 2 0 0 (0, 0, 0) k).sistema = k := rfl
    have hcola : (s.acepta 2 0 0 (0, 0, 0) k).colas 0 = [s.llamadas.length] := by
      simp only [Traza.acepta, h.cola, Function.update_self, List.nil_append]
    have hgen : siguiente (s.sistema.tablas 1 i).generation ≠ 0 := siguiente_ne_zero _
    have hreply : kindReply ≤ handleKindMask := by decide
    have hslot : ∀ o, (s.sistema.tablas.poner 1 i ⟨kindReply, true,
        siguiente (s.sistema.tablas 1 i).generation, rightWrite, o⟩) 1 i = ⟨kindReply, true,
        siguiente (s.sistema.tablas 1 i).generation, rightWrite, o⟩ :=
      fun o ↦ by rw [poner_apply, if_pos ⟨rfl, rfl⟩]
    simp only [Traza.paso, hsis, hw, hcola]
    rw [if_pos ⟨hvivo, by omega⟩]
    refine
      { llamada := rfl, enCurso := ?_, emision := ?_, viva := ?_, respuesta := ?_, duerme := ?_
        vivo := ?_, vacia := ?_, cola := ?_, servidor := ?_, libre := ?_ }
    · simp only [Traza.avanza, Traza.acepta, Function.update_self]
    · simp only [if_true, Function.update_self, List.head?_cons]
    · refine resolve_eq_ok.mpr ⟨1, i, rfl, ?_⟩
      simp only [Traza.avanza, hslot]
      exact ⟨trivial, hreply, hgen, trivial, rfl, trivial⟩
    · exact (congrFun hres' 2).trans hres
    · exact (congrFun htar' 2).trans htar2
    · simp only [Traza.avanza, hend', Function.update_self]
      exact hvivo
    · simp only [Traza.avanza, hend', Function.update_self, Ring.pop]
      omega
    · simp only [Function.update_self, List.tail_cons]
    · exact (congrFun htar' 3).trans htar3
    · have hrev := @revoke_encode (s.sistema.tablas.poner 1 i ⟨kindReply, true,
        siguiente (s.sistema.tablas 1 i).generation, rightWrite,
        objeto ((s.sistema.respuestas 2).gen + 1) 0 2⟩) 1 1 i kindReply rfl hreply
      rw [hslot] at hrev
      simp only [Traza.avanza]
      rw [hrev rfl hgen]
      exact primeraLibre_soltar _ _ _ _
  · rw [hgrant] at hg
    cases hg

private theorem ronda {s : Traza} (hrun : Recorrido Traza.PocasLlamadas s) (h : Ociosa s)
    (hk : s.hechas 2 < 65535) :
    ∃ s', Recorrido Traza.PocasLlamadas s' ∧ Ociosa s' ∧ s'.hechas 2 = s.hechas 2 + 1 := by
  obtain ⟨htar3, handle, hp⟩ := pide_spec h
  have hpide : Recorrido Traza.PocasLlamadas (pide s) :=
    (hrun.paso (.llama 2 0 0 (0, 0, 0)) h.cliente hk).paso (.espera 3 0 1 0) htar3 trivial
  have hgen : (s.sistema.respuestas 2).gen.toNat = s.hechas 2 := hrun.inv.gen 2
  obtain ⟨htid, hg⟩ := campos_objeto ((s.sistema.respuestas 2).gen + 1) 0 2 (by decide)
  have hg : genDe (objeto ((s.sistema.respuestas 2).gen + 1) 0 2) =
      ((pide s).sistema.respuestas 2).gen := by
    rw [hp.respuesta, ← UInt32.toNat_inj, hg]
    rw [UInt32.toNat_add, hgen, UInt32.toNat_one]
    omega
  have hdormida := complete_dormida (s := (pide s).sistema) (t := 2) 0 0
    (congrArg Reply.esperando hp.respuesta) (congrArg Reply.lista hp.respuesta) hp.duerme
  have hav := (pide s).sistema.complete_avance 2 ((pide s).sistema.respuestas 2).gen 0 0
  have hpaso := Inv.paso_responde hp.viva rfl 0 0
  refine ⟨_, hpide.paso (.responde 1 handle 0 0) trivial trivial, ?_, ?_⟩
  · rw [hpaso]
    simp only [replyTo, htid, hg]
    refine ⟨?_, ?_, hp.cola, hdormida.2, ?_, ?_⟩
    · exact (congrArg Endpoint.vivo (congrFun (complete_endpoints ..) 0)).trans hp.vivo
    · exact (congrArg (fun e : Endpoint ↦ e.cola.count)
        (congrFun (complete_endpoints ..) 0)).trans hp.vacia
    · rcases hav.tareas 3 with h3 | ⟨h3, -⟩
      · exact h3.trans hp.servidor
      · exact h3
    · simp only [Traza.avanza, complete_tablas]
      exact hp.libre
  · rw [hpaso]
    simp only [Traza.hechas, Traza.avanza, hp.llamada, List.countP_append]
    rfl

private theorem tras_rondas (n : Nat) (hn : n ≤ 65535) :
    ∃ s, Recorrido Traza.PocasLlamadas s ∧ Ociosa s ∧ s.hechas 2 = n := by
  induction n with
  | zero =>
    exact ⟨_, .paso (.crea 1 0) .inicial trivial trivial, ⟨rfl, rfl, rfl, rfl, rfl, 1, rfl⟩, rfl⟩
  | succ n ih =>
    obtain ⟨s, hrun, h, hk⟩ := ih (by omega)
    obtain ⟨s', hrun', h', hk'⟩ := ronda hrun h (by omega)
    exact ⟨s', hrun', h', by rw [hk', hk]⟩

theorem Recorrido.mono {C : Traza → Orden → Prop} {s : Traza} (h : Recorrido C s) :
    Recorrido (fun _ _ ↦ True) s := by
  induction h with
  | inicial => exact .inicial
  | paso o _ hp _ ih => exact ih.paso o hp trivial

/-- The reply to the 65536th call of a task is lost: its caller sleeps on. -/
theorem respuesta_perdida : ¬ ∀ s, Recorrido (fun _ _ ↦ True) s → s.Exacta := by
  intro hall
  obtain ⟨s, hrun, h, hk⟩ := tras_rondas 65535 (le_refl _)
  obtain ⟨htar3, handle, hp⟩ := pide_spec h
  have hpide : Recorrido (fun _ _ ↦ True) (pide s) :=
    (hrun.mono.paso (.llama 2 0 0 (0, 0, 0)) h.cliente trivial).paso (.espera 3 0 1 0) htar3 trivial
  have hgen : (s.sistema.respuestas 2).gen.toNat = 65535 := (hrun.inv.gen 2).trans hk
  obtain ⟨n, c, hem, hc, hresp⟩ := (hall _ hpide).respuesta 1 handle _ hp.viva rfl
  rw [hp.emision, Option.some.injEq] at hem
  subst hem
  rw [hp.llamada, List.getElem?_append_right (le_refl _), Nat.sub_self] at hc
  cases hc
  have hfin := ((hresp 0 0).1 ⟨hp.enCurso, hp.duerme⟩).1
  rw [Inv.paso_responde hp.viva rfl] at hfin
  -- the object keeps sixteen bits of the generation, and these are all zero
  obtain ⟨htid, hg⟩ := campos_objeto ((s.sistema.respuestas 2).gen + 1) 0 2 (by decide)
  have hno : (pide s).sistema.complete 2 (genDe (objeto ((s.sistema.respuestas 2).gen + 1) 0 2)) 0 0 =
      (pide s).sistema := by
    refine complete_of_not 0 0 fun _ _ heq ↦ ?_
    have heq : ((pide s).sistema.respuestas 2).gen = _ := heq
    rw [← UInt32.toNat_inj, hg, hp.respuesta, UInt32.toNat_add, hgen] at heq
    exact absurd heq (by decide)
  have hrec : Traza.recien (pide s).sistema ((pide s).sistema.replyTo 1 handle
      (objeto ((s.sistema.respuestas 2).gen + 1) 0 2) 0 0).2 = [] := by
    refine List.eq_nil_iff_forall_not_mem.mpr (not_mem_recien ?_)
    simp only [replyTo, htid, hno]
  have hlen := congrArg List.length hfin
  simp only [Traza.avanza, hrec, List.map_nil, List.nil_append, List.length_cons] at hlen
  omega

end BmoX.Obj.Rpc
