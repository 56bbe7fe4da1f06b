import BmoX.Obj.Llamadas

/-!
# Reply handles and messages

`wait_for` of `kernel/src/ring0/obj/endpoint.rs:253–306` gives the server a reply handle and leaves
the message in the completion ring of its estuary; the server reads the ring with `ring3_poll`
(`bmo-channel/src/lib.rs:144–171`). A run of both beside a ledger: the calls for which each process
was handed a reply handle, and what was read off each estuary.
-/

namespace BmoX.Obj.Rpc

open BmoX.Base Cap Sistema

/-! ### Reading an estuary -/

namespace Channel

/-- The loop of `ring3_poll_n`, `n` turns from its limit: what the callback got, how many entries
went by, and the new tail; `bmo-channel/src/lib.rs:158–166`. -/
def pollLoop (c : Channel) : Nat → UInt64 → List ChannelEntry × Nat × UInt64
  | 0, tail => ([], 0, tail)
  | n + 1, tail =>
    if tail < c.completeHead then
      let entry := c.completeRing (Fin.ofNat ringSize tail.toNat)
      let resto := c.pollLoop n (tail + 1)
      (if entry.opcode ≠ 0 then entry :: resto.1 else resto.1, resto.2.1 + 1, resto.2.2)
    else ([], 0, tail)

/-- `ring3_poll_n`; `bmo-channel/src/lib.rs:152–171`. -/
def ring3PollN (c : Channel) (limit : Nat) : List ChannelEntry × Nat × Channel :=
  let r := c.pollLoop (min limit ringSize) c.completeTail
  (r.1, r.2.1, { c with completeTail := r.2.2 })

/-- `ring3_poll`; `bmo-channel/src/lib.rs:146–148`. -/
def ring3Poll (c : Channel) : List ChannelEntry × Nat × Channel := c.ring3PollN ringSize

/-- The counters of a ring that never ran over. -/
structure Sano (c : Channel) : Prop where
  orden : c.completeTail.toNat ≤ c.completeHead.toNat
  caben : c.completeHead.toNat - c.completeTail.toNat ≤ ringSize

/-- The completion side as a circular buffer. -/
def anillo (c : Channel) (h : c.Sano) : Ring ChannelEntry ringSize :=
  ⟨c.completeRing, c.completeTail.toNat, c.completeHead.toNat - c.completeTail.toNat, h.caben⟩

/-- The entries not read yet, oldest first. -/
def pendientes (c : Channel) : List ChannelEntry :=
  (List.range (c.completeHead.toNat - c.completeTail.toNat)).map fun k ↦
    c.completeRing (Fin.ofNat ringSize (c.completeTail.toNat + k))

/-- There is room for one more entry. -/
def Cabe (c : Channel) : Prop :=
  (c.completeHead - c.completeTail).toNat < ringSize ∧ c.completeHead.toNat + 1 < 2 ^ 64

private theorem pendientes_eq_toList (c : Channel) (h : c.Sano) :
    c.pendientes = (c.anillo h).toList := rfl

/-- Where there is room, `ring0_complete` appends an entry. -/
theorem ring0Complete_spec {c : Channel} (hs : c.Sano) (hc : c.Cabe) (op : UInt64)
    (args : UInt64 × UInt64 × UInt64) :
    (c.ring0Complete op args).2.Sano ∧
      (c.ring0Complete op args).2.pendientes = c.pendientes ++ [⟨op, args⟩] := by
  obtain ⟨hlleno, htope⟩ := hc
  have horden := hs.orden
  have hsub : (c.completeHead - c.completeTail).toNat =
      c.completeHead.toNat - c.completeTail.toNat :=
    UInt64.toNat_sub_of_le _ _ (UInt64.le_iff_toNat_le.mpr horden)
  have hhead : (c.completeHead + 1).toNat = c.completeHead.toNat + 1 := by
    rw [UInt64.toNat_add, UInt64.toNat_one, Nat.mod_eq_of_lt htope]
  rw [ring0Complete, if_neg (by omega)]
  have hsano : Channel.Sano ⟨c.completeHead + 1, c.completeTail,
      Function.update c.completeRing (Fin.ofNat ringSize c.completeHead.toNat) ⟨op, args⟩⟩ :=
    ⟨by simp only [hhead]; omega, by simp only [hhead]; omega⟩
  refine ⟨hsano, ?_⟩
  have hcount : (c.anillo hs).count < ringSize := by
    rw [hsub] at hlleno
    exact hlleno
  rw [pendientes_eq_toList _ hsano, pendientes_eq_toList _ hs,
    ← Ring.toList_push (c.anillo hs) ⟨op, args⟩ hcount]
  congr 1
  simp only [anillo, Ring.push, Ring.slot, hhead, Nat.add_sub_cancel' horden]
  congr 1
  omega

private theorem pollLoop_spec (c : Channel) (n : Nat) (tail : UInt64)
    (ht : tail.toNat ≤ c.completeHead.toNat)
    (hop : ∀ e ∈ pendientes { c with completeTail := tail }, e.opcode ≠ 0) :
    (c.pollLoop n tail).1 = (pendientes { c with completeTail := tail }).take n ∧
    (c.pollLoop n tail).2.2.toNat ≤ c.completeHead.toNat ∧
    tail.toNat ≤ (c.pollLoop n tail).2.2.toNat ∧
    pendientes { c with completeTail := (c.pollLoop n tail).2.2 } =
      (pendientes { c with completeTail := tail }).drop n := by
  induction n generalizing tail with
  | zero => exact ⟨rfl, ht, le_refl _, rfl⟩
  | succ n ih =>
    rw [pollLoop]
    split
    · next hlt =>
      have hlt := UInt64.lt_iff_toNat_lt.mp hlt
      have hsucc : (tail + 1).toNat = tail.toNat + 1 := by
        have := c.completeHead.toNat_lt
        rw [UInt64.toNat_add, UInt64.toNat_one, Nat.mod_eq_of_lt (by omega)]
      have hcons : pendientes { c with completeTail := tail } =
          c.completeRing (Fin.ofNat ringSize tail.toNat) ::
            pendientes { c with completeTail := tail + 1 } := by
        obtain ⟨m, hm⟩ := Nat.exists_eq_add_of_lt hlt
        simp only [pendientes, hsucc]
        rw [show c.completeHead.toNat - tail.toNat = m + 1 by omega,
          show c.completeHead.toNat - (tail.toNat + 1) = m by omega, List.range_succ_eq_map,
          List.map_cons, List.map_map]
        refine congrArg₂ List.cons rfl (List.map_congr_left fun k _ ↦ ?_)
        simp only [Function.comp_apply]
        congr 2
        omega
      rw [hcons] at hop ⊢
      obtain ⟨hleidas, hle, hge, hdrop⟩ := ih (tail + 1) (by omega)
        fun e he ↦ hop e (List.mem_cons_of_mem _ he)
      simp only [if_pos (hop _ List.mem_cons_self), List.take_succ_cons, List.drop_succ_cons,
        hleidas, hdrop, true_and, and_true]
      exact ⟨hle, by omega⟩
    · next hlt =>
      have hnil : pendientes { c with completeTail := tail } = [] := by
        have hle := UInt64.le_iff_toNat_le.mp (UInt64.not_lt.mp hlt)
        simp only [pendientes, Nat.sub_eq_zero_of_le hle, List.range_zero, List.map_nil]
      rw [hnil]
      exact ⟨rfl, ht, le_refl _, rfl⟩

private theorem ring3PollN_spec {c : Channel} (hs : c.Sano) (hop : ∀ e ∈ c.pendientes, e.opcode ≠ 0)
    (limit : Nat) :
    (c.ring3PollN limit).2.2.Sano ∧
    (c.ring3PollN limit).1 ++ (c.ring3PollN limit).2.2.pendientes = c.pendientes ∧
    (ringSize ≤ limit → (c.ring3PollN limit).1 = c.pendientes) := by
  have hcaben := hs.caben
  obtain ⟨hleidas, hle, hge, hdrop⟩ :=
    c.pollLoop_spec (min limit ringSize) c.completeTail hs.orden hop
  refine ⟨⟨hle, (Nat.sub_le_sub_left hge _).trans hcaben⟩, ?_, fun hlim ↦ ?_⟩
  · simp only [ring3PollN, hleidas, hdrop]
    exact List.take_append_drop ..
  · rw [Nat.min_eq_right hlim] at hleidas
    simp only [ring3PollN, Nat.min_eq_right hlim, hleidas]
    refine List.take_of_length_le ?_
    rw [pendientes, List.length_map, List.length_range]
    exact hcaben

end Channel

/-! ### Entries of queues and calls of the ledger -/

/-- Queue entry `ll` is call `n`, with what its caller sent. -/
def Traza.Rotulo (s : Traza) (ll : Call) (n : Nat) : Prop :=
  ∃ c, s.llamadas[n]? = some c ∧ c.tid = ll.callerTid ∧ c.op = ll.op ∧ c.args = ll.args

/-- The ledger knows the calls of each queue. -/
structure Rotulada (s : Traza) : Prop where
  cola : ∀ idx, List.Forall₂ s.Rotulo (s.sistema.endpoints idx).cola.toList (s.colas idx)
  cerrada : ∀ idx, (s.sistema.endpoints idx).vivo = false →
    (s.sistema.endpoints idx).cola.count = 0

namespace Rotulada

variable {s : Traza}

private theorem inicial : Rotulada .inicial := ⟨fun _ ↦ .nil, fun _ _ ↦ rfl⟩

private theorem conserva (hs : Rotulada s) {s' : Traza} (hll : s'.llamadas = s.llamadas)
    (he : ∀ idx, (s'.sistema.endpoints idx = s.sistema.endpoints idx ∧ s'.colas idx = s.colas idx) ∨
      (s'.sistema.endpoints idx).cola.count = 0 ∧ s'.colas idx = []) : Rotulada s' := by
  refine ⟨fun idx ↦ ?_, fun idx hv ↦ ?_⟩
  · rcases he idx with ⟨heq, hcola⟩ | ⟨hn, hcola⟩
    · rw [heq, hcola]
      refine (hs.cola idx).imp fun ll n ⟨c, hc, h⟩ ↦ ⟨c, ?_, h⟩
      rw [hll]
      exact hc
    · rw [Ring.toList_eq_nil.mpr hn, hcola]
      exact .nil
  · rcases he idx with ⟨heq, -⟩ | ⟨hn, -⟩
    · rw [heq] at hv ⊢
      exact hs.cerrada idx hv
    · exact hn

private theorem quieta (hs : Rotulada s) (causa : Causa) {k : Sistema}
    (hk : k.endpoints = s.sistema.endpoints) : Rotulada (s.avanza causa k) :=
  hs.conserva rfl fun idx ↦ .inl ⟨congrFun hk idx, rfl⟩

private theorem colas_of_muerto (hs : Rotulada s) {idx : Fin maxEndpoints}
    (hv : (s.sistema.endpoints idx).vivo = false) : s.colas idx = [] := by
  have h := hs.cola idx
  rw [Ring.toList_eq_nil.mpr (hs.cerrada idx hv)] at h
  exact List.forall₂_nil_left_iff.mp h

private theorem crea (hs : Rotulada s) (pid : UInt32) (canal : Nat) :
    Rotulada (s.paso (.crea pid canal)) := by
  simp only [Traza.paso, create]
  split
  · exact hs.quieta _ rfl
  · next i hi =>
    have hv : (s.sistema.endpoints i).vivo = false := by simpa using List.find?_some hi
    refine hs.conserva rfl fun idx ↦ ?_
    by_cases h : idx = i
    · subst h
      refine .inr ⟨?_, hs.colas_of_muerto hv⟩
      simp only [Traza.avanza, ponEndpoint, Function.update_self]
      rfl
    · refine .inl ⟨?_, rfl⟩
      simp only [Traza.avanza, ponEndpoint, Function.update_of_ne h]

private theorem llama (hs : Rotulada s) (tid : Nat) (idx : Fin maxEndpoints) (op : UInt64)
    (args : UInt64 × UInt64 × UInt64) : Rotulada (s.paso (.llama tid idx op args)) := by
  simp only [Traza.paso]
  rcases s.sistema.call_cases tid idx op args with ⟨out, hcall, hout, -⟩ | ⟨t, hn, rfl, hv, hcall⟩
  · rw [hcall]
    simp only [if_pos hout]
    exact hs.quieta _ rfl
  · rw [hcall]
    simp only
    rw [if_neg (by decide)]
    have hmono : ∀ j, List.Forall₂
        (s.acepta t idx op args (s.sistema.encolada t idx hn op args)).Rotulo
        (s.sistema.endpoints j).cola.toList (s.colas j) := by
      intro j
      apply (hs.cola j).imp
      rintro ll n ⟨c, hc, h⟩
      exact ⟨c, (List.getElem?_append_left (List.getElem?_eq_some_iff.mp hc).1).trans hc, h⟩
    refine ⟨fun j ↦ ?_, fun j h ↦ ?_⟩
    · by_cases hj : j = idx
      · subst hj
        simp only [Traza.acepta, Traza.avanza, Sistema.encolada, Function.update_self,
          Ring.toList_push]
        refine List.rel_append (hmono j) (.cons ⟨⟨t, j, (s.sistema.endpoints j).servidorPid, op, args,
          s.hechas t + 1⟩, ?_, rfl, rfl, rfl⟩ .nil)
        simp only [Traza.acepta]
        rw [List.getElem?_append_right (le_refl _), Nat.sub_self]
        rfl
      · simp only [Traza.acepta, Traza.avanza, Sistema.encolada, Function.update_of_ne hj]
        exact hmono j
    · simp only [Traza.acepta, Traza.avanza, Sistema.encolada] at h ⊢
      by_cases hj : j = idx
      · subst hj
        rw [Function.update_self] at h
        simp only [hv] at h
        cases h
      · rw [Function.update_of_ne hj] at h ⊢
        exact hs.cerrada j h

private theorem cabeza (hs : Rotulada s) {idx : Fin maxEndpoints}
    (hn : 0 < (s.sistema.endpoints idx).cola.count) :
    ∃ n, (s.colas idx).head? = some n ∧ s.Rotulo (s.sistema.endpoints idx).cola.front n ∧
      List.Forall₂ s.Rotulo ((s.sistema.endpoints idx).cola.pop .emptyOne).toList
        (s.colas idx).tail := by
  have h := hs.cola idx
  rw [Ring.toList_pop _ Call.emptyOne hn] at h
  obtain ⟨n, ns, hhead, htail, hcolas⟩ := List.forall₂_cons_left_iff.mp h
  rw [hcolas]
  exact ⟨n, rfl, hhead, htail⟩

private theorem sinCabeza (hs : Rotulada s) {idx : Fin maxEndpoints} {s' : Traza}
    (hn : 0 < (s.sistema.endpoints idx).cola.count) (hll : s'.llamadas = s.llamadas)
    (hend : s'.sistema.endpoints = (s.sistema.tomada idx).endpoints)
    (hcolas : s'.colas = Function.update s.colas idx (s.colas idx).tail) : Rotulada s' := by
  have hrot : s'.Rotulo = s.Rotulo := by
    funext ll n
    simp only [Traza.Rotulo, hll]
  obtain ⟨n, -, -, htail⟩ := hs.cabeza hn
  have hend := hend.trans (s.sistema.tomada_eq idx).2.2.2
  refine ⟨fun j ↦ ?_, fun j hv ↦ ?_⟩
  · rw [hend, hcolas, hrot]
    by_cases hj : j = idx
    · rw [hj, Function.update_self, Function.update_self]
      exact htail
    · rw [Function.update_of_ne hj, Function.update_of_ne hj]
      exact hs.cola j
  · rw [hend] at hv ⊢
    by_cases hj : j = idx
    · subst hj
      rw [Function.update_self] at hv ⊢
      simp only [Ring.pop, hs.cerrada j hv]
    · rw [Function.update_of_ne hj] at hv ⊢
      exact hs.cerrada j hv

private theorem espera (hs : Rotulada s) (tid : Nat) (idx : Fin maxEndpoints) (pid : UInt32)
    (deadline : UInt64) : Rotulada (s.paso (.espera tid idx pid deadline)) := by
  simp only [Traza.paso]
  rcases s.sistema.waitFor_cases tid idx pid deadline with ⟨hv, hw⟩ | ⟨hv, hn, hw⟩ | ⟨hv, hn, hw⟩
  · rw [hw, if_neg fun h ↦ by simp [hv] at h]
    exact hs.quieta _ rfl
  · rw [hw, if_neg fun h ↦ by omega]
    exact hs.quieta _ rfl
  · rw [if_pos ⟨hv, hn⟩]
    rcases hw with ⟨h, tablas, hg, hw⟩ | ⟨-, hw⟩
    · rw [hw]
      exact hs.sinCabeza hn rfl rfl rfl
    · rw [hw]
      exact hs.sinCabeza hn rfl (complete_endpoints ..) rfl

private theorem responde (hs : Rotulada s) (pid : UInt32) (handle : UInt64) (code : UInt32)
    (value : UInt64) : Rotulada (s.paso (.responde pid handle code value)) := by
  simp only [Traza.paso, invokeReply]
  cases resolve s.sistema.tablas pid handle rightWrite with
  | error e => exact hs
  | ok r =>
    by_cases hk : r.kind = kindReply
    · simp only [if_pos hk]
      refine hs.quieta _ ?_
      simp only [replyTo, complete_endpoints]
    · simp only [if_neg hk]
      exact hs

private theorem muere (hs : Rotulada s) (pid : UInt32) : Rotulada (s.paso (.muere pid)) := by
  obtain ⟨hcierra, hotra⟩ := s.sistema.processDied_spec pid
  refine hs.conserva rfl fun j ↦ ?_
  simp only [Traza.paso, Traza.avanza]
  rcases hcierra.endpoints j with heq | ⟨hv, hp, -, hn⟩
  · refine .inl ⟨heq, if_neg fun h ↦ ?_⟩
    have := hotra j
    rw [heq] at this
    exact this h.1 h.2
  · exact .inr ⟨hn, if_pos ⟨hv, hp⟩⟩

/-- One step keeps the ledger and the queues together. -/
theorem paso (hs : Rotulada s) (o : Orden) : Rotulada (s.paso o) := by
  cases o with
  | crea pid canal => exact hs.crea pid canal
  | conecta idx pid =>
    simp only [Traza.paso, grantClient]
    split <;> exact hs.quieta _ rfl
  | llama tid idx op args => exact hs.llama tid idx op args
  | espera tid idx pid deadline => exact hs.espera tid idx pid deadline
  | responde pid handle code value => exact hs.responde pid handle code value
  | muere pid => exact hs.muere pid
  | concede pid kind rights object => exact hs.quieta _ rfl
  | revoca pid handle => exact hs.quieta _ rfl
  | revocaTodo pid => exact hs.quieta _ rfl
  | vence tid =>
    simp only [Traza.paso]
    split
    · split
      · exact hs
      · exact hs.quieta _ rfl
    · exact hs
  | termina tid => exact hs.quieta _ rfl

end Rotulada

/-! ### What leaves the estuaries alone -/

namespace Sistema

private theorem complete_canales (s : Sistema) (tid : Nat) (gen code : UInt32) (value : UInt64) :
    (s.complete tid gen code value).canales = s.canales := by
  rw [complete]
  split
  · dsimp only
    split
    · rfl
    · simp only [wakeByKey, writeIntoFrame]
      split <;> rfl
  · rfl

private theorem vaciar_canales (idx : Fin maxEndpoints) (n : Nat) (s : Sistema) :
    (vaciar idx n s).canales = s.canales := by
  induction n generalizing s with
  | zero => rfl
  | succ n ih =>
    rw [vaciar, ih, vaciarUna, complete_canales]
    rfl

private theorem processDied_canales (s : Sistema) (pid : UInt32) :
    (s.processDied pid).canales = s.canales := by
  have h : ∀ (l : List (Fin maxEndpoints)) (s : Sistema),
      (l.foldl (cerrar pid) s).canales = s.canales := by
    intro l
    induction l with
    | nil => exact fun _ ↦ rfl
    | cons i l ih =>
      intro s
      rw [List.foldl_cons, ih, cerrar]
      split
      · rfl
      · exact vaciar_canales ..
  exact h _ s

end Sistema

private theorem canales_paso (s : Traza) {o : Orden} (h : ∀ tid idx pid d, o ≠ .espera tid idx pid d) :
    (s.paso o).sistema.canales = s.sistema.canales := by
  cases o with
  | espera tid idx pid deadline => exact absurd rfl (h _ _ _ _)
  | crea pid canal =>
    simp only [Traza.paso, create]
    split <;> rfl
  | conecta idx pid =>
    simp only [Traza.paso, grantClient]
    split <;> rfl
  | llama tid idx op args =>
    simp only [Traza.paso]
    rcases s.sistema.call_cases tid idx op args with ⟨out, hcall, -⟩ | ⟨t, hn, -, -, hcall⟩
    all_goals
      rw [hcall]
      dsimp only
      split <;> rfl
  | responde pid handle code value =>
    simp only [Traza.paso, invokeReply]
    cases resolve s.sistema.tablas pid handle rightWrite with
    | error e => rfl
    | ok r =>
      by_cases hk : r.kind = kindReply
      · simp only [if_pos hk]
        exact complete_canales ..
      · simp only [if_neg hk]
  | muere pid => exact processDied_canales ..
  | concede | revoca | revocaTodo | termina => rfl
  | vence tid =>
    simp only [Traza.paso]
    split
    · split <;> rfl
    · rfl

private theorem llamadas_paso (s : Traza) (o : Orden) : s.llamadas <+: (s.paso o).llamadas := by
  cases o with
  | llama tid idx op args =>
    simp only [Traza.paso]
    split
    · exact List.prefix_refl _
    · exact List.prefix_append ..
  | espera tid idx pid deadline =>
    simp only [Traza.paso]
    split <;> exact List.prefix_refl _
  | responde pid handle code value =>
    simp only [Traza.paso]
    split <;> exact List.prefix_refl _
  | vence tid =>
    simp only [Traza.paso]
    split
    · split <;> exact List.prefix_refl _
    · exact List.prefix_refl _
  | crea | conecta | muere | concede | revoca | revocaTodo | termina => exact List.prefix_refl _

private theorem tomada_canales (s : Sistema) (idx : Fin maxEndpoints) (c : Fin maxChannelPages) :
    (s.tomada idx).canales c =
      if (s.endpoints idx).canal = c then
        ((s.canales c).ring0Complete (s.endpoints idx).cola.front.op
          (s.endpoints idx).cola.front.args).2
      else s.canales c := by
  simp only [tomada, publish]
  split
  · next h =>
    simp only [desencolar, ponEndpoint]
    by_cases hc : (s.endpoints idx).canal = c
    · rw [if_pos hc]
      have hfin : (⟨(s.endpoints idx).canal, h⟩ : Fin maxChannelPages) = c := Fin.ext hc
      rw [hfin, Function.update_self]
    · rw [if_neg hc, Function.update_of_ne]
      rintro rfl
      exact hc rfl
  · next h =>
    rw [if_neg]
    · rfl
    · rintro hc
      exact h (hc ▸ c.isLt)

private theorem canales_espera (s : Traza) (tid : Nat) (idx : Fin maxEndpoints) (pid : UInt32)
    (deadline : UInt64) :
    (s.paso (.espera tid idx pid deadline)).sistema.canales =
      if (s.sistema.endpoints idx).vivo = true ∧ 0 < (s.sistema.endpoints idx).cola.count then
        (s.sistema.tomada idx).canales
      else s.sistema.canales := by
  simp only [Traza.paso]
  rcases s.sistema.waitFor_cases tid idx pid deadline with ⟨hv, hw⟩ | ⟨hv, hn, hw⟩ | ⟨hv, hn, hw⟩
  · have hc : ¬ ((s.sistema.endpoints idx).vivo = true ∧ 0 < (s.sistema.endpoints idx).cola.count) :=
      fun h ↦ by simp [hv] at h
    rw [hw, if_neg hc, if_neg hc]
    rfl
  · have hc : ¬ ((s.sistema.endpoints idx).vivo = true ∧ 0 < (s.sistema.endpoints idx).cola.count) :=
      fun h ↦ by omega
    rw [hw, if_neg hc, if_neg hc]
    rfl
  · have hc : (s.sistema.endpoints idx).vivo = true ∧ 0 < (s.sistema.endpoints idx).cola.count :=
      ⟨hv, hn⟩
    rw [if_pos hc, if_pos hc]
    rcases hw with ⟨h, tablas, -, hw⟩ | ⟨-, hw⟩
    · rw [hw]
      rfl
    · rw [hw]
      exact complete_canales ..

/-! ### Handles handed out and messages read -/

/-- A reply handle that `wait_for` returned, with the call it is for. -/
structure Entrega where
  handle : UInt64
  llamada : Nat

/-- A run with its ledger: the handles each process got and the entries read off each estuary,
oldest first. -/
structure Correo where
  traza : Traza
  entregas : UInt32 → List Entrega
  leidas : Fin maxChannelPages → List ChannelEntry

/-- The start: no handle, no message. -/
def Correo.inicial : Correo := ⟨.inicial, fun _ ↦ [], fun _ ↦ []⟩

/-- A step: one of the calls of `endpoint.rs`, or a drain of an estuary by Ring 3. -/
inductive Gesto
  | orden (o : Orden)
  | drena (canal : Fin maxChannelPages) (limit : Nat)

namespace Correo

/-- What the caller of call `n` sent. -/
def mensaje (s : Correo) (n : Nat) : Option ChannelEntry :=
  s.traza.llamadas[n]?.map fun c ↦ ⟨c.op, c.args⟩

/-- The handle a `wait_for` hands to `pid`, if it hands one. -/
def entrega (s : Traza) (tid : Nat) (idx : Fin maxEndpoints) (pid : UInt32) (deadline : UInt64) :
    List Entrega :=
  let out := (s.sistema.waitFor tid idx pid deadline).1
  if (s.sistema.endpoints idx).vivo = true ∧ 0 < (s.sistema.endpoints idx).cola.count ∧ out.code = 0
    then (s.colas idx).head?.toList.map fun n ↦ ⟨out.value, n⟩
  else []

/-- One step. -/
def paso (s : Correo) : Gesto → Correo
  | .orden (.espera tid idx pid deadline) =>
    { s with
      traza := s.traza.paso (.espera tid idx pid deadline)
      entregas := Function.update s.entregas pid
        (s.entregas pid ++ entrega s.traza tid idx pid deadline) }
  | .orden o => { s with traza := s.traza.paso o }
  | .drena canal limit =>
    let r := (s.traza.sistema.canales canal).ring3PollN limit
    { s with
      traza.sistema.canales := Function.update s.traza.sistema.canales canal r.2.2
      leidas := Function.update s.leidas canal (s.leidas canal ++ r.1) }

/-- What the rest of the kernel keeps to. -/
def Posible (s : Correo) : Gesto → Prop
  | .orden o => s.traza.Posible o
  | .drena _ _ => True

/-- The calls that `pid` takes are those that go through estuary `canal`. -/
def Propio (pid : UInt32) (canal : Fin maxChannelPages) (s : Correo) : Gesto → Prop
  | .orden (.espera _ idx pid' _) =>
    let e := s.traza.sistema.endpoints idx
    e.vivo = true → 0 < e.cola.count → (pid' = pid ↔ e.canal = canal)
  | _ => True

/-- A call that `pid` takes has an operation other than zero, room in the estuary, and a free slot
for its reply handle. -/
def Cabe (pid : UInt32) (canal : Fin maxChannelPages) (s : Correo) : Gesto → Prop
  | .orden (.espera _ idx pid' _) =>
    let e := s.traza.sistema.endpoints idx
    e.vivo = true → 0 < e.cola.count → pid' = pid →
      e.cola.front.op ≠ 0 ∧ (s.traza.sistema.canales canal).Cabe ∧
        ∃ p i, indicePid pid = some p ∧ primeraLibre (s.traza.sistema.tablas p) = some i
  | _ => True

/-- What `pid` reads off `canal` is what was sent in the calls it got handles for, in order; a poll
brings it up to the last one. -/
structure Casa (s : Correo) (pid : UInt32) (canal : Fin maxChannelPages) : Prop where
  prefijo : (s.leidas canal).map some <+: (s.entregas pid).map fun e ↦ s.mensaje e.llamada
  drenado : ((s.paso (.drena canal ringSize)).leidas canal).map some =
    (s.entregas pid).map fun e ↦ s.mensaje e.llamada

end Correo

/-- The runs in which every step satisfies `C`. -/
inductive Corre (C : Correo → Gesto → Prop) : Correo → Prop
  | inicial : Corre C .inicial
  | paso {s : Correo} (g : Gesto) (h : Corre C s) (hp : s.Posible g) (hc : C s g) :
    Corre C (s.paso g)

/-! ### The invariant -/

/-- What was read and what waits in the ring are together the calls with a handle. -/
structure Aparejado (s : Correo) (pid : UInt32) (canal : Fin maxChannelPages) : Prop where
  rotulada : Rotulada s.traza
  sano : (s.traza.sistema.canales canal).Sano
  llenas : ∀ e ∈ (s.traza.sistema.canales canal).pendientes, e.opcode ≠ 0
  casan : (s.leidas canal ++ (s.traza.sistema.canales canal).pendientes).map some =
    (s.entregas pid).map fun e ↦ s.mensaje e.llamada

namespace Aparejado

variable {s : Correo} {pid : UInt32} {canal : Fin maxChannelPages}

private theorem inicial : Aparejado .inicial pid canal :=
  ⟨Rotulada.inicial, ⟨le_refl _, Nat.zero_le _⟩, fun _ h ↦ (by cases h), rfl⟩

private theorem mensajes_paso (hs : Aparejado s pid canal) {s' : Correo}
    (hll : s.traza.llamadas <+: s'.traza.llamadas) :
    ((s.entregas pid).map fun e ↦ s'.mensaje e.llamada) =
      (s.entregas pid).map fun e ↦ s.mensaje e.llamada := by
  refine List.map_congr_left fun e he ↦ ?_
  have hmem := List.mem_map_of_mem (f := fun e : Entrega ↦ s.mensaje e.llamada) he
  rw [← hs.casan] at hmem
  obtain ⟨x, -, hx⟩ := List.mem_map.mp hmem
  simp only [Correo.mensaje] at hx ⊢
  obtain ⟨c, hc, -⟩ := Option.map_eq_some_iff.mp hx.symm
  obtain ⟨l, hl⟩ := hll
  rw [hc, ← hl, List.getElem?_append_left (List.getElem?_eq_some_iff.mp hc).1, hc]

private theorem quieto (hs : Aparejado s pid canal) {s' : Correo} (hrot : Rotulada s'.traza)
    (hll : s.traza.llamadas <+: s'.traza.llamadas)
    (hcan : s'.traza.sistema.canales canal = s.traza.sistema.canales canal)
    (hent : s'.entregas pid = s.entregas pid) (hlei : s'.leidas canal = s.leidas canal) :
    Aparejado s' pid canal := by
  refine ⟨hrot, ?_, ?_, ?_⟩
  · rw [hcan]
    exact hs.sano
  · rw [hcan]
    exact hs.llenas
  · rw [hcan, hent, hlei, hs.mensajes_paso hll]
    exact hs.casan

private theorem espera (hs : Aparejado s pid canal) (tid : Nat) (idx : Fin maxEndpoints)
    (pid' : UInt32) (deadline : UInt64)
    (hprop : s.Propio pid canal (.orden (.espera tid idx pid' deadline)))
    (hcabe : s.Cabe pid canal (.orden (.espera tid idx pid' deadline))) :
    Aparejado (s.paso (.orden (.espera tid idx pid' deadline))) pid canal := by
  have hrot := hs.rotulada.paso (.espera tid idx pid' deadline)
  have hll := llamadas_paso s.traza (.espera tid idx pid' deadline)
  have hcan := canales_espera s.traza tid idx pid' deadline
  simp only [Correo.Propio, Correo.Cabe] at hprop hcabe
  by_cases hllamada : (s.traza.sistema.endpoints idx).vivo = true ∧
      0 < (s.traza.sistema.endpoints idx).cola.count
  · rw [if_pos hllamada] at hcan
    obtain ⟨hv, hn⟩ := hllamada
    have hcan := (congrFun hcan canal).trans (tomada_canales _ _ _)
    have hprop := hprop hv hn
    by_cases hpid : pid' = pid
    · -- a call of `pid`: its message goes to the estuary, and its handle to `pid`
      subst hpid
      obtain ⟨hop, hsitio, p, i, hp, hi⟩ := hcabe hv hn rfl
      rw [if_pos (hprop.mp rfl)] at hcan
      obtain ⟨hsano, hpend⟩ := Channel.ring0Complete_spec hs.sano hsitio
        (s.traza.sistema.endpoints idx).cola.front.op (s.traza.sistema.endpoints idx).cola.front.args
      obtain ⟨n, hhead, ⟨c, hc, -, hcop, hcargs⟩, -⟩ := hs.rotulada.cabeza hn
      obtain ⟨h, hentrega⟩ : ∃ h, Correo.entrega s.traza tid idx pid' deadline = [⟨h, n⟩] := by
        rcases s.traza.sistema.waitFor_cases tid idx pid' deadline with
          ⟨hv', -⟩ | ⟨-, hn', -⟩ | ⟨-, -, ⟨h, tablas, -, hw⟩ | ⟨⟨tablas, hg⟩, -⟩⟩
        · rw [hv] at hv'
          cases hv'
        · omega
        · refine ⟨h, ?_⟩
          simp only [Correo.entrega, hw, hhead]
          rw [if_pos ⟨hv, hn, trivial⟩]
          rfl
        · simp only [grant, indicePid, Option.dite_none_right_eq_some, Option.some.injEq] at hg hp
          obtain ⟨hp, rfl⟩ := hp
          rw [dif_pos hp, hi] at hg
          cases hg
      refine ⟨hrot, ?_, ?_, ?_⟩
      · rw [Correo.paso, hcan]
        exact hsano
      · rw [Correo.paso, hcan, hpend]
        intro e he
        rcases List.mem_append.mp he with he | he
        · exact hs.llenas e he
        · rw [List.mem_singleton.mp he]
          exact hop
      · have hmsg : (s.paso (.orden (.espera tid idx pid' deadline))).mensaje n =
            some ⟨(s.traza.sistema.endpoints idx).cola.front.op,
              (s.traza.sistema.endpoints idx).cola.front.args⟩ := by
          obtain ⟨l, hl⟩ := hll
          simp only [Correo.mensaje, Correo.paso]
          rw [← hl, List.getElem?_append_left (List.getElem?_eq_some_iff.mp hc).1, hc,
            Option.map_some, hcop, hcargs]
        have hent : (s.paso (.orden (.espera tid idx pid' deadline))).entregas pid' =
            s.entregas pid' ++ [⟨h, n⟩] := by
          rw [← hentrega]
          exact Function.update_self ..
        have hmap : ((s.entregas pid' ++ [(⟨h, n⟩ : Entrega)]).map fun e ↦
            (s.paso (.orden (.espera tid idx pid' deadline))).mensaje e.llamada) =
            (s.leidas canal ++ (s.traza.sistema.canales canal).pendientes).map some ++
              [some ⟨(s.traza.sistema.endpoints idx).cola.front.op,
                (s.traza.sistema.endpoints idx).cola.front.args⟩] := by
          rw [List.map_append, List.map_singleton, hmsg, hs.casan]
          exact congrArg (· ++ _) (hs.mensajes_paso hll)
        rw [hent, hmap]
        simp only [Correo.paso, hcan, hpend, List.map_append, List.append_assoc]
        rfl
    · refine hs.quieto hrot hll ?_ (Function.update_of_ne (Ne.symm hpid) ..) rfl
      rw [if_neg fun h ↦ hpid (hprop.mpr h)] at hcan
      exact hcan
  · rw [if_neg hllamada] at hcan
    refine hs.quieto hrot hll (congrFun hcan canal) ?_ rfl
    have hentrega : Correo.entrega s.traza tid idx pid' deadline = [] :=
      if_neg fun h ↦ hllamada ⟨h.1, h.2.1⟩
    simp only [Correo.paso, hentrega, List.append_nil]
    exact congrFun (Function.update_eq_self ..) pid

private theorem drena (hs : Aparejado s pid canal) (c : Fin maxChannelPages) (limit : Nat) :
    Aparejado (s.paso (.drena c limit)) pid canal := by
  by_cases hc : c = canal
  · subst hc
    obtain ⟨hsano, hlee, -⟩ := Channel.ring3PollN_spec hs.sano hs.llenas limit
    have hcan : (s.paso (.drena c limit)).traza.sistema.canales c =
        ((s.traza.sistema.canales c).ring3PollN limit).2.2 := Function.update_self ..
    have hlei : (s.paso (.drena c limit)).leidas c =
        s.leidas c ++ ((s.traza.sistema.canales c).ring3PollN limit).1 := Function.update_self ..
    refine ⟨⟨hs.rotulada.cola, hs.rotulada.cerrada⟩, ?_, fun e he ↦ hs.llenas e ?_, ?_⟩
    · rw [hcan]
      exact hsano
    · rw [hcan] at he
      rw [← hlee]
      exact List.mem_append_right _ he
    · rw [hcan, hlei, List.append_assoc, hlee]
      exact hs.casan
  · exact hs.quieto ⟨hs.rotulada.cola, hs.rotulada.cerrada⟩ (List.prefix_refl _)
      (Function.update_of_ne (Ne.symm hc) ..) rfl (Function.update_of_ne (Ne.symm hc) ..)

/-- One step keeps messages and handles together. -/
theorem paso (hs : Aparejado s pid canal) {g : Gesto} (hprop : s.Propio pid canal g)
    (hcabe : s.Cabe pid canal g) : Aparejado (s.paso g) pid canal := by
  cases g with
  | drena c limit => exact hs.drena c limit
  | orden o =>
    by_cases ho : ∃ tid idx pid' d, o = .espera tid idx pid' d
    · obtain ⟨tid, idx, pid', d, rfl⟩ := ho
      exact hs.espera tid idx pid' d hprop hcabe
    · have ho' : ∀ tid idx pid' d, o ≠ .espera tid idx pid' d :=
        fun tid idx pid' d h ↦ ho ⟨tid, idx, pid', d, h⟩
      have hpaso : s.paso (.orden o) = { s with traza := s.traza.paso o } := by
        cases o with
        | espera tid idx pid' d => exact absurd rfl (ho' _ _ _ _)
        | _ => rfl
      rw [hpaso]
      exact hs.quieto (hs.rotulada.paso o) (llamadas_paso _ o)
        (congrFun (canales_paso _ ho') canal) rfl rfl

end Aparejado

/-! ### Whole runs -/

/-- In a run where the calls of `pid` go through estuary `canal` and each finds room and a slot and
has an operation, the server reads exactly the messages of its reply handles, in order. -/
theorem mensajes_de_sus_handles {pid : UInt32} {canal : Fin maxChannelPages} {s : Correo}
    (h : Corre (fun s g ↦ s.Propio pid canal g ∧ s.Cabe pid canal g) s) : s.Casa pid canal := by
  have hs : Aparejado s pid canal := by
    induction h with
    | inicial => exact Aparejado.inicial
    | paso g _ _ hc ih => exact ih.paso hc.1 hc.2
  refine ⟨?_, ?_⟩
  · rw [← hs.casan, List.map_append]
    exact List.prefix_append ..
  · obtain ⟨-, -, htodo⟩ := Channel.ring3PollN_spec hs.sano hs.llenas ringSize
    rw [← hs.casan]
    simp only [Correo.paso, Function.update_self, htodo (le_refl _)]

/-- Process 1 serves endpoint 0 on estuary 0; task 2 calls it and task 3 takes the call. -/
private def unaTomada (op : UInt64) : Correo :=
  ((Correo.inicial.paso (.orden (.crea 1 0))).paso (.orden (.llama 2 0 op (0, 0, 0)))).paso
    (.orden (.espera 3 0 1 0))

private theorem corre_unaTomada {op : UInt64} {C : Correo → Gesto → Prop}
    (h1 : C .inicial (.orden (.crea 1 0)))
    (h2 : C (Correo.inicial.paso (.orden (.crea 1 0))) (.orden (.llama 2 0 op (0, 0, 0))))
    (h3 : C ((Correo.inicial.paso (.orden (.crea 1 0))).paso (.orden (.llama 2 0 op (0, 0, 0))))
      (.orden (.espera 3 0 1 0))) : Corre C (unaTomada op) :=
  .paso _ (.paso _ (.paso _ .inicial trivial h1) rfl h2) rfl h3

/-- Then the server polls, task 4 calls, and task 3 takes that call too. -/
private def dosTomadas : Correo :=
  (((unaTomada 5).paso (.drena 0 ringSize)).paso (.orden (.llama 4 0 7 (1, 0, 0)))).paso
    (.orden (.espera 3 0 1 0))

/-- The messages of two calls, the first one read before the second call, are read with their
handles. -/
theorem mensajes_leidos :
    dosTomadas.leidas 0 = [⟨5, 0, 0, 0⟩] ∧
      dosTomadas.entregas 1 = [⟨encode kindReply 1 1, 0⟩, ⟨encode kindReply 1 2, 1⟩] ∧
      (dosTomadas.paso (.drena 0 ringSize)).leidas 0 = [⟨5, 0, 0, 0⟩, ⟨7, 1, 0, 0⟩] := by
  have h1 : Corre (fun s g ↦ s.Propio 1 0 g ∧ s.Cabe 1 0 g) (unaTomada 5) := by
    refine corre_unaTomada ⟨trivial, trivial⟩ ⟨trivial, trivial⟩ ⟨?_, ?_⟩
    · exact fun _ _ ↦ ⟨fun _ ↦ rfl, fun _ ↦ rfl⟩
    · exact fun _ _ _ ↦ ⟨by decide, ⟨by decide, by decide⟩, 1, 1, rfl, rfl⟩
  have h2 : Corre (fun s g ↦ s.Propio 1 0 g ∧ s.Cabe 1 0 g) dosTomadas := by
    refine .paso _ (.paso _ (.paso _ h1 trivial ⟨trivial, trivial⟩) rfl ⟨trivial, trivial⟩) rfl
      ⟨?_, ?_⟩
    · exact fun _ _ ↦ ⟨fun _ ↦ rfl, fun _ ↦ rfl⟩
    · exact fun _ _ _ ↦ ⟨by decide, ⟨by decide, by decide⟩, 1, 2, rfl, rfl⟩
  have hent : dosTomadas.entregas 1 =
      [⟨encode kindReply 1 1, 0⟩, ⟨encode kindReply 1 2, 1⟩] := rfl
  have h := mensajes_de_sus_handles h2
  have hdren := h.drenado
  rw [hent] at hdren
  exact ⟨rfl, hent, List.map_injective_iff.mpr (Option.some_injective _) (hdren.trans rfl)⟩

/-- A call with operation zero gives a handle, and its message is never read. -/
theorem operacion_cero_sin_mensaje :
    ¬ ∀ pid canal s, Corre (fun s g ↦ s.Propio pid canal g) s → s.Casa pid canal := by
  intro hall
  have h := (hall 1 0 (unaTomada 0) (corre_unaTomada trivial trivial
    fun _ _ ↦ ⟨fun _ ↦ rfl, fun _ ↦ rfl⟩)).drenado
  exact absurd (congrArg List.length h) (by decide)

end BmoX.Obj.Rpc
