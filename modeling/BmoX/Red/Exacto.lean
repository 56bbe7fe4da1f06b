import BmoX.Red.Contenido
import BmoX.Red.LadoNucleo
import BmoX.Red.LadoProceso

/-!
# The mailbox loses nothing and accuses nobody

Runs of both sides of `platform/shared/bmo-puerta-red/src/buzon.rs`, interleaved at their single
reads and writes: the frames that come out are those that went in, and no call answers a `Mal`.
A process that writes anything at any time makes no call leave the mailbox.
-/

namespace BmoX.Red

open BmoX.Base

/-! ### What is claimed of a run -/

section

variable {tam : Nat}

/-- The kernel in a state of a run. -/
def nucleoDe (c : (buzon tam).Config) : Nucleo := c.priv .nucleo

/-- The process in a state of a run. -/
def procesoDe (c : (buzon tam).Config) : Proceso := c.priv .proceso

/-- The frame of an `enviar` under way. -/
def enviando (c : (buzon tam).Config) : List Bytes :=
  match (c.run .proceso : Option (DelProceso × Prog memoria Proceso)) with
  | some (.enviar u, _) => [u]
  | _ => []

/-- The frame of a `meter` under way. -/
def metiendo (c : (buzon tam).Config) : List Bytes :=
  match (c.run .nucleo : Option (DelNucleo × Prog memoria Nucleo)) with
  | some (.meter u, _) => [u]
  | _ => []

/-- The frame in a slot. -/
def tramaEn (m : Memory) (base : Nat) : Bytes := m.load (base + 2) (leNat (m.load base 2))

/-- The frames that wait for the kernel in the mailbox. -/
def pendientesTx (m : Memory) (l : Lado) : List Bytes :=
  (List.range (u32De (m.load Campo.txEscrito 4) - l.txLeido).toNat).map fun k ↦
    tramaEn m (casillaTx (l.txLeido.toNat + k))

/-- The frames that wait for the process in the mailbox. -/
def pendientesRx (m : Memory) (l : Lado) : List Bytes :=
  (List.range (l.rxEscrito - u32De (m.load Campo.rxLeido 4)).toNat).map fun k ↦
    tramaEn m (casillaRx ((u32De (m.load Campo.rxLeido 4)).toNat + k))

/-- What `recibir` returned are frames cut to the buffers it was given. -/
def Cortadas (recibidas : List (Nat × Bytes)) (tramas : List Bytes) : Prop :=
  List.Forall₂ (fun r t ↦ r.2 = t.take r.1) recibidas tramas

/-- The frames that came out are those that went in, in order and whole, and nobody was accused.
While neither side is at a call, what went in and did not come out is in the mailbox. -/
structure Exacto (c : (buzon tam).Config) : Prop where
  sacadas : (nucleoDe c).sacadas <+: (procesoDe c).aceptadas ++ enviando c
  recibidas : ∃ vistas, vistas <+: (nucleoDe c).metidas ++ metiendo c ∧
    Cortadas (procesoDe c).recibidas vistas
  sinMal : (nucleoDe c).males = []
  nadaPerdido : c.run .nucleo = none → c.run .proceso = none →
    (procesoDe c).aceptadas = (nucleoDe c).sacadas ++ pendientesTx c.mem.byte (nucleoDe c).lado ∧
    ∃ vistas, (nucleoDe c).metidas = vistas ++ pendientesRx c.mem.byte (nucleoDe c).lado ∧
      Cortadas (procesoDe c).recibidas vistas

end

/-! ### The sides as roles -/

/-- The kernel between two calls. -/
structure NucleoQuieto (n : Nucleo) (s : Estado) : Prop where
  sabe : SabeNucleo s.2.sacadas s.2.metidas s
  txLeido : n.lado.txLeido = UInt32.ofNat s.2.sacadas
  rxEscrito : n.lado.rxEscrito = UInt32.ofNat s.2.metidas.length
  sacadas : n.sacadas = s.2.enviadas.take s.2.sacadas
  metidas : n.metidas = s.2.metidas
  sinMal : n.males = []

/-- The kernel at a call, begun as `n`. -/
structure NucleoEnCurso (c : DelNucleo) (n : Nucleo) (s : Estado) : Prop where
  sacadas : n.sacadas <+: s.2.enviadas
  metidas : s.2.metidas = n.metidas ∨ ∃ u, c = .meter u ∧ s.2.metidas = n.metidas ++ [u]
  sinMal : n.males = []

/-- The process between two calls. -/
structure ProcesoQuieto (p : Proceso) (s : Estado) : Prop where
  sabe : SabeProceso s.2.enviadas s.2.recibidas s
  aceptadas : p.aceptadas = s.2.enviadas
  recibidas : Cortadas p.recibidas (s.2.metidas.take s.2.recibidas)

/-- The process at a call, begun as `p`. -/
structure ProcesoEnCurso (c : DelProceso) (p : Proceso) (s : Estado) : Prop where
  enviadas : s.2.enviadas = p.aceptadas ∨ ∃ u, c = .enviar u ∧ s.2.enviadas = p.aceptadas ++ [u]
  recibidas : ∃ vistas, vistas <+: s.2.metidas ∧ Cortadas p.recibidas vistas

theorem take_of_le_length {α : Type} {a b : List α} {n : Nat} (h : a <+: b) (hn : n ≤ a.length) :
    b.take n = a.take n := by
  obtain ⟨l, rfl⟩ := h
  rw [List.take_append_of_le_length hn]

theorem NucleoQuieto.stable (n : Nucleo) : deNucleo.Stable (NucleoQuieto n) := by
  intro s t hst h
  have hsabe := SabeNucleo.stable s t hst h.sabe
  refine ⟨by rwa [hst.sacadas, hst.metidas], by rw [hst.sacadas]; exact h.txLeido,
    by rw [hst.metidas]; exact h.rxEscrito, ?_, h.metidas.trans hst.metidas.symm, h.sinMal⟩
  rw [hst.sacadas, take_of_le_length hst.enviadas h.sabe.vale.ordenTx]
  exact h.sacadas

theorem ProcesoQuieto.stable (p : Proceso) : deProceso.Stable (ProcesoQuieto p) := by
  intro s t hst h
  have hsabe := SabeProceso.stable s t hst h.sabe
  refine ⟨by rwa [hst.enviadas, hst.recibidas], h.aceptadas.trans hst.enviadas.symm, ?_⟩
  rw [hst.recibidas, take_of_le_length hst.metidas h.sabe.vale.ordenRx]
  exact h.recibidas

/-- A call of the kernel. -/
theorem nucleo_hace {tam : Nat} (htam : bytes ≤ tam) (c : DelNucleo) (n : Nucleo) (s : Estado)
    (h : NucleoQuieto n s) :
    deNucleo.Keeps (NucleoEnCurso c n) NucleoQuieto (n.hace tam c) s := by
  have hpre : n.sacadas <+: s.2.enviadas := by
    rw [h.sacadas]
    exact List.take_prefix _ _
  have hlargo : n.sacadas.length = s.2.sacadas := by
    rw [h.sacadas, List.length_take, Nat.min_eq_left h.sabe.vale.ordenTx]
  have hr : deNucleo.Stable fun t ↦ n.sacadas <+: t.2.enviadas :=
    fun a b hab hp ↦ hp.trans hab.enviadas
  have hg : ∀ a b : Estado, CambiaNucleo a b → n.sacadas <+: a.2.enviadas →
      n.sacadas <+: b.2.enviadas := fun a b hab hp ↦ by rwa [hab.enviadas]
  have htoma : ∀ t : Estado, t.2.sacadas = s.2.sacadas → n.sacadas <+: t.2.enviadas →
      n.sacadas = t.2.enviadas.take t.2.sacadas := by
    intro t ht hp
    rw [ht, ← hlargo]
    exact (List.prefix_iff_eq_take.mp hp)
  cases c with
  | sacar dst =>
    have hcurso : ∀ t : Estado, t.2.metidas = s.2.metidas → n.sacadas <+: t.2.enviadas →
        NucleoEnCurso (.sacar dst) n t := fun t hm hp ↦
      ⟨hp, .inl (hm.trans h.metidas.symm), h.sinMal⟩
    refine ((sacar_keeps (D := fun t ↦ t.2.metidas = s.2.metidas) htam h.txLeido dst
      (fun t ht ↦ ht.metidas) (fun _ _ t ht ↦ ht.metidas) (fun t ht _ ↦ ht.metidas)
      h.sabe).frame hr hg hpre |>.mono (fun t ht ↦ hcurso t ht.1 ht.2) fun _ _ hq ↦ hq).bind ?_
    rintro r t ⟨⟨rfl, ht⟩ | ⟨u, resto, rfl, hu, ht⟩, hp⟩
    · refine Role.Keeps.ret (NucleoQuieto.stable _) ?_ fun v hv ↦
        ⟨hcurso v (hv.metidas.symm.trans h.metidas) (hv.sacadas ▸ List.take_prefix _ _), hv⟩
      exact ⟨by rw [ht.sacadas, ht.metidas]; exact ht, by rw [ht.sacadas]; exact h.txLeido,
        by rw [ht.metidas]; exact h.rxEscrito, htoma t ht.sacadas hp, h.metidas.trans ht.metidas.symm,
        h.sinMal⟩
    · have hq : NucleoQuieto { n with
          lado := { n.lado with
            txLeido := UInt32.ofNat (s.2.sacadas + 1), sacadas := n.lado.sacadas + 1 }
          sacadas := n.sacadas ++ [(u ++ resto).take u.length] } t := by
        refine ⟨by rw [ht.sacadas, ht.metidas]; exact ht, by rw [ht.sacadas],
          by rw [ht.metidas]; exact h.rxEscrito, ?_, h.metidas.trans ht.metidas.symm, h.sinMal⟩
        rw [ht.sacadas, List.take_add_one, hu, List.take_left, Option.toList_some, ← hlargo,
          ← List.prefix_iff_eq_take.mp hp]
      refine Role.Keeps.ret (NucleoQuieto.stable _) hq fun v hv ↦ ⟨hcurso v ?_ ?_, hv⟩
      · exact hv.metidas.symm.trans h.metidas
      · exact (List.prefix_append _ _).trans (hv.sacadas ▸ List.take_prefix _ _)
  | meter u =>
    have hcurso : ∀ t : Estado, (t.2.metidas = s.2.metidas ∨ t.2.metidas = s.2.metidas ++ [u]) →
        n.sacadas <+: t.2.enviadas → NucleoEnCurso (.meter u) n t := fun t hm hp ↦
      ⟨hp, hm.imp (·.trans h.metidas.symm) fun hm ↦ ⟨u, rfl, by rw [h.metidas]; exact hm⟩, h.sinMal⟩
    refine ((meter_keeps (D := fun t ↦ t.2.metidas = s.2.metidas ∨ t.2.metidas = s.2.metidas ++ [u])
      htam h.rxEscrito (fun t ht ↦ .inl ht.metidas) (fun t _ _ ht ↦ .inr ht) h.sabe).frame hr hg hpre
      |>.mono (fun t ht ↦ hcurso t ht.1 ht.2) fun _ _ hq ↦ hq).bind ?_
    rintro ⟨r, lado⟩ t ⟨⟨htx, ⟨hr1, hrx, ht⟩ | ⟨hr1, hrx, ht⟩⟩, hp⟩
    · simp only at htx hr1 hrx
      subst hr1
      have hq : NucleoQuieto { n with lado } t :=
        ⟨by rw [ht.sacadas, ht.metidas]; exact ht, by rw [ht.sacadas, htx]; exact h.txLeido,
          by rw [ht.metidas, hrx]; exact h.rxEscrito, htoma t ht.sacadas hp,
          h.metidas.trans ht.metidas.symm, h.sinMal⟩
      exact Role.Keeps.ret (NucleoQuieto.stable _) hq fun v hv ↦
        ⟨hcurso v (.inl (hv.metidas.symm.trans h.metidas)) (hv.sacadas ▸ List.take_prefix _ _), hv⟩
    · simp only at htx hr1 hrx
      subst hr1
      have hq : NucleoQuieto { n with lado, metidas := n.metidas ++ [u] } t :=
        ⟨by rw [ht.sacadas, ht.metidas]; exact ht, by rw [ht.sacadas, htx]; exact h.txLeido,
          by rw [ht.metidas, hrx, List.length_append, List.length_singleton],
          htoma t ht.sacadas hp, by rw [ht.metidas, h.metidas], h.sinMal⟩
      refine Role.Keeps.ret (NucleoQuieto.stable _) hq fun v hv ↦
        ⟨hcurso v (.inr ?_) (hv.sacadas ▸ List.take_prefix _ _), hv⟩
      rw [← hv.metidas, h.metidas]

/-- A call of the process. -/
theorem proceso_hace {tam : Nat} (c : DelProceso) (p : Proceso) (s : Estado)
    (h : ProcesoQuieto p s) :
    deProceso.Keeps (ProcesoEnCurso c p) ProcesoQuieto (p.hace tam c) s := by
  have hpre : s.2.metidas.take s.2.recibidas <+: s.2.metidas := List.take_prefix _ _
  have hr : deProceso.Stable fun t ↦ s.2.metidas.take s.2.recibidas <+: t.2.metidas :=
    fun a b hab hp ↦ hp.trans hab.metidas
  have hg : ∀ a b : Estado, CambiaProceso a b → s.2.metidas.take s.2.recibidas <+: a.2.metidas →
      s.2.metidas.take s.2.recibidas <+: b.2.metidas := fun a b hab hp ↦ by rwa [hab.metidas]
  have hlargo : (s.2.metidas.take s.2.recibidas).length = s.2.recibidas := by
    rw [List.length_take, Nat.min_eq_left h.sabe.vale.ordenRx]
  have hquieto : ∀ t : Estado, ∀ es, SabeProceso es s.2.recibidas t →
      s.2.metidas.take s.2.recibidas <+: t.2.metidas →
      ProcesoQuieto { p with aceptadas := es } t := by
    intro t es ht hp
    refine ⟨by rw [ht.enviadas, ht.recibidas]; exact ht, ht.enviadas.symm, ?_⟩
    have := List.prefix_iff_eq_take.mp hp
    rw [hlargo] at this
    rw [ht.recibidas, ← this]
    exact h.recibidas
  cases c with
  | enviar u =>
    have hcurso : ∀ t : Estado, (t.2.enviadas = s.2.enviadas ∨ t.2.enviadas = s.2.enviadas ++ [u]) →
        s.2.metidas.take s.2.recibidas <+: t.2.metidas → ProcesoEnCurso (.enviar u) p t :=
      fun t he hp ↦ ⟨he.imp (·.trans h.aceptadas.symm) fun he ↦ ⟨u, rfl, by rw [h.aceptadas]; exact he⟩,
        _, hp, h.recibidas⟩
    refine ((enviar_keeps
      (D := fun t ↦ t.2.enviadas = s.2.enviadas ∨ t.2.enviadas = s.2.enviadas ++ [u])
      (fun t ht ↦ .inl ht.enviadas) (fun t _ ht _ ↦ .inr ht) h.sabe).frame hr hg hpre
      |>.mono (fun t ht ↦ hcurso t ht.1 ht.2) fun _ _ hq ↦ hq).bind ?_
    have hfin : ∀ (es : List Bytes) (t : Estado), SabeProceso es s.2.recibidas t →
        (es = s.2.enviadas ∨ es = s.2.enviadas ++ [u]) →
        s.2.metidas.take s.2.recibidas <+: t.2.metidas →
        deProceso.Keeps (ProcesoEnCurso (.enviar u) p) ProcesoQuieto
          (pure { p with aceptadas := es }) t := by
      intro es t ht hes hp
      have hP : deProceso.Stable fun t ↦ SabeProceso es s.2.recibidas t ∧
          s.2.metidas.take s.2.recibidas <+: t.2.metidas :=
        fun a b hab hk ↦ ⟨SabeProceso.stable a b hab hk.1, hr a b hab hk.2⟩
      exact Role.Keeps.ret hP ⟨ht, hp⟩ fun v hv ↦
        ⟨hcurso v (hes.imp (hv.1.enviadas.trans ·) (hv.1.enviadas.trans ·)) hv.2,
          hquieto v es hv.1 hv.2⟩
    rintro r t ⟨⟨⟨e, rfl⟩, ht⟩ | ⟨rfl, ht⟩, hp⟩
    · have := hfin s.2.enviadas t ht (.inl rfl) hp
      rwa [← h.aceptadas] at this
    · have := hfin (s.2.enviadas ++ [u]) t ht (.inr rfl) hp
      rwa [← h.aceptadas] at this
  | recibir dst =>
    have hcurso : ∀ t : Estado, t.2.enviadas = s.2.enviadas →
        s.2.metidas.take s.2.recibidas <+: t.2.metidas → ProcesoEnCurso (.recibir dst) p t :=
      fun t he hp ↦ ⟨.inl (he.trans h.aceptadas.symm), _, hp, h.recibidas⟩
    refine ((recibir_keeps (D := fun t ↦ t.2.enviadas = s.2.enviadas) (fun t ht ↦ ht.enviadas)
      (fun _ t _ ht _ _ ↦ ht) h.sabe).frame hr hg hpre
      |>.mono (fun t ht ↦ hcurso t ht.1 ht.2) fun _ _ hq ↦ hq).bind ?_
    rintro ⟨r, lleno⟩ t ⟨⟨hr1, ht⟩ | ⟨u, n, hr1, hn, hu, ht⟩, hp⟩
    · simp only at hr1
      subst hr1
      have hP : deProceso.Stable fun t ↦ SabeProceso s.2.enviadas s.2.recibidas t ∧
          s.2.metidas.take s.2.recibidas <+: t.2.metidas :=
        fun a b hab hk ↦ ⟨SabeProceso.stable a b hab hk.1, hr a b hab hk.2⟩
      refine Role.Keeps.ret hP ⟨ht, hp⟩ fun v hv ↦ ⟨hcurso v hv.1.enviadas hv.2, ?_⟩
      have := hquieto v _ hv.1 hv.2
      rwa [← h.aceptadas] at this
    · simp only at hr1 hn
      subst hr1
      have hq : ProcesoQuieto
          { p with recibidas := p.recibidas ++ [(dst.length, lleno.take n)] } t := by
        refine ⟨by rw [ht.enviadas, ht.recibidas]; exact ht, h.aceptadas.trans ht.enviadas.symm, ?_⟩
        have hpre' := List.prefix_iff_eq_take.mp hp
        rw [hlargo] at hpre'
        rw [ht.recibidas, List.take_add_one, hu, ← hpre', Option.toList_some, Cortadas]
        exact List.rel_append h.recibidas (.cons hn .nil)
      have hP : deProceso.Stable fun t ↦ ProcesoQuieto
          { p with recibidas := p.recibidas ++ [(dst.length, lleno.take n)] } t ∧
            s.2.metidas.take s.2.recibidas <+: t.2.metidas :=
        fun a b hab hk ↦ ⟨ProcesoQuieto.stable _ a b hab hk.1, hr a b hab hk.2⟩
      exact Role.Keeps.ret hP ⟨hq, hp⟩ fun v hv ↦
        ⟨hcurso v (hv.1.aceptadas.symm.trans h.aceptadas) hv.2, hv.1⟩

/-- The two sides fit together. -/
def rolesBuzon {tam : Nat} (htam : bytes ≤ tam) : (buzon tam).Roles Limpio Libro where
  role
    | .nucleo => deNucleo
    | .proceso => deProceso
  idle
    | .nucleo => NucleoQuieto
    | .proceso => ProcesoQuieto
  busy
    | .nucleo => NucleoEnCurso
    | .proceso => ProcesoEnCurso
  handle_eq i := by cases i <;> rfl
  allowed_eq i := by cases i <;> rfl
  compat {i j} hij s t h := by
    cases i <;> cases j
    · exact absurd rfl hij
    · exact h
    · exact h
    · exact absurd rfl hij
  stable i := by
    cases i
    · exact NucleoQuieto.stable
    · exact ProcesoQuieto.stable
  prog i := by
    cases i
    · exact nucleo_hace htam
    · exact proceso_hace

/-! ### The mailbox as it is prepared -/

private theorem exec_escribirBytes (off : Nat) (b : Bytes) (m : Memory) :
    Prog.exec enMemoria (escribirBytes off b) m = ((), m.store off b) := by
  induction b generalizing off m with
  | nil =>
    refine Prod.ext rfl (funext fun x ↦ ?_)
    exact (Memory.store_out (by simp only [List.length_nil]; omega)).symm
  | cons v b ih =>
    refine (ih (off + 1) (Function.update m off v)).trans (Prod.ext rfl (funext fun x ↦ ?_))
    simp only [Memory.store, List.length_cons]
    by_cases hx : x = off
    · subst hx
      rw [if_neg (by omega), if_pos (by omega), Function.update_self, Nat.sub_self]
      rfl
    · rw [Function.update_of_ne hx]
      by_cases hin : off + 1 ≤ x ∧ x < off + 1 + b.length
      · rw [if_pos hin, if_pos (by omega), show x - off = x - (off + 1) + 1 by omega]
        rfl
      · rw [if_neg hin, if_neg (by omega)]

/-- The bytes that `preparar` leaves. -/
def enBlanco (m : Memory) : Memory :=
  (((m.store 0 (zeros bytes)).store Campo.magia (u32Le magia)).store Campo.version
    (u16Le version)).store Campo.casillas (u16Le (UInt16.ofNat casillas))

private theorem exec_preparar {tam : Nat} {l : Lado} {m : Memory} (htam : bytes ≤ tam) :
    Prog.exec enMemoria (l.preparar tam) m = ((.ok (), .nuevo), enBlanco m) := by
  rw [Lado.preparar, if_neg (by omega)]
  simp only [Prog.exec_bind, escribir32, escribir16, exec_escribirBytes]
  rfl

private theorem bytes_le_of_preparar {tam : Nat} {l : Lado} {m : Memory}
    (h : (Prog.exec enMemoria (l.preparar tam) m).1.1 = .ok ()) : bytes ≤ tam := by
  by_contra htam
  rw [Lado.preparar, if_pos (by omega)] at h
  cases h

private theorem enBlanco_indice (m : Memory) {x : Nat} (h1 : Campo.txEscrito ≤ x)
    (h2 : x < Campo.rxSecuencia) : enBlanco m x = 0 := by
  simp only [Campo.txEscrito, Campo.rxSecuencia] at *
  rw [enBlanco, Memory.store_out (by simp [Campo.casillas]; omega),
    Memory.store_out (by simp [Campo.version]; omega),
    Memory.store_out (by simp [Campo.magia]; omega),
    Memory.store_in (Nat.zero_le _) (by rw [length_zeros]; simp only [bytes, cabecera, casillas, casilla]; omega)]
  rw [zeros, List.getD_eq_getElem?_getD, List.getElem?_replicate]
  split <;> rfl

theorem palabra_enBlanco (m : Memory) {w : Nat} (hw : EsIndice w) : Palabra (enBlanco m) w 0 := by
  intro k hk
  have : w = 8 ∨ w = 16 ∨ w = 20 ∨ w = 12 := by
    rcases hw with (h | h | h) | h <;> simp_all
  rw [Nat.zero_div]
  apply enBlanco_indice
  all_goals
    simp only [Campo.txEscrito, Campo.rxSecuencia]
    omega

/-- The book of an empty mailbox. -/
def Libro.vacio : Libro := ⟨[], 0, [], 0⟩

private theorem vale_preparado (m : Memory) :
    Vale (⟨enBlanco m, fun _ ↦ none, fun _ ↦ none, (0, 0)⟩, Libro.vacio) := by
  have hind : ∀ i w, EsIndice w →
      Indice ⟨enBlanco m, fun _ ↦ none, fun _ ↦ none, (0, 0)⟩ i w 0 := fun i w hw ↦
    ⟨palabra_enBlanco m hw 0 (by decide), .inl (palabra_enBlanco m hw)⟩
  exact ⟨le_rfl, Nat.zero_le _, le_rfl, Nat.zero_le _, hind _ _ (.inl (.inl rfl)),
    (hind .nucleo _ (.inr rfl)).1, hind _ _ (.inl (.inr (.inl rfl))),
    hind _ _ (.inl (.inr (.inr rfl))), fun _ _ _ h ↦ (by cases h), fun _ _ _ h ↦ (by cases h),
    fun _ h ↦ (by cases h), fun _ h ↦ (by cases h)⟩

/-- Both sides start with nothing sent and nothing received. -/
theorem preparado_holds {tam : Nat} (htam : bytes ≤ tam) (l : Lado) (m : Memory) (i : Parte) :
    (rolesBuzon htam).Holds (preparado tam l m) Libro.vacio i := by
  have hv := vale_preparado m
  cases i
  · show NucleoQuieto _ ((preparado tam l m).mem, Libro.vacio)
    simp only [preparado, exec_preparar htam, System.Config.start]
    exact ⟨⟨hv, rfl, rfl, palabra_enBlanco m (.inr rfl), palabra_enBlanco m (.inl (.inr (.inl rfl)))⟩,
      rfl, rfl, rfl, rfl, rfl⟩
  · show ProcesoQuieto _ ((preparado tam l m).mem, Libro.vacio)
    simp only [preparado, exec_preparar htam, System.Config.start]
    exact ⟨⟨hv, rfl, rfl, palabra_enBlanco m (.inl (.inl rfl)), palabra_enBlanco m (.inl (.inr (.inr rfl)))⟩,
      rfl, .nil⟩

/-! ### What is in the mailbox -/

private theorem load_palabra {m : Memory} {w n : Nat} (h : Palabra m w n) :
    u32De (m.load w 4) = UInt32.ofNat n := by
  rw [← u32De_leBytes]
  congr 1
  refine List.ext_getElem? fun k ↦ ?_
  by_cases hk : k < 4
  · rw [getElem?_leBytes hk, Memory.load, List.getElem?_map, List.getElem?_range hk, Option.map_some,
      h k hk]
  · rw [List.getElem?_eq_none (by simpa using by omega),
      List.getElem?_eq_none (by simpa using by omega)]

private theorem Lleva.tramaEn {m : Memory} {base : Nat} {t : Bytes} (h : Lleva m base t)
    (ht : t.length ≤ tramaMaxima) : tramaEn m base = t := by
  have hlen : leNat (m.load base 2) = t.length := by
    have : m.load base 2 = [m base, m (base + 1)] := rfl
    simp only [tramaMaxima] at ht
    rw [this, leNat, leNat, leNat, h.bajo, h.alto, UInt8.toNat_ofNat', UInt8.toNat_ofNat']
    omega
  rw [Red.tramaEn, hlen, h.datos]

private theorem map_range_drop {α : Type} {l : List α} {f : Nat → α} {n : Nat}
    (h : ∀ k a, l[n + k]? = some a → f k = a) :
    (List.range (l.length - n)).map f = l.drop n := by
  refine List.ext_getElem? fun k ↦ ?_
  rw [List.getElem?_map, List.getElem?_drop]
  by_cases hk : k < l.length - n
  · rw [List.getElem?_range hk, List.getElem?_eq_getElem (by omega), Option.map_some]
    exact congrArg some (h k _ (List.getElem?_eq_getElem (by omega)))
  · rw [List.getElem?_eq_none (by simpa using by omega), List.getElem?_eq_none (by omega)]
    rfl

private theorem pendientesTx_eq {n : Nucleo} {p : Proceso} {s : Estado} (hn : NucleoQuieto n s)
    (hp : ProcesoQuieto p s) : pendientesTx s.1.byte n.lado = s.2.enviadas.drop s.2.sacadas := by
  have hv := hn.sabe.vale
  rw [pendientesTx, load_palabra hp.sabe.txEscrito, hn.txLeido,
    toNat_ofNat_sub hv.ordenTx hv.cabenTx]
  refine map_range_drop fun k u hu ↦ ?_
  have hbase : casillaTx ((UInt32.ofNat s.2.sacadas).toNat + k) = casillaTx (s.2.sacadas + k) := by
    simp only [casillaTx, casillas, casilla, UInt32.toNat_ofNat']
    omega
  rw [hbase]
  exact (hv.tx _ u (Nat.le_add_right ..) hu).tramaEn (hv.largasTx u (List.mem_of_getElem? hu))

private theorem pendientesRx_eq {n : Nucleo} {p : Proceso} {s : Estado} (hn : NucleoQuieto n s)
    (hp : ProcesoQuieto p s) : pendientesRx s.1.byte n.lado = s.2.metidas.drop s.2.recibidas := by
  have hv := hn.sabe.vale
  rw [pendientesRx, load_palabra hp.sabe.rxLeido, hn.rxEscrito,
    toNat_ofNat_sub hv.ordenRx hv.cabenRx]
  refine map_range_drop fun k u hu ↦ ?_
  have hbase : casillaRx ((UInt32.ofNat s.2.recibidas).toNat + k) =
      casillaRx (s.2.recibidas + k) := by
    simp only [casillaRx, casillas, casilla, UInt32.toNat_ofNat']
    omega
  rw [hbase]
  exact (hv.rx _ u (Nat.le_add_right ..) hu).tramaEn (hv.largasRx u (List.mem_of_getElem? hu))

/-! ### Every run -/

theorem nucleo_of_holds {tam : Nat} {htam : bytes ≤ tam} {c : (buzon tam).Config} {g : Libro}
    (h : (rolesBuzon htam).Holds c g .nucleo) :
    (nucleoDe c).sacadas <+: g.enviadas ∧ g.metidas <+: (nucleoDe c).metidas ++ metiendo c ∧
      (nucleoDe c).males = [] ∧ (c.run .nucleo = none → NucleoQuieto (nucleoDe c) (c.mem, g)) := by
  unfold System.Roles.Holds at h
  split at h
  · next hrun =>
    have hq : NucleoQuieto (nucleoDe c) (c.mem, g) := h
    refine ⟨hq.sacadas ▸ List.take_prefix _ _, ?_, hq.sinMal, fun _ ↦ hq⟩
    rw [hq.metidas]
    exact List.prefix_append _ _
  · next d q hrun =>
    have hq : NucleoEnCurso d (nucleoDe c) (c.mem, g) := h.now
    refine ⟨hq.sacadas, ?_, hq.sinMal, fun hno ↦ by rw [hrun] at hno; cases hno⟩
    rcases hq.metidas with hm | ⟨u, rfl, hm⟩
    · exact hm ▸ List.prefix_append _ _
    · rw [metiendo, hrun]
      exact hm ▸ List.prefix_refl _

theorem proceso_of_holds {tam : Nat} {htam : bytes ≤ tam} {c : (buzon tam).Config} {g : Libro}
    (h : (rolesBuzon htam).Holds c g .proceso) :
    g.enviadas <+: (procesoDe c).aceptadas ++ enviando c ∧
      (∃ vistas, vistas <+: g.metidas ∧ Cortadas (procesoDe c).recibidas vistas) ∧
      (c.run .proceso = none → ProcesoQuieto (procesoDe c) (c.mem, g)) := by
  unfold System.Roles.Holds at h
  split at h
  · next hrun =>
    have hq : ProcesoQuieto (procesoDe c) (c.mem, g) := h
    refine ⟨?_, ⟨_, List.take_prefix _ _, hq.recibidas⟩, fun _ ↦ hq⟩
    rw [hq.aceptadas]
    exact List.prefix_append _ _
  · next d q hrun =>
    have hq : ProcesoEnCurso d (procesoDe c) (c.mem, g) := h.now
    refine ⟨?_, hq.recibidas, fun hno ↦ by rw [hrun] at hno; cases hno⟩
    rcases hq.enviadas with he | ⟨u, rfl, he⟩
    · exact he ▸ List.prefix_append _ _
    · rw [enviando, hrun]
      exact he ▸ List.prefix_refl _

/-- What both sides keep gives what is claimed of a state. -/
theorem exacto_of_holds {tam : Nat} {htam : bytes ≤ tam} {c : (buzon tam).Config} {g : Libro}
    (h : ∀ i, (rolesBuzon htam).Holds c g i) : Exacto c := by
  obtain ⟨hsac, hmet, hmal, hquieto⟩ := nucleo_of_holds (h .nucleo)
  obtain ⟨henv, ⟨vistas, hvis, hcor⟩, hquieto'⟩ := proceso_of_holds (h .proceso)
  refine ⟨hsac.trans henv, ⟨vistas, hvis.trans hmet, hcor⟩, hmal, fun h1 h2 ↦ ?_⟩
  have hn := hquieto h1
  have hp := hquieto' h2
  rw [pendientesTx_eq hn hp, pendientesRx_eq hn hp]
  refine ⟨?_, _, ?_, hp.recibidas⟩
  · rw [hn.sacadas, List.take_append_drop]
    exact hp.aceptadas
  · rw [List.take_append_drop]
    exact hn.metidas

/-- In every run in which no read of an index overlaps a write of it that carries and `enviar`
writes on no byte that a `sacar` has yet to copy, what comes out is what went in and nobody is
accused. Whatever the process writes, no call leaves the mailbox, moves more than a frame or
changes the kernel's indices but for its own step. -/
theorem buzon_exacto (tam : Nat) (l : Lado) (m : Memory)
    (h : (Prog.exec enMemoria (l.preparar tam) m).1.1 = .ok ()) :
    (∀ c, (buzon tam).Steps Limpio (preparado tam l m) c → Exacto c) ∧ Contenido tam := by
  have htam := bytes_le_of_preparar h
  refine ⟨fun c hc ↦ ?_, contenido tam⟩
  obtain ⟨g, hg⟩ := (rolesBuzon htam).invariant (preparado_holds htam l m) hc
  exact exacto_of_holds hg

/-! ### Two runs -/

instance : ∀ i o m, Decidable (Limpio i o m)
  | i, .leer8 off, m =>
    match h : palabra off with
    | none => .isTrue fun w hw ↦ by rw [h] at hw; cases hw
    | some w => decidable_of_iff (Decide w → ¬(m.escribiendo i.otra = some w ∧ m.byte w = 0))
      ⟨fun hd v hv ↦ by rw [h] at hv; cases hv; exact hd, fun hd ↦ hd w h⟩
  | _, .escribir8 _ _, _ => inferInstanceAs (Decidable (_ ∧ _))

/-- A mailbox just prepared, of its exact size. -/
def recienPreparado : (buzon bytes).Config :=
  .start ⟨enBlanco fun _ ↦ 0, fun _ ↦ none, fun _ ↦ none, (0, 0)⟩ fun
    | .nucleo => ⟨.nuevo, [], [], []⟩
    | .proceso => ⟨[], []⟩

private theorem preparado_eq : preparado bytes .nuevo (fun _ ↦ 0) = recienPreparado := by
  rw [preparado, exec_preparar le_rfl]
  rfl

/-- The process sends a frame while the kernel looks for one, and the kernel takes it out. -/
def unaTrama : List (System.Turn (buzon bytes)) :=
  [.ask .nucleo (.sacar (Arr.pad _ [])), .act .nucleo 1, .ask .proceso (.enviar [7, 9]),
    .act .proceso 26, .act .nucleo 3, .done .nucleo, .ask .nucleo (.sacar (Arr.pad _ [])),
    .act .nucleo 12, .done .nucleo, .done .proceso]

theorem unaTrama_play : (recienPreparado.play Limpio unaTrama).map
    (fun c ↦ ((nucleoDe c).sacadas, (procesoDe c).aceptadas)) = some ([[7, 9]], [[7, 9]]) := by
  decide +kernel

theorem buzon_exacto_unaTrama :
    ∃ c, (buzon bytes).Steps Limpio (preparado bytes .nuevo fun _ ↦ 0) c ∧
      (nucleoDe c).sacadas = [[7, 9]] ∧ Exacto c ∧ Contenido bytes := by
  have h := buzon_exacto bytes .nuevo (fun _ ↦ 0) (by rw [exec_preparar le_rfl])
  obtain ⟨c, hc, hsal⟩ := Option.map_eq_some_iff.mp unaTrama_play
  have hrun : (buzon bytes).Steps Limpio (preparado bytes .nuevo fun _ ↦ 0) c := by
    rw [preparado_eq]
    exact System.Config.steps_of_play hc
  exact ⟨c, hrun, congrArg Prod.fst hsal, h.1 c hrun, h.2⟩

/-- With the ring full, the kernel gives back the slot it is about to copy, and the process puts a
ninth frame in it. -/
def nueveTramas : List (System.Turn (buzon bytes)) :=
  (List.range casillas).flatMap (fun k ↦
    ([.ask .proceso (.enviar [UInt8.ofNat k]), .act .proceso 25, .done .proceso] :
      List (System.Turn (buzon bytes)))) ++
  ([.ask .nucleo (.sacar (Arr.pad _ [])), .act .nucleo 10, .ask .proceso (.enviar [8]),
    .act .proceso 25, .done .proceso, .act .nucleo 1, .done .nucleo] : List (System.Turn (buzon bytes)))

private theorem nueveTramas_play : (recienPreparado.play (fun _ _ _ ↦ True) nueveTramas).map
    (fun c ↦ ((nucleoDe c).sacadas, ((procesoDe c).aceptadas ++ enviando c).head?)) =
      some ([[8]], some [0]) := by
  decide +kernel

/-- The kernel takes the ninth frame out for the first. -/
theorem trama_pisada : ¬ ∀ c, (buzon bytes).Steps (fun _ _ _ ↦ True)
    (preparado bytes .nuevo fun _ ↦ 0) c → Exacto c := by
  intro h
  obtain ⟨c, hc, hsal⟩ := Option.map_eq_some_iff.mp nueveTramas_play
  have hex := h c (by rw [preparado_eq]; exact System.Config.steps_of_play hc)
  have hsac : (nucleoDe c).sacadas = [[8]] := congrArg Prod.fst hsal
  have hprim : ((procesoDe c).aceptadas ++ enviando c).head? = some [0] := congrArg Prod.snd hsal
  obtain ⟨resto, hresto⟩ := hex.sacadas
  rw [← hresto, hsac] at hprim
  cases hprim

end BmoX.Red
