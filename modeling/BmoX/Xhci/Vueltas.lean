import BmoX.Xhci.Paso

/-!
# The rings, over every run

Each kind of ring keeps the driver and the controller in step: the command ring for its first 254
commands, the ring of a control endpoint for its first 510 TRBs, and that of any other endpoint for
ever, if each recovery comes where an even number of laps ends.
-/

namespace BmoX.Xhci

open BmoX.Base

/-! ### The TRBs of the driver -/

/-- The last dword of a TRB that can be enqueued. -/
def Suelto (d : UInt32) : Prop := d &&& 1 = 0 ∧ (d >>> 10) &&& 0x3F ≠ Tipo.link

instance (d : UInt32) : Decidable (Suelto d) := inferInstanceAs (Decidable (_ ∧ _))

theorem Suelto.limpia {t : Trb} (h : Suelto t.dw3) : t.Limpia := ⟨h.1, h.2⟩

/-- The fields above the type do not matter. -/
theorem Suelto.or {a d : UInt32} (h : Suelto d) (ha : a.toNat % 2 ^ 16 = 0) : Suelto (a ||| d) := by
  have h1 : a &&& 1 = 0 := by
    apply UInt32.toNat_inj.mp
    simp only [UInt32.toNat_and, UInt32.toNat_one, UInt32.toNat_zero, Nat.and_one_is_mod]
    omega
  have h2 : (a >>> 10) &&& (0x3F : UInt32) = 0 := by
    apply UInt32.toNat_inj.mp
    have := Nat.and_two_pow_sub_one_eq_mod (a.toNat / 2 ^ 10) 6
    simp only [UInt32.toNat_and, UInt32.toNat_shiftRight, UInt32.toNat_zero, Nat.shiftRight_eq_div_pow]
    refine Eq.trans this ?_
    omega
  refine ⟨?_, ?_⟩
  · rw [or_and_distrib32, h1, h.1, UInt32.or_zero]
  · rw [UInt32.shiftRight_or, or_and_distrib32, h2, UInt32.zero_or]
    exact h.2

private theorem slot_alto (x : UInt8) : (x.toUInt32 <<< 24).toNat % 2 ^ 16 = 0 := by
  simp [UInt32.toNat_shiftLeft, Nat.shiftLeft_eq]
  omega

private theorem dci_alto (x : UInt8) : (x.toUInt32 <<< 16).toNat % 2 ^ 16 = 0 := by
  simp [UInt32.toNat_shiftLeft, Nat.shiftLeft_eq]

theorem Suelto.campos {d : UInt32} (h : Suelto d) (slot dci : UInt8) :
    Suelto ((slot.toUInt32 <<< 24 ||| dci.toUInt32 <<< 16) ||| d) := by
  rw [UInt32.or_assoc]
  exact (h.or (dci_alto dci)).or (slot_alto slot)

/-- The commands leave the cycle bit clear and are no Link TRB. -/
theorem Comando.limpia (c : Comando) : c.trb.Limpia := by
  apply Suelto.limpia
  cases c with
  | enableSlot => decide
  | disableSlot slot => exact Suelto.or (by decide) (slot_alto slot)
  | addressDevice slot entrada => exact Suelto.or (by decide) (slot_alto slot)
  | configureEndpoint slot entrada => exact Suelto.or (by decide) (slot_alto slot)
  | resetEndpoint slot dci => exact Suelto.campos (by decide) slot dci
  | setTrDequeue slot dci dq => exact Suelto.campos (by decide) slot dci

theorem Control.limpia (c : Control) : ∀ t ∈ c.trbs, t.Limpia := by
  have hsetup : c.setup.Limpia := by
    apply Suelto.limpia
    simp only [Control.setup]
    cases c.hasData <;> cases c.dataIn <;> decide
  have hdata : ∀ p, (c.data p).Limpia := fun p ↦ by
    apply Suelto.limpia
    simp only [Control.data]
    cases c.dataIn <;> decide
  have hstatus : c.status.Limpia := by
    apply Suelto.limpia
    simp only [Control.status]
    cases c.hasData <;> cases c.dataIn <;> decide
  intro t ht
  rw [Control.trbs] at ht
  split at ht
  · cases ht
  · split at ht
    · simp only [List.cons_append, List.nil_append, List.mem_cons, List.not_mem_nil, or_false] at ht
      rcases ht with rfl | rfl | rfl
      · exact hsetup
      · exact hdata _
      · exact hstatus
    · simp only [List.cons_append, List.nil_append, List.mem_cons, List.not_mem_nil, or_false] at ht
      rcases ht with rfl | rfl
      · exact hsetup
      · exact hstatus

theorem trbNormal_limpia (bufPhys : UInt64) (len : UInt32) : (trbNormal bufPhys len).Limpia :=
  Suelto.limpia (by simp only [trbNormal]; decide)

theorem trbIsoch_limpia (bufPhys : UInt64) (len : UInt16) (avisar : Bool) :
    (trbIsoch bufPhys len avisar).Limpia := by
  apply Suelto.limpia
  simp only [trbIsoch]
  cases avisar <;> decide

/-! ### The two parties as roles -/

/-- What the controller does to a ring. -/
structure Controla (base : UInt64) (s t : Estado × Unit) : Prop where
  dw : t.1.dw = s.1.dw
  encolados : t.1.encolados = s.1.encolados
  ejecutados : s.1.ejecutados.length ≤ t.1.ejecutados.length
  vale : Vale base s.1 → Vale base t.1

/-- The driver, which may do what `A` allows. -/
def rolConductor (base : UInt64) (A : Op → Estado → Prop) : Role anillo Estado Unit where
  handle := maneja base
  allowed := A
  rely := Controla base
  guar s t := Vale base s.1 → Vale base t.1
  refl _ := ⟨rfl, rfl, le_rfl, id⟩
  trans h h' := ⟨h'.dw.trans h.dw, h'.encolados.trans h.encolados,
    h.ejecutados.trans h'.ejecutados, h'.vale ∘ h.vale⟩

/-- The controller. -/
def rolControlador (base : UInt64) (A : Op → Estado → Prop) : Role anillo Estado Unit where
  handle := maneja base
  allowed := A
  rely s t := Vale base s.1 → Vale base t.1
  guar := Controla base
  refl _ := id
  trans h h' := h' ∘ h

theorem controla_paso {base : UInt64} (m : Estado) : Controla base (m, ()) (m.paso base, ()) := by
  refine ⟨?_, ?_, ?_, fun h ↦ h.paso⟩
  all_goals
    simp only [Estado.paso]
    split
    · simp
    · split
      · simp
      · simp

/-- A TRB being written: what its first `j` dwords are, and what the Link TRB is. -/
structure Puesto (base : UInt64) (l : List Trb) (e t : Trb) (j : Nat) (s : Estado × Unit) : Prop where
  vale : Vale base s.1
  encolados : s.1.encolados = l
  enlace : s.1.trb lastTrbIdx = e
  cabe : 0 < j → l.length < s.1.ejecutados.length + 254
  dw0 : 0 < j → (s.1.trb (l.length % lastTrbIdx)).dw0 = t.dw0
  dw1 : 1 < j → (s.1.trb (l.length % lastTrbIdx)).dw1 = t.dw1
  dw2 : 2 < j → (s.1.trb (l.length % lastTrbIdx)).dw2 = t.dw2

/-- What the ring holds between two writes. -/
structure Tiene (base : UInt64) (l : List Trb) (e : Trb) (s : Estado × Unit) : Prop where
  vale : Vale base s.1
  encolados : s.1.encolados = l
  enlace : s.1.trb lastTrbIdx = e

section

variable {base : UInt64} {A : Op → Estado → Prop} {l : List Trb} {e t : Trb}
  {D : Estado × Unit → Prop} {s : Estado × Unit}

theorem Puesto.stable (j : Nat) : (rolConductor base A).Stable (Puesto base l e t j) := by
  intro s u hu h
  have htrb := Estado.trb_congr hu.dw
  exact ⟨hu.vale h.vale, hu.encolados.trans h.encolados, (htrb _).trans h.enlace,
    fun hj ↦ (h.cabe hj).trans_le (Nat.add_le_add_right hu.ejecutados _),
    fun hj ↦ by rw [htrb, h.dw0 hj], fun hj ↦ by rw [htrb, h.dw1 hj],
    fun hj ↦ by rw [htrb, h.dw2 hj]⟩

theorem Tiene.stable : (rolConductor base A).Stable (Tiene base l e) := by
  intro s u hu h
  exact ⟨hu.vale h.vale, hu.encolados.trans h.encolados,
    (Estado.trb_congr hu.dw _).trans h.enlace⟩

/-- The four writes of a TRB, in the slot that is its turn. `F` is what the order of the run says at
the first of them. -/
theorem ponerTrb_keeps {F : Prop} (ht : t.Limpia) (hcabe : ∀ o m, A o m → Cabe o m)
    (hF : ∀ i v m, Empieza i → A (.escribir i v) m → m.encolados = l → F)
    (hgira : F → lastTrbIdx ≤ l.length + 1 → e.toggle = true)
    (hD : ∀ s, Tiene base l e s → D s) (hD' : ∀ s, Tiene base (l ++ [t]) e s → D s)
    (h : Tiene base l e s) :
    (rolConductor base A).Keeps D (fun _ s ↦ F ∧ Tiene base (l ++ [t]) e s)
      (ponerTrb (l.length % lastTrbIdx) t (lapBit lastTrbIdx l.length)) s := by
  have hlt := Nat.mod_lt l.length lastTrbIdx_pos
  set q := l.length % lastTrbIdx with hq
  have hparte : ∀ j s, Puesto base l e t j s → D s := fun j s hs ↦
    hD s ⟨hs.vale, hs.encolados, hs.enlace⟩
  have hsigue : ∀ {j i v s}, Puesto base l e t j s →
      l.length < s.1.ejecutados.length + 254 → i / 4 = q → i % 4 ≠ 3 →
      Vale base (s.1.escrito i v) ∧ (s.1.escrito i v).encolados = l ∧
        (s.1.escrito i v).trb lastTrbIdx = e := by
    intro j i v s hs hroom hi hi'
    refine ⟨hs.vale.escrito (by rw [hs.encolados]; exact hroom) v (by rw [hs.encolados]; exact hi) hi',
      ?_, ?_⟩
    · rw [Estado.escrito_encolados_of_not fun hn ↦ hi' hn.1, hs.encolados]
    · rw [Estado.trb_escrito_of_ne (by omega), hs.enlace]
  have h0 : Puesto base l e t 0 s :=
    ⟨h.vale, h.encolados, h.enlace, by simp, by simp, by simp, by simp⟩
  refine Role.Keeps.call (Puesto.stable 0) h0 (hparte 0) fun s hs ha ↦ ⟨(), ?_⟩
  have hemp : Empieza (q * 4) := ⟨by omega, by omega⟩
  have hroom : l.length < s.1.ejecutados.length + 254 := hs.encolados ▸ hcabe _ _ ha hemp
  have hf : F := hF _ _ _ hemp ha hs.encolados
  obtain ⟨hv, hl, he⟩ := hsigue (v := t.dw0) hs hroom (i := q * 4) (by omega) (by omega)
  have h1 : Puesto base l e t 1 (s.1.escrito (q * 4) t.dw0, ()) :=
    ⟨hv, hl, he, fun _ ↦ by simpa using hroom, fun _ ↦ by rw [Estado.trb_escrito0], by simp,
      by simp⟩
  refine ⟨fun _ ↦ hv, Role.Keeps.call (Puesto.stable 1) h1 (hparte 1) fun s hs _ ↦ ⟨(), ?_⟩⟩
  have hroom := hs.cabe (by simp)
  obtain ⟨hv, hl, he⟩ := hsigue (v := t.dw1) hs hroom (i := q * 4 + 1) (by omega) (by omega)
  have h2 : Puesto base l e t 2 (s.1.escrito (q * 4 + 1) t.dw1, ()) :=
    ⟨hv, hl, he, fun _ ↦ by simpa using hroom,
      fun _ ↦ by rw [Estado.trb_escrito1]; exact hs.dw0 (by simp),
      fun _ ↦ by rw [Estado.trb_escrito1], by simp⟩
  refine ⟨fun _ ↦ hv, Role.Keeps.call (Puesto.stable 2) h2 (hparte 2) fun s hs _ ↦ ⟨(), ?_⟩⟩
  have hroom := hs.cabe (by simp)
  obtain ⟨hv, hl, he⟩ := hsigue (v := t.dw2) hs hroom (i := q * 4 + 2) (by omega) (by omega)
  have h3 : Puesto base l e t 3 (s.1.escrito (q * 4 + 2) t.dw2, ()) :=
    ⟨hv, hl, he, fun _ ↦ by simpa using hroom,
      fun _ ↦ by rw [Estado.trb_escrito2]; exact hs.dw0 (by simp),
      fun _ ↦ by rw [Estado.trb_escrito2]; exact hs.dw1 (by simp),
      fun _ ↦ by rw [Estado.trb_escrito2]⟩
  refine ⟨fun _ ↦ hv, ?_⟩
  rw [← bind_pure (escribir _ _)]
  refine Role.Keeps.call (Puesto.stable 3) h3 (hparte 3) fun s hs _ ↦ ⟨(), ?_⟩
  have hlen : s.1.encolados = l := hs.encolados
  obtain ⟨hv, hl⟩ := hs.vale.escrito_ultimo (t := t) (q := q) (by rw [hlen]; exact hs.cabe (by simp)) ht
    (by rw [hlen]) (hs.dw0 (by simp)) (hs.dw1 (by simp)) (hs.dw2 (by simp))
    (by rw [hlen, hs.enlace]; exact hgira hf)
  rw [hlen] at hv hl
  have h4 : Tiene base (l ++ [t]) e
      (s.1.escrito (q * 4 + 3) (t.dw3 ||| conCiclo (lapBit lastTrbIdx l.length)), ()) :=
    ⟨hv, hl, by rw [Estado.trb_escrito_of_ne (by omega), hs.enlace]⟩
  exact ⟨fun _ ↦ hv, Role.Keeps.ret Tiene.stable h4 fun u hu ↦ ⟨hD' u hu, hf, hu⟩⟩

/-! ### The producers -/

/-- The place of the driver after `n` TRBs. -/
structure Toca (base : UInt64) (r : TransferRing) (n : Nat) : Prop where
  enqueue : r.enqueue = n % lastTrbIdx
  pcs : r.pcs = lapBit lastTrbIdx n
  phys : r.phys = base

/-- A ring ready for the driver, with the TRBs `l` enqueued and the Link TRB as `K` says. -/
def Lista (base : UInt64) (K : Trb → Nat → Prop) (r : TransferRing) (l : List Trb)
    (s : Estado × Unit) : Prop :=
  ∃ e, Tiene base l e s ∧ K e l.length ∧ Toca base r l.length

/-- A state in the course of a call that enqueues `ts` after `l`. -/
def EnCurso (base : UInt64) (l ts : List Trb) (s : Estado × Unit) : Prop :=
  Vale base s.1 ∧ s.1.encolados <+: l ++ ts

variable {K : Trb → Nat → Prop} {r : TransferRing} {n : Nat}

theorem Toca.fin (h : Toca base r n) (hge : r.enqueue + 1 ≥ lastTrbIdx) :
    n % lastTrbIdx + 1 = lastTrbIdx ∧
      Toca base { r with enqueue := 0, pcs := !r.pcs } (n + 1) := by
  have hlt := Nat.mod_lt n lastTrbIdx_pos
  rw [h.enqueue] at hge
  have hend : n % lastTrbIdx + 1 = lastTrbIdx := by omega
  obtain ⟨hl, hm⟩ := lapBit_succ_of_end lastTrbIdx_pos hend
  exact ⟨hend, hm.symm, by rw [hl, h.pcs], h.phys⟩

theorem Toca.sigue (h : Toca base r n) (hlt : ¬r.enqueue + 1 ≥ lastTrbIdx) :
    n % lastTrbIdx + 1 < lastTrbIdx ∧
      Toca base { r with enqueue := r.enqueue + 1 } (n + 1) := by
  rw [h.enqueue] at hlt
  obtain ⟨hl, hm⟩ := lapBit_succ lastTrbIdx_pos (k := n) (by omega)
  exact ⟨by omega, by rw [hm, h.enqueue], by rw [hl, h.pcs], h.phys⟩

theorem Lista.stable (l : List Trb) : (rolConductor base A).Stable (Lista base K r l) := by
  rintro s u hu ⟨e, he, hk, ht⟩
  exact ⟨e, Tiene.stable s u hu he, hk, ht⟩

/-- The Link TRB of the command ring is never reached. -/
def EnlaceMando (_e : Trb) (n : Nat) : Prop := n ≤ 254

/-- The Link TRB of a control endpoint stays as it was made. -/
def EnlaceEp0 (e : Trb) (n : Nat) : Prop := e.toggle = true ∧ e.ciclo = true ∧ n ≤ 510

/-- The Link TRB of any other endpoint has the bit of the last lap done. -/
def EnlaceExtremo (e : Trb) (n : Nat) : Prop :=
  e.toggle = true ∧ (lastTrbIdx ≤ n → e.ciclo = !lapBit lastTrbIdx n)

/-- `TransferRing::enqueue` on the command ring. -/
theorem encola_keeps {t : Trb} (ht : t.Limpia) (hcabe : ∀ o m, A o m → Cabe o m)
    (hA : ∀ o m, A o m → Hasta 254 o m) (hD : ∀ s, Vale base s.1 → s.1.encolados = l → D s)
    (hD' : ∀ s, Vale base s.1 → s.1.encolados = l ++ [t] → D s)
    (h : Lista base EnlaceMando r l s) :
    (rolConductor base A).Keeps D (fun p s ↦ Lista base EnlaceMando p.1 (l ++ [t]) s)
      (r.encola t) s := by
  obtain ⟨e, he, hk, hr⟩ := h
  rw [TransferRing.encola, hr.enqueue, hr.pcs]
  refine Role.Keeps.bind (ponerTrb_keeps (F := l.length < 254) ht hcabe
    (fun i v m hi ha hl ↦ hl ▸ hA _ _ ha hi) (fun hf hlen ↦ by rw [lastTrbIdx_eq] at hlen; omega)
    (fun s hs ↦ hD s hs.vale hs.encolados) (fun s hs ↦ hD' s hs.vale hs.encolados) he) ?_
  rintro - s ⟨hf, hs⟩
  have hno : ¬r.enqueue + 1 ≥ lastTrbIdx := by
    rw [hr.enqueue, lastTrbIdx_eq]
    omega
  rw [TransferRing.advance, if_neg hno]
  refine Role.Keeps.ret Tiene.stable hs fun u hu ↦ ⟨hD' u hu.vale hu.encolados, e, hu, ?_, ?_⟩
  · simp only [EnlaceMando, List.length_append, List.length_singleton]
    omega
  · rw [List.length_append, List.length_singleton]
    exact (hr.sigue hno).2

/-- One stage of a control transfer. -/
theorem etapa_keeps {t : Trb} (ht : t.Limpia) (hcabe : ∀ o m, A o m → Cabe o m)
    (hA : ∀ o m, A o m → Hasta 510 o m) (hD : ∀ s, Vale base s.1 → s.1.encolados = l → D s)
    (hD' : ∀ s, Vale base s.1 → s.1.encolados = l ++ [t] → D s)
    (h : Lista base EnlaceEp0 r l s) :
    (rolConductor base A).Keeps D (fun r' s ↦ Lista base EnlaceEp0 r' (l ++ [t]) s)
      (r.etapa t) s := by
  obtain ⟨e, he, ⟨htog, hcic, hk⟩, hr⟩ := h
  rw [TransferRing.etapa, hr.enqueue, hr.pcs]
  refine Role.Keeps.bind (ponerTrb_keeps (F := l.length < 510) ht hcabe
    (fun i v m hi ha hl ↦ hl ▸ hA _ _ ha hi) (fun _ _ ↦ htog)
    (fun s hs ↦ hD s hs.vale hs.encolados) (fun s hs ↦ hD' s hs.vale hs.encolados) he) ?_
  rintro - s ⟨hf, hs⟩
  have hk' : EnlaceEp0 e (l ++ [t]).length := by
    refine ⟨htog, hcic, ?_⟩
    rw [List.length_append, List.length_singleton]
    omega
  rw [← hr.enqueue, ← hr.pcs]
  split
  · next hge =>
    refine Role.Keeps.ret Tiene.stable hs fun u hu ↦ ⟨hD' u hu.vale hu.encolados, e, hu, hk', ?_⟩
    rw [List.length_append, List.length_singleton]
    exact (hr.fin hge).2
  · next hlt =>
    refine Role.Keeps.ret Tiene.stable hs fun u hu ↦ ⟨hD' u hu.vale hu.encolados, e, hu, hk', ?_⟩
    rw [List.length_append, List.length_singleton]
    exact (hr.sigue hlt).2

/-- A TRB in the ring of an endpoint. -/
theorem encolaExtremo_keeps {t : Trb} (ht : t.Limpia) (hcabe : ∀ o m, A o m → Cabe o m)
    (hD : ∀ s, Vale base s.1 → s.1.encolados = l → D s)
    (hD' : ∀ s, Vale base s.1 → s.1.encolados = l ++ [t] → D s)
    (h : Lista base EnlaceExtremo r l s) :
    (rolConductor base A).Keeps D (fun r' s ↦ Lista base EnlaceExtremo r' (l ++ [t]) s)
      (r.encolaExtremo t) s := by
  obtain ⟨e, he, ⟨htog, hcic⟩, hr⟩ := h
  rw [TransferRing.encolaExtremo, hr.enqueue, hr.pcs]
  refine Role.Keeps.bind (ponerTrb_keeps (F := True) ht hcabe (fun _ _ _ _ _ _ ↦ trivial)
    (fun _ _ ↦ htog) (fun s hs ↦ hD s hs.vale hs.encolados)
    (fun s hs ↦ hD' s hs.vale hs.encolados) he) ?_
  rintro - s ⟨-, hs⟩
  have hDt : ∀ e s, Tiene base (l ++ [t]) e s → D s := fun e s hs ↦ hD' s hs.vale hs.encolados
  rw [← hr.enqueue, ← hr.pcs]
  split
  · next hge =>
    obtain ⟨hend, hfin⟩ := hr.fin hge
    -- the Link TRB is read and written back with the bit of the lap that ends
    refine Role.Keeps.call Tiene.stable hs (hDt e) fun s hs _ ↦ ⟨(), id, ?_⟩
    refine Role.Keeps.call Tiene.stable hs (hDt e) fun u hu _ ↦ ⟨(), ?_⟩
    obtain ⟨hv, henc, hlink⟩ := hu.vale.escrito_enlace r.pcs
    have hdw : (s.1.dw (lastTrbIdx * 4 + 3) &&& ~~~1 ||| conCiclo r.pcs) =
        ((u.1.trb lastTrbIdx).puesta r.pcs).dw3 := by
      rw [hu.enlace, ← hs.enlace]
      rfl
    simp only [rolConductor, maneja]
    rw [hdw]
    have hq : Tiene base (l ++ [t]) (e.puesta r.pcs)
        (u.1.escrito (lastTrbIdx * 4 + 3) ((u.1.trb lastTrbIdx).puesta r.pcs).dw3, ()) :=
      ⟨hv, henc.trans hu.encolados, by rw [hlink, hu.enlace]⟩
    refine ⟨fun _ ↦ hv, Role.Keeps.ret Tiene.stable hq fun w hw ↦
      ⟨hDt _ w hw, _, hw, ⟨?_, fun _ ↦ ?_⟩, ?_⟩⟩
    · rw [Trb.toggle_puesta, htog]
    · rw [Trb.ciclo_puesta, List.length_append, List.length_singleton, ← hfin.pcs, Bool.not_not]
    · rw [List.length_append, List.length_singleton]
      exact hfin
  · next hlt =>
    obtain ⟨hlast, hsig⟩ := hr.sigue hlt
    refine Role.Keeps.ret Tiene.stable hs fun u hu ↦ ⟨hDt e u hu, e, hu, ⟨htog, fun hge ↦ ?_⟩, ?_⟩
    · rw [List.length_append, List.length_singleton] at hge ⊢
      have hne : l.length + 1 ≠ lastTrbIdx := by
        intro heq
        have := Nat.mod_eq_of_lt (show l.length < lastTrbIdx by omega)
        omega
      rw [(lapBit_succ lastTrbIdx_pos hlast).1]
      exact hcic (by omega)
    · rw [List.length_append, List.length_singleton]
      exact hsig

end

end BmoX.Xhci
