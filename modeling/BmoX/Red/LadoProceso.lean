import BmoX.Red.Indices

/-!
# The process's side among what the kernel does

`enviar` and `recibir` of `platform/shared/bmo-puerta-red/src/buzon.rs:313–349`, one read or write
at a time, while the kernel makes its calls.
-/

namespace BmoX.Red

open BmoX.Base

/-- What the process knows between its reads and writes: its own counters, whole in the mailbox. -/
structure SabeProceso (es : List Bytes) (R : Nat) (s : Estado) : Prop where
  vale : Vale s
  enviadas : s.2.enviadas = es
  recibidas : s.2.recibidas = R
  txEscrito : Palabra s.1.byte Campo.txEscrito es.length
  rxLeido : Palabra s.1.byte Campo.rxLeido R

section

variable {es : List Bytes} {R : Nat} {s t : Estado}

/-- The kernel leaves alone the words of the process. -/
theorem CambiaNucleo.palabra {w n : Nat} (h : CambiaNucleo s t)
    (hw : w = Campo.txEscrito ∨ w = Campo.rxLeido) (hp : Palabra s.1.byte w n) :
    Palabra t.1.byte w n := fun k hk ↦ by
  refine (h.byte _ ?_).trans (hp k hk)
  simp only [Campo.txEscrito, Campo.txLeido, Campo.rxLeido, Campo.rxSecuencia] at *
  omega

theorem SabeProceso.stable : deProceso.Stable (SabeProceso es R) := fun _ _ hst h ↦
  ⟨hst.vale h.vale, hst.enviadas.trans h.enviadas, hst.recibidas.trans h.recibidas,
    hst.palabra (.inl rfl) h.txEscrito, hst.palabra (.inr rfl) h.rxLeido⟩

private theorem cambiaProceso_lee (s : Estado) (off : Nat) :
    CambiaProceso s ((maneja .proceso (.leer8 off) s.1).2, s.2) :=
  ⟨fun h ↦ h.congr rfl rfl rfl, rfl, rfl, List.prefix_refl _, le_rfl, fun _ _ ↦ rfl, rfl,
    fun _ _ _ ↦ rfl, rfl, rfl, fun _ ↦ rfl, fun _ ↦ rfl⟩

theorem SabeProceso.lee (h : SabeProceso es R s) (off : Nat) :
    SabeProceso es R ((maneja .proceso (.leer8 off) s.1).2, s.2) :=
  ⟨h.vale.congr rfl rfl rfl, h.enviadas, h.recibidas, h.txEscrito, h.rxLeido⟩

theorem SabeProceso.tranquila : Tranquila deProceso .proceso (SabeProceso es R) :=
  ⟨SabeProceso.stable, fun s off h ↦ ⟨cambiaProceso_lee s off, h.lee off⟩⟩

/-- A write of the process in its free slot, not on bytes that the kernel has yet to copy. -/
theorem SabeProceso.escribe (h : SabeProceso es R s) {off : Nat} {v : UInt8}
    (hlimpio : Limpio .proceso (.escribir8 off v) s.1) (h1 : casillaTx es.length ≤ off)
    (h2 : off < casillaTx es.length + casilla) (hcabe : es.length < s.2.sacadas + casillas) :
    let m := (maneja .proceso (.escribir8 off v) s.1).2
    CambiaProceso s (m, s.2) ∧ SabeProceso es R (m, s.2) := by
  intro m
  have hes := casillaTx_entre es.length
  have hotro : ∀ o, o ≠ off → m.byte o = s.1.byte o := fun o ho ↦ Function.update_of_ne ho _ _
  have hcab : ∀ o, o < cabecera → m.byte o = s.1.byte o := fun o ho ↦ hotro o (by omega)
  have hesc : m.escribiendo = s.1.escribiendo := by
    simp only [m, maneja]
    rw [avanza_fuera (.inr (by simp only [cabecera] at hes; omega)), Function.update_eq_self]
  have hind : ∀ i w n, w + 3 < cabecera → Indice s.1 i w n → Indice m i w n := by
    intro i w n hw hi
    refine ⟨(hcab w (by omega)).trans hi.1, ?_⟩
    rw [hesc]
    exact hi.2.imp_left fun hp k hk ↦ (hcab _ (by omega)).trans (hp k hk)
  have hvale : Vale (m, s.2) := by
    have hv := h.vale
    refine ⟨hv.ordenTx, hv.cabenTx, hv.ordenRx, hv.cabenRx, hind _ _ _ (by decide) hv.txEscrito,
      (hcab _ (by decide)).trans hv.txLeido, hind _ _ _ (by decide) hv.rxEscrito,
      hind _ _ _ (by decide) hv.rxLeido, fun k u hk hu ↦ ?_, fun k u hk hu ↦ ?_, hv.largasTx,
      hv.largasRx⟩
    · have hlargo := hv.largasTx u (List.mem_of_getElem? hu)
      have hk' : k < s.2.enviadas.length := (List.getElem?_eq_some_iff.mp hu).1
      rw [h.enviadas] at hk'
      refine (hv.tx k u hk hu).congr fun o ho ho' ↦ hotro o ?_
      rintro rfl
      have hne : es.length % casillas ≠ k % casillas := by
        simp only [casillas] at *
        omega
      have := casillaTx_aparte hne h1 h2
      simp only [casilla, tramaMaxima] at *
      omega
    · have hrk := casillaRx_entre k
      exact (hv.rx k u hk hu).congr fun o ho _ ↦ hotro o (by omega)
  refine ⟨⟨fun _ ↦ hvale, rfl, rfl, List.prefix_refl _, le_rfl, fun o ho ↦ hotro o ?_, rfl,
    fun o ho ho' ↦ hotro o ?_, rfl, congrFun hesc _, fun _ ↦ rfl, fun _ ↦ rfl⟩, hvale, h.enviadas,
    h.recibidas, fun k hk ↦ (hcab _ (by simp only [Campo.txEscrito, cabecera]; omega)).trans
      (h.txEscrito k hk),
    fun k hk ↦ (hcab _ (by simp only [Campo.rxLeido, cabecera]; omega)).trans (h.rxLeido k hk)⟩
  · simp only [Campo.txLeido, Campo.rxLeido, cabecera] at *
    omega
  · rintro rfl
    exact hlimpio.2 rfl ⟨ho, ho'⟩

/-- The mailbox still says what the book says when the process moves one of its counters. -/
theorem Vale.mueveProceso {m : Mundo} {g : Libro} (h : Vale s)
    (hb : ∀ off, Campo.txLeido ≤ off ∧ off < Campo.rxLeido ∨ cabecera ≤ off →
      m.byte off = s.1.byte off)
    (he : m.escribiendo .nucleo = s.1.escribiendo .nucleo)
    (hsac : g.sacadas = s.2.sacadas) (hmet : g.metidas = s.2.metidas)
    (hrec : s.2.recibidas ≤ g.recibidas) (hrec' : g.recibidas ≤ s.2.metidas.length)
    (henv : g.sacadas ≤ g.enviadas.length) (henv' : g.enviadas.length ≤ g.sacadas + casillas)
    (htx : Indice m .proceso Campo.txEscrito g.enviadas.length)
    (hrx : Indice m .proceso Campo.rxLeido g.recibidas)
    (hcas : ∀ k u, g.sacadas ≤ k → g.enviadas[k]? = some u → Lleva s.1.byte (casillaTx k) u)
    (hlar : ∀ u ∈ g.enviadas, u.length ≤ tramaMaxima) : Vale (m, g) := by
  have hslot : ∀ base u, cabecera ≤ base → Lleva s.1.byte base u → Lleva m.byte base u :=
    fun base u hbase hl ↦ hl.congr fun o h1 _ ↦ hb o (.inr (hbase.trans h1))
  refine ⟨henv, henv', ?_, ?_, htx, ?_, ?_, hrx, fun k u hk hu ↦ ?_, fun k u hk hu ↦ ?_, hlar, ?_⟩
  · rw [hmet]
    exact hrec'
  · rw [hmet]
    exact h.cabenRx.trans (Nat.add_le_add_right hrec _)
  · rw [hsac]
    exact (hb _ (.inl (by decide))).trans h.txLeido
  · rw [hmet]
    refine ⟨(hb _ (.inl (by decide))).trans h.rxEscrito.1, ?_⟩
    rw [he]
    exact h.rxEscrito.2.imp_left fun hp k hk ↦ (hb _ (.inl (by
      simp only [Campo.txLeido, Campo.rxEscrito, Campo.rxLeido]; omega))).trans (hp k hk)
  · exact hslot _ _ (casillaTx_entre k).1 (hcas k u hk hu)
  · rw [hmet] at hu
    exact hslot _ _ (le_trans (by decide) (casillaRx_entre k).1) (h.rx k u (hrec.trans hk) hu)
  · rw [hmet]
    exact h.largasRx

/-- What the process changes when it moves one of its counters. -/
theorem CambiaProceso.mueve {m : Mundo} {g : Libro} {off : Nat} {v : UInt8}
    (hlimpio : Limpio .proceso (.escribir8 off v) s.1)
    (hm : m = (maneja .proceso (.escribir8 off v) s.1).2) (hv : Vale (m, g))
    (hoff : Campo.txEscrito ≤ off ∧ off < Campo.txLeido ∨
      Campo.rxLeido ≤ off ∧ off < Campo.rxSecuencia)
    (hsac : g.sacadas = s.2.sacadas) (hmet : g.metidas = s.2.metidas)
    (henv : s.2.enviadas <+: g.enviadas) (hrec : s.2.recibidas ≤ g.recibidas)
    (htx : s.1.leyendo .nucleo = some Campo.txEscrito →
      g.enviadas.length / 256 = s.2.enviadas.length / 256)
    (hrx : s.1.leyendo .nucleo = some Campo.rxLeido → g.recibidas / 256 = s.2.recibidas / 256) :
    CambiaProceso s (m, g) := by
  subst hm
  have hotro : ∀ o, o ≠ off → (maneja .proceso (.escribir8 off v) s.1).2.byte o = s.1.byte o :=
    fun o ho ↦ Function.update_of_ne ho _ _
  have hcab : casillaRx 0 = 12352 := rfl
  refine ⟨fun _ ↦ hv, hsac, hmet, henv, hrec, fun o ho ↦ hotro o ?_, rfl, fun o ho ho' ↦ hotro o ?_,
    rfl, rfl, htx, hrx⟩
  · simp only [Campo.txEscrito, Campo.txLeido, Campo.rxLeido, Campo.rxSecuencia] at *
    omega
  · rintro rfl
    exact hlimpio.2 rfl ⟨ho, ho'⟩

/-! ### Sending -/

/-- Room for one more frame to the kernel, which only grows. -/
structure CabeTx (es : List Bytes) (R : Nat) (s : Estado) : Prop where
  sabe : SabeProceso es R s
  cabe : es.length < s.2.sacadas + casillas

theorem CabeTx.stable : deProceso.Stable (CabeTx es R) := fun s t hst h ↦
  ⟨SabeProceso.stable s t hst h.sabe, h.cabe.trans_le (Nat.add_le_add_right hst.sacadas _)⟩

private theorem escribe_casillaTx {b : Bytes} {o : Nat} {D : Estado → Prop} {F : Memory → Prop}
    (hD : ∀ s, SabeProceso es R s → D s)
    (hF : ∀ m m' : Memory, (∀ off, casillaTx es.length ≤ off → off < casillaTx es.length + o →
      m' off = m off) → F m → F m') (ho : o + b.length ≤ casilla)
    (hs : CabeTx es R s) (hf : F s.1.byte) :
    deProceso.Keeps D (fun _ t ↦ CabeTx es R t ∧ F t.1.byte ∧
      ∀ j v, b[j]? = some v → t.1.byte (casillaTx es.length + o + j) = v)
      (escribirBytes (casillaTx es.length + o) b) s := by
  have hcas := casillaTx_entre es.length
  refine keeps_bloque (fun t u htu h ↦ ⟨CabeTx.stable t u htu h,
    fun off h1 h2 ↦ htu.byte off (.inr (.inr ⟨hcas.1.trans h1, by omega⟩))⟩) hF
    (fun t h ↦ hD t h.sabe) (fun k v t hk ht hallow ↦ ?_) hs hf
  obtain ⟨hg, hsabe⟩ := ht.sabe.escribe hallow (by omega) (by omega) ht.cabe
  exact ⟨_, _, rfl, hg, ⟨hsabe, ht.cabe⟩, rfl⟩

/-- The frame is announced. -/
theorem publica_txEscrito {u : Bytes} {D : Estado → Prop} (hD : ∀ s, SabeProceso es R s → D s)
    (hD' : ∀ s, Vale s → s.2.enviadas = es ++ [u] → s.2.recibidas = R → D s)
    (hu : u.length ≤ tramaMaxima)
    (hs : CabeTx es R s ∧ Lleva s.1.byte (casillaTx es.length) u) :
    deProceso.Keeps D (fun _ t ↦ SabeProceso (es ++ [u]) R t)
      (escribir32 Campo.txEscrito (UInt32.ofNat (es.length + 1))) s := by
  have hcas := casillaTx_entre es.length
  have hlen : (es ++ [u]).length = es.length + 1 := by simp
  refine (publica (K := fun t ↦ CabeTx es R t ∧ Lleva t.1.byte (casillaTx es.length) u)
    (N := fun t ↦ Vale t ∧ t.2.enviadas = es ++ [u] ∧ t.2.recibidas = R ∧
      Palabra t.1.byte Campo.rxLeido R)
    (fun g ↦ { g with enviadas := es ++ [u] }) rfl (.inl (.inl rfl)) ?_
    (fun a b hab h ↦ ⟨CabeTx.stable a b hab h.1, h.2.congr fun off h1 h2 ↦ ?_⟩)
    (fun a b hab h ↦ ⟨hab.vale h.1, hab.enviadas.trans h.2.1, hab.recibidas.trans h.2.2.1,
      hab.palabra (.inr rfl) h.2.2.2⟩)
    (fun t h ↦ hD t h.1.sabe) (fun t h ↦ hD' t h.1 h.2.1 h.2.2.1) hs.1.sabe.txEscrito ?_ ?_
    hs).mono (fun _ h ↦ h) fun _ t h ↦ ?_
  · exact fun a b hab ↦ ⟨fun j hj ↦ hab.byte _ (.inl (by
      simp only [Campo.txEscrito, Campo.txLeido]; omega)), hab.escribiendo⟩
  · refine hab.byte off (.inr (.inr ⟨hcas.1.trans h1, ?_⟩))
    simp only [casilla, tramaMaxima] at *
    omega
  · rintro t m ⟨ht, hll⟩ hallow hm hmez
    have hv := ht.sabe.vale
    have hb : ∀ off, off < Campo.txEscrito ∨ Campo.txLeido ≤ off → m.byte off = t.1.byte off := by
      intro off ho
      subst hm
      apply Function.update_of_ne
      simp only [Campo.txEscrito, Campo.txLeido] at *
      omega
    have hrx : Palabra m.byte Campo.rxLeido R := fun k hk ↦
      (hb _ (.inr (by simp only [Campo.txLeido, Campo.rxLeido]; omega))).trans (ht.sabe.rxLeido k hk)
    have hvale := hv.mueveProceso (m := m) (g := { t.2 with enviadas := es ++ [u] })
      (fun off ho ↦ hb off (.inr (by
        simp only [Campo.txLeido, Campo.rxLeido, cabecera] at *; omega)))
      (by rw [hm]; rfl) rfl rfl le_rfl hv.ordenRx
      (by rw [hlen, ← ht.sabe.enviadas]; exact hv.ordenTx.trans (Nat.le_succ _))
      (by rw [hlen]; exact ht.cabe) (by rw [hlen]; exact hmez.indice Nat.one_pos)
      (by simp only; rw [ht.sabe.recibidas]; exact ⟨by simpa using hrx 0 (by decide), .inl hrx⟩)
      (fun k w hk hw ↦ ?_) fun w hw ↦ ?_
    · refine ⟨.mueve hallow hm hvale (.inl ⟨le_rfl, by decide⟩) rfl rfl
        ⟨[u], by rw [ht.sabe.enviadas]⟩ le_rfl (fun hley ↦ ?_) fun _ ↦ rfl, hvale, rfl,
        ht.sabe.recibidas, hrx⟩
      rw [ht.sabe.enviadas, hlen]
      have hno : ¬(es.length + 1) % 256 = 0 := fun h0 ↦
        hallow.1 ⟨.inl rfl, ofNat_eq_zero.mpr h0⟩ hley
      omega
    · obtain hw | ⟨rfl, rfl⟩ := getElem?_concat hw
      · exact hv.tx k w hk (by rwa [ht.sabe.enviadas])
      · exact hll
    · rcases List.mem_append.mp hw with hw | hw
      · exact hv.largasTx w (by rwa [ht.sabe.enviadas])
      · cases List.mem_singleton.mp hw
        exact hu
  · rintro k v t m hk hk4 ⟨hv, henv, hrec, hrx⟩ hallow hm hmez
    have hb : ∀ off, off < Campo.txEscrito ∨ Campo.txLeido ≤ off → m.byte off = t.1.byte off := by
      intro off ho
      subst hm
      apply Function.update_of_ne
      simp only [Campo.txEscrito, Campo.txLeido] at *
      omega
    have hrx' : Palabra m.byte Campo.rxLeido R := fun k hk ↦
      (hb _ (.inr (by simp only [Campo.txLeido, Campo.rxLeido]; omega))).trans (hrx k hk)
    have hlen' : t.2.enviadas.length = es.length + 1 := by rw [henv, hlen]
    have hvale := hv.mueveProceso (m := m) (g := t.2)
      (fun off ho ↦ hb off (.inr (by
        simp only [Campo.txLeido, Campo.rxLeido, cabecera] at *; omega)))
      (by rw [hm]; rfl) rfl rfl le_rfl hv.ordenRx hv.ordenTx hv.cabenTx
      (by rw [hlen']; exact hmez.indice (Nat.succ_pos _))
      (by rw [hrec]; exact ⟨by simpa using hrx' 0 (by decide), .inl hrx'⟩) hv.tx hv.largasTx
    exact ⟨.mueve hallow hm hvale (.inl (by simp only [Campo.txEscrito, Campo.txLeido]; omega)) rfl
      rfl (List.prefix_refl _) le_rfl (fun _ ↦ rfl) fun _ ↦ rfl, hvale, henv, hrec, hrx'⟩
  · obtain ⟨⟨hv, henv, hrec, hrx⟩, hp⟩ := h
    exact ⟨hv, henv, hrec, by rw [hlen]; exact hp, hrx⟩

private theorem vivo_keeps {tam : Nat} {D : Estado → Prop} (hD : ∀ s, SabeProceso es R s → D s)
    (hs : SabeProceso es R s) :
    deProceso.Keeps D (fun _ t ↦ SabeProceso es R t) (Cliente.vivo tam) s := by
  have hfin : ∀ (b : Bool) t, SabeProceso es R t →
      deProceso.Keeps D (fun _ t ↦ SabeProceso es R t) (pure b) t := fun b t ht ↦
    .ret SabeProceso.stable ht fun u hu ↦ ⟨hD u hu, hu⟩
  rw [Cliente.vivo]
  split
  · exact hfin _ s hs
  refine (lee32_libre rfl SabeProceso.tranquila hD hs).bind fun x t ht ↦ ?_
  split
  · exact hfin _ t ht
  refine (lee16_libre rfl SabeProceso.tranquila hD ht).bind fun y u hu ↦ ?_
  split
  · exact hfin _ u hu
  exact (lee32_libre rfl SabeProceso.tranquila hD hu).bind fun z v hv ↦ hfin _ v hv

/-- `enviar` announces a whole frame, or says why not. -/
theorem enviar_keeps {tam : Nat} {D : Estado → Prop} {u : Bytes}
    (hD : ∀ s, SabeProceso es R s → D s)
    (hD' : ∀ s, Vale s → s.2.enviadas = es ++ [u] → s.2.recibidas = R → D s)
    (hs : SabeProceso es R s) :
    deProceso.Keeps D (fun r t ↦ (∃ e, r = .error e) ∧ SabeProceso es R t ∨
      r = .ok () ∧ SabeProceso (es ++ [u]) R t) (Cliente.enviar tam u) s := by
  have hno : ∀ e t, SabeProceso es R t → deProceso.Keeps D
      (fun (r : Except NoEnvia Unit) t ↦ (∃ e, r = .error e) ∧ SabeProceso es R t ∨
        r = .ok () ∧ SabeProceso (es ++ [u]) R t) (pure (.error e)) t := fun e t ht ↦
    .ret SabeProceso.stable ht fun v hv ↦ ⟨hD v hv, .inl ⟨⟨e, rfl⟩, hv⟩⟩
  rw [Cliente.enviar]
  refine (vivo_keeps hD hs).bind fun b t ht ↦ ?_
  split
  · exact hno _ t ht
  split
  · exact hno _ t ht
  next hlargo =>
  refine (lee_propia rfl SabeProceso.tranquila hD (fun _ h ↦ h.txEscrito) ht).bind ?_
  rintro x v ⟨hv, rfl⟩
  refine (lee_baja (c := fun g ↦ g.sacadas) rfl SabeProceso.tranquila hD
    (fun _ h ↦ h.vale.txLeido) (fun a b _ hab ↦ hab.sacadas) hv).bind ?_
  rintro y w ⟨hw, n, h1, h2, hbajo⟩
  split
  · exact hno _ w hw
  next hsitio =>
  have hcabe : CabeTx es R w := by
    refine ⟨hw, ?_⟩
    -- the number read ends in the low byte of a count of frames let go, and it is near enough
    have hle := hw.vale.ordenTx
    have hca := hv.vale.cabenTx
    rw [hw.enviadas] at hle
    rw [hv.enviadas] at hca
    rw [UInt32.toNat_sub, UInt32.toNat_ofNat'] at hsitio
    have := y.toNat_lt
    simp only [casillas] at *
    omega
  have hbase : casillaTx (UInt32.ofNat es.length).toNat = casillaTx es.length := casillaTx_ofNat _
  have hsig : UInt32.ofNat es.length + 1 = UInt32.ofNat (es.length + 1) := by
    rw [UInt32.ofNat_add]
    rfl
  have hu : u.length ≤ tramaMaxima := by omega
  have h16 : u16Le (UInt16.ofNat u.length) = leBytes 2 u.length :=
    u16Le_ofNat (by simp only [tramaMaxima] at hu; omega)
  simp only [hbase, hsig]
  rw [escribir16, h16]
  refine (escribe_casillaTx (o := 0) (F := fun _ ↦ True) hD (fun _ _ _ h ↦ h)
    (by simp [casilla]) hcabe trivial).bind ?_
  rintro - v ⟨hv, -, hlen⟩
  refine (escribe_casillaTx (o := 2) (F := fun m ↦ m (casillaTx es.length) = UInt8.ofNat u.length ∧
    m (casillaTx es.length + 1) = UInt8.ofNat (u.length / 256)) hD (fun m m' h hm ↦ ?_)
    (by simp only [casilla, tramaMaxima] at *; omega) hv ⟨?_, ?_⟩).bind ?_
  · exact ⟨(h _ le_rfl (by omega)).trans hm.1, (h _ (by omega) (by omega)).trans hm.2⟩
  · simpa using hlen 0 _ (getElem?_leBytes (by decide))
  · simpa using hlen 1 _ (getElem?_leBytes (by decide))
  rintro - x ⟨hx, ⟨h0, h1⟩, hdat⟩
  refine (publica_txEscrito hD hD' hu ⟨hx, .of_bytes h0 h1 hdat⟩).bind fun _ z hz ↦ ?_
  exact Role.Keeps.ret SabeProceso.stable hz fun a ha ↦
    ⟨hD' a ha.vale ha.enviadas ha.recibidas, .inr ⟨rfl, ha⟩⟩

/-! ### Receiving -/

/-- The process at the oldest frame that it has not let go. -/
structure Recibe (es : List Bytes) (R : Nat) (u : Bytes) (s : Estado) : Prop where
  sabe : SabeProceso es R s
  trama : s.2.metidas[R]? = some u

theorem Recibe.stable {u : Bytes} : deProceso.Stable (Recibe es R u) := fun s t hst h ↦
  ⟨SabeProceso.stable s t hst h.sabe, by
    obtain ⟨l, hl⟩ := hst.metidas
    rw [← hl, List.getElem?_append_left (List.getElem?_eq_some_iff.mp h.trama).1]
    exact h.trama⟩

theorem Recibe.lleva {u : Bytes} (h : Recibe es R u s) : Lleva s.1.byte (casillaRx R) u :=
  h.sabe.vale.rx R u h.sabe.recibidas.le h.trama

theorem Recibe.lee {u : Bytes} (h : Recibe es R u s) (off : Nat) :
    Recibe es R u ((maneja .proceso (.leer8 off) s.1).2, s.2) :=
  ⟨h.sabe.lee off, h.trama⟩

private theorem copia_recibida {u : Bytes} {n : Nat} {D : Estado → Prop}
    (hD : ∀ s, SabeProceso es R s → D s) (hn : n ≤ u.length) (hs : Recibe es R u s) :
    deProceso.Keeps D (fun bs t ↦ bs = u.take n ∧ Recibe es R u t)
      (copiar (casillaRx R + 2) n) s := by
  refine (keeps_copiar (fun bs t ↦ bs = u.take bs.length ∧ Recibe es R u t)
    (fun bs a b hab h ↦ ⟨h.1, Recibe.stable a b hab h.2⟩) (fun bs t h ↦ hD t h.2.sabe) ?_
    ⟨rfl, hs⟩).mono (fun _ h ↦ h) fun bs t h ↦ ⟨by rw [← h.1]; exact h.2.1, h.2.2⟩
  rintro bs t hl ⟨hbs, ht⟩ -
  have hv : u[bs.length]? = some u[bs.length] := List.getElem?_eq_getElem (hl.trans_le hn)
  refine ⟨_, _, _, rfl, cambiaProceso_lee t _, ?_, ht.lee _⟩
  rw [List.length_append, List.length_singleton, List.take_add_one, ← hbs, hv, ht.lleva.byte hv,
    Option.toList_some]

private theorem lee_largoRx {u : Bytes} {D : Estado → Prop} (hD : ∀ s, SabeProceso es R s → D s)
    (hs : Recibe es R u s) :
    deProceso.Keeps D (fun x t ↦ x.toNat = u.length ∧ Recibe es R u t) (leer16 (casillaRx R)) s := by
  rw [leer16_eq]
  refine (keeps_copiar (fun bs t ↦ Recibe es R u t ∧ bs = (leBytes 2 u.length).take bs.length)
    (fun bs a b hab h ↦ ⟨Recibe.stable a b hab h.1, h.2⟩)
    (fun _ t h ↦ hD t h.1.sabe) ?_ ⟨hs, rfl⟩).bind ?_
  · rintro bs t hl ⟨ht, hbs⟩ -
    refine ⟨_, _, _, rfl, cambiaProceso_lee t _, ht.lee _, ?_⟩
    rw [List.length_append, List.length_singleton, take_leBytes_succ hl, ← hbs]
    have : bs.length = 0 ∨ bs.length = 1 := by omega
    rcases this with h | h <;> rw [h]
    · exact congrArg (bs ++ [·]) (by simpa using ht.lleva.bajo)
    · exact congrArg (bs ++ [·]) (by simpa using ht.lleva.alto)
  · rintro bs t ⟨hl, ht, hbs⟩
    refine Role.Keeps.ret Recibe.stable ht fun v hv ↦ ⟨hD v hv.sabe, ?_, hv⟩
    have := hv.sabe.vale.largasRx u (List.mem_of_getElem? hv.trama)
    simp only [tramaMaxima] at this
    rw [hbs, hl, List.take_of_length_le (by simp), u16De_leBytes, UInt16.toNat_ofNat']
    omega

/-- The frame is let go. -/
theorem publica_rxLeido {u : Bytes} {D : Estado → Prop} (hD : ∀ s, SabeProceso es R s → D s)
    (hD' : ∀ s, Vale s → s.2.enviadas = es → s.2.recibidas = R + 1 → s.2.metidas[R]? = some u → D s)
    (hs : Recibe es R u s) :
    deProceso.Keeps D (fun _ t ↦ SabeProceso es (R + 1) t ∧ t.2.metidas[R]? = some u)
      (escribir32 Campo.rxLeido (UInt32.ofNat (R + 1))) s := by
  have htra : ∀ a b, CambiaNucleo a b → a.2.metidas[R]? = some u → b.2.metidas[R]? = some u := by
    intro a b hab h
    obtain ⟨l, hl⟩ := hab.metidas
    rw [← hl, List.getElem?_append_left (List.getElem?_eq_some_iff.mp h).1]
    exact h
  refine (publica (K := Recibe es R u)
    (N := fun t ↦ Vale t ∧ t.2.enviadas = es ∧ t.2.recibidas = R + 1 ∧
      t.2.metidas[R]? = some u ∧ Palabra t.1.byte Campo.txEscrito es.length)
    (fun g ↦ { g with recibidas := R + 1 }) rfl (.inl (.inr (.inr rfl))) ?_ Recibe.stable
    (fun a b hab h ↦ ⟨hab.vale h.1, hab.enviadas.trans h.2.1, hab.recibidas.trans h.2.2.1,
      htra a b hab h.2.2.2.1, hab.palabra (.inl rfl) h.2.2.2.2⟩)
    (fun t h ↦ hD t h.sabe) (fun t h ↦ hD' t h.1 h.2.1 h.2.2.1 h.2.2.2.1) hs.sabe.rxLeido ?_ ?_
    hs).mono (fun _ h ↦ h) fun _ t h ↦ ?_
  · exact fun a b hab ↦ ⟨fun j hj ↦ hab.byte _ (.inr (.inl (by
      simp only [Campo.rxLeido, Campo.rxSecuencia]; omega))), hab.escribiendo⟩
  · rintro t m ht hallow hm hmez
    have hv := ht.sabe.vale
    have hlt : R < t.2.metidas.length := (List.getElem?_eq_some_iff.mp ht.trama).1
    have hb : ∀ off, off < Campo.rxLeido ∨ Campo.rxSecuencia ≤ off → m.byte off = t.1.byte off := by
      intro off ho
      subst hm
      apply Function.update_of_ne
      simp only [Campo.rxLeido, Campo.rxSecuencia] at *
      omega
    have htx : Palabra m.byte Campo.txEscrito es.length := fun k hk ↦
      (hb _ (.inl (by simp only [Campo.txEscrito, Campo.rxLeido]; omega))).trans
        (ht.sabe.txEscrito k hk)
    have hrecR := ht.sabe.recibidas
    have hvale := hv.mueveProceso (m := m) (g := { t.2 with recibidas := R + 1 })
      (fun off ho ↦ hb off (by
        simp only [Campo.txLeido, Campo.rxLeido, Campo.rxSecuencia, cabecera] at *; omega))
      (by rw [hm]; rfl) rfl rfl (by simp only; omega) hlt hv.ordenTx hv.cabenTx
      (by simp only; rw [ht.sabe.enviadas]; exact ⟨by simpa using htx 0 (by decide), .inl htx⟩)
      (hmez.indice Nat.one_pos) hv.tx hv.largasTx
    refine ⟨.mueve hallow hm hvale (.inr ⟨le_rfl, by decide⟩) rfl rfl (List.prefix_refl _)
      (by simp only; omega) (fun _ ↦ rfl) fun hley ↦ ?_, hvale, ht.sabe.enviadas, rfl, ht.trama, htx⟩
    have hno : ¬(R + 1) % 256 = 0 := fun h0 ↦
      hallow.1 ⟨.inr (.inr rfl), ofNat_eq_zero.mpr h0⟩ hley
    simp only
    omega
  · rintro k v t m hk hk4 ⟨hv, henv, hrec, htra', htx⟩ hallow hm hmez
    have hb : ∀ off, off < Campo.rxLeido ∨ Campo.rxSecuencia ≤ off → m.byte off = t.1.byte off := by
      intro off ho
      subst hm
      apply Function.update_of_ne
      simp only [Campo.rxLeido, Campo.rxSecuencia] at *
      omega
    have htx' : Palabra m.byte Campo.txEscrito es.length := fun k hk ↦
      (hb _ (.inl (by simp only [Campo.txEscrito, Campo.rxLeido]; omega))).trans (htx k hk)
    have hvale := hv.mueveProceso (m := m) (g := t.2)
      (fun off ho ↦ hb off (by
        simp only [Campo.txLeido, Campo.rxLeido, Campo.rxSecuencia, cabecera] at *; omega))
      (by rw [hm]; rfl) rfl rfl le_rfl hv.ordenRx hv.ordenTx hv.cabenTx
      (by rw [henv]; exact ⟨by simpa using htx' 0 (by decide), .inl htx'⟩)
      (by rw [hrec]; exact hmez.indice (Nat.succ_pos _)) hv.tx hv.largasTx
    exact ⟨.mueve hallow hm hvale (.inr (by simp only [Campo.rxLeido, Campo.rxSecuencia]; omega)) rfl
      rfl (List.prefix_refl _) le_rfl (fun _ ↦ rfl) fun _ ↦ rfl, hvale, henv, hrec, htra', htx'⟩
  · obtain ⟨⟨hv, henv, hrec, htra', htx⟩, hp⟩ := h
    exact ⟨⟨hv, henv, hrec, htx, hp⟩, htra'⟩

/-- `recibir` gives the oldest frame that was put in, cut to the buffer, or nothing. -/
theorem recibir_keeps {tam : Nat} {D : Estado → Prop} {dst : Bytes}
    (hD : ∀ s, SabeProceso es R s → D s)
    (hD' : ∀ u s, Vale s → s.2.enviadas = es → s.2.recibidas = R + 1 →
      s.2.metidas[R]? = some u → D s) (hs : SabeProceso es R s) :
    deProceso.Keeps D (fun r t ↦ r.1 = none ∧ SabeProceso es R t ∨
      ∃ u n, r.1 = some n ∧ r.2.take n = u.take dst.length ∧ t.2.metidas[R]? = some u ∧
        SabeProceso es (R + 1) t) (Cliente.recibir tam dst) s := by
  have hno : ∀ t, SabeProceso es R t → deProceso.Keeps D (fun (r : Option Nat × Bytes) t ↦
      r.1 = none ∧ SabeProceso es R t ∨ ∃ u n, r.1 = some n ∧ r.2.take n = u.take dst.length ∧
        t.2.metidas[R]? = some u ∧ SabeProceso es (R + 1) t) (pure (none, dst)) t := fun t ht ↦
    .ret SabeProceso.stable ht fun v hv ↦ ⟨hD v hv, .inl ⟨rfl, hv⟩⟩
  rw [Cliente.recibir]
  split
  · exact hno s hs
  refine (lee32_libre rfl SabeProceso.tranquila hD hs).bind fun x t ht ↦ ?_
  split
  · exact hno t ht
  refine (lee_indice (c := fun g ↦ g.metidas.length) rfl rfl (.inr (.inl rfl)) SabeProceso.tranquila
    hD (fun _ h ↦ h.vale.rxEscrito) (fun a b _ hab ↦ ⟨hab.metidas.length_le, hab.leyendo,
      hab.entero⟩) ht).bind ?_
  rintro y v ⟨hv, n, h1, h2, rfl⟩
  have hP : deProceso.Stable fun a ↦ SabeProceso es R a ∧ n ≤ a.2.metidas.length :=
    fun a b hab h ↦ ⟨SabeProceso.stable a b hab h.1, h.2.trans hab.metidas.length_le⟩
  have hPt : Tranquila deProceso .proceso fun a ↦ SabeProceso es R a ∧ n ≤ a.2.metidas.length :=
    ⟨hP, fun a off h ↦ ⟨cambiaProceso_lee a off, h.1.lee off, h.2⟩⟩
  refine (lee_propia (n := R) rfl hPt (fun _ h ↦ hD _ h.1) (fun _ h ↦ h.1.rxLeido)
    ⟨hv, h2⟩).bind ?_
  rintro z w ⟨⟨hw, hn⟩, rfl⟩
  split
  · exact hno w hw
  next hne =>
  have hR : R < w.2.metidas.length := by
    have hle := ht.vale.ordenRx
    rw [ht.recibidas] at hle
    have : n ≠ R := fun h ↦ hne (by rw [h])
    omega
  obtain ⟨u, hu⟩ : ∃ u, w.2.metidas[R]? = some u := ⟨_, List.getElem?_eq_getElem hR⟩
  have hbase : casillaRx (UInt32.ofNat R).toNat = casillaRx R := casillaRx_ofNat _
  have hsig : UInt32.ofNat R + 1 = UInt32.ofNat (R + 1) := by
    rw [UInt32.ofNat_add]
    rfl
  rw [hbase, hsig]
  refine (lee_largoRx hD ⟨hw, hu⟩).bind ?_
  rintro x a ⟨hx, ha⟩
  simp only [hx]
  have hmax := ha.sabe.vale.largasRx u (List.mem_of_getElem? ha.trama)
  have hmin : min (min u.length tramaMaxima) dst.length = min dst.length u.length := by
    rw [Nat.min_eq_left hmax, Nat.min_comm]
  rw [hmin]
  refine (copia_recibida hD (Nat.min_le_right ..) ha).bind ?_
  rintro bs b ⟨rfl, hb⟩
  refine (publica_rxLeido hD (hD' u) hb).bind fun _ c hc ↦ ?_
  have hQ : deProceso.Stable fun a ↦ SabeProceso es (R + 1) a ∧ a.2.metidas[R]? = some u := by
    intro a b hab h
    refine ⟨SabeProceso.stable a b hab h.1, ?_⟩
    obtain ⟨l, hl⟩ := hab.metidas
    rw [← hl, List.getElem?_append_left (List.getElem?_eq_some_iff.mp h.2).1]
    exact h.2
  refine Role.Keeps.ret hQ hc fun d hd ↦ ⟨hD' u d hd.1.vale hd.1.enviadas hd.1.recibidas hd.2,
    .inr ⟨u, _, rfl, ?_, hd.2, hd.1⟩⟩
  rw [List.take_left' (by rw [List.length_take]; omega), ← List.take_take,
    List.take_of_length_le (l := u) le_rfl]

end

end BmoX.Red
