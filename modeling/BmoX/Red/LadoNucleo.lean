import BmoX.Red.Indices

/-!
# The kernel's side among what the process does

`sacar` and `meter` of `platform/shared/bmo-puerta-red/src/buzon.rs:206–259`, one read or write at
a time, while the process makes its calls.
-/

namespace BmoX.Red

open BmoX.Base

/-- What the kernel knows between its reads and writes: its own counters, whole in the mailbox. -/
structure SabeNucleo (L : Nat) (ms : List Bytes) (s : Estado) : Prop where
  vale : Vale s
  sacadas : s.2.sacadas = L
  metidas : s.2.metidas = ms
  txLeido : Palabra s.1.byte Campo.txLeido L
  rxEscrito : Palabra s.1.byte Campo.rxEscrito ms.length

section

variable {L : Nat} {ms : List Bytes} {s t : Estado}

theorem SabeNucleo.stable : deNucleo.Stable (SabeNucleo L ms) := fun s t hst h ↦
  ⟨hst.vale h.vale, hst.sacadas.trans h.sacadas, hst.metidas.trans h.metidas,
    fun k hk ↦ (hst.byte _ (.inl (by simp only [Campo.txLeido, Campo.rxLeido]; omega))).trans
      (h.txLeido k hk),
    fun k hk ↦ (hst.byte _
      (.inl (by simp only [Campo.txLeido, Campo.rxEscrito, Campo.rxLeido]; omega))).trans
      (h.rxEscrito k hk)⟩

private theorem cambiaNucleo_lee (s : Estado) (off : Nat) :
    CambiaNucleo s ((maneja .nucleo (.leer8 off) s.1).2, s.2) :=
  ⟨fun h ↦ h.congr rfl rfl rfl, rfl, rfl, le_rfl, List.prefix_refl _, fun _ _ ↦ rfl, rfl, rfl,
    fun _ ↦ rfl⟩

theorem SabeNucleo.lee (h : SabeNucleo L ms s) (off : Nat) :
    SabeNucleo L ms ((maneja .nucleo (.leer8 off) s.1).2, s.2) :=
  ⟨h.vale.congr rfl rfl rfl, h.sacadas, h.metidas, h.txLeido, h.rxEscrito⟩

theorem SabeNucleo.tranquila : Tranquila deNucleo .nucleo (SabeNucleo L ms) :=
  ⟨SabeNucleo.stable, fun s off h ↦ ⟨cambiaNucleo_lee s off, h.lee off⟩⟩

/-- A write of the kernel that is neither on an index nor on a frame to be read. -/
theorem SabeNucleo.escribe (h : SabeNucleo L ms s) (off : Nat) (v : UInt8)
    (hfuera : Campo.rxSecuencia ≤ off ∧ off < cabecera ∨
      casillaRx ms.length ≤ off ∧ off < casillaRx ms.length + casilla ∧
        ms.length < s.2.recibidas + casillas) :
    let m := (maneja .nucleo (.escribir8 off v) s.1).2
    CambiaNucleo s (m, s.2) ∧ SabeNucleo L ms (m, s.2) := by
  intro m
  have hrx := casillaRx_entre ms.length
  have hcab : casillaRx 0 = 12352 := rfl
  have hmenos : Campo.rxSecuencia ≤ off ∧ (off < cabecera ∨ casillaRx 0 ≤ off) := by
    simp only [Campo.rxSecuencia, cabecera] at hfuera ⊢
    omega
  have hotro : ∀ o, o < Campo.rxSecuencia ∨ cabecera ≤ o ∧ o < casillaRx 0 →
      m.byte o = s.1.byte o := by
    intro o ho
    apply Function.update_of_ne
    simp only [Campo.rxSecuencia, cabecera] at *
    omega
  have hindice : ∀ w k, w + k < Campo.rxSecuencia → m.byte (w + k) = s.1.byte (w + k) :=
    fun w k hk ↦ hotro _ (.inl hk)
  have hesc : m.escribiendo = s.1.escribiendo := by
    simp only [m, maneja]
    rw [avanza_fuera (.inr hmenos.1), Function.update_eq_self]
  have hind : ∀ i w n, w + 3 < Campo.rxSecuencia → Indice s.1 i w n → Indice m i w n := by
    intro i w n hw hi
    refine ⟨(hindice w 0 (by omega)).trans hi.1, ?_⟩
    rw [hesc]
    exact hi.2.imp_left fun hp k hk ↦ (hindice w k (by omega)).trans (hp k hk)
  have hvale : Vale (m, s.2) := by
    have hv := h.vale
    refine ⟨hv.ordenTx, hv.cabenTx, hv.ordenRx, hv.cabenRx, hind _ _ _ (by decide) hv.txEscrito,
      (hindice Campo.txLeido 0 (by decide)).trans hv.txLeido, hind _ _ _ (by decide) hv.rxEscrito,
      hind _ _ _ (by decide) hv.rxLeido, fun k u hk hu ↦ ?_, fun k u hk hu ↦ ?_, hv.largasTx,
      hv.largasRx⟩
    · have hlargo := hv.largasTx u (List.mem_of_getElem? hu)
      have htx := casillaTx_entre k
      refine (hv.tx k u hk hu).congr fun o h1 h2 ↦ hotro o (.inr ?_)
      simp only [cabecera, casilla, tramaMaxima] at *
      omega
    · have hlargo := hv.largasRx u (List.mem_of_getElem? hu)
      have hk' : k < s.2.metidas.length := (List.getElem?_eq_some_iff.mp hu).1
      rw [h.metidas] at hk'
      refine (hv.rx k u hk hu).congr fun o h1 h2 ↦ ?_
      apply Function.update_of_ne
      have hrk := casillaRx_entre k
      rintro rfl
      rcases hfuera with hf | ⟨hf1, hf2, hf3⟩
      · simp only [cabecera] at *
        omega
      · have hne : ms.length % casillas ≠ k % casillas := by
          simp only [casillas] at *
          omega
        have := casillaRx_aparte hne hf1 hf2
        simp only [casilla, tramaMaxima] at *
        omega
  refine ⟨⟨fun _ ↦ hvale, rfl, rfl, le_rfl, List.prefix_refl _, fun o ho ↦ hotro o ?_, rfl, ?_,
    fun _ ↦ rfl⟩, hvale, h.sacadas, h.metidas,
    fun k hk ↦ (hindice _ k (by simp only [Campo.txLeido, Campo.rxSecuencia]; omega)).trans
      (h.txLeido k hk),
    fun k hk ↦ (hindice _ k (by simp only [Campo.rxEscrito, Campo.rxSecuencia]; omega)).trans
      (h.rxEscrito k hk)⟩
  · simp only [Campo.txEscrito, Campo.txLeido, Campo.rxLeido, Campo.rxSecuencia, cabecera] at ho ⊢
    omega
  · exact congrFun hesc _

/-- The mailbox still says what the book says when the kernel moves one of its counters. -/
theorem Vale.mueveNucleo {m : Mundo} {g : Libro} (h : Vale s)
    (hb : ∀ off, off < Campo.txLeido ∨ Campo.rxLeido ≤ off → m.byte off = s.1.byte off)
    (he : m.escribiendo .proceso = s.1.escribiendo .proceso)
    (henv : g.enviadas = s.2.enviadas) (hrec : g.recibidas = s.2.recibidas)
    (hsac : s.2.sacadas ≤ g.sacadas) (hsac' : g.sacadas ≤ s.2.enviadas.length)
    (hmet : g.recibidas ≤ g.metidas.length) (hmet' : g.metidas.length ≤ g.recibidas + casillas)
    (htx : m.byte Campo.txLeido = UInt8.ofNat g.sacadas)
    (hrx : Indice m .nucleo Campo.rxEscrito g.metidas.length)
    (hcas : ∀ k u, g.recibidas ≤ k → g.metidas[k]? = some u → Lleva s.1.byte (casillaRx k) u)
    (hlar : ∀ u ∈ g.metidas, u.length ≤ tramaMaxima) : Vale (m, g) := by
  have hind : ∀ w n, w + 3 < Campo.txLeido ∨ Campo.rxLeido ≤ w → Indice s.1 .proceso w n →
      Indice m .proceso w n := by
    intro w n hw hi
    refine ⟨(hb w (by omega)).trans hi.1, ?_⟩
    rw [he]
    exact hi.2.imp_left fun hp k hk ↦ (hb _ (by omega)).trans (hp k hk)
  have hslot : ∀ base u, cabecera ≤ base → Lleva s.1.byte base u → Lleva m.byte base u :=
    fun base u hbase hl ↦ hl.congr fun o h1 _ ↦ hb o (.inr (by
      simp only [Campo.rxLeido, cabecera] at *
      omega))
  refine ⟨?_, ?_, hmet, hmet', ?_, htx, hrx, ?_, fun k u hk hu ↦ ?_, fun k u hk hu ↦ ?_, ?_, hlar⟩
  · rw [henv]
    exact hsac'
  · rw [henv]
    exact h.cabenTx.trans (Nat.add_le_add_right hsac _)
  · rw [henv]
    exact hind _ _ (.inl (by decide)) h.txEscrito
  · rw [hrec]
    exact hind _ _ (.inr le_rfl) h.rxLeido
  · rw [henv] at hu
    exact hslot _ _ (casillaTx_entre k).1 (h.tx k u (hsac.trans hk) hu)
  · have hcas := hcas k u hk hu
    exact hslot _ _ (le_trans (by decide) (casillaRx_entre k).1) hcas
  · rw [henv]
    exact h.largasTx

/-- What the kernel changes when it moves one of its counters. -/
theorem CambiaNucleo.mueve {m : Mundo} {g : Libro} (hv : Vale (m, g))
    (hb : ∀ off, off < Campo.txLeido ∨ Campo.rxLeido ≤ off → m.byte off = s.1.byte off)
    (he : m.escribiendo .proceso = s.1.escribiendo .proceso)
    (hley : m.leyendo = s.1.leyendo) (henv : g.enviadas = s.2.enviadas)
    (hrec : g.recibidas = s.2.recibidas) (hsac : s.2.sacadas ≤ g.sacadas)
    (hmet : s.2.metidas <+: g.metidas)
    (hentero : s.1.leyendo .proceso = some Campo.rxEscrito →
      g.metidas.length / 256 = s.2.metidas.length / 256) : CambiaNucleo s (m, g) := by
  refine ⟨fun _ ↦ hv, henv, hrec, hsac, hmet, fun off ho ↦ hb off ?_, congrFun hley _, he, hentero⟩
  simp only [Campo.txEscrito, Campo.txLeido, Campo.rxLeido, Campo.rxSecuencia, cabecera] at ho ⊢
  omega

/-! ### Taking a frame out -/

/-- The kernel among the bytes of the frame that is next. -/
structure Saca (L : Nat) (ms : List Bytes) (u : Bytes) (s : Estado) : Prop where
  sabe : SabeNucleo L ms s
  trama : s.2.enviadas[L]? = some u

theorem Saca.stable {u : Bytes} : deNucleo.Stable (Saca L ms u) := fun s t hst h ↦
  ⟨SabeNucleo.stable s t hst h.sabe, by
    obtain ⟨l, hl⟩ := hst.enviadas
    rw [← hl, List.getElem?_append_left (List.getElem?_eq_some_iff.mp h.trama).1]
    exact h.trama⟩

theorem Saca.lleva {u : Bytes} (h : Saca L ms u s) : Lleva s.1.byte (casillaTx L) u :=
  h.sabe.vale.tx L u h.sabe.sacadas.le h.trama

theorem Saca.largo {u : Bytes} (h : Saca L ms u s) : u.length ≤ tramaMaxima :=
  h.sabe.vale.largasTx u (List.mem_of_getElem? h.trama)

/-- Reading the length of the frame marks its bytes as still to be copied. -/
theorem lee_largo {u : Bytes} {D : Estado → Prop} (hD : ∀ s, SabeNucleo L ms s → D s)
    (hs : Saca L ms u s) :
    deNucleo.Keeps D (fun x t ↦ x.toNat = u.length ∧ Saca L ms u t ∧
      t.1.copia = (casillaTx L + 2, casillaTx L + 2 + u.length)) (leer16 (casillaTx L)) s := by
  rw [leer16_eq]
  have hP : deNucleo.Stable fun t ↦ Saca L ms u t ∧
      t.1.copia = (casillaTx L + 2, casillaTx L + 2 + u.length) :=
    fun a b hab h ↦ ⟨Saca.stable a b hab h.1, hab.copia.trans h.2⟩
  refine (keeps_copiar (fun bs t ↦ Saca L ms u t ∧ bs = (leBytes 2 u.length).take bs.length ∧
    (bs.length = 2 → t.1.copia = (casillaTx L + 2, casillaTx L + 2 + u.length)))
    (fun bs a b hab h ↦ ⟨Saca.stable a b hab h.1, h.2.1, fun hl ↦ hab.copia.trans (h.2.2 hl)⟩)
    (fun _ t h ↦ hD t h.1.sabe) ?_ ⟨hs, rfl, fun h ↦ by cases h⟩).bind ?_
  · rintro bs t hl ⟨ht, hbs, -⟩ -
    refine ⟨_, _, _, rfl, cambiaNucleo_lee t _, ⟨ht.sabe.lee _, ht.trama⟩, ?_, fun h2 ↦ ?_⟩
    · rw [List.length_append, List.length_singleton, take_leBytes_succ hl, ← hbs]
      have : bs.length = 0 ∨ bs.length = 1 := by omega
      rcases this with h | h <;> rw [h]
      · exact congrArg (bs ++ [·]) (by simpa using ht.lleva.bajo)
      · exact congrArg (bs ++ [·]) (by simpa using ht.lleva.alto)
    · have h1 : bs.length = 1 := by simpa using h2
      have hcas := casillaTx_entre L
      simp only [h1, if_true, quedan]
      rw [if_pos, Nat.add_sub_cancel, ht.lleva.bajo, ht.lleva.alto, leNat, leNat, leNat,
        UInt8.toNat_ofNat', UInt8.toNat_ofNat']
      · have := ht.largo
        simp only [tramaMaxima] at this
        congr 1
        omega
      · simp only [casillaTx, cabecera, casilla, casillas] at hcas ⊢
        omega
  · rintro bs t ⟨hl, ht, hbs, hc⟩
    refine Role.Keeps.ret hP ⟨ht, hc hl⟩ fun v hv ↦ ⟨hD v hv.1.sabe, ?_, hv⟩
    have := ht.largo
    simp only [tramaMaxima] at this
    rw [hbs, hl, List.take_of_length_le (by simp), u16De_leBytes, UInt16.toNat_ofNat']
    omega

/-- The kernel copying a frame that it has already let go. -/
structure Copia (L : Nat) (ms : List Bytes) (u : Bytes) (k : Nat) (s : Estado) : Prop where
  vale : Vale s
  sacadas : s.2.sacadas = L + 1
  metidas : s.2.metidas = ms
  trama : s.2.enviadas[L]? = some u
  rxEscrito : Palabra s.1.byte Campo.rxEscrito ms.length
  copia : s.1.copia = (casillaTx L + 2 + k, casillaTx L + 2 + u.length)
  byte : ∀ j v, k ≤ j → u[j]? = some v → s.1.byte (casillaTx L + 2 + j) = v

theorem Copia.stable {u : Bytes} {k : Nat} : deNucleo.Stable (Copia L ms u k) := fun s t hst h ↦ by
  refine ⟨hst.vale h.vale, hst.sacadas.trans h.sacadas, hst.metidas.trans h.metidas, ?_, ?_,
    hst.copia.trans h.copia, fun j v hj hv ↦ ?_⟩
  · obtain ⟨l, hl⟩ := hst.enviadas
    rw [← hl, List.getElem?_append_left (List.getElem?_eq_some_iff.mp h.trama).1]
    exact h.trama
  · exact fun k hk ↦ (hst.byte _
      (.inl (by simp only [Campo.txLeido, Campo.rxEscrito, Campo.rxLeido]; omega))).trans
      (h.rxEscrito k hk)
  · have hlt := (List.getElem?_eq_some_iff.mp hv).1
    rw [hst.porCopiar _ (by rw [h.copia]; simp only; omega) (by rw [h.copia]; simp only; omega)]
    exact h.byte j v hj hv

/-- The frame is let go: its number is published and only its bytes remain to be copied. -/
theorem publica_txLeido {u : Bytes} {D : Estado → Prop} (hD : ∀ s, SabeNucleo L ms s → D s)
    (hD' : ∀ k s, Copia L ms u k s → D s)
    (hs : Saca L ms u s ∧ s.1.copia = (casillaTx L + 2, casillaTx L + 2 + u.length)) :
    deNucleo.Keeps D (fun _ t ↦ Copia L ms u 0 t ∧ Palabra t.1.byte Campo.txLeido (L + 1))
      (escribir32 Campo.txLeido (UInt32.ofNat (L + 1))) s := by
  have hP : deNucleo.Stable fun t ↦ Saca L ms u t ∧
      t.1.copia = (casillaTx L + 2, casillaTx L + 2 + u.length) :=
    fun a b hab h ↦ ⟨Saca.stable a b hab h.1, hab.copia.trans h.2⟩
  have hcas := casillaTx_entre L
  refine publica (fun g ↦ { g with sacadas := L + 1 }) rfl (.inr rfl) ?_ hP Copia.stable
    (fun t h ↦ hD t h.1.sabe) (hD' 0) hs.1.sabe.txLeido ?_ ?_ hs
  · exact fun a b hab ↦ ⟨fun j hj ↦ hab.byte _ (.inl (by
      simp only [Campo.txLeido, Campo.rxLeido]; omega)), hab.escribiendo⟩
  · rintro t m ⟨ht, hc⟩ - rfl hmez
    have hb : ∀ off, off < Campo.txLeido ∨ Campo.rxLeido ≤ off →
        (maneja .nucleo (.escribir8 Campo.txLeido (UInt8.ofNat (L + 1))) t.1).2.byte off =
          t.1.byte off := by
      intro off ho
      apply Function.update_of_ne
      simp only [Campo.txLeido, Campo.rxLeido] at *
      omega
    have hpal : Palabra (maneja .nucleo (.escribir8 Campo.txLeido (UInt8.ofNat (L + 1))) t.1).2.byte
        Campo.rxEscrito ms.length := by
      intro k hk
      rw [← ht.sabe.rxEscrito k hk]
      apply Function.update_of_ne
      simp only [Campo.txLeido, Campo.rxEscrito]
      omega
    have hL : L < t.2.enviadas.length := (List.getElem?_eq_some_iff.mp ht.trama).1
    have hsac := ht.sabe.sacadas
    have hv := ht.sabe.vale
    have hvale := hv.mueveNucleo (g := { t.2 with sacadas := L + 1 }) hb rfl rfl rfl
      (by simp only; omega) hL hv.ordenRx hv.cabenRx (by simpa using hmez.nuevos 0 (by decide) (by decide))
      (by rw [ht.sabe.metidas]; exact ⟨by simpa using hpal 0 (by decide), .inl hpal⟩) hv.rx hv.largasRx
    refine ⟨.mueve hvale hb rfl rfl rfl rfl (by simp only; omega) (List.prefix_refl _) fun _ ↦ rfl,
      hvale, rfl, ht.sabe.metidas, ht.trama, hpal, hc, fun j v _ hj ↦ ?_⟩
    rw [← ht.lleva.byte hj]
    refine hb _ (.inr ?_)
    simp only [Campo.rxLeido, cabecera] at *
    omega
  · rintro k v t m hk hk4 ht - rfl hmez
    have hb : ∀ off, off < Campo.txLeido + 1 ∨ Campo.rxEscrito ≤ off →
        (maneja .nucleo (.escribir8 (Campo.txLeido + k) v) t.1).2.byte off = t.1.byte off := by
      intro off ho
      apply Function.update_of_ne
      simp only [Campo.txLeido, Campo.rxEscrito] at *
      omega
    have hb' : ∀ off, off < Campo.txLeido ∨ Campo.rxLeido ≤ off →
        (maneja .nucleo (.escribir8 (Campo.txLeido + k) v) t.1).2.byte off = t.1.byte off :=
      fun off ho ↦ hb off (by simp only [Campo.txLeido, Campo.rxLeido, Campo.rxEscrito] at *; omega)
    have hpal : Palabra (maneja .nucleo (.escribir8 (Campo.txLeido + k) v) t.1).2.byte
        Campo.rxEscrito ms.length :=
      fun j hj ↦ (hb _ (.inr (by omega))).trans (ht.rxEscrito j hj)
    have hv := ht.vale
    have hvale := hv.mueveNucleo (m := (maneja .nucleo (.escribir8 (Campo.txLeido + k) v) t.1).2)
      (g := t.2) hb' rfl rfl rfl le_rfl hv.ordenTx hv.ordenRx hv.cabenRx
      ((hb _ (.inl (by omega))).trans hv.txLeido)
      (by rw [ht.metidas]; exact ⟨by simpa using hpal 0 (by decide), .inl hpal⟩) hv.rx hv.largasRx
    refine ⟨.mueve hvale hb' rfl rfl rfl rfl le_rfl (List.prefix_refl _) fun _ ↦ rfl, hvale,
      ht.sacadas, ht.metidas, ht.trama, hpal, ht.copia, fun j v hj hj' ↦ ?_⟩
    rw [← ht.byte j v hj hj']
    refine hb _ (.inr ?_)
    simp only [Campo.rxEscrito, cabecera] at *
    omega

/-- The bytes of the frame are copied one by one, as they were when the kernel read its length. -/
theorem copia_trama {u : Bytes} {D : Estado → Prop} (hD : ∀ k s, Copia L ms u k s → D s)
    (hs : Copia L ms u 0 s ∧ Palabra s.1.byte Campo.txLeido (L + 1)) :
    deNucleo.Keeps D (fun bs t ↦ bs = u ∧ SabeNucleo (L + 1) ms t ∧ t.2.enviadas[L]? = some u)
      (copiar (casillaTx L + 2) u.length) s := by
  have hpal : ∀ a b, CambiaProceso a b → Palabra a.1.byte Campo.txLeido (L + 1) →
      Palabra b.1.byte Campo.txLeido (L + 1) := fun a b hab h k hk ↦
    (hab.byte _ (.inl (by simp only [Campo.txLeido, Campo.rxLeido]; omega))).trans (h k hk)
  refine (keeps_copiar (fun bs t ↦ bs = u.take bs.length ∧ Copia L ms u bs.length t ∧
    Palabra t.1.byte Campo.txLeido (L + 1))
    (fun bs a b hab h ↦ ⟨h.1, Copia.stable a b hab h.2.1, hpal a b hab h.2.2⟩)
    (fun bs t h ↦ hD _ t h.2.1) ?_ ⟨rfl, hs.1, hs.2⟩).mono (fun _ h ↦ h) ?_
  · rintro bs t hl ⟨hbs, ht, hp⟩ -
    have hcas := casillaTx_entre L
    have hu := ht.vale.largasTx u (List.mem_of_getElem? ht.trama)
    have hv : u[bs.length]? = some u[bs.length] := List.getElem?_eq_getElem hl
    refine ⟨_, _, _, rfl, cambiaNucleo_lee t _, ?_, ⟨ht.vale.congr rfl rfl rfl, ht.sacadas, ht.metidas,
      ht.trama, ht.rxEscrito, ?_, fun j v hj hj' ↦ ?_⟩, hp⟩
    · rw [List.length_append, List.length_singleton, List.take_add_one, ← hbs, hv,
        ht.byte _ _ le_rfl hv, Option.toList_some]
    · simp only [if_true, quedan, ht.copia]
      rw [if_neg, List.length_append, List.length_singleton, Nat.add_assoc _ _ 1]
      simp only [casillaTx, casillaRx, cabecera, casilla, casillas, tramaMaxima] at *
      omega
    · rw [List.length_append, List.length_singleton] at hj
      exact ht.byte j v (by omega) hj'
  · rintro bs t ⟨hl, hbs, ht, hp⟩
    rw [hl, List.take_length] at hbs
    exact ⟨hbs, ⟨ht.vale, ht.sacadas, ht.metidas, hp, ht.rxEscrito⟩, ht.trama⟩

/-- `sacar` takes out the next frame announced, whole, or says that there was none. -/
theorem sacar_keeps {tam : Nat} {l : Lado} {D : Estado → Prop} (htam : bytes ≤ tam)
    (hl : l.txLeido = UInt32.ofNat L) (dst : Arr tramaMaxima)
    (hD : ∀ s, SabeNucleo L ms s → D s) (hD' : ∀ u k s, Copia L ms u k s → D s)
    (hD'' : ∀ s, SabeNucleo (L + 1) ms s → s.2.enviadas[L]?.isSome → D s)
    (hs : SabeNucleo L ms s) :
    deNucleo.Keeps D (fun r t ↦ (r = (.ok none, l, dst.1) ∧ SabeNucleo L ms t) ∨
      ∃ u resto, r = (.ok (some u.length),
          { l with txLeido := UInt32.ofNat (L + 1), sacadas := l.sacadas + 1 }, u ++ resto) ∧
        t.2.enviadas[L]? = some u ∧ SabeNucleo (L + 1) ms t) (l.sacar tam dst.1) s := by
  rw [Lado.sacar, if_neg (by omega)]
  refine (lee_indice (c := fun g ↦ g.enviadas.length) rfl rfl (.inl rfl) SabeNucleo.tranquila hD
    (fun t h ↦ h.vale.txEscrito) (fun a b _ hab ↦ ⟨hab.enviadas.length_le, hab.leyendo,
      hab.enteroTx⟩) hs).bind ?_
  rintro x t ⟨ht, n, h1, h2, rfl⟩
  have hsac := ht.sacadas
  have horden := hs.vale.ordenTx
  rw [hs.sacadas] at horden
  have hcaben := ht.vale.cabenTx
  rw [hsac] at hcaben
  have hpend : (UInt32.ofNat n - l.txLeido).toNat = n - L := by
    rw [hl]
    exact toNat_ofNat_sub (by omega) (h2.trans hcaben)
  simp only [hpend]
  split
  · exact Role.Keeps.ret SabeNucleo.stable ht fun u hu ↦ ⟨hD u hu, .inl ⟨rfl, hu⟩⟩
  next hne =>
  rw [if_neg (by omega)]
  obtain ⟨u, hu⟩ : ∃ u, t.2.enviadas[L]? = some u := by
    rw [← Option.isSome_iff_exists, isSome_getElem?]
    omega
  have hbase : casillaTx l.txLeido.toNat = casillaTx L := by rw [hl, casillaTx_ofNat]
  have hsig : l.txLeido + 1 = UInt32.ofNat (L + 1) := by rw [hl, UInt32.ofNat_add]; rfl
  rw [hbase, hsig]
  refine (lee_largo hD ⟨ht, hu⟩).bind ?_
  rintro x v ⟨hx, hv⟩
  simp only [hx]
  refine (publica_txLeido hD (fun k s ↦ hD' u k s) hv).bind fun _ w hw ↦ ?_
  have hlargo := hw.1.vale.largasTx u (List.mem_of_getElem? hw.1.trama)
  rw [if_neg (by rw [Arr.length_val]; omega)]
  refine (copia_trama (fun k s ↦ hD' u k s) hw).bind ?_
  rintro bs z ⟨rfl, hz⟩
  have hP : deNucleo.Stable fun t ↦ SabeNucleo (L + 1) ms t ∧ t.2.enviadas[L]? = some bs := by
    intro a b hab h
    refine ⟨SabeNucleo.stable a b hab h.1, ?_⟩
    obtain ⟨e, he⟩ := hab.enviadas
    rw [← he, List.getElem?_append_left (List.getElem?_eq_some_iff.mp h.2).1]
    exact h.2
  refine Role.Keeps.ret hP hz fun v hv ↦ ⟨hD'' v hv.1 (by rw [hv.2]; rfl), .inr ⟨bs, _, rfl, hv.2, hv.1⟩⟩

/-! ### Putting a frame in -/

/-- Room for one more frame to the process, which only grows. -/
structure Cabe (L : Nat) (ms : List Bytes) (s : Estado) : Prop where
  sabe : SabeNucleo L ms s
  cabe : ms.length < s.2.recibidas + casillas

theorem Cabe.stable : deNucleo.Stable (Cabe L ms) := fun s t hst h ↦
  ⟨SabeNucleo.stable s t hst h.sabe, h.cabe.trans_le (Nat.add_le_add_right hst.recibidas _)⟩

private theorem escribe_casilla {b : Bytes} {o : Nat} {D : Estado → Prop} {F : Memory → Prop}
    (hD : ∀ s, SabeNucleo L ms s → D s)
    (hF : ∀ m m' : Memory, (∀ off, casillaRx ms.length ≤ off → off < casillaRx ms.length + o →
      m' off = m off) → F m → F m') (ho : o + b.length ≤ casilla)
    (hs : Cabe L ms s) (hf : F s.1.byte) :
    deNucleo.Keeps D (fun _ t ↦ Cabe L ms t ∧ F t.1.byte ∧
      ∀ j v, b[j]? = some v → t.1.byte (casillaRx ms.length + o + j) = v)
      (escribirBytes (casillaRx ms.length + o) b) s := by
  have hcas := casillaRx_entre ms.length
  refine keeps_bloque (fun t u htu h ↦ ⟨Cabe.stable t u htu h,
    fun off h1 _ ↦ htu.byte off (.inr (hcas.1.trans h1))⟩) hF (fun t h ↦ hD t h.sabe)
    (fun k v t hk ht _ ↦ ?_) hs hf
  obtain ⟨hg, hsabe⟩ := ht.sabe.escribe (casillaRx ms.length + o + k) v
    (.inr ⟨by omega, by omega, ht.cabe⟩)
  exact ⟨_, _, rfl, hg, ⟨hsabe, ht.cabe⟩, rfl⟩

/-- The frame is announced. -/
theorem publica_rxEscrito {u : Bytes} {D : Estado → Prop} (hD : ∀ s, SabeNucleo L ms s → D s)
    (hD' : ∀ s, Vale s → s.2.sacadas = L → s.2.metidas = ms ++ [u] → D s)
    (hu : u.length ≤ tramaMaxima)
    (hs : Cabe L ms s ∧ Lleva s.1.byte (casillaRx ms.length) u) :
    deNucleo.Keeps D (fun _ t ↦ SabeNucleo L (ms ++ [u]) t)
      (escribir32 Campo.rxEscrito (UInt32.ofNat (ms.length + 1))) s := by
  have hcas := casillaRx_entre ms.length
  have hlle : ∀ a b, CambiaProceso a b → Lleva a.1.byte (casillaRx ms.length) u →
      Lleva b.1.byte (casillaRx ms.length) u := fun a b hab h ↦
    h.congr fun off h1 _ ↦ hab.byte off (.inr (hcas.1.trans h1))
  have htxl : ∀ a b, CambiaProceso a b → Palabra a.1.byte Campo.txLeido L →
      Palabra b.1.byte Campo.txLeido L := fun a b hab h k hk ↦
    (hab.byte _ (.inl (by simp only [Campo.txLeido, Campo.rxLeido]; omega))).trans (h k hk)
  refine (publica (K := fun t ↦ Cabe L ms t ∧ Lleva t.1.byte (casillaRx ms.length) u)
    (N := fun t ↦ Vale t ∧ t.2.sacadas = L ∧ t.2.metidas = ms ++ [u] ∧
      Palabra t.1.byte Campo.txLeido L)
    (fun g ↦ { g with metidas := ms ++ [u] }) rfl (.inl (.inr (.inl rfl))) ?_
    (fun a b hab h ↦ ⟨Cabe.stable a b hab h.1, hlle a b hab h.2⟩)
    (fun a b hab h ↦ ⟨hab.vale h.1, hab.sacadas.trans h.2.1, hab.metidas.trans h.2.2.1,
      htxl a b hab h.2.2.2⟩)
    (fun t h ↦ hD t h.1.sabe) (fun t h ↦ hD' t h.1 h.2.1 h.2.2.1) hs.1.sabe.rxEscrito ?_ ?_
    hs).mono (fun _ h ↦ h) fun _ t h ↦ ?_
  · exact fun a b hab ↦ ⟨fun j hj ↦ hab.byte _ (.inl (by
      simp only [Campo.txLeido, Campo.rxEscrito, Campo.rxLeido]; omega)), hab.escribiendo⟩
  · rintro t m ⟨ht, hll⟩ hallow rfl hmez
    have hv := ht.sabe.vale
    have hb : ∀ off, off < Campo.rxEscrito ∨ Campo.rxLeido ≤ off →
        (maneja .nucleo (.escribir8 Campo.rxEscrito (UInt8.ofNat (ms.length + 1))) t.1).2.byte off =
          t.1.byte off := by
      intro off ho
      apply Function.update_of_ne
      simp only [Campo.rxEscrito, Campo.rxLeido] at *
      omega
    have hb' : ∀ off, off < Campo.txLeido ∨ Campo.rxLeido ≤ off →
        (maneja .nucleo (.escribir8 Campo.rxEscrito (UInt8.ofNat (ms.length + 1))) t.1).2.byte off =
          t.1.byte off :=
      fun off ho ↦ hb off (by simp only [Campo.txLeido, Campo.rxLeido, Campo.rxEscrito] at *; omega)
    have hlen : (ms ++ [u]).length = ms.length + 1 := by simp
    have hrecM : t.2.recibidas ≤ ms.length := by
      rw [← ht.sabe.metidas]
      exact hv.ordenRx
    have hvale := hv.mueveNucleo (g := { t.2 with metidas := ms ++ [u] }) hb' rfl rfl rfl le_rfl
      hv.ordenTx (by rw [hlen]; exact hrecM.trans (Nat.le_succ _)) (by rw [hlen]; exact ht.cabe)
      ((hb _ (.inl (by decide))).trans hv.txLeido) (by rw [hlen]; exact hmez.indice Nat.one_pos)
      (fun k w hk hw ↦ ?_) fun w hw ↦ ?_
    · refine ⟨.mueve hvale hb' rfl rfl rfl rfl le_rfl ⟨[u], by rw [ht.sabe.metidas]⟩ fun hley ↦ ?_,
        hvale, ht.sabe.sacadas, rfl, fun k hk ↦ ?_⟩
      · rw [ht.sabe.metidas, hlen]
        have hno : ¬(ms.length + 1) % 256 = 0 := fun h0 ↦
          hallow.1 ⟨.inr (.inl rfl), ofNat_eq_zero.mpr h0⟩ hley
        omega
      · rw [← ht.sabe.txLeido k hk]
        exact hb _ (.inl (by simp only [Campo.txLeido, Campo.rxEscrito]; omega))
    · obtain hw | ⟨rfl, rfl⟩ := getElem?_concat hw
      · exact hv.rx k w hk (by rwa [ht.sabe.metidas])
      · exact hll
    · rcases List.mem_append.mp hw with hw | hw
      · exact hv.largasRx w (by rwa [ht.sabe.metidas])
      · cases List.mem_singleton.mp hw
        exact hu
  · rintro k v t m hk hk4 ⟨hv, hsac, hmet, htx⟩ - rfl hmez
    have hb : ∀ off, off < Campo.rxEscrito ∨ Campo.rxLeido ≤ off →
        (maneja .nucleo (.escribir8 (Campo.rxEscrito + k) v) t.1).2.byte off = t.1.byte off := by
      intro off ho
      apply Function.update_of_ne
      simp only [Campo.rxEscrito, Campo.rxLeido] at *
      omega
    have hb' : ∀ off, off < Campo.txLeido ∨ Campo.rxLeido ≤ off →
        (maneja .nucleo (.escribir8 (Campo.rxEscrito + k) v) t.1).2.byte off = t.1.byte off :=
      fun off ho ↦ hb off (by simp only [Campo.txLeido, Campo.rxLeido, Campo.rxEscrito] at *; omega)
    have hlen : t.2.metidas.length = ms.length + 1 := by simp [hmet]
    have hvale := hv.mueveNucleo (m := (maneja .nucleo (.escribir8 (Campo.rxEscrito + k) v) t.1).2)
      (g := t.2) hb' rfl rfl rfl le_rfl hv.ordenTx hv.ordenRx hv.cabenRx
      ((hb _ (.inl (by decide))).trans hv.txLeido)
      (by rw [hlen]; exact hmez.indice (Nat.succ_pos _)) hv.rx hv.largasRx
    refine ⟨.mueve hvale hb' rfl rfl rfl rfl le_rfl (List.prefix_refl _) fun _ ↦ rfl, hvale, hsac,
      hmet, fun j hj ↦ ?_⟩
    rw [← htx j hj]
    exact hb _ (.inl (by simp only [Campo.txLeido, Campo.rxEscrito]; omega))
  · obtain ⟨⟨hv, hsac, hmet, htx⟩, hp⟩ := h
    exact ⟨hv, hsac, hmet, htx, by simpa using hp⟩

private theorem escribe_cabecera {b : Bytes} {o : Nat} {D : Estado → Prop}
    (hD : ∀ s, SabeNucleo L ms s → D s) (ho : Campo.rxSecuencia ≤ o)
    (ho' : o + b.length ≤ cabecera) (hs : SabeNucleo L ms s) :
    deNucleo.Keeps D (fun _ t ↦ SabeNucleo L ms t) (escribirBytes o b) s := by
  refine keeps_escribirBytes (fun _ ↦ SabeNucleo L ms) (fun _ ↦ SabeNucleo.stable) (fun _ ↦ hD) ?_ hs
  rintro k v t hv ht -
  have hk := (List.getElem?_eq_some_iff.mp hv).1
  exact ⟨_, _, rfl, ht.escribe _ v (.inl (by omega))⟩

/-- `meter` leaves a frame for the process, or says that it does not fit. -/
theorem meter_keeps {tam : Nat} {l : Lado} {D : Estado → Prop} (htam : bytes ≤ tam) {u : Bytes}
    (hl : l.rxEscrito = UInt32.ofNat ms.length)
    (hD : ∀ s, SabeNucleo L ms s → D s)
    (hD' : ∀ s, Vale s → s.2.sacadas = L → s.2.metidas = ms ++ [u] → D s)
    (hs : SabeNucleo L ms s) :
    deNucleo.Keeps D (fun r t ↦ r.2.txLeido = l.txLeido ∧
      (r.1 = .ok false ∧ r.2.rxEscrito = l.rxEscrito ∧ SabeNucleo L ms t ∨
        r.1 = .ok true ∧ r.2.rxEscrito = UInt32.ofNat (ms.length + 1) ∧
          SabeNucleo L (ms ++ [u]) t)) (l.meter tam u) s := by
  rw [Lado.meter, if_neg (by omega)]
  refine (lee_indice (c := fun g ↦ g.recibidas) rfl rfl (.inr (.inr rfl)) SabeNucleo.tranquila hD
    (fun t h ↦ h.vale.rxLeido) (fun a b _ hab ↦ ⟨hab.recibidas, hab.leyendo, hab.enteroRx⟩)
    hs).bind ?_
  rintro x t ⟨ht, n, h1, h2, rfl⟩
  have horden := ht.vale.ordenRx
  have hcaben := hs.vale.cabenRx
  rw [ht.metidas] at horden
  rw [hs.metidas] at hcaben
  have hocu : (l.rxEscrito - UInt32.ofNat n).toNat = ms.length - n := by
    rw [hl]
    exact toNat_ofNat_sub (h2.trans horden) (hcaben.trans (Nat.add_le_add_right h1 _))
  simp only [hocu]
  rw [if_neg (by omega)]
  split
  · refine (escribe_cabecera hD (by decide) (by simp [Campo.tiradas, cabecera]) ht).bind fun _ v hv ↦ ?_
    exact Role.Keeps.ret SabeNucleo.stable hv fun w hw ↦ ⟨hD w hw, rfl, .inl ⟨rfl, rfl, hw⟩⟩
  next hcab =>
  obtain ⟨hno, hlargo⟩ := not_or.mp hcab
  have hcabe : Cabe L ms t := ⟨ht, by simp only [casillas] at *; omega⟩
  have hbase : casillaRx l.rxEscrito.toNat = casillaRx ms.length := by rw [hl, casillaRx_ofNat]
  have hsig : l.rxEscrito + 1 = UInt32.ofNat (ms.length + 1) := by rw [hl, UInt32.ofNat_add]; rfl
  have hu : u.length ≤ tramaMaxima := by omega
  rw [hbase, hsig]
  have h16 : u16Le (UInt16.ofNat u.length) = leBytes 2 u.length :=
    u16Le_ofNat (by simp only [tramaMaxima] at hu; omega)
  rw [escribir16, h16]
  refine (escribe_casilla (o := 0) (F := fun _ ↦ True) hD (fun _ _ _ h ↦ h)
    (by simp [casilla]) hcabe trivial).bind ?_
  rintro - v ⟨hv, -, hlen⟩
  refine (escribe_casilla (o := 2) (F := fun m ↦ m (casillaRx ms.length) = UInt8.ofNat u.length ∧
    m (casillaRx ms.length + 1) = UInt8.ofNat (u.length / 256)) hD (fun m m' h hm ↦ ?_)
    (by simp only [casilla, tramaMaxima] at *; omega) hv ⟨?_, ?_⟩).bind ?_
  · exact ⟨(h _ le_rfl (by omega)).trans hm.1, (h _ (by omega) (by omega)).trans hm.2⟩
  · simpa using hlen 0 _ (getElem?_leBytes (by decide))
  · simpa using hlen 1 _ (getElem?_leBytes (by decide))
  rintro - w ⟨hw, ⟨h0, h1⟩, hdat⟩
  refine (publica_rxEscrito hD hD' hu ⟨hw, .of_bytes h0 h1 hdat⟩).bind fun _ z hz ↦ ?_
  have hD2 : ∀ s, SabeNucleo L (ms ++ [u]) s → D s := fun s h ↦ hD' s h.vale h.sacadas h.metidas
  refine (escribe_cabecera hD2 (by decide) (by simp [Campo.rxSecuencia, cabecera]) hz).bind
    fun _ y hy ↦ ?_
  exact Role.Keeps.ret SabeNucleo.stable hy fun a ha ↦ ⟨hD2 a ha, rfl, .inr ⟨rfl, rfl, ha⟩⟩

end

end BmoX.Red
