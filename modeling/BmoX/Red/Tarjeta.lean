import BmoX.Red.Juicio

/-!
# What the card has

The invariant of the pen: the card has the descriptors from the first it did not give back to the
last it was given, each points to its own buffer with the frame in it, and the kernel writes to none
of them.
-/

namespace BmoX.Red.Salida

open BmoX.Base

/-- The card has been given the `k`-th frame, `e`, and not given it back. -/
structure EnTarjeta (p : Plan) (m : Mundo) (k : Nat) (e : Nat × Bytes) : Prop where
  sitio : e.1 = p.dirDesc (k % anillo)
  minima : Salida.minima ≤ e.2.length
  maxima : e.2.length ≤ Salida.maxima
  descriptor : m.descEn (p.dirDesc (k % anillo)) =
    .paraEnviar (p.dirBufer (k % anillo)) (UInt16.ofNat e.2.length) (k % anillo = anillo - 1)
  bufer : m.mem.load (p.dirBufer (k % anillo)) e.2.length = e.2

/-- The invariant of the pen. -/
structure Vale (p : Plan) (m : Mundo) : Prop where
  tnpds : m.tnpds = p.base
  pos : m.pos = m.cable.length % anillo
  cabe : m.entregadas.length ≤ m.cable.length + anillo
  cable : m.cable <+: m.entregadas.map Prod.snd
  suyos : ∀ k e, m.cable.length ≤ k → m.entregadas[k]? = some e → EnTarjeta p m k e
  ajenos : ∀ k, m.entregadas.length ≤ k → k < m.cable.length + anillo →
    (m.descEn (p.dirDesc (k % anillo))).loTieneLaTarjeta = false
  intactas : m.invadidas = 0

/-- The buffers of the frames from the `a`-th on are as they were when they left. -/
def Buferes (p : Plan) (a : Nat) (m : Mundo) : Prop :=
  ∀ k e, a ≤ k → m.entregadas[k]? = some e →
    m.mem.load (p.dirBufer (k % anillo)) e.2.length = e.2 ∧ e.2.length ≤ maxima

section

variable {p : Plan} {m m' : Mundo} {i j k n a dir : Nat} {b : Bytes} {e : Nat × Bytes} {d : TxDesc}

/-! ### Places in the pen -/

theorem exists_turno (i r : Nat) (hi : i < anillo) : ∃ k, r ≤ k ∧ k < r + anillo ∧ k % anillo = i := by
  simp only [anillo] at hi ⊢
  exact ⟨r + (i + (16 - r % 16)) % 16, by omega, by omega, by omega⟩

theorem turno_ne (hjk : j < k) (hk : k < j + anillo) : j % anillo ≠ k % anillo := by
  simp only [anillo] at hk ⊢
  omega

theorem turno_lt (k : Nat) : k % anillo < anillo := Nat.mod_lt _ (by decide)

theorem dirDesc_disjoint (h : i ≠ j) :
    p.dirDesc i + desc ≤ p.dirDesc j ∨ p.dirDesc j + desc ≤ p.dirDesc i := by
  simp only [Plan.dirDesc, desc]
  omega

theorem dirBufer_disjoint (h : i ≠ j) :
    p.dirBufer i + bufer ≤ p.dirBufer j ∨ p.dirBufer j + bufer ≤ p.dirBufer i := by
  simp only [Plan.dirBufer, bufer]
  omega

theorem dirDesc_dirBufer (hi : i < anillo) : p.dirDesc i + desc ≤ p.dirBufer j := by
  simp only [Plan.dirDesc, Plan.dirBufer, desc, anillo] at *
  omega

/-! ### Reading after writing -/

private theorem descEn_store (h : m'.mem = m.mem.store dir d.aBytes) : m'.descEn dir = d := by
  have hload := Memory.load_store_self (m := m.mem) (a := dir) (d := d.aBytes)
  rw [TxDesc.length_aBytes] at hload
  rw [Mundo.descEn, h, hload, TxDesc.deBytes_aBytes]

private theorem descEn_store_of_disjoint (h : m'.mem = m.mem.store dir b)
    (hdis : j + desc ≤ dir ∨ dir + b.length ≤ j) : m'.descEn j = m.descEn j := by
  rw [Mundo.descEn, Mundo.descEn, h, Memory.load_store_of_disjoint hdis]

private theorem Vale.of_deLaTarjeta (hv : Vale p m) {x : Nat} (hx : m.DeLaTarjeta x) :
    ∃ k, m.cable.length ≤ k ∧ k < m.entregadas.length ∧
      ((p.dirDesc (k % anillo) ≤ x ∧ x < p.dirDesc (k % anillo) + desc) ∨
        (p.dirBufer (k % anillo) ≤ x ∧ x < p.dirBufer (k % anillo) + bufer)) := by
  obtain ⟨i, hi, htiene, hx⟩ := hx
  obtain ⟨k, hrk, hkr, rfl⟩ := exists_turno i m.cable.length hi
  have hdir : m.tnpds + desc * (k % anillo) = p.dirDesc (k % anillo) := by rw [hv.tnpds, Plan.dirDesc]
  rw [hdir] at htiene hx
  by_cases hkd : k < m.entregadas.length
  · refine ⟨k, hrk, hkd, ?_⟩
    have he := hv.suyos k _ hrk (List.getElem?_eq_getElem hkd)
    rwa [he.descriptor, TxDesc.dir_paraEnviar (Plan.dirBufer_lt hi)] at hx
  · rw [hv.ajenos k (by omega) hkr] at htiene
    cases htiene

private theorem Vale.no_invade (hv : Vale p m) (hi : i < anillo)
    (hlibre : ∀ k, m.cable.length ≤ k → k < m.entregadas.length → k % anillo ≠ i)
    (hdir : (dir = p.dirDesc i ∧ b.length = desc) ∨
      (p.dirBufer i ≤ dir ∧ dir + b.length ≤ p.dirBufer i + bufer)) :
    ¬∃ k < b.length, m.DeLaTarjeta (dir + k) := by
  rintro ⟨n, hn, hx⟩
  obtain ⟨k, hrk, hkd, hk⟩ := hv.of_deLaTarjeta hx
  have hne := hlibre k hrk hkd
  have hdd := dirDesc_disjoint (p := p) hne
  have hbb := dirBufer_disjoint (p := p) hne
  have hdb := dirDesc_dirBufer (p := p) (j := k % anillo) hi
  have hbd := dirDesc_dirBufer (p := p) (j := i) (turno_lt k)
  omega

/-! ### What the kernel writes -/

/-- A write to the buffer of a slot that the card does not have. -/
theorem Vale.escribe (hv : Vale p m) (hi : i < anillo)
    (hlibre : ∀ k, m.cable.length ≤ k → k < m.entregadas.length → k % anillo ≠ i)
    (h1 : p.dirBufer i ≤ dir) (h2 : dir + b.length ≤ p.dirBufer i + bufer) :
    Vale p (m.escribe dir b) := by
  have hdesc : ∀ j < anillo, (m.escribe dir b).descEn (p.dirDesc j) = m.descEn (p.dirDesc j) :=
    fun j hj ↦ descEn_store_of_disjoint rfl
      (.inl (Nat.le_trans (dirDesc_dirBufer (p := p) (j := i) hj) h1))
  refine ⟨hv.tnpds, hv.pos, hv.cabe, hv.cable, fun k e hrk hk ↦ ?_, fun k hdk hkr ↦ ?_, ?_⟩
  · have hke := hv.suyos k e hrk hk
    have hkd := (List.getElem?_eq_some_iff.mp hk).1
    refine ⟨hke.sitio, hke.minima, hke.maxima, (hdesc _ (turno_lt k)).trans hke.descriptor, ?_⟩
    have hdis := dirBufer_disjoint (p := p) (hlibre k hrk hkd)
    have hmax := hke.maxima
    simp only [maxima, bufer] at hmax hdis h2
    exact (Memory.load_store_of_disjoint (by omega)).trans hke.bufer
  · rw [hdesc _ (turno_lt k)]
    exact hv.ajenos k hdk hkr
  · have hno := hv.no_invade hi hlibre (.inr ⟨h1, h2⟩)
    simp only [Mundo.escribe, if_neg hno]
    exact hv.intactas

/-- A quiet descriptor is written where the card has none. -/
theorem Vale.aquieta (hv : Vale p m) (hi : i < anillo) (hd : d.loTieneLaTarjeta = false)
    (hlibre : ∀ k, m.cable.length ≤ k → k < m.entregadas.length → k % anillo ≠ i) :
    Vale p (m.escribeDesc (p.dirDesc i) d) := by
  have hm : m.escribeDesc (p.dirDesc i) d = m.escribe (p.dirDesc i) d.aBytes := by
    rw [Mundo.escribeDesc, hd]
    rfl
  have hotro : ∀ j, j ≠ i → (m.escribe (p.dirDesc i) d.aBytes).descEn (p.dirDesc j) =
      m.descEn (p.dirDesc j) := fun j hji ↦ descEn_store_of_disjoint rfl (by
    rw [TxDesc.length_aBytes]
    exact dirDesc_disjoint hji)
  rw [hm]
  refine ⟨hv.tnpds, hv.pos, hv.cabe, hv.cable, fun k e hrk hk ↦ ?_, fun k hdk hkr ↦ ?_, ?_⟩
  · have hke := hv.suyos k e hrk hk
    have hkd := (List.getElem?_eq_some_iff.mp hk).1
    have hdb := dirDesc_dirBufer (p := p) (j := k % anillo) hi
    refine ⟨hke.sitio, hke.minima, hke.maxima, (hotro _ (hlibre k hrk hkd)).trans hke.descriptor, ?_⟩
    refine (Memory.load_store_of_disjoint ?_).trans hke.bufer
    rw [TxDesc.length_aBytes]
    omega
  · by_cases hki : k % anillo = i
    · rw [hki, descEn_store (m := m) rfl]
      exact hd
    · rw [hotro _ hki]
      exact hv.ajenos k hdk hkr
  · have hno := hv.no_invade (b := d.aBytes) hi hlibre (.inl ⟨rfl, d.length_aBytes⟩)
    simp only [Mundo.escribe, if_neg hno]
    exact hv.intactas

/-- The card is given the frame that the buffer of the next slot holds. -/
theorem Vale.entrega (hv : Vale p m) (trama : Bytes)
    (hsitio : m.entregadas.length < m.cable.length + anillo)
    (h1 : minima ≤ trama.length) (h2 : trama.length ≤ maxima)
    (hbuf : m.mem.load (p.dirBufer (m.entregadas.length % anillo)) trama.length = trama)
    (hd : d = .paraEnviar (p.dirBufer (m.entregadas.length % anillo)) (UInt16.ofNat trama.length)
      (m.entregadas.length % anillo = anillo - 1)) :
    Vale p (m.escribeDesc (p.dirDesc (m.entregadas.length % anillo)) d) ∧
      (m.escribeDesc (p.dirDesc (m.entregadas.length % anillo)) d).entregadas =
        m.entregadas ++ [(p.dirDesc (m.entregadas.length % anillo), trama)] := by
  have hi := turno_lt m.entregadas.length
  have htiene : d.loTieneLaTarjeta = true := by rw [hd, TxDesc.tiene_paraEnviar]
  have hlibre : ∀ k, m.cable.length ≤ k → k < m.entregadas.length →
      k % anillo ≠ m.entregadas.length % anillo := fun k hrk hkd ↦ turno_ne hkd (by omega)
  have hotro : ∀ j, j ≠ m.entregadas.length % anillo →
      (m.escribe (p.dirDesc (m.entregadas.length % anillo)) d.aBytes).descEn (p.dirDesc j) =
        m.descEn (p.dirDesc j) := fun j hji ↦ descEn_store_of_disjoint rfl (by
    rw [TxDesc.length_aBytes]
    exact dirDesc_disjoint hji)
  have hload : ∀ j n, (m.escribe (p.dirDesc (m.entregadas.length % anillo)) d.aBytes).mem.load
      (p.dirBufer j) n = m.mem.load (p.dirBufer j) n := by
    intro j n
    have hdb := dirDesc_dirBufer (p := p) (j := j) hi
    refine Memory.load_store_of_disjoint ?_
    rw [TxDesc.length_aBytes]
    omega
  have hlargo : (UInt16.ofNat trama.length).toNat = trama.length := by
    rw [UInt16.toNat_ofNat']
    simp only [maxima] at h2
    omega
  have hapuntado : (m.escribe (p.dirDesc (m.entregadas.length % anillo)) d.aBytes).apuntado d =
      trama := by
    rw [Mundo.apuntado, hd, TxDesc.dir_paraEnviar (Plan.dirBufer_lt hi), TxDesc.largo_paraEnviar,
      hlargo, ← hd, hload, hbuf]
  have hm : m.escribeDesc (p.dirDesc (m.entregadas.length % anillo)) d =
      { m.escribe (p.dirDesc (m.entregadas.length % anillo)) d.aBytes with
        entregadas := m.entregadas ++ [(p.dirDesc (m.entregadas.length % anillo), trama)] } := by
    rw [Mundo.escribeDesc, if_pos htiene, hapuntado]
    rfl
  refine ⟨?_, by rw [hm]⟩
  rw [hm]
  refine ⟨hv.tnpds, hv.pos, ?_, ?_, fun k e hrk hk ↦ ?_, fun k hdk hkr ↦ ?_, ?_⟩
  · rw [List.length_append, List.length_singleton]
    exact hsitio
  · rw [List.map_append]
    exact hv.cable.trans (List.prefix_append _ _)
  · by_cases hkd : k < m.entregadas.length
    · rw [List.getElem?_append_left hkd] at hk
      have hke := hv.suyos k e hrk hk
      exact ⟨hke.sitio, hke.minima, hke.maxima, (hotro _ (hlibre k hrk hkd)).trans hke.descriptor,
        (hload _ _).trans hke.bufer⟩
    · rw [List.getElem?_append_right (by omega), List.getElem?_singleton] at hk
      split at hk
      · cases hk
        have hkd : k = m.entregadas.length := by omega
        subst hkd
        exact ⟨rfl, h1, h2, (descEn_store (m := m) rfl).trans hd, (hload _ _).trans hbuf⟩
      · cases hk
  · rw [List.length_append, List.length_singleton] at hdk
    have hk : k % anillo ≠ m.entregadas.length % anillo := (turno_ne (by omega) (by
      have : k < m.cable.length + anillo := hkr
      have hlen := hv.cable.length_le
      rw [List.length_map] at hlen
      omega)).symm
    exact (congrArg TxDesc.loTieneLaTarjeta (hotro _ hk)).trans (hv.ajenos k (by omega) hkr)
  · have hno := hv.no_invade (b := d.aBytes) hi hlibre (.inl ⟨rfl, d.length_aBytes⟩)
    simp only [Mundo.escribe, if_neg hno]
    exact hv.intactas

/-! ### What the card does -/

/-- The card gives back the oldest of the descriptors it has, with the frame sent. -/
theorem Vale.devuelve (hv : Vale p m) {opts1 : UInt32} (hl : Legal (.devolver opts1) m) :
    Vale p (m.devuelve opts1) ∧
      ∀ x, p.base + desc * anillo ≤ x → (m.devuelve opts1).mem x = m.mem x := by
  obtain ⟨htiene, hopts⟩ := hl
  have hi := turno_lt m.cable.length
  have hdir : m.tnpds + desc * m.pos = p.dirDesc (m.cable.length % anillo) := by
    rw [hv.tnpds, hv.pos, Plan.dirDesc]
  rw [hdir] at htiene
  have hlt : m.cable.length < m.entregadas.length := by
    by_contra hge
    rw [hv.ajenos _ (by omega) (by simp only [anillo]; omega)] at htiene
    cases htiene
  obtain ⟨e, he⟩ : ∃ e, m.entregadas[m.cable.length]? = some e := ⟨_, List.getElem?_eq_getElem hlt⟩
  have hke := hv.suyos _ e le_rfl he
  have hlargo : (UInt16.ofNat e.2.length).toNat = e.2.length := by
    have hmax := hke.maxima
    rw [UInt16.toNat_ofNat']
    simp only [Salida.maxima] at hmax
    omega
  have hapuntado : m.apuntado (m.descEn (m.tnpds + desc * m.pos)) = e.2 := by
    rw [hdir, hke.descriptor, Mundo.apuntado, TxDesc.dir_paraEnviar (Plan.dirBufer_lt hi),
      TxDesc.largo_paraEnviar, hlargo, hke.bufer]
  have hultimo : (m.descEn (m.tnpds + desc * m.pos)).ultimo =
      decide (m.cable.length % anillo = anillo - 1) := by
    rw [hdir, hke.descriptor, TxDesc.ultimo_paraEnviar]
  have hmem : (m.devuelve opts1).mem =
      m.mem.store (p.dirDesc (m.cable.length % anillo)) (u32Le opts1) := by
    rw [← hdir]
    rfl
  have hcable : (m.devuelve opts1).cable = m.cable ++ [e.2] := by
    rw [← hapuntado]
    rfl
  have hotro : ∀ j, j ≠ m.cable.length % anillo →
      (m.devuelve opts1).descEn (p.dirDesc j) = m.descEn (p.dirDesc j) := fun j hji ↦
    descEn_store_of_disjoint hmem (by
      have hdis := dirDesc_disjoint (p := p) hji
      rw [length_u32Le]
      simp only [desc] at hdis ⊢
      omega)
  have hlejos : ∀ x, p.base + desc * anillo ≤ x → (m.devuelve opts1).mem x = m.mem x := by
    intro x hx
    rw [hmem]
    refine Memory.store_out (.inr ?_)
    rw [length_u32Le, Plan.dirDesc]
    simp only [desc, anillo] at hi hx ⊢
    omega
  refine ⟨⟨hv.tnpds, ?_, ?_, ?_, fun k e' hrk hk ↦ ?_, fun k hdk hkr ↦ ?_, hv.intactas⟩, hlejos⟩
  · -- the card goes round where the descriptor says that it is the last
    have hpos : (m.devuelve opts1).pos =
        if m.cable.length % anillo = anillo - 1 then 0 else m.pos + 1 := by
      simp only [Mundo.devuelve, hultimo, decide_eq_true_eq]
    rw [hpos, hv.pos, hcable, List.length_append, List.length_singleton]
    simp only [anillo]
    split <;> omega
  · rw [hcable, List.length_append, List.length_singleton]
    exact hv.cabe.trans (by omega)
  · have hent : (m.devuelve opts1).entregadas = m.entregadas := rfl
    rw [hcable, hent]
    have hmap : (m.entregadas.map Prod.snd)[m.cable.length]? = some e.2 := by
      rw [List.getElem?_map, he, Option.map_some]
    have htake := List.prefix_iff_eq_take.mp hv.cable
    refine List.prefix_iff_eq_take.mpr ?_
    rw [List.length_append, List.length_singleton, List.take_add_one, hmap, ← htake]
    rfl
  · rw [hcable, List.length_append, List.length_singleton] at hrk
    have hke' := hv.suyos k e' (by omega) hk
    have hkd : k < m.entregadas.length := (List.getElem?_eq_some_iff.mp hk).1
    have hcabe := hv.cabe
    refine ⟨hke'.sitio, hke'.minima, hke'.maxima,
      (hotro _ (turno_ne (by omega) (by omega)).symm).trans hke'.descriptor, ?_⟩
    refine (Memory.load_congr fun x hx _ ↦ hlejos x ?_).trans hke'.bufer
    rw [Plan.dirBufer] at hx
    omega
  · rw [hcable, List.length_append, List.length_singleton] at hkr
    by_cases hk : k = m.cable.length + anillo
    · have hmod : k % anillo = m.cable.length % anillo := by rw [hk, Nat.add_mod_right]
      rw [hmod, Mundo.descEn, hmem]
      have hload : (m.mem.store (p.dirDesc (m.cable.length % anillo)) (u32Le opts1)).load
          (p.dirDesc (m.cable.length % anillo)) desc = u32Le opts1 ++
            m.mem.load (p.dirDesc (m.cable.length % anillo) + 4) 12 := by
        have hself := Memory.load_store_self (m := m.mem)
          (a := p.dirDesc (m.cable.length % anillo)) (d := u32Le opts1)
        rw [length_u32Le] at hself
        refine (Memory.load_add (n := 4) 12).trans ?_
        rw [hself, Memory.load_store_of_disjoint (.inr (by rw [length_u32Le]))]
      rw [hload, TxDesc.loTieneLaTarjeta, TxDesc.deBytes_opts1, hopts]
      rfl
    · have hcl : m.entregadas.length ≤ k := hdk
      rw [hotro _ (turno_ne (by omega) (by omega)).symm]
      exact hv.ajenos k hdk (by omega)

end

end BmoX.Red.Salida
