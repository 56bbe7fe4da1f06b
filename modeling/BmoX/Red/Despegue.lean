import BmoX.Red.Tarjeta

/-!
# From the tap to the card

The calls of the kernel, each from a state in which tap, flights and pen go with what happened to
another, whatever the card gives back meanwhile.
-/

namespace BmoX.Red.Salida

open BmoX.Base

/-! ### The parties -/

/-- What the card and the clock do meanwhile. -/
structure Controla (p : Plan) (s t : Mundo × Unit) : Prop where
  entregadas : t.1.entregadas = s.1.entregadas
  cable : s.1.cable.length ≤ t.1.cable.length
  reloj : s.1.reloj ≤ t.1.reloj
  vale : Vale p s.1 → Vale p t.1
  mem : Vale p s.1 → ∀ x, p.base + desc * anillo ≤ x → t.1.mem x = s.1.mem x

/-- The kernel. -/
def rolNucleo (p : Plan) : Role corral Mundo Unit where
  handle := maneja
  allowed := Legal
  rely := Controla p
  guar s t := Vale p s.1 → Vale p t.1
  refl _ := ⟨rfl, le_rfl, UInt64.le_refl _, id, fun _ _ _ ↦ rfl⟩
  trans h h' := ⟨h'.entregadas.trans h.entregadas, h.cable.trans h'.cable,
    UInt64.le_trans h.reloj h'.reloj, h'.vale ∘ h.vale,
    fun hv x hx ↦ (h'.mem (h.vale hv) x hx).trans (h.mem hv x hx)⟩

/-- The card. -/
def rolTarjeta (p : Plan) : Role corral Mundo Unit where
  handle := maneja
  allowed := Legal
  rely s t := Vale p s.1 → Vale p t.1
  guar := Controla p
  refl _ := id
  trans h h' := h' ∘ h

section

variable {p : Plan} {miMac : Arr 6} {k : Nucleo} {m : Mundo} {s t : Mundo × Unit}

theorem controla_devolver {opts1 : UInt32} (hl : Legal (.devolver opts1) m) :
    Controla p (m, ()) (m.devuelve opts1, ()) := by
  refine ⟨rfl, ?_, UInt64.le_refl _, fun hv ↦ (hv.devuelve hl).1, fun hv ↦ (hv.devuelve hl).2⟩
  simp [Mundo.devuelve]

theorem controla_tic {t : UInt64} (hl : Legal (.tic t) m) :
    Controla p (m, ()) ({ m with reloj := t }, ()) :=
  ⟨rfl, le_rfl, hl, fun hv ↦ ⟨hv.tnpds, hv.pos, hv.cabe, hv.cable,
    fun k e hk he ↦ have hke := hv.suyos k e hk he
      ⟨hke.sitio, hke.minima, hke.maxima, hke.descriptor, hke.bufer⟩, hv.ajenos, hv.intactas⟩, fun _ _ _ ↦ rfl⟩

/-! ### Between two calls -/

/-- Every frame given to the card is one of the process's, padded, that the tap let through. -/
def Tramas (miMac : Arr 6) (m : Mundo) : Prop :=
  ∀ e ∈ m.entregadas, ∃ trama, Correcta miMac trama ∧ e.2 = rellena trama

/-- The kernel at a call. -/
def Ocupado (p : Plan) (miMac : Arr 6) (s : Mundo × Unit) : Prop := Vale p s.1 ∧ Tramas miMac s.1

/-- The kernel between two calls. -/
structure Quieto (p : Plan) (miMac : Arr 6) (k : Nucleo) (s : Mundo × Unit) : Prop where
  vale : Vale p s.1
  entregadas : s.1.entregadas = (salidas k.historia).map fun x ↦ (p.dirDesc x.1, rellena x.2.1)
  salidas : ∀ n x, (salidas k.historia)[n]? = some x → x.1 = casillaDe n
  aterrizadas : ∀ n i, (aterrizadas k.historia)[n]? = some i → i = casillaDe n
  vuelos : k.vuelos.Lleva (Salida.salidas k.historia).length (Salida.aterrizadas k.historia).length
  vueltas : (Salida.aterrizadas k.historia).length ≤ s.1.cable.length
  grifo : k.grifo.Lleva k.historia s.1.reloj
  juzgadas : Juzgadas miMac k.historia
  sinGasto : SinGasto k.historia
  buferes : Buferes p (Salida.aterrizadas k.historia).length s.1

theorem Buferes.congr {a : Nat} {m' : Mundo} (h : Buferes p a m)
    (hent : m'.entregadas = m.entregadas)
    (hmem : ∀ x, p.base + desc * anillo ≤ x → m'.mem x = m.mem x) : Buferes p a m' := by
  intro k e hk he
  rw [hent] at he
  obtain ⟨hload, hmax⟩ := h k e hk he
  refine ⟨(Memory.load_congr fun x hx _ ↦ hmem x ?_).trans hload, hmax⟩
  rw [Plan.dirBufer] at hx
  omega

private theorem Quieto.longitud (h : Quieto p miMac k s) :
    s.1.entregadas.length = (Salida.salidas k.historia).length := by
  rw [h.entregadas, List.length_map]

theorem Quieto.tramas (h : Quieto p miMac k s) : Tramas miMac s.1 := by
  intro e he
  rw [h.entregadas] at he
  obtain ⟨x, hx, rfl⟩ := List.mem_map.mp he
  obtain ⟨suceso, hs, hsal⟩ := List.mem_filterMap.mp hx
  obtain ⟨n, hn⟩ := List.getElem?_of_mem hs
  cases suceso with
  | salio casilla trama ahora =>
    cases hsal
    exact ⟨trama, (h.juzgadas n casilla trama ahora hn).1, rfl⟩
  | _ => cases hsal

theorem Quieto.ocupado (h : Quieto p miMac k s) : Ocupado p miMac s := ⟨h.vale, h.tramas⟩

theorem Quieto.stable : (rolNucleo p).Stable (Quieto p miMac k) := fun _ _ hu h ↦
  ⟨hu.vale h.vale, hu.entregadas.trans h.entregadas, h.salidas, h.aterrizadas, h.vuelos,
    h.vueltas.trans hu.cable, h.grifo.mono hu.reloj, h.juzgadas, h.sinGasto,
    h.buferes.congr hu.entregadas (hu.mem h.vale)⟩

/-- The slot of the next frame. -/
def Nucleo.proxima (k : Nucleo) : Fin anillo := casillaDe (salidas k.historia).length

theorem Quieto.proxima (h : Quieto p miMac k s) :
    s.1.entregadas.length % anillo = k.proxima.val := by
  rw [h.longitud]
  rfl

/-- A slot in flight for the kernel is another than the next. -/
theorem Quieto.libre (h : Quieto p miMac k s)
    (hd : (Salida.salidas k.historia).length ≠ (Salida.aterrizadas k.historia).length + anillo)
    (n : Nat) (h1 : (Salida.aterrizadas k.historia).length ≤ n) (h2 : n < s.1.entregadas.length) :
    n % anillo ≠ k.proxima.val := by
  have hcabe := h.vuelos.cabe
  have hlen := h.longitud
  rw [← h.proxima]
  exact turno_ne h2 (by omega)

/-- Something happened that was neither a frame that left nor a slot that landed. -/
theorem Quieto.anota {x : Suceso} {g : Grifo} (h : Quieto p miMac k s)
    (hs : Salida.salidas [x] = []) (ha : Salida.aterrizadas [x] = [])
    (hg : g.Lleva (k.historia ++ [x]) s.1.reloj) (hgasto : SinGasto (k.historia ++ [x])) :
    Quieto p miMac ⟨k.vuelos, g, k.historia ++ [x]⟩ s := by
  have hsal : Salida.salidas (k.historia ++ [x]) = Salida.salidas k.historia := by
    rw [salidas_append, hs, List.append_nil]
  have hater : Salida.aterrizadas (k.historia ++ [x]) = Salida.aterrizadas k.historia := by
    rw [aterrizadas_append, ha, List.append_nil]
  have hjuz : Juzgadas miMac (k.historia ++ [x]) := by
    refine h.juzgadas.concat fun casilla trama ahora hx ↦ ?_
    rw [hx] at hs
    cases hs
  refine ⟨h.vale, ?_, ?_, ?_, ?_, ?_, hg, hjuz, hgasto, ?_⟩
  · simp only [hsal]
    exact h.entregadas
  · simp only [hsal]
    exact h.salidas
  · simp only [hater]
    exact h.aterrizadas
  · simp only [hsal, hater]
    exact h.vuelos
  · simp only [hater]
    exact h.vueltas
  · simp only [hater]
    exact h.buferes

/-! ### Opening and closing -/

theorem abrirGrifo_hace {ms : UInt64} {cupo : UInt32} (h : Quieto p miMac k s) :
    (rolNucleo p).Keeps (Ocupado p miMac) (Quieto p miMac) (k.hace p miMac (.abrirGrifo ms cupo)) s := by
  refine Role.Keeps.call Quieto.stable h (fun _ hs ↦ hs.ocupado) fun t ht _ ↦ ⟨(), id, ?_⟩
  have hq := ht.anota (x := .abierto t.1.reloj (k.grifo.abrir t.1.reloj ms cupo).1.1
    (k.grifo.abrir t.1.reloj ms cupo).1.2) rfl rfl (ht.grifo.abrir ms cupo)
    (ht.sinGasto.concat fun _ _ _ hx ↦ by cases hx)
  exact Role.Keeps.ret Quieto.stable hq fun u hu ↦ ⟨hu.ocupado, hu⟩

theorem cerrarGrifo_hace (h : Quieto p miMac k s) :
    (rolNucleo p).Keeps (Ocupado p miMac) (Quieto p miMac) (k.hace p miMac .cerrarGrifo) s := by
  have hq := h.anota (x := .cerrado) rfl rfl h.grifo.cerrar
    (h.sinGasto.concat fun _ _ _ hx ↦ by cases hx)
  exact Role.Keeps.ret Quieto.stable hq fun u hu ↦ ⟨hu.ocupado, hu⟩

/-! ### A frame -/

/-- A frame is refused. -/
theorem Quieto.negada {no : NoSale} {g : Grifo} (h : Quieto p miMac k s)
    (hn : k.grifo.Negado no g) :
    Quieto p miMac ⟨k.vuelos, g, k.historia ++
      [Suceso.negada (.grifo no) (k.vuelos, k.grifo) (k.vuelos, g)]⟩ s := by
  refine h.anota rfl rfl (h.grifo.negada hn _ _ _) fun f antes despues hmem ↦ ?_
  rcases List.mem_append.mp hmem with hmem | hmem
  · exact h.sinGasto f antes despues hmem
  · cases List.mem_singleton.mp hmem
    refine ⟨rfl, hn.segundo, hn.enEste, ?_⟩
    rcases hn.cupo with ⟨hc, -, -⟩ | ⟨rfl, hc, ha⟩
    · exact .inl hc
    · exact .inr ⟨rfl, hc, ha⟩

/-- A frame finds no slot, and the tap is not asked. -/
theorem Quieto.llena (h : Quieto p miMac k s) :
    Quieto p miMac ⟨k.vuelos, k.grifo, k.historia ++
      [Suceso.negada .anillo (k.vuelos, k.grifo) (k.vuelos, k.grifo)]⟩ s := by
  have hn : k.grifo.Negado .cerrado k.grifo := ⟨rfl, rfl, rfl, .inl ⟨rfl, rfl, rfl⟩⟩
  refine h.anota rfl rfl (h.grifo.negada hn _ _ _) fun f antes despues hmem ↦ ?_
  rcases List.mem_append.mp hmem with hmem | hmem
  · exact h.sinGasto f antes despues hmem
  · cases List.mem_singleton.mp hmem
    exact ⟨rfl, rfl, rfl, .inl rfl⟩

/-- The buffer of the next slot is written. -/
theorem Quieto.escribe (dir : Nat) (b : Bytes) (h : Quieto p miMac k s)
    (hd : (Salida.salidas k.historia).length ≠ (Salida.aterrizadas k.historia).length + anillo)
    (h1 : p.dirBufer k.proxima ≤ dir) (h2 : dir + b.length ≤ p.dirBufer k.proxima + bufer) :
    Quieto p miMac k (s.1.escribe dir b, ()) := by
  have hvueltas := h.vueltas
  have hvale := h.vale.escribe k.proxima.isLt (fun n hn hn' ↦ h.libre hd n (by omega) hn') h1 h2
  refine ⟨hvale, h.entregadas, h.salidas, h.aterrizadas, h.vuelos, h.vueltas, h.grifo, h.juzgadas,
    h.sinGasto, fun n e hn he ↦ ?_⟩
  have hlt : n < s.1.entregadas.length := (List.getElem?_eq_some_iff.mp he).1
  obtain ⟨hload, hmax⟩ := h.buferes n e hn he
  have hdis := dirBufer_disjoint (p := p) (h.libre hd n hn hlt)
  refine ⟨(Memory.load_store_of_disjoint ?_).trans hload, hmax⟩
  simp only [maxima, bufer] at hmax hdis h2
  omega

/-- On the way to the card, the buffer of the next slot begins with `b`. -/
structure Copiado (p : Plan) (miMac : Arr 6) (k : Nucleo) (ahora : UInt64) (b : Bytes)
    (s : Mundo × Unit) : Prop where
  quieto : Quieto p miMac k s
  reloj : ahora ≤ s.1.reloj
  copia : s.1.mem.load (p.dirBufer k.proxima) b.length = b

theorem Copiado.stable {ahora : UInt64} {b : Bytes} :
    (rolNucleo p).Stable (Copiado p miMac k ahora b) := by
  intro s t hu h
  refine ⟨Quieto.stable s t hu h.quieto, UInt64.le_trans h.reloj hu.reloj, ?_⟩
  refine (Memory.load_congr fun x hx _ ↦ hu.mem h.quieto.vale x ?_).trans h.copia
  rw [Plan.dirBufer] at hx
  omega

/-- The card is given the frame. -/
theorem Copiado.entrega {trama : Bytes} {ahora : UInt64} {g : Grifo} {v : Vuelos}
    (h : Copiado p miMac k ahora (rellena trama) s) (hg : k.grifo.Lleva k.historia ahora)
    (hc : k.grifo.Concedido miMac trama ahora g)
    (hd : (Salida.salidas k.historia).length ≠ (Salida.aterrizadas k.historia).length + anillo)
    (hv : v.Lleva ((Salida.salidas k.historia).length + 1) (Salida.aterrizadas k.historia).length) :
    Quieto p miMac ⟨v, g, k.historia ++ [Suceso.salio k.proxima trama ahora]⟩
      (s.1.escribeDesc (p.dirDesc k.proxima) (.paraEnviar (p.dirBufer k.proxima)
        (UInt16.ofNat (rellena trama).length) (k.proxima.val = anillo - 1)), ()) := by
  obtain ⟨hq, hreloj, hcopia⟩ := h
  have hlen := hq.longitud
  have hcabe := hq.vuelos.cabe
  have hvueltas := hq.vueltas
  have hi := hq.proxima
  obtain ⟨-, hmin, hmax⟩ := hc.correcta.rellena
  obtain ⟨hlleva, hpermiso⟩ := hg.salio hc k.proxima
  have hentrega := hq.vale.entrega (rellena trama) (by omega) hmin hmax
    (by rw [hi]; exact hcopia) rfl
  rw [hi] at hentrega
  obtain ⟨hvale, hent⟩ := hentrega
  set d := TxDesc.paraEnviar (p.dirBufer k.proxima) (UInt16.ofNat (rellena trama).length)
    (k.proxima.val = anillo - 1)
  have hm' : s.1.escribeDesc (p.dirDesc k.proxima) d =
      { s.1.escribe (p.dirDesc k.proxima) d.aBytes with entregadas :=
        (s.1.escribeDesc (p.dirDesc k.proxima) d).entregadas } := by
    simp only [Mundo.escribeDesc, d, TxDesc.tiene_paraEnviar, if_true]
  set m' := s.1.escribeDesc (p.dirDesc k.proxima) d
  have hload : ∀ j n, m'.mem.load (p.dirBufer j) n = s.1.mem.load (p.dirBufer j) n := by
    intro j n
    have hdb := dirDesc_dirBufer (p := p) (j := j) k.proxima.isLt
    rw [hm']
    refine Memory.load_store_of_disjoint ?_
    rw [TxDesc.length_aBytes]
    omega
  have hgrifo : g.Lleva (k.historia ++ [Suceso.salio k.proxima trama ahora]) m'.reloj := by
    rw [hm']
    exact hlleva.mono hreloj
  have hcable : m'.cable = s.1.cable := by
    rw [hm']
    rfl
  have hgasto := hq.sinGasto.concat (s := .salio k.proxima trama ahora) fun _ _ _ hx ↦ by cases hx
  refine ⟨hvale, ?_, fun n x hn ↦ ?_, ?_, ?_, ?_, hgrifo, ?_, hgasto, ?_⟩
  · rw [hent, hq.entregadas]
    simp
  · simp only [salidas_append, salidas_singleton] at hn
    rw [List.getElem?_append] at hn
    split at hn
    · exact hq.salidas n x hn
    · rw [List.getElem?_singleton] at hn
      split at hn
      · cases hn
        have hn' : n = (Salida.salidas k.historia).length := by omega
        rw [hn']
        rfl
      · cases hn
  · simpa using hq.aterrizadas
  · simpa using hv
  · simp only [aterrizadas_append, aterrizadas_singleton, List.append_nil, hcable]
    exact hvueltas
  · refine hq.juzgadas.concat fun casilla trama' ahora' hx ↦ ?_
    cases hx
    exact ⟨hc.correcta, hpermiso⟩
  · simp only [aterrizadas_append, aterrizadas_singleton, List.append_nil]
    intro n e hn he
    rw [hent, List.getElem?_append] at he
    rw [hload]
    split at he
    · exact hq.buferes n e hn he
    · rw [List.getElem?_singleton] at he
      split at he
      · cases he
        have hn' : n = s.1.entregadas.length := by omega
        rw [hn', hi]
        exact ⟨hcopia, hmax⟩
      · cases he

theorem enviar_hace {trama : Bytes} (h : Quieto p miMac k s) :
    (rolNucleo p).Keeps (Ocupado p miMac) (Quieto p miMac) (k.hace p miMac (.enviar trama)) s := by
  refine Role.Keeps.call Quieto.stable h (fun _ hs ↦ hs.ocupado) fun t ht _ ↦ ⟨(), id, ?_⟩
  have hfin : ∀ (k' : Nucleo) (u : Mundo × Unit), Quieto p miMac k' u →
      (rolNucleo p).Keeps (Ocupado p miMac) (Quieto p miMac) (pure k') u :=
    fun k' u hu ↦ Role.Keeps.ret Quieto.stable hu fun v hv ↦ ⟨hv.ocupado, hv⟩
  have hcop : ∀ {ahora b} (u : Mundo × Unit), Copiado p miMac k ahora b u → Ocupado p miMac u :=
    fun u hu ↦ hu.quieto.ocupado
  obtain ⟨t, ⟨⟩⟩ := t
  change (rolNucleo p).Keeps (Ocupado p miMac) (Quieto p miMac)
    (Salida.enviar p trama miMac t.reloj k.vuelos k.grifo >>= _) (t, ())
  by_cases hd : (salidas k.historia).length = (aterrizadas k.historia).length + anillo
  · have hprox : k.vuelos.proxima = .error .anilloLleno := by rw [ht.vuelos.proxima, if_pos hd]
    simp only [Salida.enviar, hprox, pure_bind]
    exact hfin _ _ ht.llena
  have hprox : k.vuelos.proxima = .ok k.proxima := by
    rw [ht.vuelos.proxima, if_neg hd]
    rfl
  simp only [Salida.enviar, hprox, Plan.bufer_eq k.proxima.isLt]
  rcases k.grifo.juzgar_cases trama miMac t.reloj (p.dirBufer k.proxima) bufer
    with ⟨no, g, heq, hn⟩ | ⟨g, heq, hc⟩
  · simp only [heq, pure_bind]
    exact hfin _ _ (ht.negada hn)
  -- the frame and its zeros are copied
  have hlarga := hc.correcta.larga
  obtain ⟨-, hmin, hmax⟩ := hc.correcta.rellena
  have hlargo : (rellena trama).length = max trama.length minima := length_rellena
  have hrell : rellena trama = trama ++ zeros (max trama.length minima - trama.length) := rfl
  set n := max trama.length minima - trama.length
  simp only [heq, bind_assoc, pure_bind]
  have hini : Copiado p miMac k t.reloj [] (t, ()) := ⟨ht, UInt64.le_refl _, rfl⟩
  refine Role.Keeps.call Copiado.stable hini hcop fun u hu _ ↦ ⟨(), ?_⟩
  have hq1 := hu.quieto.escribe (p.dirBufer k.proxima) trama hd le_rfl (by
    simp only [maxima, bufer] at hlarga ⊢
    omega)
  have hcopia1 : Copiado p miMac k t.reloj trama (u.1.escribe (p.dirBufer k.proxima) trama, ()) :=
    ⟨hq1, hu.reloj, Memory.load_store_self⟩
  refine ⟨fun _ ↦ hq1.vale, Role.Keeps.call Copiado.stable hcopia1 hcop fun w hw _ ↦ ⟨(), ?_⟩⟩
  have hq2 := hw.quieto.escribe (p.dirBufer k.proxima + trama.length) (zeros n) hd
    (Nat.le_add_right ..) (by
      rw [length_zeros]
      have hn : trama.length + n = (rellena trama).length := by
        rw [hrell, List.length_append, length_zeros]
      simp only [maxima, bufer] at hmax ⊢
      omega)
  have hcopia2 : Copiado p miMac k t.reloj (rellena trama)
      (w.1.escribe (p.dirBufer k.proxima + trama.length) (zeros n), ()) := by
    refine ⟨hq2, hw.reloj, ?_⟩
    have hself := Memory.load_store_self (m := w.1.mem)
      (a := p.dirBufer k.proxima + trama.length) (d := zeros n)
    have hantes := Memory.load_store_of_disjoint (m := w.1.mem)
      (a := p.dirBufer k.proxima + trama.length) (d := zeros n) (n := trama.length)
      (b := p.dirBufer k.proxima) (.inl le_rfl)
    rw [hrell, List.length_append, Memory.load_add]
    exact congrArg₂ (· ++ ·) (hantes.trans hw.copia) hself
  refine ⟨fun _ ↦ hq2.vale, ?_⟩
  -- the descriptor goes to the card
  obtain ⟨v, hdesp, hv⟩ := ht.vuelos.despegar hd t.reloj
  have hdesp' : k.vuelos.despegar k.proxima t.reloj = .ok v := hdesp
  rw [hlargo] at hmin hmax
  simp only [Plan.paraEnviar_eq k.proxima.isLt hmin hmax, hdesp']
  refine Role.Keeps.call Copiado.stable hcopia2 hcop fun x hx _ ↦ ⟨(), ?_⟩
  have hsale := hx.entrega ht.grifo hc hd hv
  rw [hlargo] at hsale
  refine ⟨fun _ ↦ hsale.vale, ?_⟩
  refine Role.Keeps.call Quieto.stable hsale (fun _ hy ↦ hy.ocupado) fun y hy _ ↦ ⟨(), id, ?_⟩
  rw [ht.vuelos.siguiente]
  exact hfin _ _ hy

/-! ### What the card gave back -/

/-- The oldest slot in flight lands. -/
theorem Quieto.aterriza {v : Vuelos} (h : Quieto p miMac k s)
    (hv : v.Lleva (Salida.salidas k.historia).length ((Salida.aterrizadas k.historia).length + 1))
    (hvuelta : (Salida.aterrizadas k.historia).length < s.1.cable.length)
    {i : Fin anillo} (hi : i = casillaDe (Salida.aterrizadas k.historia).length) :
    Quieto p miMac ⟨v, k.grifo, k.historia ++ [Suceso.aterrizo i]⟩
      (s.1.escribeDesc (p.dirDesc i) (.quieto (p.dirBufer i) (i.val = anillo - 1)), ()) := by
  have hle := hv.le
  have hcabe := hv.cabe
  have hlen := h.longitud
  have hmod : i.val = (Salida.aterrizadas k.historia).length % anillo := by
    rw [hi]
    rfl
  -- the card has none of the frames that began a turn in that slot
  have hlibre : ∀ n, s.1.cable.length ≤ n → n < s.1.entregadas.length → n % anillo ≠ i.val := by
    intro n hn hn'
    rw [hmod]
    exact (turno_ne (by omega) (by
      have hc := h.vuelos.cabe
      omega)).symm
  set d := TxDesc.quieto (p.dirBufer i) (i.val = anillo - 1)
  have hno : d.loTieneLaTarjeta = false := TxDesc.tiene_quieto
  have hvale := h.vale.aquieta i.isLt hno hlibre
  have hm' : s.1.escribeDesc (p.dirDesc i) d = s.1.escribe (p.dirDesc i) d.aBytes := by
    rw [Mundo.escribeDesc, hno]
    rfl
  rw [hm'] at hvale ⊢
  have hent : (s.1.escribe (p.dirDesc i) d.aBytes).entregadas = s.1.entregadas := rfl
  have hcable : (s.1.escribe (p.dirDesc i) d.aBytes).cable = s.1.cable := rfl
  have hbuf : Buferes p (Salida.aterrizadas k.historia).length (s.1.escribe (p.dirDesc i) d.aBytes) := by
    refine h.buferes.congr rfl fun x hx ↦ Memory.store_out (.inr ?_)
    have hlt := i.isLt
    rw [TxDesc.length_aBytes, Plan.dirDesc]
    simp only [desc, anillo] at hx hlt ⊢
    omega
  refine ⟨hvale, ?_, ?_, fun n j hn ↦ ?_, ?_, ?_, h.grifo.aterrizo [i], ?_, ?_, fun n e hn he ↦ ?_⟩
  · rw [hent]
    simpa using h.entregadas
  · simpa using h.salidas
  · simp only [aterrizadas_append, aterrizadas_singleton] at hn
    rw [List.getElem?_append] at hn
    split at hn
    · exact h.aterrizadas n j hn
    · rw [List.getElem?_singleton] at hn
      split at hn
      · cases hn
        have hn' : n = (Salida.aterrizadas k.historia).length := by omega
        rw [hn', hi]
      · cases hn
  · simpa using hv
  · rw [hcable]
    simpa [Nat.add_one_le_iff] using hvuelta
  · exact h.juzgadas.concat fun _ _ _ hx ↦ by cases hx
  · exact h.sinGasto.concat fun _ _ _ hx ↦ by cases hx
  · refine hbuf n e ?_ he
    simp only [aterrizadas_append, List.length_append] at hn
    omega

private theorem Quieto.volvio (h : Quieto p miMac k s)
    (hd : (Salida.salidas k.historia).length ≠ (Salida.aterrizadas k.historia).length)
    (ht : (s.1.descEn (p.dirDesc (casillaDe (Salida.aterrizadas k.historia).length))).loTieneLaTarjeta =
      false) : (Salida.aterrizadas k.historia).length < s.1.cable.length := by
  by_contra hge
  have hle := h.vuelos.le
  have hlen := h.longitud
  have hlt : (Salida.aterrizadas k.historia).length < s.1.entregadas.length := by omega
  have he := h.vale.suyos _ _ (by omega) (List.getElem?_eq_getElem hlt)
  have hdesc := he.descriptor
  have hslot : (casillaDe (Salida.aterrizadas k.historia).length).val =
    (Salida.aterrizadas k.historia).length % anillo := rfl
  rw [hslot, hdesc, TxDesc.tiene_paraEnviar] at ht
  cases ht

/-- `recoger`, by the turns of its loop. -/
theorem recogerBucle_keeps (n : Nat) (ahora : UInt64) (h : Quieto p miMac k s) :
    (rolNucleo p).Keeps (Ocupado p miMac)
      (fun r ↦ Quieto p miMac ⟨r.2, k.grifo, k.historia ++ r.1.map .aterrizo⟩)
      (recogerBucle p ahora n k.vuelos) s := by
  have hnada : ∀ (k : Nucleo) (u : Mundo × Unit), Quieto p miMac k u →
      (rolNucleo p).Keeps (Ocupado p miMac)
        (fun r ↦ Quieto p miMac ⟨r.2, k.grifo, k.historia ++ r.1.map .aterrizo⟩)
        (pure ([], k.vuelos)) u := by
    refine fun k u hu ↦ Role.Keeps.ret Quieto.stable hu fun w hw ↦ ⟨hw.ocupado, ?_⟩
    rw [List.map_nil, List.append_nil]
    exact hw
  induction n generalizing k s with
  | zero => exact hnada k s h
  | succ n ih =>
    rw [recogerBucle, h.vuelos.masVieja?]
    by_cases hd : (salidas k.historia).length = (aterrizadas k.historia).length
    · rw [if_pos hd]
      exact hnada k s h
    rw [if_neg hd]
    refine Role.Keeps.call Quieto.stable h (fun _ hu ↦ hu.ocupado) fun t ht _ ↦ ⟨(), id, ?_⟩
    have hlee : (rolNucleo p).handle
        (.leerDesc (p.descriptores + desc * (casillaDe (aterrizadas k.historia).length).val)) t.1 =
        (t.1.descEn (p.dirDesc (casillaDe (aterrizadas k.historia).length)), t.1) := rfl
    rw [hlee]
    dsimp only
    obtain ⟨hsigue, tardo, v, haterriza, hv⟩ := h.vuelos.recoger hd ahora
    cases htiene : (t.1.descEn
        (p.dirDesc (casillaDe (aterrizadas k.historia).length))).loTieneLaTarjeta with
    | true =>
      simp only [hsigue]
      exact hnada k _ ht
    | false =>
      have hvuelta := ht.volvio hd htiene
      simp only [haterriza, Plan.quieto_eq (casillaDe _).isLt]
      refine Role.Keeps.call (P := fun u ↦ Quieto p miMac k u ∧
          (aterrizadas k.historia).length < u.1.cable.length)
        (fun a b hab hq ↦ ⟨Quieto.stable a b hab hq.1, hq.2.trans_le hab.cable⟩) ⟨ht, hvuelta⟩
        (fun _ hu ↦ hu.1.ocupado) fun u hu _ ↦ ⟨(), ?_⟩
      have hq := hu.1.aterriza hv hu.2 rfl
      refine ⟨fun _ ↦ hq.vale, Role.Keeps.bind (ih hq) fun r w hw ↦ ?_⟩
      refine Role.Keeps.ret Quieto.stable hw fun x hx ↦ ⟨hx.ocupado, ?_⟩
      simpa using hx

theorem recoger_hace (h : Quieto p miMac k s) :
    (rolNucleo p).Keeps (Ocupado p miMac) (Quieto p miMac) (k.hace p miMac .recoger) s := by
  refine Role.Keeps.call Quieto.stable h (fun _ hs ↦ hs.ocupado) fun t ht _ ↦ ⟨(), id, ?_⟩
  exact Role.Keeps.bind (recogerBucle_keeps anillo t.1.reloj ht) fun r u hu ↦
    Role.Keeps.ret Quieto.stable hu fun w hw ↦ ⟨hw.ocupado, hw⟩

end

end BmoX.Red.Salida
