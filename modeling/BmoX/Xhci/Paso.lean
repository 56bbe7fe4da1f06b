import BmoX.Base.Bits
import BmoX.Base.CycleRing
import BmoX.Xhci.Anillo

/-!
# What one write and one step keep of a ring

The driver makes its calls and the controller its steps, in any order; a step of the controller may
come between any two writes of the driver. `Vale` is the invariant of a ring: a step of the controller
keeps it, and so does every write of the driver in the place that is its turn.
-/

namespace BmoX.Xhci

open BmoX.Base

/-! ### The driver and the controller on one ring -/

/-- The two parties of a ring. -/
inductive Parte
  | conductor | controlador
  deriving DecidableEq

/-- The driver of a ring: where it is to write next, and the TRBs it was asked to enqueue since the last
recovery. -/
structure Conductor where
  ring : TransferRing
  pedidos : List Trb

/-- A kind of ring: the calls of its driver, the TRBs that each enqueues and how. -/
structure Clase where
  Llamada : Type
  trbs : Llamada → List Trb
  hace : Llamada → Conductor → Prog anillo Conductor

/-- A call that enqueues its TRBs. -/
def Conductor.pide (d : Conductor) (ts : List Trb) (p : Prog anillo TransferRing) :
    Prog anillo Conductor := do
  let r ← p
  return ⟨r, d.pedidos ++ ts⟩

/-- The TRBs that a control transfer enqueues. -/
def Control.trbs (c : Control) : List Trb :=
  match c.dataPage with
  | none => []
  | some pagina => c.setup :: (if c.hasData then [c.data pagina] else []) ++ [c.status]

/-- The calls on the ring of an endpoint. -/
inductive DelExtremo
  | encolarNormal (bufPhys : UInt64) (len : UInt32)
  | queueIsochOut (bufPhys : UInt64) (len : UInt16) (avisar : Bool)
  | recuperarEndpoint

/-- The command ring, with `TransferRing::enqueue` as its producer. -/
def mando : Clase where
  Llamada := Comando
  trbs c := [c.trb]
  hace c d := d.pide [c.trb] do
    let (r, _) ← d.ring.encola c.trb
    return r

/-- The ring of a control endpoint, with `control_transfer`. -/
def ep0 : Clase where
  Llamada := Control
  trbs := Control.trbs
  hace c d := d.pide c.trbs (d.ring.controlTransfer c)

/-- The ring of any other endpoint. -/
def extremo : Clase where
  Llamada := DelExtremo
  trbs
    | .encolarNormal bufPhys len => [trbNormal bufPhys len]
    | .queueIsochOut bufPhys len avisar => [trbIsoch bufPhys len avisar]
    | .recuperarEndpoint => []
  hace
    | .encolarNormal bufPhys len, d =>
      d.pide [trbNormal bufPhys len] (d.ring.encolarNormal bufPhys len)
    | .queueIsochOut bufPhys len avisar, d =>
      d.pide [trbIsoch bufPhys len avisar] (d.ring.queueIsochOut bufPhys len avisar)
    | .recuperarEndpoint, d => do
      let r ← d.ring.recuperarEndpoint
      return ⟨r, []⟩

/-- A ring at an address of the memory, with its two parties. -/
def marcha (k : Clase) (base : UInt64) : System Parte anillo Estado where
  Priv | .conductor => Conductor | .controlador => Unit
  Call | .conductor => k.Llamada | .controlador => Unit
  prog
    | .conductor, c, d => k.hace c d
    | .controlador, _, _ => Prog.op (I := anillo) .ejecutar
  handle _ := maneja base

/-! ### How each ring is built -/

/-- A page of zeros, with the controller at its beginning and its cycle state set. -/
def Estado.enBlanco : Estado := ⟨fun _ ↦ 0, 0, true, [], []⟩

/-- The command ring in `init`; `lib.rs:751–758` and `784`. -/
def anilloDeMando (dma : UInt64) : Prog anillo TransferRing :=
  TransferRing.new (dma &&& ~~~0x3F)

/-- The ring in `direccionar_en_slot` and in `configure_endpoint`; `enumerar.rs:250–258`,
`transferencia.rs:357–371`. -/
def anilloDeTransferencia (dma : UInt64) : Prog anillo TransferRing := do
  let r ← TransferRing.new dma
  r.enableToggleCycle
  return r

/-- The ring that a builder leaves, before any call. -/
def recienHecho (k : Clase) (base : UInt64) (p : Prog anillo TransferRing) : (marcha k base).Config :=
  let r := Prog.exec (maneja base) p .enBlanco
  .start r.2 fun
    | .conductor => ⟨r.1, []⟩
    | .controlador => ()

/-! ### What a run may do and what is claimed of it -/

/-- The first write of a TRB. -/
def Empieza (i : Nat) : Prop := i % 4 = 0 ∧ i / 4 < lastTrbIdx

instance (i : Nat) : Decidable (Empieza i) := inferInstanceAs (Decidable (_ ∧ _))

/-- At most 254 TRBs are enqueued and not executed. -/
def Cabe : Op → Estado → Prop
  | .escribir i _, m => Empieza i → m.encolados.length < m.ejecutados.length + 254
  | _, _ => True

/-- At most `n` TRBs are enqueued. -/
def Hasta (n : Nat) : Op → Estado → Prop
  | .escribir i _, m => Empieza i → m.encolados.length < n
  | _, _ => True

/-- The ring is recovered only where an even number of laps ends. -/
def EnRedondo : Op → Estado → Prop
  | .recolocar _, m => m.encolados.length % (2 * lastTrbIdx) = 0
  | _, _ => True

section

variable {k : Clase} {base : UInt64}

/-- The driver in a state of a run. -/
def conductorDe (c : (marcha k base).Config) : Conductor := c.priv .conductor

/-- The TRBs of the call under way. -/
def enCurso (c : (marcha k base).Config) : List Trb :=
  match (c.run .conductor : Option (k.Llamada × Prog anillo Conductor)) with
  | some (l, _) => k.trbs l
  | none => []

/-- The controller has executed TRBs enqueued since the last recovery, from the first on, in order and
once each; those enqueued are those asked for, with the ones of the call under way from the first
on; and while no call is under way, if some TRB is left the controller executes the next in one step
or two. -/
structure EnPaso (c : (marcha k base).Config) : Prop where
  orden : c.mem.ejecutados <+: c.mem.encolados
  enCamino : c.mem.encolados <+: (conductorDe c).pedidos ++ enCurso c
  pedidos : c.run .conductor = none → c.mem.encolados = (conductorDe c).pedidos
  sigue : c.run .conductor = none → ∀ t, c.mem.encolados[c.mem.ejecutados.length]? = some t →
    (c.mem.paso base).ejecutados = c.mem.ejecutados ++ [t] ∨
      ((c.mem.paso base).paso base).ejecutados = c.mem.ejecutados ++ [t]

end

/-! ### The bits of a TRB -/

theorem and_one (a : UInt32) : a &&& 1 = 0 ∨ a &&& 1 = 1 := by
  rcases Nat.mod_two_eq_zero_or_one a.toNat with h | h
  · left
    apply UInt32.toNat_inj.mp
    simp [Nat.and_one_is_mod, h]
  · right
    apply UInt32.toNat_inj.mp
    simp [Nat.and_one_is_mod, h]

private theorem split_one (a : UInt32) : (a &&& ~~~1) ||| (a &&& 1) = a := by
  have h : (~~~1 ||| 1 : UInt32) &&& a = a := by simp
  rw [or_and_distrib32] at h
  rwa [UInt32.and_comm a, UInt32.and_comm a]

private theorem and_not_one {a : UInt32} (h : a &&& 1 = 0) : a &&& ~~~1 = a := by
  have hs := split_one a
  rwa [h, UInt32.or_zero] at hs

theorem and_conCiclo (a : UInt32) (b : Bool) : (a &&& ~~~1 ||| conCiclo b) &&& 1 = conCiclo b := by
  rw [or_and_distrib32, UInt32.and_assoc]
  cases b <;> simp [conCiclo]

private theorem conCiclo_shift (b : Bool) : conCiclo b >>> 10 = 0 := by
  cases b <;> rfl

theorem not_one_shift : (((~~~1 : UInt32) >>> 10 : UInt32) &&& 0x3F : UInt32) = 0x3F := by decide

private theorem tipo_and_not_one (a : UInt32) :
    ((a &&& ~~~1) >>> 10) &&& (0x3F : UInt32) = (a >>> 10) &&& (0x3F : UInt32) := by
  rw [UInt32.shiftRight_and, UInt32.and_assoc, not_one_shift]

/-- The two halves of an address put together. -/
theorem dosMitades (a : UInt64) :
    (a.toUInt32.toUInt64 ||| (a >>> 32).toUInt32.toUInt64 <<< 32) = a := by
  have ha := a.toNat_lt
  have hlo : a.toUInt32.toUInt64.toNat = a.toNat % 2 ^ 32 := by simp
  have hhi : (a >>> 32).toUInt32.toUInt64.toNat = a.toNat / 2 ^ 32 := by
    rw [UInt32.toNat_toUInt64, UInt64.toNat_toUInt32, toNat_shiftRight a (by decide),
      show (32 : UInt64).toNat = 32 from rfl]
    omega
  apply UInt64.toNat_inj.mp
  rw [UInt64.or_comm, toNat_shiftLeft_or (by decide) (by rw [hhi]; simp; omega)
    (by rw [hlo]; simp; omega), hlo, hhi, show (32 : UInt64).toNat = 32 from rfl]
  omega

namespace Trb

/-- A TRB to be enqueued: the ring gives it its cycle bit, and it is no Link TRB. -/
structure Limpia (t : Trb) : Prop where
  ciclo : t.dw3 &&& 1 = 0
  tipo : t.tipo ≠ Tipo.link

/-- A TRB with a cycle bit, whatever it had. -/
def puesta (t : Trb) (b : Bool) : Trb := { t with dw3 := t.dw3 &&& ~~~1 ||| conCiclo b }

theorem ciclo_puesta (t : Trb) (b : Bool) : (t.puesta b).ciclo = b := by
  simp only [ciclo, puesta, and_conCiclo]
  cases b <;> rfl

theorem tipo_puesta (t : Trb) (b : Bool) : (t.puesta b).tipo = t.tipo := by
  simp only [tipo, puesta, UInt32.shiftRight_or, conCiclo_shift, UInt32.or_zero]
  exact tipo_and_not_one _

theorem toggle_puesta (t : Trb) (b : Bool) : (t.puesta b).toggle = t.toggle := by
  have h : (t.dw3 &&& ~~~1 ||| conCiclo b) &&& 2 = t.dw3 &&& 2 := by
    have h2 : (~~~1 &&& 2 : UInt32) = 2 := by decide
    have h1 : (1 &&& 2 : UInt32) = 0 := by decide
    rw [or_and_distrib32, UInt32.and_assoc, h2]
    cases b <;> simp [conCiclo, h1]
  simp only [toggle, puesta, h]

theorem sinCiclo_puesta {t : Trb} (h : t.Limpia) (b : Bool) : (t.puesta b).sinCiclo = t := by
  simp only [sinCiclo, puesta, or_and_distrib32, UInt32.and_assoc, UInt32.and_self]
  rw [and_not_one h.ciclo]
  cases b <;> simp [conCiclo]

private theorem tipo_sinCiclo (t : Trb) : t.sinCiclo.tipo = t.tipo := tipo_and_not_one _

end Trb

/-! ### One write -/

namespace Estado

variable {m : Estado} {i q : Nat} {v : UInt32}

private theorem escrito_dw : (m.escrito i v).dw = Function.update m.dw i v := by
  rw [escrito]
  split <;> rfl

@[simp] theorem escrito_deq : (m.escrito i v).deq = m.deq := by
  rw [escrito]
  split <;> rfl

@[simp] theorem escrito_ccs : (m.escrito i v).ccs = m.ccs := by
  rw [escrito]
  split <;> rfl

@[simp] theorem escrito_ejecutados : (m.escrito i v).ejecutados = m.ejecutados := by
  rw [escrito]
  split <;> rfl

theorem escrito_encolados_of_not (h : ¬(i % 4 = 3 ∧ i / 4 < lastTrbIdx)) :
    (m.escrito i v).encolados = m.encolados := by
  rw [escrito, if_neg h]

private theorem escrito_encolados (h : q < lastTrbIdx) :
    (m.escrito (q * 4 + 3) v).encolados =
      m.encolados ++ [((m.escrito (q * 4 + 3) v).trb q).sinCiclo] := by
  have hi : (q * 4 + 3) % 4 = 3 ∧ (q * 4 + 3) / 4 < lastTrbIdx := by omega
  have hq : (q * 4 + 3) / 4 = q := by omega
  rw [escrito, if_pos hi, hq]
  rfl

theorem trb_congr {s t : Estado} (h : t.dw = s.dw) (q : Nat) : t.trb q = s.trb q := by
  rw [trb, trb, h]

theorem trb_escrito_of_ne (h : q ≠ i / 4) : (m.escrito i v).trb q = m.trb q := by
  simp only [trb, escrito_dw]
  rw [Function.update_of_ne (by omega), Function.update_of_ne (by omega),
    Function.update_of_ne (by omega), Function.update_of_ne (by omega)]

theorem trb_escrito0 : (m.escrito (q * 4) v).trb q = { m.trb q with dw0 := v } := by
  simp [trb, escrito_dw]

theorem trb_escrito1 : (m.escrito (q * 4 + 1) v).trb q = { m.trb q with dw1 := v } := by
  simp [trb, escrito_dw]

theorem trb_escrito2 : (m.escrito (q * 4 + 2) v).trb q = { m.trb q with dw2 := v } := by
  simp [trb, escrito_dw]

theorem trb_escrito3 : (m.escrito (q * 4 + 3) v).trb q = { m.trb q with dw3 := v } := by
  simp [trb, escrito_dw]

end Estado

/-! ### The invariant -/

/-- Where the controller is after executing as many TRBs as it has: at the slot of the next one, or
still at the Link TRB before it. -/
def EnLugar (m : Estado) : Prop :=
  let c := m.ejecutados.length
  (m.deq = c % lastTrbIdx ∧ m.ccs = lapBit lastTrbIdx c) ∨
    (m.deq = lastTrbIdx ∧ c % lastTrbIdx = 0 ∧ 0 < c ∧ m.ccs = !lapBit lastTrbIdx c)

/-- The invariant of a ring. -/
structure Vale (base : UInt64) (m : Estado) : Prop where
  ring : CycleRing lastTrbIdx (fun i ↦ (m.trb i).ciclo) (fun i ↦ (m.trb i).sinCiclo) m.encolados
    m.ejecutados.length
  orden : m.ejecutados <+: m.encolados
  tipos : ∀ t ∈ m.encolados, t.tipo ≠ Tipo.link
  enlace : (m.trb lastTrbIdx).tipo = Tipo.link
  vuelve : Estado.casilla base (m.trb lastTrbIdx).destino = 0
  gira : lastTrbIdx ≤ m.encolados.length → (m.trb lastTrbIdx).toggle = true
  lugar : EnLugar m
  cabe : m.encolados.length ≤ m.ejecutados.length + 254

theorem lastTrbIdx_pos : 0 < lastTrbIdx := by decide

namespace Vale

variable {base : UInt64} {m : Estado}

/-! #### The controller -/

/-- At the slot of the next TRB the controller waits until there is one, and executes it. -/
theorem paso_casilla (h : Vale base m) (hdeq : m.deq = m.ejecutados.length % lastTrbIdx)
    (hccs : m.ccs = lapBit lastTrbIdx m.ejecutados.length) :
    (m.ejecutados = m.encolados ∧ m.paso base = m) ∨
      ∃ t, m.encolados[m.ejecutados.length]? = some t ∧
        m.paso base = { m with deq := m.deq + 1, ejecutados := m.ejecutados ++ [t] } := by
  have hready := h.ring.ready lastTrbIdx_pos
  by_cases hlt : m.ejecutados.length < m.encolados.length
  · right
    have hnext := h.ring.next hlt
    have hciclo : (m.trb m.deq).ciclo = m.ccs := by rw [hdeq, hccs, hready.mpr hlt]
    have htipo : (m.trb m.deq).tipo ≠ Tipo.link := by
      rw [hdeq, ← Trb.tipo_sinCiclo]
      exact h.tipos _ (List.mem_of_getElem? hnext)
    refine ⟨_, hnext, ?_⟩
    rw [Estado.paso, if_neg (by simp [hciclo]), if_neg htipo, hdeq]
  · left
    have hciclo : (m.trb m.deq).ciclo ≠ m.ccs := by
      rw [hdeq, hccs]
      exact fun he ↦ hlt (hready.mp he)
    exact ⟨h.orden.eq_of_length_le (by omega), by rw [Estado.paso, if_pos hciclo]⟩

/-- At the Link TRB it waits for its cycle bit, and goes on to the first slot. -/
theorem paso_enlace (h : Vale base m) (hdeq : m.deq = lastTrbIdx)
    (hc : m.ejecutados.length % lastTrbIdx = 0) (hpos : 0 < m.ejecutados.length) :
    ((m.trb lastTrbIdx).ciclo ≠ m.ccs ∧ m.paso base = m) ∨
      ((m.trb lastTrbIdx).ciclo = m.ccs ∧ m.paso base = { m with deq := 0, ccs := !m.ccs }) := by
  by_cases hciclo : (m.trb lastTrbIdx).ciclo = m.ccs
  · have hlen : lastTrbIdx ≤ m.encolados.length := by
      have := h.ring.consumed
      have := Nat.le_of_dvd hpos (Nat.dvd_of_mod_eq_zero hc)
      omega
    refine .inr ⟨hciclo, ?_⟩
    rw [Estado.paso, hdeq, if_neg (by simp [hciclo]), if_pos h.enlace, h.vuelve, h.gira hlen,
      Bool.xor_true]
  · exact .inl ⟨hciclo, by rw [Estado.paso, hdeq, if_pos hciclo]⟩

/-- A step of the controller. -/
theorem paso (h : Vale base m) : Vale base (m.paso base) := by
  obtain ⟨hdeq, hccs⟩ | ⟨hdeq, hc, hpos, hccs⟩ := h.lugar
  · obtain ⟨-, hp⟩ | ⟨t, ht, hp⟩ := h.paso_casilla hdeq hccs
    · rwa [hp]
    · have hlt := (List.getElem?_eq_some_iff.mp ht).1
      rw [hp]
      refine ⟨?_, ?_, h.tipos, h.enlace, h.vuelve, h.gira, ?_, ?_⟩
      · rw [List.length_append, List.length_singleton]
        exact h.ring.consume hlt
      · have hpre := List.prefix_iff_eq_take.mp h.orden
        rw [List.prefix_iff_eq_take, List.length_append, List.length_singleton, List.take_add_one, ht,
          ← hpre, Option.toList_some]
      · simp only [EnLugar, List.length_append, List.length_singleton]
        by_cases hend : m.ejecutados.length % lastTrbIdx + 1 = lastTrbIdx
        · obtain ⟨hl, hm⟩ := lapBit_succ_of_end lastTrbIdx_pos hend
          exact .inr ⟨by rw [hdeq, hend], hm, Nat.succ_pos _, by rw [hl, Bool.not_not, hccs]⟩
        · have := Nat.mod_lt m.ejecutados.length lastTrbIdx_pos
          obtain ⟨hl, hm⟩ := lapBit_succ lastTrbIdx_pos (k := m.ejecutados.length) (by omega)
          exact .inl ⟨by rw [hdeq, hm], by rw [hl, hccs]⟩
      · rw [List.length_append]
        exact h.cabe.trans (by omega)
  · obtain ⟨-, hp⟩ | ⟨-, hp⟩ := h.paso_enlace hdeq hc hpos
    · rwa [hp]
    · rw [hp]
      exact ⟨h.ring, h.orden, h.tipos, h.enlace, h.vuelve, h.gira,
        .inl ⟨hc.symm, by rw [hccs, Bool.not_not]⟩, h.cabe⟩

/-! #### The driver -/

/-- A write within the TRB to come, short of its last dword. -/
theorem escrito (h : Vale base m) (hroom : m.encolados.length < m.ejecutados.length + 254) {i : Nat}
    (v : UInt32) (hi : i / 4 = m.encolados.length % lastTrbIdx) (hi' : i % 4 ≠ 3) :
    Vale base (m.escrito i v) := by
  have hlt := Nat.mod_lt m.encolados.length lastTrbIdx_pos
  have hlink : (m.escrito i v).trb lastTrbIdx = m.trb lastTrbIdx :=
    Estado.trb_escrito_of_ne (by omega)
  have henc : (m.escrito i v).encolados = m.encolados :=
    Estado.escrito_encolados_of_not fun hn ↦ hi' hn.1
  refine ⟨?_, by simpa [henc] using h.orden, by simpa [henc] using h.tipos, by simpa [hlink] using h.enlace,
    by simpa [hlink] using h.vuelve, by simpa [hlink, henc] using h.gira, ?_,
    by simpa [henc] using h.cabe⟩
  · rw [henc, Estado.escrito_ejecutados]
    refine h.ring.fill lastTrbIdx_pos (by rw [lastTrbIdx_eq]; omega) (fun q _ ↦ ?_) fun q _ hq ↦ ?_
    · have hdw : (m.escrito i v).dw (q * 4 + 3) = m.dw (q * 4 + 3) := by
        rw [Estado.escrito_dw, Function.update_of_ne (by omega)]
      exact congrArg (fun d : UInt32 ↦ decide (d &&& 1 = 1)) hdw
    · rw [Estado.trb_escrito_of_ne (by omega)]
  · simpa [EnLugar] using h.lugar

/-- The last write of a TRB. -/
theorem escrito_ultimo (h : Vale base m) (hroom : m.encolados.length < m.ejecutados.length + 254)
    {t : Trb} (ht : t.Limpia) {q : Nat} (hq : q = m.encolados.length % lastTrbIdx)
    (h0 : (m.trb q).dw0 = t.dw0) (h1 : (m.trb q).dw1 = t.dw1) (h2 : (m.trb q).dw2 = t.dw2)
    (hgira : lastTrbIdx ≤ m.encolados.length + 1 → (m.trb lastTrbIdx).toggle = true) :
    let m' := m.escrito (q * 4 + 3) (t.dw3 ||| conCiclo (lapBit lastTrbIdx m.encolados.length))
    Vale base m' ∧ m'.encolados = m.encolados ++ [t] := by
  intro m'
  have hlt : q < lastTrbIdx := hq ▸ Nat.mod_lt m.encolados.length lastTrbIdx_pos
  have hlink : m'.trb lastTrbIdx = m.trb lastTrbIdx := Estado.trb_escrito_of_ne (by omega)
  have htrb : m'.trb q = t.puesta (lapBit lastTrbIdx m.encolados.length) := by
    simp only [m', Estado.trb_escrito3, h0, h1, h2, Trb.puesta, and_not_one ht.ciclo]
  have henc : m'.encolados = m.encolados ++ [t] := by
    rw [Estado.escrito_encolados hlt, htrb, Trb.sinCiclo_puesta ht]
  refine ⟨⟨?_, ?_, ?_, by rw [hlink]; exact h.enlace, by rw [hlink]; exact h.vuelve, ?_, ?_, ?_⟩, henc⟩
  · rw [henc, Estado.escrito_ejecutados]
    refine h.ring.produce lastTrbIdx_pos (by rw [lastTrbIdx_eq]; omega) ?_ (fun i _ hi ↦ ?_) ?_ fun i _ hi ↦ ?_
    · rw [← hq, htrb, Trb.ciclo_puesta]
    · rw [Estado.trb_escrito_of_ne (by omega)]
    · rw [← hq, htrb, Trb.sinCiclo_puesta ht]
    · rw [Estado.trb_escrito_of_ne (by omega)]
  · rw [henc, Estado.escrito_ejecutados]
    exact h.orden.trans (List.prefix_append _ _)
  · intro u hu
    rw [henc, List.mem_append, List.mem_singleton] at hu
    rcases hu with hu | rfl
    · exact h.tipos u hu
    · exact ht.tipo
  · rw [henc, hlink, List.length_append, List.length_singleton]
    exact hgira
  · simpa [EnLugar, m'] using h.lugar
  · simpa [henc, m'] using Nat.le_of_lt_succ hroom

/-- The cycle bit of the Link TRB. -/
theorem escrito_enlace (h : Vale base m) (b : Bool) :
    let m' := m.escrito (lastTrbIdx * 4 + 3) ((m.trb lastTrbIdx).puesta b).dw3
    Vale base m' ∧ m'.encolados = m.encolados ∧
      m'.trb lastTrbIdx = (m.trb lastTrbIdx).puesta b := by
  intro m'
  have hlink : m'.trb lastTrbIdx = (m.trb lastTrbIdx).puesta b := Estado.trb_escrito3
  have henc : m'.encolados = m.encolados := Estado.escrito_encolados_of_not (by decide)
  have htrb : ∀ i < lastTrbIdx, m'.trb i = m.trb i := fun i hi ↦
    Estado.trb_escrito_of_ne (by omega)
  refine ⟨⟨?_, by rw [henc, Estado.escrito_ejecutados]; exact h.orden, by rw [henc]; exact h.tipos, ?_, ?_, ?_, ?_,
    by rw [henc, Estado.escrito_ejecutados]; exact h.cabe⟩, henc, hlink⟩
  · rw [henc, Estado.escrito_ejecutados]
    exact ⟨fun i hi ↦ by rw [htrb i hi, h.ring.bits i hi],
      fun k a hk ha ↦ by rw [htrb _ (Nat.mod_lt k lastTrbIdx_pos), h.ring.items k a hk ha],
      h.ring.consumed, h.ring.room⟩
  · rw [hlink, Trb.tipo_puesta, h.enlace]
  · rw [hlink]
    exact h.vuelve
  · rw [hlink, Trb.toggle_puesta, henc]
    exact h.gira
  · simpa [EnLugar, m'] using h.lugar

/-- A recovery where an even number of laps ends. -/
theorem recolocado (h : Vale base m) (hl : m.encolados.length % (2 * lastTrbIdx) = 0) {dq : UInt64}
    (hdq : dq &&& ~~~0xF = base) (hdcs : dq &&& 1 = 1) : Vale base (m.recolocado base dq) where
  ring := h.ring.restart lastTrbIdx_pos hl
  orden := List.prefix_refl _
  tipos t ht := by cases ht
  enlace := h.enlace
  vuelve := h.vuelve
  gira hlen := absurd hlen (by simp [Estado.recolocado, lastTrbIdx_eq])
  lugar := by
    refine .inl ⟨?_, ?_⟩
    · simp [Estado.recolocado, Estado.casilla, hdq]
    · simp [Estado.recolocado, hdcs]
  cabe := Nat.zero_le _

end Vale

end BmoX.Xhci
