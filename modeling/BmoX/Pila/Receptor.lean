import BmoX.Pila.Emisor
import Mathlib.Data.List.Infix

/-!
# The numbers a connection receives with

The next number expected and the buffer, as a prefix of the stream that the other end accepted.
-/

namespace BmoX.Pila

open BmoX.Base

namespace Conexion

/-- The states, the handshake of a client apart, where the FIN of the peer did not come yet. -/
def espera (c : Conexion) : Bool := c.recibe || c.estado = .synRecibido

/-- An ACK neither brings the FIN nor takes it back. -/
theorem espera_confirma {c c' : Conexion} {s : Segmento} {ahora : UInt64} {b : Bool}
    (h : c.confirma s ahora = .ok (c', b)) (hv : c'.viva = true) : c'.espera = c.espera := by
  rcases c.confirma_cases s ahora with ⟨-, -, he⟩ | ⟨h1, -, -, he⟩ | ⟨-, -, he⟩ | ⟨-, -, he⟩ |
    ⟨-, -, -, ⟨-, -, he⟩ | ⟨-, he⟩⟩
  · rw [he] at h
    cases h
  · rw [he] at h
    cases h
    unfold espera recibe
    rw [h1]
    rfl
  · rw [he] at h
    cases h
    rfl
  · rw [he] at h
    cases h
    rfl
  · rw [he] at h
    cases h
    rw [viva_cerrarCon] at hv
    cases hv
  · rw [he] at h
    cases h
    have hest : (c.avanza s ahora).estado = c.estado := (c.estado_avanza s ahora).1
    split
    · next hf =>
      rw [if_pos hf] at hv
      unfold trasFin at hv ⊢
      split
      · next e =>
        unfold espera recibe
        rw [← hest, e]
        rfl
      · next e =>
        unfold espera recibe
        rw [← hest, e]
        rfl
      · next e =>
        split at hv
        · next e' => exact absurd (e.symm.trans e') Estado.noConfusion
        · next e' => exact absurd (e.symm.trans e') Estado.noConfusion
        · rw [show ({ (c.avanza s ahora).cerrarCon .normal with
            sndWnd := s.ventana.toUInt32 } : Conexion).viva =
              ((c.avanza s ahora).cerrarCon .normal).viva from rfl, viva_cerrarCon] at hv
          cases hv
        · next _ _ e' => exact absurd e e'
      · rfl
    · rfl

private theorem espera_traeFin {c : Conexion} (ahora : UInt64) (h : c.recibe = true) :
    (c.traeFin ahora).espera = false ∧ (c.traeFin ahora).estado ≠ .synEnviado ∧
      (c.traeFin ahora).rcvNxt = c.rcvNxt + 1 ∧ (c.traeFin ahora).rx = c.rx := by
  unfold recibe at h
  unfold traeFin
  dsimp only
  split
  · exact ⟨rfl, Estado.noConfusion, rfl, rfl⟩
  · split
    · exact ⟨rfl, Estado.noConfusion, rfl, rfl⟩
    · exact ⟨rfl, Estado.noConfusion, rfl, rfl⟩
  · exact ⟨rfl, Estado.noConfusion, rfl, rfl⟩
  · next h1 h2 h3 =>
    split at h
    · next e => exact absurd e h1
    · next e => exact absurd e h2
    · next e => exact absurd e h3
    · cases h

end Conexion

/-- What a live connection received is a prefix of what the other end accepted: up to the next
number expected, or all of it when the FIN came. -/
structure Receptor (d : Diario) (c : Conexion) (p : Diario) : Prop where
  callado : c.estado = .synEnviado → d.nxt = 0 ∧ d.entregado ++ c.rx = []
  rcvNxt : c.estado ≠ .synEnviado → 1 ≤ d.nxt ∧ p.fase ≠ .antes ∧ c.rcvNxt = serial p.isn d.nxt
  espera : c.espera = true → d.entregado ++ c.rx = p.aceptado.take (d.nxt - 1) ∧
    d.nxt ≤ p.aceptado.length + 1
  acabado : c.espera = false → c.estado ≠ .synEnviado →
    p.cerrado = some (d.entregado ++ c.rx) ∧ p.aceptado = d.entregado ++ c.rx ∧
      d.nxt = p.aceptado.length + 2

/-- What a segment that comes tells of the stream of the other end, to a connection that expects
the number `q`. -/
structure Oido (p : Diario) (q : Nat) (s : Segmento) (pos : Nat) : Prop where
  nacida : p.fase ≠ .antes
  sec : s.sec = serial p.isn pos
  delante : pos ≤ q + 16384
  detras : q < pos + 2147500032
  datos : s.datos <+: p.aceptado.drop (pos - 1)
  primero : s.datos ≠ [] → 1 ≤ pos
  fin : s.banderas &&& fin ≠ 0 → s.datos = [] ∧ p.cerrado = some p.aceptado ∧
    pos = p.aceptado.length + 1
  syn : s.banderas &&& syn ≠ 0 → pos = 0

/-- What a segment does to what was received: the next number expected is `q`. -/
structure Recoge (d : Diario) (c c' : Conexion) (p : Diario) (q : Nat) : Prop where
  suma : (if c.estado = .synEnviado then if c'.estado = .establecida then 1 else 0
    else d.nxt + (c'.rcvNxt - c.rcvNxt).toNat) = q
  crece : d.nxt ≤ q
  tope : q ≤ p.aceptado.length + 2
  prefijo : d.entregado ++ c'.rx <+: p.aceptado
  nacida : q = d.nxt ∨ p.fase ≠ .antes
  receptor : c'.viva = true → Receptor { d with nxt := q } c' p

namespace Receptor

variable {d p : Diario} {c c' : Conexion} {s : Segmento}

/-- What was received is a prefix of what was accepted. -/
theorem prefijo (h : Receptor d c p) : d.entregado ++ c.rx <+: p.aceptado := by
  by_cases he : c.estado = .synEnviado
  · rw [(h.callado he).2]
    exact List.nil_prefix
  · cases hw : c.espera with
    | true =>
      rw [(h.espera hw).1]
      exact List.take_prefix _ _
    | false =>
      rw [(h.acabado hw he).2.1]

/-- Nothing is expected that is after the FIN. -/
theorem nxt_le (h : Receptor d c p) : d.nxt ≤ p.aceptado.length + 2 := by
  by_cases he : c.estado = .synEnviado
  · rw [(h.callado he).1]
    exact Nat.zero_le _
  · cases hw : c.espera with
    | true => exact (h.espera hw).2.trans (Nat.le_succ _)
    | false => exact (h.acabado hw he).2.2.le

/-- A step that keeps what a connection received. -/
theorem recoge_igual (h : Receptor d c p) (hrx : c'.rx = c.rx) (hr : c'.rcvNxt = c.rcvNxt)
    (hs : c.estado = .synEnviado → c'.estado ≠ .establecida)
    (he : c'.viva = true → c'.espera = c.espera ∧
      (c'.estado = .synEnviado ↔ c.estado = .synEnviado)) : Recoge d c c' p d.nxt := by
  refine ⟨?_, Nat.le_refl _, h.nxt_le, by rw [hrx]; exact h.prefijo, .inl rfl, fun hv ↦ ?_⟩
  · by_cases e : c.estado = .synEnviado
    · rw [if_pos e, if_neg (hs e), (h.callado e).1]
    · rw [if_neg e, hr, UInt32.sub_self]
      rfl
  · obtain ⟨h1, h2⟩ := he hv
    refine ⟨fun e ↦ ?_, fun e ↦ ?_, fun e ↦ ?_, fun e e' ↦ ?_⟩
    · rw [hrx]
      exact h.callado (h2.mp e)
    · rw [hr]
      exact h.rcvNxt fun e' ↦ e (h2.mpr e')
    · rw [hrx]
      exact h.espera (h1.symm.trans e)
    · rw [hrx]
      exact h.acabado (h1.symm.trans e) fun e'' ↦ e' (h2.mpr e'')

/-- A connection that is closed keeps what it received. -/
theorem recoge_cerrada (h : Receptor d c p) (por : Cierre) : Recoge d c (c.cerrarCon por) p d.nxt :=
  h.recoge_igual rfl rfl (fun _ e ↦ by
    have := Conexion.viva_cerrarCon c por
    rw [Conexion.viva, e] at this
    cases this) fun hv ↦ by
      rw [Conexion.viva_cerrarCon] at hv
      cases hv

/-- The segment that answers the SYN says where the stream of the other end starts. -/
theorem entraSynEnviado (h : Receptor d c p) (he : c.estado = .synEnviado)
    (ho : s.banderas &&& rst ≠ 0 ∨ ∃ pos, Oido p d.nxt s pos) (ahora : UInt64) :
    ∃ q, Recoge d c (c.entraSynEnviado s ahora).1 p q := by
  have hig : Recoge d c c p d.nxt := h.recoge_igual rfl rfl
    (fun _ e ↦ absurd (he.symm.trans e) Estado.noConfusion) fun _ ↦ ⟨rfl, Iff.rfl⟩
  unfold Conexion.entraSynEnviado
  dsimp only
  split
  · exact ⟨_, hig⟩
  · split
    · split
      · exact ⟨_, h.recoge_cerrada _⟩
      · exact ⟨_, hig⟩
    · next hrst =>
      split
      · exact ⟨_, hig⟩
      · next hb =>
        rw [not_or] at hb
        obtain ⟨pos, ho⟩ := ho.resolve_left hrst
        have hpos := ho.syn hb.1
        obtain ⟨h0, hnil⟩ := h.callado he
        have htake : d.entregado ++ c.rx = p.aceptado.take 0 := hnil.trans (List.take_zero).symm
        refine ⟨1, by rw [if_pos he, if_pos rfl], by omega, by omega, h.prefijo, .inr ho.nacida,
          fun _ ↦ ?_⟩
        refine ⟨fun e ↦ Estado.noConfusion e, fun _ ↦ ⟨Nat.le_refl 1, ho.nacida, ?_⟩,
          fun _ ↦ ⟨htake, Nat.le_add_left 1 _⟩, fun e ↦ Bool.noConfusion e⟩
        show s.sec + 1 = serial p.isn 1
        rw [ho.sec, hpos, serial_zero, serial_one]

/-- A segment that is taken starts at or before the number expected. -/
theorem sigue (h : Receptor d c p) (hne : c.estado ≠ .synEnviado) {pos : Nat}
    (ho : Oido p d.nxt s pos) (hs : c.Sigue s) : 1 ≤ pos ∧ pos ≤ d.nxt ∧
      c.nuevos s <+: p.aceptado.drop (d.nxt - 1) ∧
      (s.datos = [] → pos = d.nxt ∧ c.nuevos s = []) := by
  obtain ⟨h1, h2, h3⟩ := h.rcvNxt hne
  obtain ⟨hs1, hs2⟩ := hs
  have hd1 := ho.delante
  have hd2 := ho.detras
  rw [h3, ho.sec] at hs1 hs2
  have hle : pos ≤ d.nxt := by
    rcases Nat.lt_or_ge d.nxt pos with e | e
    · rw [antes_serial e (by omega)] at hs1
      cases hs1
    · exact e
  have hsub := toNat_serial_sub p.isn hle (by omega)
  rw [hsub] at hs2
  have hnuevos : c.nuevos s = s.datos.drop (d.nxt - pos) := by
    rw [Conexion.nuevos, h3, ho.sec, hsub]
  have hpos : 1 ≤ pos := by
    by_cases hnil : s.datos = []
    · rw [hnil, List.length_nil] at hs2
      omega
    · exact ho.primero hnil
  refine ⟨hpos, hle, ?_, fun hnil ↦ ?_⟩
  · have hdrop : (p.aceptado.drop (pos - 1)).drop (d.nxt - pos) = p.aceptado.drop (d.nxt - 1) := by
      rw [List.drop_drop]
      congr 1
      omega
    rw [hnuevos, ← hdrop]
    exact ho.datos.drop _
  · rw [hnil, List.length_nil] at hs2
    exact ⟨by omega, by rw [hnuevos, hnil, List.drop_nil]⟩

/-- Bytes that come are the next ones of the stream. -/
theorem conDatos (h : Receptor d c p) (hne : c.estado ≠ .synEnviado) {datos : Bytes} {t : Nat}
    (hd : datos <+: p.aceptado.drop (d.nxt - 1)) (ht : t ≤ datos.length) (hb : t ≤ bufer)
    (hr : c.recibe = true ∨ t = 0) : Recoge d c (c.conDatos datos t) p (d.nxt + t) := by
  have hbuf : bufer = 8192 := rfl
  obtain ⟨h1, h2, h3⟩ := h.rcvNxt hne
  have hrx : (c.conDatos datos t).rx = c.rx ++ datos.take t ∧
      (c.conDatos datos t).rcvNxt = c.rcvNxt + UInt32.ofNat t := by
    unfold Conexion.conDatos
    split
    · next e =>
      rw [e] at ht
      obtain rfl : t = 0 := by simpa using ht
      rw [List.take_zero, List.append_nil]
      exact ⟨rfl, (UInt32.add_zero _).symm⟩
    · exact ⟨rfl, rfl⟩
  have hest := (c.estado_conDatos datos t).1
  have hsub : ((c.conDatos datos t).rcvNxt - c.rcvNxt).toNat = t := by
    rw [hrx.2, h3, ← serial_add, toNat_serial_sub _ (Nat.le_add_right _ _) (by omega)]
    omega
  rcases hr with hr | rfl
  · -- the states that take data
    have hesp : c.espera = true := by rw [Conexion.espera, hr, Bool.true_or]
    obtain ⟨h4, h5⟩ := h.espera hesp
    have hlen := hd.length_le
    rw [List.length_drop] at hlen
    have htake : datos.take t = (p.aceptado.drop (d.nxt - 1)).take t := by
      obtain ⟨z, hz⟩ := hd
      rw [← hz, List.take_append_of_le_length ht]
    have hnew : d.entregado ++ (c.conDatos datos t).rx = p.aceptado.take (d.nxt + t - 1) := by
      rw [hrx.1, ← List.append_assoc, h4, htake, ← List.take_add]
      congr 1
      omega
    refine ⟨by rw [if_neg hne, hsub], Nat.le_add_right _ _, by omega, ?_, .inr h2, fun _ ↦ ?_⟩
    · rw [hnew]
      exact List.take_prefix _ _
    · refine ⟨fun e ↦ absurd (hest.symm.trans e) hne, fun _ ↦ ⟨by show 1 ≤ d.nxt + t; omega, h2, ?_⟩,
        fun _ ↦ ⟨hnew, by show d.nxt + t ≤ _; omega⟩, fun e ↦ ?_⟩
      · rw [hrx.2, h3, ← serial_add]
      · exfalso
        unfold Conexion.espera Conexion.recibe at e hesp
        rw [hest, hesp] at e
        cases e
  · rw [List.take_zero, List.append_nil] at hrx
    have hrec : Recoge d c (c.conDatos datos 0) p d.nxt := h.recoge_igual hrx.1
      (hrx.2.trans (UInt32.add_zero _)) (fun e ↦ absurd e hne) fun _ ↦ by
        unfold Conexion.espera Conexion.recibe
        rw [hest]
        exact ⟨rfl, Iff.rfl⟩
    exact hrec

/-- What the data and the FIN of a segment do. -/
theorem toma (h : Receptor d c p) (hne : c.estado ≠ .synEnviado) {pos : Nat}
    (ho : Oido p d.nxt s pos) (ahora : UInt64) : ∃ q, Recoge d c (c.toma s ahora) p q := by
  have hbuf : c.tomados s ≤ (c.nuevos s).length ∧ c.tomados s ≤ bufer ∧
      (c.recibe = true ∨ c.tomados s = 0) := by
    unfold Conexion.tomados
    split
    · next hr => exact ⟨Nat.min_le_left _ _, (Nat.min_le_right _ _).trans (Nat.sub_le _ _), .inl hr⟩
    · exact ⟨Nat.zero_le _, Nat.zero_le _, .inr rfl⟩
  rcases c.toma_cases s ahora with ⟨b, ht⟩ | ⟨hs, ht⟩ | ⟨hs, hf, hr, -, ht⟩
  · rw [ht]
    exact ⟨_, h.recoge_igual rfl rfl (fun e ↦ absurd e hne) fun _ ↦ ⟨rfl, Iff.rfl⟩⟩
  · rw [ht]
    obtain ⟨-, -, hpre, -⟩ := h.sigue hne ho hs
    exact ⟨_, h.conDatos hne hpre hbuf.1 hbuf.2.1 hbuf.2.2⟩
  · -- the FIN comes alone, after the last byte
    obtain ⟨-, -, -, hfin⟩ := h.sigue hne ho hs
    obtain ⟨hnil, hcer, hpos⟩ := ho.fin hf
    obtain ⟨hq, hnuevos⟩ := hfin hnil
    have hcd : c.conDatos (c.nuevos s) (c.tomados s) = c := by
      unfold Conexion.conDatos
      rw [if_pos hnuevos]
    rw [ht, hcd]
    obtain ⟨h1, h2, h3, h4⟩ := Conexion.espera_traeFin ahora hr
    obtain ⟨h5, h6, h7⟩ := h.rcvNxt hne
    have hesp : c.espera = true := by rw [Conexion.espera, hr, Bool.true_or]
    obtain ⟨h8, h9⟩ := h.espera hesp
    have hall : d.entregado ++ c.rx = p.aceptado := by
      rw [h8, List.take_of_length_le (by omega)]
    refine ⟨d.nxt + 1, ?_, Nat.le_succ _, by omega, ?_, .inr h6, fun _ ↦ ?_⟩
    · rw [if_neg hne, h3, h7, ← serial_succ, toNat_serial_sub _ (Nat.le_succ _) (by omega)]
      omega
    · rw [h4, hall]
    · refine ⟨fun e ↦ absurd e h2, fun _ ↦ ⟨Nat.le_add_left 1 _, h6, ?_⟩, fun e ↦ ?_, fun _ _ ↦ ?_⟩
      · rw [h3, h7, ← serial_succ]
      · rw [h1] at e
        cases e
      · rw [h4]
        refine ⟨by rw [hcer]; exact congrArg some hall.symm, hall.symm, ?_⟩
        show d.nxt + 1 = _
        omega

/-- What a segment does to what a connection received. -/
theorem entra (h : Receptor d c p) (ho : s.banderas &&& rst ≠ 0 ∨ ∃ pos, Oido p d.nxt s pos)
    (ahora : UInt64) : ∃ q, Recoge d c (c.entra s ahora).1 p q := by
  have hig : ∀ c' : Conexion, c.estado ≠ .synEnviado → c'.rx = c.rx → c'.rcvNxt = c.rcvNxt →
      c'.estado = c.estado → Recoge d c c' p d.nxt := by
    intro c' hne hrx hr he
    refine h.recoge_igual hrx hr (fun e ↦ absurd e hne) fun _ ↦ ?_
    unfold Conexion.espera Conexion.recibe
    rw [he]
    exact ⟨rfl, Iff.rfl⟩
  rcases c.entra_cases s ahora with ⟨h1, he⟩ | ⟨-, -, -, he⟩ | ⟨h1, -, -, -, he⟩ | ⟨h1, he⟩ |
    ⟨h1, h2, -, -, -, c', b, hc, -, he⟩
  · rw [he]
    exact h.entraSynEnviado h1 ho ahora
  · rw [he]
    exact ⟨_, h.recoge_cerrada _⟩
  · rw [he]
    refine ⟨_, hig _ ?_ rfl rfl rfl⟩
    rw [h1]
    exact Estado.noConfusion
  · rw [he]
    exact ⟨_, hig _ h1 rfl rfl rfl⟩
  · rw [he]
    have hm := Conexion.marco_confirma hc
    have hne : c'.estado ≠ .synEnviado := by
      rcases Conexion.llegable_confirma hc with ⟨-, e⟩ | e
      · rw [e]
        exact h1
      · intro e'
        rw [e'] at e
        cases e
    have hrec : Recoge d c c' p d.nxt := h.recoge_igual hm.rx hm.rcvNxt (fun e ↦ absurd e h1)
      fun hv ↦ ⟨Conexion.espera_confirma hc hv, fun e ↦ absurd e hne, fun e ↦ absurd e h1⟩
    cases b with
    | true => exact ⟨_, hrec⟩
    | false =>
      rw [if_neg Bool.false_ne_true]
      cases hv : c'.viva with
      | true =>
        obtain ⟨pos, ho⟩ := ho.resolve_left (not_not.mpr h2)
        obtain ⟨q, hq⟩ := Receptor.toma (hrec.receptor hv) hne ho ahora
        refine ⟨q, ?_, hq.crece, hq.tope, hq.prefijo, hq.nacida, hq.receptor⟩
        have hsuma := hq.suma
        rw [if_neg hne, hm.rcvNxt] at hsuma
        rw [if_neg h1]
        exact hsuma
      | false =>
        -- a connection that ended takes no data
        have hnr : c'.recibe = false := by
          unfold Conexion.recibe
          unfold Conexion.viva at hv
          split
          · next e =>
            rw [e] at hv
            cases hv
          · next e =>
            rw [e] at hv
            cases hv
          · next e =>
            rw [e] at hv
            cases hv
          · rfl
        have hk : (c'.toma s ahora).rx = c'.rx ∧ (c'.toma s ahora).rcvNxt = c'.rcvNxt := by
          rcases c'.toma_cases s ahora with ⟨b, ht⟩ | ⟨-, ht⟩ | ⟨-, -, hr, -, -⟩
          · rw [ht]
            exact ⟨rfl, rfl⟩
          · have h0 : c'.tomados s = 0 := by
              unfold Conexion.tomados
              rw [hnr, if_neg Bool.false_ne_true]
            rw [ht, h0]
            unfold Conexion.conDatos
            split
            · exact ⟨rfl, rfl⟩
            · exact ⟨by rw [List.take_zero, List.append_nil], UInt32.add_zero _⟩
          · rw [hnr] at hr
            cases hr
        exact ⟨_, h.recoge_igual (hk.1.trans hm.rx) (hk.2.trans hm.rcvNxt)
          (fun e ↦ absurd e h1) fun hv' ↦ by
            rw [Conexion.viva_de_toma hv'] at hv
            cases hv⟩

end Receptor

end BmoX.Pila
