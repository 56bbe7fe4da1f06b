import BmoX.Pila.Ipv4

/-!
# The TCP segment

`platform/shared/bmo-pila/src/tcp/segmento.rs`. Of the options only the MSS is read; the others
are skipped with their length checked.
-/

namespace BmoX.Pila

open BmoX.Base

/-! ### Flags -/

/-- `bandera`; `segmento.rs:26–33`. -/
def fin : UInt8 := 0x01
@[inherit_doc fin] def syn : UInt8 := 0x02
@[inherit_doc fin] def rst : UInt8 := 0x04
@[inherit_doc fin] def psh : UInt8 := 0x08
@[inherit_doc fin] def ack : UInt8 := 0x10
@[inherit_doc fin] def urg : UInt8 := 0x20

/-- A segment taken apart; `segmento.rs:36–46`. -/
structure Segmento where
  origen : UInt16
  destino : UInt16
  sec : UInt32
  ack : UInt32
  banderas : UInt8
  ventana : UInt16
  mss : Option UInt16
  datos : Bytes
  deriving DecidableEq

namespace Segmento

/-- `CABECERA`; `segmento.rs:24`. -/
abbrev cabecera : Nat := 20

/-- The most that fits in a packet; `segmento.rs:52, 129`. -/
abbrev maximo : Nat := Ipv4.mtu - Ipv4.cabecera

/-- Combinations of flags that no honest conversation has; `segmento.rs:72–77`. -/
def raras (banderas : UInt8) : Bool :=
  banderas == 0 ||
    banderas &&& (syn ||| fin) == syn ||| fin ||
    banderas &&& (syn ||| rst) == syn ||| rst ||
    banderas &&& urg != 0 ||
    (banderas &&& fin != 0 && banderas &&& Pila.ack == 0)

/-- The walk over the options from `i`, and the MSS they leave; `segmento.rs:80–102`. -/
def opciones (b : Bytes) (desp i : Nat) (mss : Option UInt16) :
    Except Rechazo (Option UInt16) :=
  if i < desp then
    if b.getD i 0 = 0 then .ok mss
    else if b.getD i 0 = 1 then opciones b desp (i + 1) mss
    else if desp ≤ i + 1 then .error .opciones
    else if (b.getD (i + 1) 0).toNat < 2 ∨ desp < i + (b.getD (i + 1) 0).toNat then
      .error .opciones
    else if b.getD i 0 = 2 then
      if (b.getD (i + 1) 0).toNat ≠ 4 then .error .opciones
      else opciones b desp (i + (b.getD (i + 1) 0).toNat) (some (be16 b (i + 2)))
    else opciones b desp (i + (b.getD (i + 1) 0).toNat) mss
  else .ok mss
termination_by desp - i
decreasing_by all_goals (simp only [List.getD_eq_getElem?_getD] at *; omega)

/-- Take a segment apart; `segmento.rs:48–114`. -/
def leer (b : Bytes) (ipOrigen ipDestino : Ip) : Except Rechazo Segmento :=
  if b.length < cabecera then .error .corto else
  if b.length > maximo then .error .largo else
  let desp := (b.getD 12 0 >>> 4).toNat * 4
  if desp < cabecera then .error .cabecera else
  if desp > b.length then .error .corto else
  let s := (pseudo ipOrigen ipDestino Ipv4.tcp (UInt16.ofNat b.length)).bytes b
  if s.cerrar ≠ 0 then .error .suma else
  if be16 b 0 = 0 ∨ be16 b 2 = 0 then .error .puerto else
  let banderas := b.getD 13 0 &&& 0x3F
  if raras banderas then .error .banderas else
  match opciones b desp cabecera none with
  | .error e => .error e
  | .ok mss => .ok {
      origen := be16 b 0
      destino := be16 b 2
      sec := be32 b 4
      ack := be32 b 8
      banderas
      ventana := be16 b 14
      mss
      datos := b.drop desp }

/-- Where the data starts; `segmento.rs:128`. -/
def desp (s : Segmento) : Nat := cabecera + if s.mss.isSome then 4 else 0

/-- The header with the value of its sum, and the option of the MSS; `segmento.rs:137–151`. -/
def cabeceraDe (s : Segmento) (suma : UInt16) : Bytes :=
  u16Be s.origen ++ u16Be s.destino ++ u32Be s.sec ++ u32Be s.ack ++
    [UInt8.ofNat (s.desp / 4) <<< 4, s.banderas] ++ u16Be s.ventana ++
      (u16Be suma ++ (u16Be 0 ++ match s.mss with
        | some m => [2, 4] ++ u16Be m
        | none => []))

/-- Write a segment: how many bytes it takes, and `dst` with them in front;
`segmento.rs:117–158`. -/
def escribir (dst : Bytes) (ipOrigen ipDestino : Ip) (s : Segmento) :
    Except Rechazo (Nat × Bytes) :=
  let n := s.desp + s.datos.length
  if n > maximo then .error .largo else
  if dst.length < n then .error .corto else
  let b := s.cabeceraDe 0 ++ s.datos
  let suma := ((pseudo ipOrigen ipDestino Ipv4.tcp (UInt16.ofNat n)).bytes b).cerrar
  .ok (n, pon16 b 16 suma ++ dst.drop n)

/-! ### What is written reads back -/

/-- The flags that are read: the six of always, in a combination that is not rare. -/
def Admitida (banderas : UInt8) : Prop := banderas &&& 0x3F = banderas ∧ raras banderas = false

@[simp] theorem length_cabeceraDe (s : Segmento) (suma : UInt16) :
    (s.cabeceraDe suma).length = s.desp := by
  rw [cabeceraDe, desp]
  cases s.mss <;> rfl

private theorem desp_bounds (s : Segmento) : cabecera ≤ s.desp ∧ s.desp ≤ 24 := by
  rw [desp]
  split <;> decide

private theorem toNat_desp (s : Segmento) :
    ((UInt8.ofNat (s.desp / 4) <<< 4) >>> 4).toNat * 4 = s.desp := by
  rw [desp]
  split <;> rfl

theorem pon16_cabeceraDe (s : Segmento) (suma : UInt16) (b : Bytes) :
    pon16 (s.cabeceraDe 0 ++ b) 16 suma = s.cabeceraDe suma ++ b := rfl

theorem de_of_leer {b : Bytes} {o d : Ip} {s : Segmento} (h : leer b o d = .ok s) :
    de (cabeceraPseudo o d Ipv4.tcp (UInt16.ofNat b.length) ++ b) = 0 := by
  simp only [leer, ite_error_eq_ok, cerrar_pseudo] at h
  exact not_not.mp h.2.2.2.2.1

private theorem opciones_fin {b : Bytes} {desp i : Nat} {mss : Option UInt16} (h : desp ≤ i) :
    opciones b desp i mss = .ok mss := by
  rw [opciones, if_neg (Nat.not_lt.mpr h)]

/-- The walk over the options of a written header finds its MSS. -/
theorem opciones_escritas (s : Segmento) {b r : Bytes} {a : Bytes} (ha : a.length = cabecera)
    (hb : b = a ++ ((match s.mss with
      | some m => [2, 4] ++ u16Be m
      | none => []) ++ r)) : opciones b s.desp cabecera none = .ok s.mss := by
  cases hm : s.mss with
  | none =>
    have hdesp : s.desp = 20 := by rw [desp, hm]; rfl
    exact opciones_fin (Nat.le_of_eq hdesp)
  | some m =>
    have hdesp : s.desp = 24 := by rw [desp, hm]; rfl
    rw [hm] at hb
    have hb1 : b = (a ++ [2]) ++ (4 :: (u16Be m ++ r)) := by
      simp only [hb, List.append_assoc, List.cons_append, List.nil_append]
    have hb2 : b = (a ++ [2, 4]) ++ (u16Be m ++ r) := by
      simp only [hb, List.append_assoc, List.cons_append, List.nil_append]
    have h20 : b.getD cabecera 0 = 2 := getD_of_eq hb ha.symm
    have h21 : b.getD (cabecera + 1) 0 = 4 :=
      getD_of_eq hb1 (by rw [List.length_append, ha]; rfl)
    have h22 : be16 b (cabecera + 2) = m :=
      be16_of_eq hb2 (by rw [List.length_append, ha]; rfl)
    rw [opciones, hdesp, h20, h21, h22, if_pos (by decide), if_neg (by decide),
      if_neg (by decide), if_neg (by decide), if_neg (by decide), if_pos rfl, if_neg (by decide)]
    exact opciones_fin (Nat.le_refl _)

/-- A segment written with its sum in place reads back as it was. -/
theorem leer_cabeceraDe {s : Segmento} {o d : Ip} {suma : UInt16} (ho : s.origen ≠ 0)
    (hd : s.destino ≠ 0) (hf : Admitida s.banderas) (hn : s.desp + s.datos.length ≤ maximo)
    (hs : de (cabeceraPseudo o d Ipv4.tcp (UInt16.ofNat (s.desp + s.datos.length)) ++
      (s.cabeceraDe suma ++ s.datos)) = 0) :
    leer (s.cabeceraDe suma ++ s.datos) o d = .ok s := by
  have hdesp := s.desp_bounds
  have hlen : (s.cabeceraDe suma ++ s.datos).length = s.desp + s.datos.length := by
    rw [List.length_append, length_cabeceraDe]
  have hdatos : (s.cabeceraDe suma ++ s.datos).drop s.desp = s.datos :=
    List.drop_left' (length_cabeceraDe ..)
  -- the segment, with its fields in a row
  have hb : s.cabeceraDe suma ++ s.datos = (u16Be s.origen ++ (u16Be s.destino ++ (u32Be s.sec ++
      (u32Be s.ack ++ ((UInt8.ofNat (s.desp / 4) <<< 4) :: (s.banderas :: (u16Be s.ventana ++
        (u16Be suma ++ (u16Be 0 ++ ((match s.mss with
          | some m => [2, 4] ++ u16Be m
          | none => []) ++ s.datos)))))))))) := by
    simp only [cabeceraDe, List.append_assoc, List.cons_append, List.nil_append]
  generalize s.cabeceraDe suma ++ s.datos = b at hb hs hlen hdatos ⊢
  have h0 : be16 b 0 = s.origen := be16_of_eq (a := []) hb rfl
  have h2 : be16 b 2 = s.destino := be16_of_eq hb rfl
  have h4 : be32 b 4 = s.sec := be32_of_eq (a := u16Be s.origen ++ u16Be s.destino) hb rfl
  have h8 : be32 b 8 = s.ack :=
    be32_of_eq (a := u16Be s.origen ++ u16Be s.destino ++ u32Be s.sec) hb rfl
  have h12 : b.getD 12 0 = UInt8.ofNat (s.desp / 4) <<< 4 :=
    getD_of_eq (a := u16Be s.origen ++ u16Be s.destino ++ u32Be s.sec ++ u32Be s.ack) hb rfl
  have h13 : b.getD 13 0 = s.banderas :=
    getD_of_eq (a := u16Be s.origen ++ u16Be s.destino ++ u32Be s.sec ++ u32Be s.ack ++
      [UInt8.ofNat (s.desp / 4) <<< 4]) hb rfl
  have h14 : be16 b 14 = s.ventana :=
    be16_of_eq (a := u16Be s.origen ++ u16Be s.destino ++ u32Be s.sec ++ u32Be s.ack ++
      [UInt8.ofNat (s.desp / 4) <<< 4, s.banderas]) hb rfl
  have hop : opciones b s.desp cabecera none = .ok s.mss :=
    opciones_escritas s (a := u16Be s.origen ++ u16Be s.destino ++ u32Be s.sec ++ u32Be s.ack ++
      [UInt8.ofNat (s.desp / 4) <<< 4, s.banderas] ++ u16Be s.ventana ++ u16Be suma ++ u16Be 0)
      rfl hb
  simp only [leer, ite_error_eq_ok, cerrar_pseudo, h0, h2, h4, h8, h12, h13, h14, toNat_desp, hop,
    hlen, hdatos, hf.1, hf.2, hs]
  exact ⟨by omega, by omega, by omega, by omega, not_not.mpr rfl, not_or.mpr ⟨ho, hd⟩,
    Bool.false_ne_true, trivial⟩

/-- No segment with one wrong bit is read. -/
theorem leer_flipBit {b : Bytes} {o d : Ip}
    (hb : de (cabeceraPseudo o d Ipv4.tcp (UInt16.ofNat b.length) ++ b) = 0) {i k : Nat}
    (hi : i < b.length) (hk : k < 8) (s : Segmento) : leer (flipBit b i k) o d ≠ .ok s := by
  intro h
  have hde := de_of_leer h
  rw [length_flipBit, ← flipBit_append_right] at hde
  exact de_flipBit (by rw [List.length_append]; omega) hk hb hde

private theorem escribir_eq (dst : Bytes) (o d : Ip) (s : Segmento) :
    escribir dst o d s =
      if s.desp + s.datos.length > maximo then .error .largo else
      if dst.length < s.desp + s.datos.length then .error .corto else
      .ok (s.desp + s.datos.length, s.cabeceraDe (de (cabeceraPseudo o d Ipv4.tcp
        (UInt16.ofNat (s.desp + s.datos.length)) ++ (s.cabeceraDe 0 ++ s.datos))) ++ s.datos ++
          dst.drop (s.desp + s.datos.length)) := by
  simp only [escribir, cerrar_pseudo, pon16_cabeceraDe]

theorem escribir_cabe {dst : Bytes} (o d : Ip) {s : Segmento}
    (hn : s.desp + s.datos.length ≤ maximo) (hdst : s.desp + s.datos.length ≤ dst.length) :
    ∃ r, escribir dst o d s = .ok r := by
  rw [escribir_eq, if_neg (Nat.not_lt.mpr hn), if_neg (Nat.not_lt.mpr hdst)]
  exact ⟨_, rfl⟩

/-- A segment written where it fits: where it goes and what it reads back as. -/
theorem escribir_spec {dst : Bytes} (o d : Ip) {s : Segmento} (ho : s.origen ≠ 0)
    (hd : s.destino ≠ 0) (hf : Admitida s.banderas) (hn : s.desp + s.datos.length ≤ maximo)
    (hdst : s.desp + s.datos.length ≤ dst.length) :
    ∃ n dst', escribir dst o d s = .ok (n, dst') ∧ n = s.desp + s.datos.length ∧
      dst'.drop n = dst.drop n ∧ leer (dst'.take n) o d = .ok s ∧
      ∀ i < n, ∀ k < 8, ∀ s', leer (flipBit (dst'.take n) i k) o d ≠ .ok s' := by
  have hpar : (cabeceraPseudo o d Ipv4.tcp (UInt16.ofNat (s.desp + s.datos.length)) ++
      (u16Be s.origen ++ u16Be s.destino ++ u32Be s.sec ++ u32Be s.ack ++
        [UInt8.ofNat (s.desp / 4) <<< 4, s.banderas] ++ u16Be s.ventana)).length % 2 = 0 := by
    simp
  have hlista : ∀ v, cabeceraPseudo o d Ipv4.tcp (UInt16.ofNat (s.desp + s.datos.length)) ++
      (s.cabeceraDe v ++ s.datos) =
    (cabeceraPseudo o d Ipv4.tcp (UInt16.ofNat (s.desp + s.datos.length)) ++
      (u16Be s.origen ++ u16Be s.destino ++ u32Be s.sec ++ u32Be s.ack ++
        [UInt8.ofNat (s.desp / 4) <<< 4, s.banderas] ++ u16Be s.ventana)) ++
      (u16Be v ++ (u16Be 0 ++ ((match s.mss with
        | some m => [2, 4] ++ u16Be m
        | none => []) ++ s.datos))) := by
    intro v
    simp only [cabeceraDe, List.append_assoc]
  have hde := de_campo hpar (u16Be 0 ++ ((match s.mss with
    | some m => [2, 4] ++ u16Be m
    | none => []) ++ s.datos))
  rw [← hlista, ← hlista] at hde
  generalize hv : de (cabeceraPseudo o d Ipv4.tcp (UInt16.ofNat (s.desp + s.datos.length)) ++
    (s.cabeceraDe 0 ++ s.datos)) = v at hde
  have hl : (s.cabeceraDe v ++ s.datos).length = s.desp + s.datos.length := by
    rw [List.length_append, length_cabeceraDe]
  refine ⟨_, s.cabeceraDe v ++ s.datos ++ dst.drop (s.desp + s.datos.length), ?_, rfl, ?_⟩
  · rw [escribir_eq, if_neg (Nat.not_lt.mpr hn), if_neg (Nat.not_lt.mpr hdst), hv]
  · rw [List.take_left' hl]
    refine ⟨List.drop_left' hl, leer_cabeceraDe ho hd hf hn hde, fun i hi k hk ↦ ?_⟩
    exact leer_flipBit (by rwa [hl]) (by rwa [hl]) hk

private theorem puertos_de_leer {b : Bytes} {o d : Ip} {s : Segmento} (h : leer b o d = .ok s) :
    be16 b 0 ≠ 0 ∧ be16 b 2 ≠ 0 := by
  simp only [leer, ite_error_eq_ok] at h
  obtain ⟨-, -, -, -, -, hp, -⟩ := h
  exact not_or.mp hp

/-- What was written reads back as nothing else. -/
theorem leer_de_escribir {dst dst' : Bytes} {o d : Ip} {s s' : Segmento} {n : Nat}
    (he : escribir dst o d s = .ok (n, dst')) (hf : Admitida s.banderas)
    (hl : leer (dst'.take n) o d = .ok s') : s' = s := by
  have he' := he
  rw [escribir_eq, ite_error_eq_ok, ite_error_eq_ok] at he'
  obtain ⟨hn, hd, he'⟩ := he'
  obtain ⟨rfl, rfl⟩ := Prod.mk.inj (Except.ok.inj he')
  have htake : ∀ v, (s.cabeceraDe v ++ s.datos ++ dst.drop (s.desp + s.datos.length)).take
      (s.desp + s.datos.length) = s.cabeceraDe v ++ s.datos := by
    intro v
    exact List.take_left' (by rw [List.length_append, length_cabeceraDe])
  have hp := puertos_de_leer hl
  rw [htake] at hp
  have hb : ∀ v, s.cabeceraDe v ++ s.datos = u16Be s.origen ++ (u16Be s.destino ++ (u32Be s.sec ++
      u32Be s.ack ++ [UInt8.ofNat (s.desp / 4) <<< 4, s.banderas] ++ u16Be s.ventana ++
      (u16Be v ++ (u16Be 0 ++ match s.mss with
        | some m => [2, 4] ++ u16Be m
        | none => [])) ++ s.datos)) := by
    intro v
    simp only [cabeceraDe, List.append_assoc]
  have h0 : ∀ v, be16 (s.cabeceraDe v ++ s.datos) 0 = s.origen :=
    fun v ↦ be16_of_eq (a := []) (hb v) rfl
  have h2 : ∀ v, be16 (s.cabeceraDe v ++ s.datos) 2 = s.destino :=
    fun v ↦ be16_of_eq (a := u16Be s.origen) (hb v) rfl
  rw [h0, h2] at hp
  obtain ⟨n', dst'', he'', -, -, hl', -⟩ := escribir_spec o d hp.1 hp.2 hf (Nat.not_lt.mp hn)
    (Nat.not_lt.mp hd)
  rw [he] at he''
  obtain ⟨rfl, rfl⟩ := Prod.mk.inj (Except.ok.inj he'')
  rw [hl'] at hl
  exact (Except.ok.inj hl).symm

end Segmento

/-- The checksum does not depend on the chunks and is the complement of the one's-complement
sum of the big-endian words; segments and packets read back as written, and with one wrong
bit they are refused. -/
theorem codecs_ida_y_vuelta :
    (∀ trozos : List Bytes, (trozos.foldl Suma.bytes Suma.nueva).cerrar = de trozos.flatten ∧
      (de trozos.flatten).toNat = 65535 - onesSum 65536 (beWords trozos.flatten)) ∧
    (∀ (dst : Bytes) (o d : Ip) (s : Segmento), s.origen ≠ 0 → s.destino ≠ 0 →
      Segmento.Admitida s.banderas → s.desp + s.datos.length ≤ Segmento.maximo →
      s.desp + s.datos.length ≤ dst.length →
      ∃ n dst', Segmento.escribir dst o d s = .ok (n, dst') ∧ n = s.desp + s.datos.length ∧
        dst'.drop n = dst.drop n ∧ Segmento.leer (dst'.take n) o d = .ok s ∧
        ∀ i < n, ∀ k < 8, ∀ s', Segmento.leer (flipBit (dst'.take n) i k) o d ≠ .ok s') ∧
    ∀ (dst : Bytes) (origen destino : Ip) (protocolo : UInt8) (id : UInt16) (carga : Bytes),
      Ipv4.origenImposible origen = false → Ipv4.cabecera + carga.length ≤ Ipv4.mtu →
      Ipv4.cabecera ≤ dst.length →
      ∃ dst', Ipv4.escribir dst origen destino protocolo carga.length id =
          .ok (Ipv4.cabecera, dst') ∧ dst'.drop Ipv4.cabecera = dst.drop Ipv4.cabecera ∧
        ∀ relleno,
          Ipv4.leer (dst'.take Ipv4.cabecera ++ (carga ++ relleno)) =
            .ok ⟨origen, destino, protocolo, Ipv4.ttl, id, carga⟩ ∧
          ∀ i < Ipv4.cabecera, ∀ k < 8, ∀ p,
            Ipv4.leer (flipBit (dst'.take Ipv4.cabecera ++ (carga ++ relleno)) i k) ≠ .ok p := by
  refine ⟨fun trozos ↦ ⟨?_, toNat_de _⟩, ?_, ?_⟩
  · rw [Suma.foldl_bytes, de]
  · intro dst o d s ho hd hf hn hdst
    exact Segmento.escribir_spec o d ho hd hf hn hdst
  · intro dst origen destino protocolo id carga ho hm hd
    exact Ipv4.escribir_spec ho destino protocolo id hm hd

/-- A SYN from 10.0.0.2 to 10.0.0.1. -/
theorem codecs_syn :
    ∃ n dst', Segmento.escribir (zeros 64) (Arr.pad 4 [10, 0, 0, 2]) (Arr.pad 4 [10, 0, 0, 1])
        ⟨50000, 80, 1, 2, syn, 8192, some 1460, []⟩ = .ok (n, dst') ∧
      Segmento.leer (dst'.take n) (Arr.pad 4 [10, 0, 0, 2]) (Arr.pad 4 [10, 0, 0, 1]) =
        .ok ⟨50000, 80, 1, 2, syn, 8192, some 1460, []⟩ := by
  obtain ⟨n, dst', hw, -, -, hr, -⟩ := codecs_ida_y_vuelta.2.1 (zeros 64)
    (Arr.pad 4 [10, 0, 0, 2]) (Arr.pad 4 [10, 0, 0, 1])
    ⟨50000, 80, 1, 2, syn, 8192, some 1460, []⟩ (by decide) (by decide)
    ⟨by decide, by decide⟩ (by decide) (by decide)
  exact ⟨n, dst', hw, hr⟩

end BmoX.Pila
