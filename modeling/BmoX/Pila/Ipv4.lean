import BmoX.Pila.Suma

/-!
# IPv4

`platform/shared/bmo-pila/src/ipv4.rs`. Options, fragments and impossible sources are refused;
the Ethernet padding after the total length is dropped.
-/

namespace BmoX.Pila.Ipv4

open BmoX.Base

/-- `CABECERA`; `ipv4.rs:24`. -/
abbrev cabecera : Nat := 20

/-- `TCP`; `ipv4.rs:26`. -/
def tcp : UInt8 := 6

/-- `TTL`; `ipv4.rs:28`. -/
def ttl : UInt8 := 64

/-- The largest packet that leaves, `MTU`; `ipv4.rs:30`. -/
abbrev mtu : Nat := 1500

/-- `ICMP`; `ipv4.rs:25`. -/
def icmp : UInt8 := 1

/-- `UDP`; `ipv4.rs:27`. -/
def udp : UInt8 := 17

/-- Everybody; `ipv4.rs:32–34`. -/
def esDifusion (ip : Ip) : Bool := ip.1 == [255, 255, 255, 255]

/-- A group; `ipv4.rs:36–38`. -/
def esGrupo (ip : Ip) : Bool := 224 ≤ ip.1.getD 0 0 && ip.1.getD 0 0 ≤ 239

/-- Nobody outside can write from here; `ipv4.rs:41–43`. -/
def origenImposible (ip : Ip) : Bool :=
  ip.1 == [0, 0, 0, 0] || ip.1.getD 0 0 == 127 || 224 ≤ ip.1.getD 0 0

/-- A packet taken apart; `ipv4.rs:46–53`. -/
@[ext] structure Paquete where
  origen : Ip
  destino : Ip
  protocolo : UInt8
  ttl : UInt8
  id : UInt16
  carga : Bytes
  deriving DecidableEq

/-- Take a packet apart; `ipv4.rs:55–96`. -/
def leer (b : Bytes) : Except Rechazo Paquete :=
  if b.length < cabecera then .error .corto else
  if b.getD 0 0 >>> 4 ≠ 4 then .error .version else
  if b.getD 0 0 &&& 0x0F ≠ 5 then .error .opciones else
  let total := (be16 b 2).toNat
  if total < cabecera then .error .cabecera else
  if total > b.length then .error .corto else
  let banderas := be16 b 6
  if banderas &&& 0x8000 ≠ 0 then .error .banderas else
  if banderas &&& 0x3FFF ≠ 0 then .error .fragmento else
  if b.getD 8 0 = 0 then .error .cabecera else
  if de (b.take cabecera) ≠ 0 then .error .suma else
  let origen : Ip := Arr.pad 4 (slice b 12 4)
  if origenImposible origen then .error .direccion else
  .ok {
    origen
    destino := Arr.pad 4 (slice b 16 4)
    protocolo := b.getD 9 0
    ttl := b.getD 8 0
    id := be16 b 4
    carga := slice b cabecera (total - cabecera) }

/-- The twenty bytes of a header without options, DF set. -/
def cabeceraDe (origen destino : Ip) (protocolo : UInt8) (total : Nat) (id suma : UInt16) : Bytes :=
  [0x45, 0] ++ u16Be (UInt16.ofNat total) ++ u16Be id ++ u16Be 0x4000 ++ [ttl, protocolo] ++
    (u16Be suma ++ (origen.1 ++ destino.1))

/-- Write the header of `largoCarga` bytes that go after it: how many bytes it takes, and
`dst` with them in front; `ipv4.rs:99–128`. -/
def escribir (dst : Bytes) (origen destino : Ip) (protocolo : UInt8) (largoCarga : Nat)
    (id : UInt16) : Except Rechazo (Nat × Bytes) :=
  let total := cabecera + largoCarga
  if total > mtu then .error .largo else
  if dst.length < cabecera then .error .corto else
  let b := cabeceraDe origen destino protocolo total id 0
  .ok (cabecera, pon16 b 10 (de b) ++ dst.drop cabecera)

/-! ### What is written reads back -/

@[simp] theorem length_cabeceraDe (origen destino : Ip) (protocolo : UInt8) (total : Nat)
    (id suma : UInt16) : (cabeceraDe origen destino protocolo total id suma).length = 20 := by
  simp [cabeceraDe]

theorem pon16_cabeceraDe (origen destino : Ip) (protocolo : UInt8) (total : Nat)
    (id suma : UInt16) : pon16 (cabeceraDe origen destino protocolo total id 0) 10 suma =
      cabeceraDe origen destino protocolo total id suma := rfl

/-- A header with its sum in place checks. -/
theorem de_cabeceraDe (origen destino : Ip) (protocolo : UInt8) (total : Nat) (id : UInt16) :
    de (cabeceraDe origen destino protocolo total id
      (de (cabeceraDe origen destino protocolo total id 0))) = 0 := by
  have hpar : ([0x45, 0] ++ u16Be (UInt16.ofNat total) ++ u16Be id ++ u16Be 0x4000 ++
      [ttl, protocolo]).length % 2 = 0 := by
    simp only [List.length_append, length_u16Be, List.length_cons, List.length_nil]
  exact de_campo hpar (origen.1 ++ destino.1)

theorem de_of_leer {b : Bytes} {p : Paquete} (h : leer b = .ok p) :
    cabecera ≤ b.length ∧ de (b.take cabecera) = 0 := by
  simp only [leer, ite_error_eq_ok] at h
  obtain ⟨hl, -, -, -, -, -, -, -, hs, -⟩ := h
  exact ⟨Nat.le_of_not_lt hl, not_not.mp hs⟩

/-- A header written, the payload and any padding read back as they were. -/
theorem leer_cabeceraDe {origen : Ip} (ho : origenImposible origen = false) (destino : Ip)
    (protocolo : UInt8) {total : Nat} (id : UInt16) {carga : Bytes}
    (ht : total = cabecera + carga.length) (hm : total ≤ mtu) (relleno : Bytes) {suma : UInt16}
    (hs : de (cabeceraDe origen destino protocolo total id suma) = 0) :
    leer (cabeceraDe origen destino protocolo total id suma ++ (carga ++ relleno)) =
      .ok ⟨origen, destino, protocolo, ttl, id, carga⟩ := by
  have hcab : cabecera = 20 := rfl
  have hmtu : mtu = 1500 := rfl
  have htotal : (UInt16.ofNat total).toNat = total := by
    rw [UInt16.toNat_ofNat', Nat.mod_eq_of_lt (by omega)]
  have hl := length_cabeceraDe origen destino protocolo total id suma
  -- the packet, with its fields in a row
  have hb : cabeceraDe origen destino protocolo total id suma ++ (carga ++ relleno) =
      [0x45, 0] ++ (u16Be (UInt16.ofNat total) ++ (u16Be id ++ (u16Be 0x4000 ++ (ttl ::
        protocolo :: (u16Be suma ++ (origen.1 ++ (destino.1 ++ (carga ++ relleno)))))))) := by
    simp only [cabeceraDe, List.append_assoc, List.cons_append, List.nil_append]
  generalize hC : cabeceraDe origen destino protocolo total id suma ++ (carga ++ relleno) = b at hb ⊢
  have h0 : b.getD 0 0 = 0x45 := getD_of_eq (a := []) hb rfl
  have htot : be16 b 2 = UInt16.ofNat total := be16_of_eq hb rfl
  have hid : be16 b 4 = id :=
    be16_of_eq (a := [0x45, 0] ++ u16Be (UInt16.ofNat total)) hb rfl
  have hdf : be16 b 6 = 0x4000 :=
    be16_of_eq (a := [0x45, 0] ++ u16Be (UInt16.ofNat total) ++ u16Be id) hb rfl
  have httl : b.getD 8 0 = ttl :=
    getD_of_eq (a := [0x45, 0] ++ u16Be (UInt16.ofNat total) ++ u16Be id ++ u16Be 0x4000) hb rfl
  have hprot : b.getD 9 0 = protocolo :=
    getD_of_eq (a := [0x45, 0] ++ u16Be (UInt16.ofNat total) ++ u16Be id ++ u16Be 0x4000 ++ [ttl])
      hb rfl
  have hfila : b = ([0x45, 0] ++ u16Be (UInt16.ofNat total) ++ u16Be id ++ u16Be 0x4000 ++
      [ttl, protocolo] ++ u16Be suma) ++ (origen.1 ++ (destino.1 ++ (carga ++ relleno))) := hb
  have hsrc : slice b 12 4 = origen.1 := slice_of_eq hfila rfl origen.2.symm
  have hdst : slice b 16 4 = destino.1 :=
    slice_of_eq (hfila.trans (List.append_assoc ..).symm)
      (by rw [List.length_append, origen.2]; rfl) destino.2.symm
  have htake : b.take cabecera = cabeceraDe origen destino protocolo total id suma := by
    rw [← hC, List.take_left' hl]
  have hcarga : slice b cabecera (total - cabecera) = carga := by
    rw [← hC]
    exact slice_of_eq rfl hl.symm (by omega)
  have hlen : b.length = total + relleno.length := by
    rw [← hC, List.length_append, hl, List.length_append]
    omega
  simp only [leer, ite_error_eq_ok, h0, htot, hid, hdf, httl, hprot, hsrc, hdst, htake, hcarga,
    htotal, Arr.pad_val, ho, hs]
  refine ⟨by omega, by decide, by decide, by omega, by omega, by decide, by decide, by decide,
    not_not.mpr rfl, Bool.false_ne_true, trivial⟩

/-- No header with one wrong bit is read. -/
theorem leer_flipBit {c : Bytes} (hl : c.length = cabecera) (hc : de c = 0) {i k : Nat}
    (hi : i < cabecera) (hk : k < 8) (resto : Bytes) (p : Paquete) :
    leer (flipBit (c ++ resto) i k) ≠ .ok p := by
  intro h
  have hde := (de_of_leer h).2
  rw [flipBit_append_left _ _ (by rw [hl]; exact hi),
    List.take_left' ((length_flipBit ..).trans hl)] at hde
  exact de_flipBit (by rw [hl]; exact hi) hk hc hde

/-- A header written for a payload that fits: where it goes and what it reads back as. -/
theorem escribir_spec {dst : Bytes} {origen : Ip} (ho : origenImposible origen = false)
    (destino : Ip) (protocolo : UInt8) (id : UInt16) {carga : Bytes}
    (hm : cabecera + carga.length ≤ mtu) (hd : cabecera ≤ dst.length) :
    ∃ dst', escribir dst origen destino protocolo carga.length id = .ok (cabecera, dst') ∧
      dst'.drop cabecera = dst.drop cabecera ∧ ∀ relleno,
        leer (dst'.take cabecera ++ (carga ++ relleno)) =
          .ok ⟨origen, destino, protocolo, ttl, id, carga⟩ ∧
        ∀ i < cabecera, ∀ k < 8, ∀ p,
          leer (flipBit (dst'.take cabecera ++ (carga ++ relleno)) i k) ≠ .ok p := by
  have hde := de_cabeceraDe origen destino protocolo (cabecera + carga.length) id
  generalize hs : de (cabeceraDe origen destino protocolo (cabecera + carga.length) id 0) = s at hde
  have hl := length_cabeceraDe origen destino protocolo (cabecera + carga.length) id s
  refine ⟨cabeceraDe origen destino protocolo (cabecera + carga.length) id s ++
    dst.drop cabecera, ?_, List.drop_left' hl, ?_⟩
  · rw [escribir, if_neg (by omega), if_neg (by omega)]
    dsimp only
    rw [hs, pon16_cabeceraDe]
  · intro relleno
    rw [List.take_left' hl]
    exact ⟨leer_cabeceraDe ho destino protocolo id rfl hm relleno hde,
      fun i hi k hk p ↦ leer_flipBit hl hde hi hk _ p⟩

end BmoX.Pila.Ipv4
