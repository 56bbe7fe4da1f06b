import BmoX.Pila.Ipv4

/-!
# Echoes and datagrams

`platform/shared/bmo-pila/src/icmp.rs` and `udp.rs`. Of ICMP only the echo is read; a datagram
without a checksum is refused.
-/

namespace BmoX.Pila

open BmoX.Base

namespace Icmp

/-- `CABECERA`; `icmp.rs:10`. -/
abbrev cabecera : Nat := 8

/-- `ECO_RESPUESTA`; `icmp.rs:11`. -/
def ecoRespuesta : UInt8 := 0

/-- `ECO_PETICION`; `icmp.rs:12`. -/
def ecoPeticion : UInt8 := 8

/-- An echo taken apart; `icmp.rs:14–20`. -/
structure Eco where
  tipo : UInt8
  id : UInt16
  secuencia : UInt16
  datos : Bytes
  deriving DecidableEq

/-- `leer`; `icmp.rs:22–33`. -/
def leer (b : Bytes) : Except Rechazo Eco :=
  if b.length < cabecera then .error .corto else
  if de b ≠ 0 then .error .suma else
  if (b.getD 0 0 ≠ ecoPeticion ∧ b.getD 0 0 ≠ ecoRespuesta) ∨ b.getD 1 0 ≠ 0 then .error .tipo else
  .ok ⟨b.getD 0 0, be16 b 4, be16 b 6, b.drop cabecera⟩

/-- The bytes of an echo with the value of its sum. -/
def Eco.bytes (e : Eco) (suma : UInt16) : Bytes :=
  [e.tipo, 0] ++ (u16Be suma ++ (u16Be e.id ++ u16Be e.secuencia ++ e.datos))

/-- `escribir`: how many bytes, and `dst` with them in front; `icmp.rs:35–51`. -/
def escribir (dst : Bytes) (e : Eco) : Except Rechazo (Nat × Bytes) :=
  let n := cabecera + e.datos.length
  if dst.length < n then .error .corto
  else .ok (n, e.bytes (de (e.bytes 0)) ++ dst.drop n)

end Icmp

namespace Udp

/-- `CABECERA`; `udp.rs:10`. -/
abbrev cabecera : Nat := 8

/-- The most that fits without fragments, `MAX_DATOS`; `udp.rs:12`. -/
abbrev maxDatos : Nat := Ipv4.mtu - Ipv4.cabecera - cabecera

/-- A datagram taken apart; `udp.rs:14–19`. -/
structure Datagrama where
  origen : UInt16
  destino : UInt16
  datos : Bytes
  deriving DecidableEq

/-- `leer`; `udp.rs:21–46`. -/
def leer (b : Bytes) (ipOrigen ipDestino : Ip) : Except Rechazo Datagrama :=
  if b.length < cabecera then .error .corto else
  let largo := (be16 b 4).toNat
  if largo < cabecera then .error .cabecera else
  if largo > b.length then .error .corto else
  let b := b.take largo
  if be16 b 6 = 0 then .error .suma else
  if ((pseudo ipOrigen ipDestino Ipv4.udp (UInt16.ofNat largo)).bytes b).cerrar ≠ 0 then
    .error .suma
  else
    if be16 b 0 = 0 ∨ be16 b 2 = 0 then .error .puerto
    else .ok ⟨be16 b 0, be16 b 2, b.drop cabecera⟩

/-- The bytes of a datagram with the value of its sum. -/
def Datagrama.bytes (d : Datagrama) (suma : UInt16) : Bytes :=
  u16Be d.origen ++ u16Be d.destino ++ u16Be (UInt16.ofNat (cabecera + d.datos.length)) ++
    (u16Be suma ++ d.datos)

/-- `escribir`: how many bytes, and `dst` with them in front; a sum of zero is written as all
ones; `udp.rs:48–78`. -/
def escribir (dst : Bytes) (ipOrigen ipDestino : Ip) (d : Datagrama) :
    Except Rechazo (Nat × Bytes) :=
  if d.datos.length > maxDatos then .error .largo else
  let n := cabecera + d.datos.length
  if dst.length < n then .error .corto else
  let s := ((pseudo ipOrigen ipDestino Ipv4.udp (UInt16.ofNat n)).bytes (d.bytes 0)).cerrar
  .ok (n, d.bytes (if s = 0 then 0xFFFF else s) ++ dst.drop n)

/-- The sum that is written: never zero, which would say that there is none. -/
def Datagrama.suma (d : Datagrama) (ipOrigen ipDestino : Ip) : UInt16 :=
  let s := de (cabeceraPseudo ipOrigen ipDestino Ipv4.udp
    (UInt16.ofNat (cabecera + d.datos.length)) ++ d.bytes 0)
  if s = 0 then 0xFFFF else s

private theorem Datagrama.suma_ne_zero (d : Datagrama) (ipOrigen ipDestino : Ip) :
    d.suma ipOrigen ipDestino ≠ 0 := by
  rw [Datagrama.suma]
  split
  · decide
  · assumption

private theorem Datagrama.de_bytes (d : Datagrama) (ipOrigen ipDestino : Ip) :
    de (cabeceraPseudo ipOrigen ipDestino Ipv4.udp (UInt16.ofNat (cabecera + d.datos.length)) ++
      d.bytes (d.suma ipOrigen ipDestino)) = 0 := by
  have hfila : ∀ suma, cabeceraPseudo ipOrigen ipDestino Ipv4.udp
      (UInt16.ofNat (cabecera + d.datos.length)) ++ d.bytes suma =
        (cabeceraPseudo ipOrigen ipDestino Ipv4.udp (UInt16.ofNat (cabecera + d.datos.length)) ++
          (u16Be d.origen ++ u16Be d.destino ++
            u16Be (UInt16.ofNat (cabecera + d.datos.length)))) ++ (u16Be suma ++ d.datos) := by
    intro suma
    rw [Datagrama.bytes, ← List.append_assoc]
  have hpar : (cabeceraPseudo ipOrigen ipDestino Ipv4.udp
      (UInt16.ofNat (cabecera + d.datos.length)) ++ (u16Be d.origen ++ u16Be d.destino ++
        u16Be (UInt16.ofNat (cabecera + d.datos.length)))).length % 2 = 0 := by
    simp
  rw [hfila, Datagrama.suma, hfila]
  split
  next hcero => exact de_campo_unos hpar hcero
  next => exact de_campo hpar d.datos

/-- A datagram written reads back. -/
theorem leer_bytes {d : Datagrama} (ho : d.origen ≠ 0) (hd : d.destino ≠ 0)
    (hl : d.datos.length ≤ maxDatos) (ipOrigen ipDestino : Ip) :
    leer (d.bytes (d.suma ipOrigen ipDestino)) ipOrigen ipDestino = .ok d := by
  have hsuma := d.de_bytes ipOrigen ipDestino
  have hno := d.suma_ne_zero ipOrigen ipDestino
  generalize d.suma ipOrigen ipDestino = s at hsuma hno
  have hmax : d.datos.length ≤ 1472 := hl
  have hcab : cabecera = 8 := rfl
  have hlargo : (UInt16.ofNat (cabecera + d.datos.length)).toNat = cabecera + d.datos.length := by
    rw [UInt16.toNat_ofNat', Nat.mod_eq_of_lt (by omega)]
  have hlen : (d.bytes s).length = cabecera + d.datos.length := by
    simp [Datagrama.bytes, cabecera]
    omega
  have hfila : d.bytes s = u16Be d.origen ++ (u16Be d.destino ++
      (u16Be (UInt16.ofNat (cabecera + d.datos.length)) ++ (u16Be s ++ d.datos))) := by
    simp only [Datagrama.bytes, List.append_assoc]
  have h0 : be16 (d.bytes s) 0 = d.origen := be16_of_eq (a := []) hfila rfl
  have h2 : be16 (d.bytes s) 2 = d.destino := be16_of_eq hfila rfl
  have h4 : be16 (d.bytes s) 4 = UInt16.ofNat (cabecera + d.datos.length) :=
    be16_of_eq (a := u16Be d.origen ++ u16Be d.destino) hfila rfl
  have h6 : be16 (d.bytes s) 6 = s :=
    be16_of_eq (a := u16Be d.origen ++ u16Be d.destino ++
      u16Be (UInt16.ofNat (cabecera + d.datos.length))) hfila rfl
  have hdatos : (d.bytes s).drop cabecera = d.datos := rfl
  have hcabe : ¬(d.bytes s).length < cabecera := by omega
  have htake : (d.bytes s).take (cabecera + d.datos.length) = d.bytes s := by
    rw [← hlen, List.take_length]
  rw [leer, if_neg hcabe, h4]
  dsimp only
  rw [hlargo, if_neg (by omega), if_neg (by omega), htake, h6, if_neg hno, cerrar_pseudo,
    if_neg (not_not.mpr hsuma), h0, h2, if_neg (not_or.mpr ⟨ho, hd⟩), hdatos]

end Udp

end BmoX.Pila
