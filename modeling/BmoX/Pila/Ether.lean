import BmoX.Pila.Ipv4

/-!
# Ethernet frames and ARP messages

`platform/shared/bmo-pila/src/ether.rs` and the messages of `arp.rs:22–93`. Only IPv4 and ARP
frames are read, and nobody speaks from a group address.
-/

namespace BmoX.Pila

open BmoX.Base

/-- `Mac`; `ether.rs:10`. -/
abbrev Mac := Arr 6

namespace Ether

/-- `CABECERA`; `ether.rs:12`. -/
abbrev cabecera : Nat := 14

/-- `MAX_CARGA`; `ether.rs:13`. -/
abbrev maxCarga : Nat := 1500

/-- The least that travels, `MIN_TRAMA`; `ether.rs:15`. -/
abbrev minTrama : Nat := 60

/-- `DIFUSION`; `ether.rs:16`. -/
def difusion : Mac := ⟨[0xFF, 0xFF, 0xFF, 0xFF, 0xFF, 0xFF], rfl⟩

/-- `TIPO_IPV4`; `ether.rs:17`. -/
def tipoIpv4 : UInt16 := 0x0800

/-- `TIPO_ARP`; `ether.rs:18`. -/
def tipoArp : UInt16 := 0x0806

/-- Nobody can be a group as a source; `ether.rs:22–24`. -/
def esGrupo (m : Mac) : Bool := m.1.getD 0 0 &&& 1 != 0

/-- An address nobody can speak from; `ether.rs:47` and `arp.rs:71`. -/
def origenImposible (m : Mac) : Bool := esGrupo m || m.1 == zeros 6

/-- A frame taken apart; `ether.rs:26–32`. -/
structure Trama where
  destino : Mac
  origen : Mac
  tipo : UInt16
  carga : Bytes
  deriving DecidableEq

/-- Take a frame apart; `ether.rs:38–55`. -/
def leer (b : Bytes) : Except Rechazo Trama :=
  if b.length < cabecera then .error .corto else
  if b.length > cabecera + maxCarga then .error .largo else
  let origen : Mac := Arr.pad 6 (slice b 6 6)
  if origenImposible origen then .error .direccion else
  let tipo := be16 b 12
  if tipo ≠ tipoIpv4 ∧ tipo ≠ tipoArp then .error .tipo else
  .ok { destino := Arr.pad 6 (slice b 0 6), origen, tipo, carga := b.drop cabecera }

/-- The fourteen bytes of a header. -/
def cabeceraDe (destino origen : Mac) (tipo : UInt16) : Bytes := destino.1 ++ origen.1 ++ u16Be tipo

/-- Write the header: how many bytes it takes, and `dst` with them in front; `ether.rs:58–66`. -/
def escribir (dst : Bytes) (destino origen : Mac) (tipo : UInt16) : Except Rechazo (Nat × Bytes) :=
  if dst.length < cabecera then .error .corto
  else .ok (cabecera, cabeceraDe destino origen tipo ++ dst.drop cabecera)

/-- Zeros up to the least that travels: the length at the end, and the buffer; `ether.rs:70–76`. -/
def conRelleno (dst : Bytes) (largo : Nat) : Nat × Bytes :=
  if minTrama ≤ largo ∨ dst.length < minTrama then (largo, dst)
  else (minTrama, splice dst largo (zeros (minTrama - largo)))

@[simp] theorem length_cabeceraDe (destino origen : Mac) (tipo : UInt16) :
    (cabeceraDe destino origen tipo).length = 14 := by
  simp [cabeceraDe]

/-- A frame written reads back. -/
theorem leer_cabeceraDe {destino origen : Mac} {tipo : UInt16} {carga : Bytes}
    (ho : origenImposible origen = false) (ht : tipo = tipoIpv4 ∨ tipo = tipoArp)
    (hc : carga.length ≤ maxCarga) :
    leer (cabeceraDe destino origen tipo ++ carga) = .ok ⟨destino, origen, tipo, carga⟩ := by
  have hl := length_cabeceraDe destino origen tipo
  have hlen : (cabeceraDe destino origen tipo ++ carga).length = 14 + carga.length := by
    rw [List.length_append, hl]
  have hdrop : (cabeceraDe destino origen tipo ++ carga).drop cabecera = carga :=
    List.drop_left' hl
  have hb : cabeceraDe destino origen tipo ++ carga =
      destino.1 ++ (origen.1 ++ (u16Be tipo ++ carga)) := by
    rw [cabeceraDe, List.append_assoc, List.append_assoc]
  generalize cabeceraDe destino origen tipo ++ carga = b at hb hlen hdrop
  have hd : slice b 0 6 = destino.1 := slice_of_eq (a := []) hb rfl destino.2.symm
  have hs : slice b 6 6 = origen.1 := slice_of_eq hb destino.2.symm origen.2.symm
  have htipo : be16 b 12 = tipo := by
    apply be16_of_eq (a := destino.1 ++ origen.1)
    · rw [hb, List.append_assoc]
    · rw [List.length_append, destino.2, origen.2]
  have hcorto : ¬b.length < cabecera := by
    rw [hlen]
    exact Nat.not_lt.mpr (Nat.le_add_right ..)
  have hlargo : ¬b.length > cabecera + maxCarga := by
    rw [hlen]
    exact Nat.not_lt.mpr (Nat.add_le_add_left hc _)
  rw [leer, if_neg hcorto, if_neg hlargo]
  simp only [hd, hs, htipo, hdrop, Arr.pad_val, ho]
  rw [if_neg Bool.false_ne_true, if_neg (by tauto)]

end Ether

/-! ### ARP messages -/

namespace Arp

/-- `LARGO`; `arp.rs:26`. -/
abbrev largo : Nat := 28

/-- `Op`; `arp.rs:36–40`. -/
inductive Op
  | pregunta
  | respuesta
  deriving DecidableEq

/-- A message; `arp.rs:42–49`. -/
structure Mensaje where
  op : Op
  macOrigen : Mac
  ipOrigen : Ip
  macDestino : Mac
  ipDestino : Ip
  deriving DecidableEq

/-- The word of an operation; `arp.rs:88`. -/
def Op.codigo : Op → UInt16
  | pregunta => 1
  | respuesta => 2

/-- The operation of a word; `arp.rs:58–62`. -/
def Op.de? (v : UInt16) : Option Op :=
  if v = 1 then some pregunta else if v = 2 then some respuesta else none

/-- Read a message; `arp.rs:51–78`. -/
def leer (b : Bytes) : Except Rechazo Mensaje :=
  if b.length < largo then .error .corto else
  if be16 b 0 ≠ 1 ∨ be16 b 2 ≠ Ether.tipoIpv4 ∨ b.getD 4 0 ≠ 6 ∨ b.getD 5 0 ≠ 4 then
    .error .cabecera
  else
    match Op.de? (be16 b 6) with
    | none => .error .tipo
    | some op =>
      let a : Mensaje := {
        op
        macOrigen := Arr.pad 6 (slice b 8 6)
        ipOrigen := Arr.pad 4 (slice b 14 4)
        macDestino := Arr.pad 6 (slice b 18 6)
        ipDestino := Arr.pad 4 (slice b 24 4) }
      if Ether.origenImposible a.macOrigen then .error .direccion else
      if Ipv4.esGrupo a.ipOrigen ∨ Ipv4.esDifusion a.ipOrigen then .error .direccion else .ok a

/-- The bytes of a message; `arp.rs:84–92`. -/
def Mensaje.bytes (a : Mensaje) : Bytes :=
  u16Be 1 ++ u16Be Ether.tipoIpv4 ++ [6, 4] ++ u16Be a.op.codigo ++ a.macOrigen.1 ++
    a.ipOrigen.1 ++ a.macDestino.1 ++ a.ipDestino.1

/-- Write a message: how many bytes it takes, and `dst` with them in front; `arp.rs:80–93`. -/
def escribir (dst : Bytes) (a : Mensaje) : Except Rechazo (Nat × Bytes) :=
  if dst.length < largo then .error .corto else .ok (largo, a.bytes ++ dst.drop largo)

/-- A message that can be read: nobody speaks from a group or from everybody. -/
structure Mensaje.Valido (a : Mensaje) : Prop where
  mac : Ether.origenImposible a.macOrigen = false
  ip : ¬(Ipv4.esGrupo a.ipOrigen ∨ Ipv4.esDifusion a.ipOrigen)

end Arp

end BmoX.Pila
