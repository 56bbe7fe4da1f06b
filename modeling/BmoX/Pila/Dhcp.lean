import BmoX.Base.Checked
import BmoX.Base.Runs
import BmoX.Pila.Datagrama
import BmoX.Pila.Ether

/-!
# The DHCP client

`platform/shared/bmo-pila/src/dhcp.rs`. What comes from the cable may be written by anybody on it.
Times are in milliseconds and given by the caller, as is the number `xid` of the request.
-/

namespace BmoX.Pila.Dhcp

open BmoX.Base

/-! ### The code -/

/-- `PUERTO_SERVIDOR`; `dhcp.rs:37`. -/
def puertoServidor : UInt16 := 67

/-- `PUERTO_CLIENTE`; `dhcp.rs:38`. -/
def puertoCliente : UInt16 := 68

/-- `MAGIA`; `dhcp.rs:39`. -/
def magia : UInt32 := 0x63825363

/-- `BOOTP`; `dhcp.rs:41`. -/
abbrev bootp : Nat := 236

/-- Where the options start, `OPCIONES`; `dhcp.rs:43`. -/
abbrev desdeOpciones : Nat := bootp + 4

/-- How long an answer is waited for, `ESPERA_MS`; `dhcp.rs:45`. -/
abbrev esperaMs : Nat := 4000

/-- How many times each phase asks, `INTENTOS`; `dhcp.rs:47`. -/
abbrev maxIntentos : Nat := 3

/-- The shortest lease that is believed, `CONCESION_MIN_S`; `dhcp.rs:49`. -/
def concesionMinS : UInt32 := 60

/-- The options; `dhcp.rs:51–62`. -/
def opcionRelleno : UInt8 := 0
@[inherit_doc opcionRelleno] def opcionMascara : UInt8 := 1
@[inherit_doc opcionRelleno] def opcionRouter : UInt8 := 3
@[inherit_doc opcionRelleno] def opcionDns : UInt8 := 6
@[inherit_doc opcionRelleno] def opcionPedida : UInt8 := 50
@[inherit_doc opcionRelleno] def opcionConcesion : UInt8 := 51
@[inherit_doc opcionRelleno] def opcionTipo : UInt8 := 53
@[inherit_doc opcionRelleno] def opcionServidor : UInt8 := 54
@[inherit_doc opcionRelleno] def opcionLista : UInt8 := 55
@[inherit_doc opcionRelleno] def opcionFin : UInt8 := 255

/-- The kinds of message; `dhcp.rs:64–70`. -/
def tipoDiscover : UInt8 := 1
@[inherit_doc tipoDiscover] def tipoOffer : UInt8 := 2
@[inherit_doc tipoDiscover] def tipoRequest : UInt8 := 3
@[inherit_doc tipoDiscover] def tipoAck : UInt8 := 5
@[inherit_doc tipoDiscover] def tipoNak : UInt8 := 6

/-- The address of nobody. -/
def nadie : Ip := ⟨[0, 0, 0, 0], rfl⟩

/-- The address of everybody. -/
def todos : Ip := ⟨[255, 255, 255, 255], rfl⟩

/-- What a server grants; `dhcp.rs:72–81`. -/
structure Concesion where
  ip : Ip
  servidor : Ip
  mascara : Ip
  router : Ip
  dns : Ip
  segundos : UInt32
  deriving DecidableEq

/-- `Mensaje`; `dhcp.rs:83–88`. -/
inductive Mensaje
  | oferta (c : Concesion)
  | confirmada (c : Concesion)
  | negada
  deriving DecidableEq

/-- The BOOTP part of a request; `dhcp.rs:92–118`. -/
def peticion (mac : Mac) (xid : UInt32) (tipo : UInt8) (pedida : Option (Ip × Ip)) : Bytes :=
  [1, 1, 6, 0] ++ u32Be xid ++ [0, 0] ++ u16Be 0x8000 ++ zeros 16 ++ mac.1 ++ zeros 202 ++
    u32Be magia ++ [opcionTipo, 1, tipo] ++
    (match pedida with
      | some (ip, servidor) =>
        [opcionPedida, 4] ++ ip.1 ++ [opcionServidor, 4] ++ servidor.1
      | none => []) ++
    [opcionLista, 4, opcionMascara, opcionRouter, opcionDns, opcionConcesion, opcionFin]

/-- `armar`: a whole request, how many bytes it takes and `dst` with them in front;
`dhcp.rs:91–130`. -/
def armar (dst : Bytes) (mac : Mac) (xid : UInt32) (tipo : UInt8) (pedida : Option (Ip × Ip)) :
    Except Rechazo (Nat × Bytes) := do
  let carga := peticion mac xid tipo pedida
  let (e, dst) ← Ether.escribir dst Ether.difusion mac Ether.tipoIpv4
  let largoUdp := Udp.cabecera + carga.length
  if dst.length < e + Ipv4.cabecera + largoUdp then .error .corto
  else
    let (_, resto) ← Ipv4.escribir (dst.drop e) nadie todos Ipv4.udp largoUdp xid.toUInt16
    let dst := dst.take e ++ resto
    let (_, resto) ← Udp.escribir (dst.drop (e + Ipv4.cabecera)) nadie todos
      ⟨puertoCliente, puertoServidor, carga⟩
    .ok (e + Ipv4.cabecera + largoUdp, dst.take (e + Ipv4.cabecera) ++ resto)

/-- `descubrir`; `dhcp.rs:133–135`. -/
def descubrir (dst : Bytes) (mac : Mac) (xid : UInt32) : Except Rechazo (Nat × Bytes) :=
  armar dst mac xid tipoDiscover none

/-- `pedir`; `dhcp.rs:138–140`. -/
def pedir (dst : Bytes) (mac : Mac) (xid : UInt32) (ip servidor : Ip) :
    Except Rechazo (Nat × Bytes) :=
  armar dst mac xid tipoRequest (some (ip, servidor))

/-- What a frame carries from a DHCP server to a client; `dhcp.rs:144–156`. -/
def cargaDe (trama : Bytes) : Except Rechazo Bytes := do
  let t ← Ether.leer trama
  if t.tipo ≠ Ether.tipoIpv4 then .error .tipo
  else
    let p ← Ipv4.leer t.carga
    if p.protocolo ≠ Ipv4.udp then .error .protocolo
    else
      let d ← Udp.leer p.carga p.origen p.destino
      if d.origen ≠ puertoServidor ∨ d.destino ≠ puertoCliente then .error .noEsParaMi
      else .ok d.datos

/-- The address of an option; `dhcp.rs:201–206`. -/
def ip4 (v : Bytes) : Except Rechazo Ip :=
  if v.length < 4 then .error .opciones else .ok (Arr.pad 4 (v.take 4))

/-- One option; `dhcp.rs:207–226`. -/
def opcion (codigo : UInt8) (v : Bytes) (tipo : UInt8) (c : Concesion) :
    Except Rechazo (UInt8 × Concesion) :=
  if codigo = opcionTipo then
    if v.length ≠ 1 then .error .opciones else .ok (v.getD 0 0, c)
  else if codigo = opcionMascara then do return (tipo, { c with mascara := ← ip4 v })
  else if codigo = opcionRouter then do return (tipo, { c with router := ← ip4 v })
  else if codigo = opcionDns then do return (tipo, { c with dns := ← ip4 v })
  else if codigo = opcionServidor then do return (tipo, { c with servidor := ← ip4 v })
  else if codigo = opcionConcesion then
    if v.length ≠ 4 then .error .opciones else .ok (tipo, { c with segundos := be32 v 0 })
  else .ok (tipo, c)

/-- The walk over the options from `i`; the loop of `dhcp.rs:179–228`. -/
def opciones (b : Bytes) (i : Nat) (tipo : UInt8) (c : Concesion) :
    Except Rechazo (UInt8 × Concesion) :=
  if b.length ≤ i then .error .corto
  else if b.getD i 0 = opcionFin then .ok (tipo, c)
  else if b.getD i 0 = opcionRelleno then opciones b (i + 1) tipo c
  else if b.length ≤ i + 1 then .error .corto
  else if i + 2 + (b.getD (i + 1) 0).toNat > b.length then .error .corto
  else
    match opcion (b.getD i 0) (slice b (i + 2) (b.getD (i + 1) 0).toNat) tipo c with
    | .error e => .error e
    | .ok (tipo, c) => opciones b (i + 2 + (b.getD (i + 1) 0).toNat) tipo c
termination_by b.length - i
decreasing_by all_goals omega

/-- The fields before the options are read; `dhcp.rs:169–176`. -/
def sinOpciones (b : Bytes) : Concesion :=
  ⟨Arr.pad 4 (slice b 16 4), nadie, nadie, nadie, nadie, 0⟩

/-- What a payload says to the client of this address and this request: the kind of the message and
its fields; `dhcp.rs:157–228`. -/
def campos (b : Bytes) (mac : Mac) (xid : UInt32) : Except Rechazo (UInt8 × Concesion) :=
  if b.length < desdeOpciones then .error .corto
  else if b.getD 0 0 ≠ 2 ∨ b.getD 1 0 ≠ 1 ∨ b.getD 2 0 ≠ 6 then .error .cabecera
  else if be32 b 4 ≠ xid ∨ slice b 28 6 ≠ mac.1 then .error .noEsParaMi
  else if be32 b bootp ≠ magia then .error .cabecera
  else opciones b desdeOpciones 0 (sinOpciones b)

/-- What a message of that kind with those fields is; `dhcp.rs:229–245`. -/
def clasificar (tipo : UInt8) (c : Concesion) : Except Rechazo Mensaje :=
  if tipo = tipoNak then .ok .negada
  else if tipo = tipoOffer ∨ tipo = tipoAck then
    if Ipv4.origenImposible c.ip ∨ Ipv4.esDifusion c.ip then .error .direccion
    else if c.servidor = nadie then .error .cabecera
    else if tipo = tipoAck ∧ c.segundos < concesionMinS then .error .cabecera
    else .ok (if tipo = tipoOffer then .oferta c else .confirmada c)
  else if tipo = 0 then .error .cabecera
  else .error .tipo

/-- `leer`: is a frame an answer to this request? `dhcp.rs:143–246`. -/
def leer (trama : Bytes) (mac : Mac) (xid : UInt32) : Except Rechazo Mensaje := do
  let b ← cargaDe trama
  let (tipo, c) ← campos b mac xid
  clasificar tipo c

/-- `Fallo`; `dhcp.rs:248–254`. -/
inductive Fallo
  | nadieContesta
  | negada
  deriving DecidableEq

/-- `Estado`; `dhcp.rs:256–263`. -/
inductive Estado
  | quieto
  | descubriendo
  | pidiendo (o : Concesion)
  | concedida (concesion : Concesion) (desdeMs : Nat)
  | fallo (f : Fallo)
  deriving DecidableEq

/-- `Cliente`; `dhcp.rs:266–272`. -/
structure Cliente where
  mac : Mac
  xid : UInt32
  estado : Estado
  enviadoMs : Option Nat
  intentos : Nat
  deriving DecidableEq

namespace Cliente

/-- `Cliente::nuevo`; `dhcp.rs:275–277`. -/
def nuevo (mac : Mac) (xid : UInt32) : Cliente := ⟨mac, xid, .quieto, none, 0⟩

/-- `en_marcha`; `dhcp.rs:283–285`. -/
def enMarcha (c : Cliente) : Bool :=
  match c.estado with
  | .descubriendo | .pidiendo _ => true
  | _ => false

/-- `empezar`; `dhcp.rs:288–292`. -/
def empezar (c : Cliente) : Cliente :=
  { c with estado := .descubriendo, enviadoMs := none, intentos := 0 }

/-- The frame of the phase; `dhcp.rs:310–313`. -/
def trama (c : Cliente) (dst : Bytes) : Except Rechazo (Nat × Bytes) :=
  match c.estado with
  | .pidiendo o => pedir dst c.mac c.xid o.ip o.servidor
  | _ => descubrir dst c.mac c.xid

/-- Is it time to send? `dhcp.rs:299–302`. -/
def toca (c : Cliente) (ahoraMs : Nat) : Bool :=
  match c.enviadoMs with
  | none => true
  | some t => esperaMs ≤ ahoraMs - t

/-- `latir`: the frame to send now, if there is one; `dhcp.rs:295–317`. -/
def latir (c : Cliente) (ahoraMs : Nat) (dst : Bytes) :
    Cliente × Except Rechazo (Option (Nat × Bytes)) :=
  if c.enMarcha = false then (c, .ok none)
  else if c.toca ahoraMs = false then (c, .ok none)
  else if maxIntentos ≤ c.intentos then ({ c with estado := .fallo .nadieContesta }, .ok none)
  else
    match c.trama dst with
    | .error e => (c, .error e)
    | .ok n => ({ c with intentos := c.intentos + 1, enviadoMs := some ahoraMs }, .ok (some n))

/-- `oir`: a frame of the cable, and whether the state changed; `dhcp.rs:320–342`. -/
def oir (c : Cliente) (trama : Bytes) (ahoraMs : Nat) : Cliente × Except Rechazo Bool :=
  match leer trama c.mac c.xid with
  | .error e => (c, .error e)
  | .ok m =>
    match c.estado, m with
    | .descubriendo, .oferta k =>
      ({ c with estado := .pidiendo k, enviadoMs := none, intentos := 0 }, .ok true)
    | .pidiendo o, .confirmada k =>
      if k.ip = o.ip ∧ k.servidor = o.servidor then
        ({ c with estado := .concedida k ahoraMs }, .ok true)
      else (c, .ok false)
    | .pidiendo _, .negada => ({ c with estado := .fallo .negada }, .ok true)
    | _, _ => (c, .ok false)

end Cliente

/-! ### What a server writes -/

/-- An option: its code, its length and its value. -/
def opcionDe (o : UInt8 × Bytes) : Bytes := o.1 :: UInt8.ofNat o.2.length :: o.2

/-- The options of a message, and their end. -/
def opcionesDe (os : List (UInt8 × Bytes)) : Bytes := os.flatMap opcionDe ++ [opcionFin]

/-- An option that can be written: its code is not one of the two without a length. -/
structure Escribible (o : UInt8 × Bytes) : Prop where
  relleno : o.1 ≠ opcionRelleno
  fin : o.1 ≠ opcionFin
  largo : o.2.length < 256

/-- Options written are read one after another, whatever goes before and behind them. -/
theorem opciones_opcionesDe (os : List (UInt8 × Bytes)) (hos : ∀ o ∈ os, Escribible o)
    (pre post : Bytes) (tipo : UInt8) (c : Concesion) :
    opciones (pre ++ (opcionesDe os ++ post)) pre.length tipo c =
      os.foldlM (fun s o ↦ opcion o.1 o.2 s.1 s.2) (tipo, c) := by
  induction os generalizing pre tipo c with
  | nil =>
    have hfin : (pre ++ (opcionesDe [] ++ post)).getD pre.length 0 = opcionFin :=
      getD_of_eq rfl rfl
    have hlen : ¬(pre ++ (opcionesDe [] ++ post)).length ≤ pre.length := by
      simp [opcionesDe]
    rw [opciones, if_neg hlen, if_pos hfin]
    rfl
  | cons o os ih =>
    have ho := hos o (List.mem_cons_self ..)
    have hval : (UInt8.ofNat o.2.length).toNat = o.2.length := by
      rw [UInt8.toNat_ofNat', Nat.mod_eq_of_lt ho.largo]
    have hb : pre ++ (opcionesDe (o :: os) ++ post) =
        pre ++ (o.1 :: UInt8.ofNat o.2.length :: (o.2 ++ (opcionesDe os ++ post))) := by
      simp [opcionesDe, opcionDe]
    have hsig : pre ++ (opcionesDe (o :: os) ++ post) =
        (pre ++ opcionDe o) ++ (opcionesDe os ++ post) := by
      simp [opcionesDe]
    have hi : (pre ++ opcionDe o).length = pre.length + 2 + o.2.length := by
      simp [opcionDe]
      omega
    have h := ih (fun x hx ↦ hos x (List.mem_cons_of_mem _ hx)) (pre ++ opcionDe o)
    rw [hi, ← hsig] at h
    generalize pre ++ (opcionesDe (o :: os) ++ post) = b at hb h
    have h0 : b.getD pre.length 0 = o.1 := getD_of_eq hb rfl
    have h1 : b.getD (pre.length + 1) 0 = UInt8.ofNat o.2.length :=
      getD_of_eq (a := pre ++ [o.1]) (by simpa using hb) (by simp)
    have hv : slice b (pre.length + 2) o.2.length = o.2 :=
      slice_of_eq (a := pre ++ [o.1, UInt8.ofNat o.2.length]) (by simpa using hb) (by simp) rfl
    have hlen : b.length = pre.length + 2 + o.2.length + (opcionesDe os ++ post).length := by
      rw [hb]
      simp
      omega
    rw [opciones, if_neg (by omega), h0, if_neg ho.fin, if_neg ho.relleno, if_neg (by omega), h1,
      hval, if_neg (by omega), hv, List.foldlM_cons]
    cases opcion o.1 o.2 tipo c with
    | error e => rfl
    | ok s => exact h s.1 s.2

/-- An answer: the fields of BOOTP, the address that is given and the options. -/
def respuesta (mac : Mac) (xid : UInt32) (ip : Ip) (os : List (UInt8 × Bytes)) : Bytes :=
  [2, 1, 6, 0] ++ u32Be xid ++ zeros 8 ++ ip.1 ++ zeros 8 ++ mac.1 ++ zeros 202 ++ u32Be magia ++
    opcionesDe os

private theorem length_respuesta (mac : Mac) (xid : UInt32) (ip : Ip) (os : List (UInt8 × Bytes)) :
    (respuesta mac xid ip os).length = desdeOpciones + (opcionesDe os).length := by
  have hop : desdeOpciones = 240 := rfl
  simp [respuesta]
  omega

/-- An answer for this client is read as its options say. -/
theorem campos_respuesta (mac : Mac) (xid : UInt32) (ip : Ip) {os : List (UInt8 × Bytes)}
    (hos : ∀ o ∈ os, Escribible o) :
    campos (respuesta mac xid ip os) mac xid =
      os.foldlM (fun s o ↦ opcion o.1 o.2 s.1 s.2)
        (0, ⟨ip, nadie, nadie, nadie, nadie, 0⟩) := by
  have hb : respuesta mac xid ip os = [2, 1, 6, 0] ++ (u32Be xid ++ (zeros 8 ++ (ip.1 ++ (zeros 8 ++
      (mac.1 ++ (zeros 202 ++ (u32Be magia ++ (opcionesDe os ++ [])))))))) := by
    simp only [respuesta, List.append_assoc, List.append_nil]
  have hfin : respuesta mac xid ip os = ([2, 1, 6, 0] ++ u32Be xid ++ zeros 8 ++ ip.1 ++ zeros 8 ++
      mac.1 ++ zeros 202 ++ u32Be magia) ++ (opcionesDe os ++ []) := by
    rw [respuesta, List.append_nil]
  have hpre : ([2, 1, 6, 0] ++ u32Be xid ++ zeros 8 ++ ip.1 ++ zeros 8 ++ mac.1 ++ zeros 202 ++
      u32Be magia).length = desdeOpciones := by
    simp
  generalize respuesta mac xid ip os = b at hb hfin
  have hop := opciones_opcionesDe os hos ([2, 1, 6, 0] ++ u32Be xid ++ zeros 8 ++ ip.1 ++ zeros 8 ++
    mac.1 ++ zeros 202 ++ u32Be magia) []
  rw [hpre, ← hfin] at hop
  have h0 : b.getD 0 0 = 2 := getD_of_eq (a := []) hb rfl
  have h1 : b.getD 1 0 = 1 := getD_of_eq (a := [2]) hb rfl
  have h2 : b.getD 2 0 = 6 := getD_of_eq (a := [2, 1]) hb rfl
  have hxid : be32 b 4 = xid := be32_of_eq hb rfl
  have hip : slice b 16 4 = ip.1 :=
    slice_of_eq (a := [2, 1, 6, 0] ++ u32Be xid ++ zeros 8) (by simpa using hb) (by simp)
      ip.2.symm
  have hmac : slice b 28 6 = mac.1 :=
    slice_of_eq (a := [2, 1, 6, 0] ++ u32Be xid ++ zeros 8 ++ ip.1 ++ zeros 8)
      (by simpa using hb) (by simp) mac.2.symm
  have hmagia : be32 b bootp = magia :=
    be32_of_eq (a := [2, 1, 6, 0] ++ u32Be xid ++ zeros 8 ++ ip.1 ++ zeros 8 ++ mac.1 ++ zeros 202)
      (by simpa using hb) (by simp)
  have hlen : ¬b.length < desdeOpciones := by
    rw [hfin, List.length_append, hpre]
    omega
  rw [campos, if_neg hlen, h0, h1, h2, if_neg (by decide), hxid, hmac, if_neg (by tauto), hmagia,
    if_neg (not_not.mpr rfl), hop, sinOpciones, hip, Arr.pad_val]

/-- A datagram from the port of the servers to the one of the clients, in a frame. -/
def tramaDe (destino origen : Mac) (ip : Ip) (datos : Bytes) : Bytes :=
  let d : Udp.Datagrama := ⟨puertoServidor, puertoCliente, datos⟩
  let total := Ipv4.cabecera + (Udp.cabecera + datos.length)
  Ether.cabeceraDe destino origen Ether.tipoIpv4 ++
    (Ipv4.cabeceraDe ip todos Ipv4.udp total 0
        (de (Ipv4.cabeceraDe ip todos Ipv4.udp total 0 0)) ++ d.bytes (d.suma ip todos))

/-- Such a frame carries what was put in it. -/
theorem cargaDe_tramaDe {destino origen : Mac} {ip : Ip} {datos : Bytes}
    (ho : Ether.origenImposible origen = false) (hip : Ipv4.origenImposible ip = false)
    (hl : datos.length ≤ Udp.maxDatos) : cargaDe (tramaDe destino origen ip datos) = .ok datos := by
  have hmax : datos.length ≤ 1472 := hl
  have hsuma :=
    Ipv4.de_cabeceraDe ip todos Ipv4.udp (Ipv4.cabecera + (Udp.cabecera + datos.length)) 0
  have hpo : puertoServidor ≠ 0 := by decide
  have hpd : puertoCliente ≠ 0 := by decide
  have hudp := Udp.leer_bytes (d := ⟨puertoServidor, puertoCliente, datos⟩) hpo hpd hl ip todos
  have hbytes : ∀ suma, (Udp.Datagrama.bytes ⟨puertoServidor, puertoCliente, datos⟩ suma).length =
      Udp.cabecera + datos.length := by
    intro suma
    simp [Udp.Datagrama.bytes, Udp.cabecera]
    omega
  rw [tramaDe]
  generalize de (Ipv4.cabeceraDe ip todos Ipv4.udp
    (Ipv4.cabecera + (Udp.cabecera + datos.length)) 0 0) = s at hsuma ⊢
  generalize Udp.Datagrama.suma ⟨puertoServidor, puertoCliente, datos⟩ ip todos = s' at hudp ⊢
  generalize hd : Udp.Datagrama.bytes ⟨puertoServidor, puertoCliente, datos⟩ s' = d at hudp
  have hdlen : d.length = Udp.cabecera + datos.length := hd ▸ hbytes s'
  have h8 : Udp.cabecera = 8 := rfl
  have h20 : Ipv4.cabecera = 20 := rfl
  have hmtu : Ipv4.mtu = 1500 := rfl
  have htotal : Ipv4.cabecera + (Udp.cabecera + datos.length) = Ipv4.cabecera + d.length := by omega
  have hip4 := Ipv4.leer_cabeceraDe hip todos Ipv4.udp 0 htotal (by omega) [] hsuma
  rw [List.append_nil] at hip4
  have hcarga : (Ipv4.cabeceraDe ip todos Ipv4.udp (Ipv4.cabecera + (Udp.cabecera + datos.length)) 0
      s ++ d).length ≤ Ether.maxCarga := by
    rw [List.length_append, Ipv4.length_cabeceraDe]
    change 20 + d.length ≤ 1500
    omega
  have heth := @Ether.leer_cabeceraDe destino _ _ _ ho (.inl rfl) hcarga
  rw [cargaDe, heth]
  dsimp only [bind, Except.bind]
  rw [if_neg (not_not.mpr rfl), hip4]
  dsimp only
  rw [if_neg (not_not.mpr rfl), hudp]
  dsimp only
  rw [if_neg (by decide)]

/-! ### Whose an answer is -/

/-- The server identifier that a frame carries. -/
def servidorDe (trama : Bytes) : Option Ip :=
  match cargaDe trama with
  | .error _ => none
  | .ok b =>
    match opciones b desdeOpciones 0 (sinOpciones b) with
    | .error _ => none
    | .ok (_, k) => some k.servidor

/-- A frame brings an answer to this request of this client: its kind and its fields. -/
def Trae (trama : Bytes) (mac : Mac) (xid : UInt32) (tipo : UInt8) (k : Concesion) : Prop :=
  ∃ b, cargaDe trama = .ok b ∧ be32 b 4 = xid ∧ slice b 28 6 = mac.1 ∧
    campos b mac xid = .ok (tipo, k)

/-- An address that a machine can have. -/
def Posible (ip : Ip) : Prop := Ipv4.origenImposible ip = false ∧ Ipv4.esDifusion ip = false

private theorem campos_eq_ok {b : Bytes} {mac : Mac} {xid : UInt32} {s : UInt8 × Concesion}
    (h : campos b mac xid = .ok s) :
    be32 b 4 = xid ∧ slice b 28 6 = mac.1 ∧
      opciones b desdeOpciones 0 (sinOpciones b) = .ok s := by
  simp only [campos, ite_error_eq_ok, not_or, not_not] at h
  obtain ⟨-, -, ⟨hxid, hmac⟩, -, hop⟩ := h
  exact ⟨hxid, hmac, hop⟩

/-- The server of an answer. -/
theorem Trae.servidorDe {trama : Bytes} {mac : Mac} {xid : UInt32} {tipo : UInt8} {k : Concesion}
    (h : Trae trama mac xid tipo k) : servidorDe trama = some k.servidor := by
  obtain ⟨b, hb, -, -, hk⟩ := h
  have hop := (campos_eq_ok hk).2.2
  rw [Dhcp.servidorDe, hb]
  dsimp only
  rw [hop]

private theorem trae_tramaDe {mac origen : Mac} {xid : UInt32} {ip servidor : Ip}
    {os : List (UInt8 × Bytes)} {tipo : UInt8} {k : Concesion}
    (ho : Ether.origenImposible origen = false) (hip : Ipv4.origenImposible servidor = false)
    (hos : ∀ o ∈ os, Escribible o)
    (hl : desdeOpciones + (opcionesDe os).length ≤ Udp.maxDatos)
    (hk : os.foldlM (fun s o ↦ opcion o.1 o.2 s.1 s.2) (0, ⟨ip, nadie, nadie, nadie, nadie, 0⟩) =
      .ok (tipo, k)) :
    Trae (tramaDe mac origen servidor (respuesta mac xid ip os)) mac xid tipo k := by
  have hcampos := (campos_respuesta mac xid ip hos).trans hk
  obtain ⟨hxid, hmac, -⟩ := campos_eq_ok hcampos
  have hlen : (respuesta mac xid ip os).length ≤ Udp.maxDatos := by
    rwa [length_respuesta]
  exact ⟨_, cargaDe_tramaDe ho hip hlen, hxid, hmac, hcampos⟩

/-- What a frame is read as is what its kind and its fields are. -/
theorem leer_eq_ok {trama : Bytes} {mac : Mac} {xid : UInt32} {m : Mensaje} :
    leer trama mac xid = .ok m ↔
      ∃ tipo k, Trae trama mac xid tipo k ∧ clasificar tipo k = .ok m := by
  simp only [leer, bind_eq_ok]
  constructor
  · rintro ⟨b, hb, ⟨tipo, k⟩, hk, hm⟩
    obtain ⟨hxid, hmac, -⟩ := campos_eq_ok hk
    exact ⟨tipo, k, ⟨b, hb, hxid, hmac, hk⟩, hm⟩
  · rintro ⟨tipo, k, ⟨b, hb, -, -, hk⟩, hm⟩
    exact ⟨b, hb, (tipo, k), hk, hm⟩

private theorem clasificar_negada {tipo : UInt8} {k : Concesion} :
    clasificar tipo k = .ok .negada ↔ tipo = tipoNak := by
  constructor
  · intro h
    by_contra hno
    rw [clasificar, if_neg hno] at h
    split at h
    · simp only [ite_error_eq_ok] at h
      obtain ⟨-, -, -, h⟩ := h
      split at h <;> cases h
    · split at h <;> cases h
  · rintro rfl
    exact if_pos rfl

private theorem clasificar_confirmada {tipo : UInt8} {k k' : Concesion} :
    clasificar tipo k = .ok (.confirmada k') ↔
      tipo = tipoAck ∧ k' = k ∧ Posible k.ip ∧ k.servidor ≠ nadie ∧ concesionMinS ≤ k.segundos := by
  constructor
  · intro h
    rw [clasificar] at h
    split at h
    · cases h
    split at h
    next htipo =>
      simp only [ite_error_eq_ok, not_or, not_and, Bool.not_eq_true] at h
      obtain ⟨hip, hsrv, hseg, h⟩ := h
      split at h
      · cases h
      next hoferta =>
        have hack := htipo.resolve_left hoferta
        cases h
        exact ⟨hack, rfl, hip, hsrv, UInt32.not_lt.mp (hseg hack)⟩
    next => split at h <;> cases h
  · rintro ⟨rfl, rfl, ⟨himp, hdif⟩, hsrv, hseg⟩
    rw [clasificar, if_neg (by decide), if_pos (.inr rfl), himp, hdif, if_neg (by decide),
      if_neg hsrv, if_neg fun h ↦ UInt32.not_lt.mpr hseg h.2, if_neg (by decide)]

/-! ### A client and what it has sent -/

/-- What can be asked of a client. -/
inductive Llamada
  | empezar
  | latir (ahoraMs : Nat) (dst : Bytes)
  | oir (trama : Bytes) (ahoraMs : Nat)

/-- A client, when it sent each frame of its phase, the last first, and the address and the server
of the last REQUEST that it sent. -/
structure Seguido where
  cliente : Cliente
  enviadas : List Nat
  pedida : Option (Ip × Ip)

/-- What a client can make of a frame: nothing, or what its state waits for. -/
theorem Cliente.oir_casos (c : Cliente) (trama : Bytes) (ahoraMs : Nat) :
    (∃ r, c.oir trama ahoraMs = (c, r) ∧ r ≠ .ok true) ∨
    (∃ k, c.estado = .descubriendo ∧ c.oir trama ahoraMs =
      ({ c with estado := .pidiendo k, enviadoMs := none, intentos := 0 }, .ok true)) ∨
    (∃ o k, c.estado = .pidiendo o ∧ leer trama c.mac c.xid = .ok (.confirmada k) ∧ k.ip = o.ip ∧
      k.servidor = o.servidor ∧
      c.oir trama ahoraMs = ({ c with estado := .concedida k ahoraMs }, .ok true)) ∨
    (∃ o, c.estado = .pidiendo o ∧ leer trama c.mac c.xid = .ok .negada ∧
      c.oir trama ahoraMs = ({ c with estado := .fallo .negada }, .ok true)) := by
  rw [Cliente.oir]
  cases leer trama c.mac c.xid with
  | error e => exact .inl ⟨_, rfl, nofun⟩
  | ok m =>
    dsimp only
    split
    next hestado => exact .inr (.inl ⟨_, hestado, rfl⟩)
    next o k hestado =>
      by_cases hmisma : k.ip = o.ip ∧ k.servidor = o.servidor
      · rw [if_pos hmisma]
        exact .inr (.inr (.inl ⟨o, k, hestado, rfl, hmisma.1, hmisma.2, rfl⟩))
      · rw [if_neg hmisma]
        exact .inl ⟨_, rfl, nofun⟩
    next o hestado => exact .inr (.inr (.inr ⟨o, hestado, rfl, rfl⟩))
    next => exact .inl ⟨_, rfl, nofun⟩

/-- The offer that a client is asking for. -/
def Cliente.pide (c : Cliente) : Option (Ip × Ip) :=
  match c.estado with
  | .pidiendo o => some (o.ip, o.servidor)
  | _ => none

namespace Seguido

/-- A new client has sent nothing. -/
def inicio (mac : Mac) (xid : UInt32) : Seguido := ⟨.nuevo mac xid, [], none⟩

/-- What a call does, and what it sends. -/
def hace (s : Seguido) : Llamada → Seguido
  | .empezar => ⟨s.cliente.empezar, [], s.pedida⟩
  | .latir ahoraMs dst =>
    match s.cliente.latir ahoraMs dst with
    | (c, .ok (some _)) => ⟨c, ahoraMs :: s.enviadas, s.cliente.pide <|> s.pedida⟩
    | (c, _) => ⟨c, s.enviadas, s.pedida⟩
  | .oir trama ahoraMs =>
    match s.cliente.oir trama ahoraMs with
    | (c, .ok true) => ⟨c, [], s.pedida⟩
    | (c, .ok false) => ⟨c, s.enviadas, s.pedida⟩
    | (c, .error _) => ⟨c, s.enviadas, s.pedida⟩

/-- What holds of a client of this address and this request in every run. -/
structure Sano (mac : Mac) (xid : UInt32) (s : Seguido) : Prop where
  mac : s.cliente.mac = mac
  xid : s.cliente.xid = xid
  intentos : s.cliente.enMarcha → s.enviadas.length = s.cliente.intentos
  ultima : s.cliente.enMarcha → s.cliente.enviadoMs = s.enviadas.head?
  pocas : s.enviadas.length ≤ maxIntentos
  lejos : s.enviadas.Pairwise fun despues antes ↦ antes + esperaMs ≤ despues

/-- What a tick can do: nothing, giving up, or sending in time. -/
theorem hace_latir (s : Seguido) (ahoraMs : Nat) (dst : Bytes) :
    s.hace (.latir ahoraMs dst) = s ∨
    s.hace (.latir ahoraMs dst) =
      { s with cliente := { s.cliente with estado := .fallo .nadieContesta } } ∨
    (s.cliente.enMarcha ∧ s.cliente.intentos < maxIntentos ∧
      (∀ t, s.cliente.enviadoMs = some t → t + esperaMs ≤ ahoraMs) ∧
      s.hace (.latir ahoraMs dst) =
        ⟨{ s.cliente with intentos := s.cliente.intentos + 1, enviadoMs := some ahoraMs },
          ahoraMs :: s.enviadas, s.cliente.pide <|> s.pedida⟩) := by
  by_cases hmarcha : s.cliente.enMarcha = false
  · left
    rw [hace, Cliente.latir, if_pos hmarcha]
  by_cases htoca : s.cliente.toca ahoraMs = false
  · left
    rw [hace, Cliente.latir, if_neg hmarcha, if_pos htoca]
  by_cases hmax : maxIntentos ≤ s.cliente.intentos
  · right; left
    rw [hace, Cliente.latir, if_neg hmarcha, if_neg htoca, if_pos hmax]
  cases htrama : s.cliente.trama dst with
  | error e =>
    left
    rw [hace, Cliente.latir, if_neg hmarcha, if_neg htoca, if_neg hmax, htrama]
  | ok n =>
    right; right
    refine ⟨by simpa using hmarcha, Nat.lt_of_not_le hmax, ?_, ?_⟩
    · intro t ht
      rw [Cliente.toca, ht] at htoca
      have hpaso : esperaMs ≤ ahoraMs - t := by simpa using htoca
      have hespera : esperaMs = 4000 := rfl
      omega
    · rw [hace, Cliente.latir, if_neg hmarcha, if_neg htoca, if_neg hmax, htrama]

/-- What a frame can do: nothing, an offer to the one that looks for one, what was asked for, or a
refusal to the one that asks. -/
theorem hace_oir (s : Seguido) (trama : Bytes) (ahoraMs : Nat) :
    s.hace (.oir trama ahoraMs) = s ∨
    (∃ k, s.cliente.estado = .descubriendo ∧ s.hace (.oir trama ahoraMs) =
      ⟨{ s.cliente with estado := .pidiendo k, enviadoMs := none, intentos := 0 }, [], s.pedida⟩) ∨
    (∃ o k, s.cliente.estado = .pidiendo o ∧
      leer trama s.cliente.mac s.cliente.xid = .ok (.confirmada k) ∧ k.ip = o.ip ∧
      k.servidor = o.servidor ∧ s.hace (.oir trama ahoraMs) =
        ⟨{ s.cliente with estado := .concedida k ahoraMs }, [], s.pedida⟩) ∨
    (∃ o, s.cliente.estado = .pidiendo o ∧
      leer trama s.cliente.mac s.cliente.xid = .ok .negada ∧ s.hace (.oir trama ahoraMs) =
        ⟨{ s.cliente with estado := .fallo .negada }, [], s.pedida⟩) := by
  obtain ⟨r, heq, hr⟩ | ⟨k, hestado, heq⟩ | ⟨o, k, hestado, hleer, hip, hsrv, heq⟩ |
      ⟨o, hestado, hleer, heq⟩ :=
    s.cliente.oir_casos trama ahoraMs
  · left
    rw [hace, heq]
    obtain _ | _ | _ := r
    · rfl
    · rfl
    · exact absurd rfl hr
  · exact .inr (.inl ⟨k, hestado, by rw [hace, heq]⟩)
  · exact .inr (.inr (.inl ⟨o, k, hestado, hleer, hip, hsrv, by rw [hace, heq]⟩))
  · exact .inr (.inr (.inr ⟨o, hestado, hleer, by rw [hace, heq]⟩))

namespace Sano

variable {mac : Mac} {xid : UInt32} {s : Seguido}

theorem inicio (mac : Mac) (xid : UInt32) : Sano mac xid (inicio mac xid) where
  mac := rfl
  xid := rfl
  intentos h := by cases h
  ultima h := by cases h
  pocas := Nat.zero_le _
  lejos := .nil

/-- A phase begins with nothing sent. -/
theorem fase (h : Sano mac xid s) (estado : Estado) :
    Sano mac xid ⟨{ s.cliente with estado := estado, enviadoMs := none, intentos := 0 }, [],
      s.pedida⟩ where
  mac := h.mac
  xid := h.xid
  intentos _ := rfl
  ultima _ := rfl
  pocas := Nat.zero_le _
  lejos := .nil

private theorem parado (h : Sano mac xid s) {estado : Estado}
    (hparado : ({ s.cliente with estado := estado } : Cliente).enMarcha = false)
    {enviadas : List Nat} (henv : List.Sublist enviadas s.enviadas) :
    Sano mac xid ⟨{ s.cliente with estado := estado }, enviadas, s.pedida⟩ where
  mac := h.mac
  xid := h.xid
  intentos hmarcha := absurd hmarcha (by rw [hparado]; exact Bool.false_ne_true)
  ultima hmarcha := absurd hmarcha (by rw [hparado]; exact Bool.false_ne_true)
  pocas := henv.length_le.trans h.pocas
  lejos := h.lejos.sublist henv

/-- Sending in time keeps the distances. -/
theorem envia (h : Sano mac xid s) {ahoraMs : Nat} (hmarcha : s.cliente.enMarcha)
    (hpocas : s.cliente.intentos < maxIntentos)
    (hlejos : ∀ t, s.cliente.enviadoMs = some t → t + esperaMs ≤ ahoraMs)
    (pedida : Option (Ip × Ip)) :
    Sano mac xid ⟨{ s.cliente with intentos := s.cliente.intentos + 1, enviadoMs := some ahoraMs },
      ahoraMs :: s.enviadas, pedida⟩ where
  mac := h.mac
  xid := h.xid
  intentos _ := congrArg (· + 1) (h.intentos hmarcha)
  ultima _ := rfl
  pocas := by
    rw [List.length_cons, h.intentos hmarcha]
    exact hpocas
  lejos := by
    refine List.pairwise_cons.mpr ⟨fun t ht ↦ ?_, h.lejos⟩
    have hult := h.ultima hmarcha
    have hpar := h.lejos
    revert ht hult hpar
    -- the last one is far enough, and the others are before it
    cases s.enviadas with
    | nil => exact fun ht ↦ nomatch ht
    | cons ultima antes =>
      intro ht hult hpar
      have hu := hlejos ultima hult
      rcases List.mem_cons.mp ht with rfl | ht
      · exact hu
      · have hle := (List.pairwise_cons.mp hpar).1 t ht
        omega

/-- Every call keeps a client sound. -/
theorem hace (h : Sano mac xid s) (l : Llamada) : Sano mac xid (s.hace l) := by
  cases l with
  | empezar => exact h.fase .descubriendo
  | latir ahoraMs dst =>
    obtain heq | heq | ⟨hmarcha, hpocas, hlejos, heq⟩ := s.hace_latir ahoraMs dst <;> rw [heq]
    · exact h
    · exact h.parado rfl (List.Sublist.refl _)
    · exact h.envia hmarcha hpocas hlejos _
  | oir trama ahoraMs =>
    obtain heq | ⟨k, -, heq⟩ | ⟨o, k, -, -, -, -, heq⟩ | ⟨o, -, -, heq⟩ :=
      s.hace_oir trama ahoraMs <;> rw [heq]
    · exact h
    · exact h.fase (.pidiendo k)
    · exact h.parado rfl (List.nil_sublist _)
    · exact h.parado rfl (List.nil_sublist _)

end Sano

end Seguido

/-! ### One server at a time -/

/-- A frame grants to this client what it was offered. -/
structure Confirma (mac : Mac) (xid : UInt32) (o k : Concesion) (trama : Bytes) : Prop where
  ack : Trae trama mac xid tipoAck k
  ip : k.ip = o.ip
  servidor : k.servidor = o.servidor
  alguien : k.servidor ≠ nadie
  posible : Posible k.ip
  segundos : concesionMinS ≤ k.segundos

namespace Seguido

/-- What a call can grant, and how much and how often a phase sends. -/
structure Prudente (mac : Mac) (xid : UInt32) (s : Seguido) (l : Llamada) : Prop where
  otorga : ∀ k t, (s.hace l).cliente.estado = .concedida k t → s.cliente.estado ≠ .concedida k t →
    ∃ o trama, l = .oir trama t ∧ s.cliente.estado = .pidiendo o ∧ Confirma mac xid o k trama
  pocas : (s.hace l).enviadas.length ≤ maxIntentos
  lejos : (s.hace l).enviadas.Pairwise fun despues antes ↦ antes + esperaMs ≤ despues

/-- A client that talks to one server at a time: what it is granted is what it last requested, and
while it asks, the frames of the others change nothing. -/
structure UnServidor (mac : Mac) (xid : UInt32) (s : Seguido) (l : Llamada) : Prop
    extends Prudente mac xid s l where
  pedida : ∀ k t, (s.hace l).cliente.estado = .concedida k t → s.cliente.estado ≠ .concedida k t →
    s.pedida = some (k.ip, k.servidor)
  ajenas : ∀ o trama t, s.cliente.estado = .pidiendo o → l = .oir trama t →
    servidorDe trama ≠ some o.servidor → (s.hace l).cliente = s.cliente

/-- While the client asks, no other server refuses, and nothing is granted before its REQUEST is
sent. -/
structure Limpia (mac : Mac) (xid : UInt32) (s : Seguido) (l : Llamada) : Prop where
  negadas : ∀ o k trama t, s.cliente.estado = .pidiendo o → l = .oir trama t →
    Trae trama mac xid tipoNak k → k.servidor = o.servidor
  confirmadas : ∀ o k trama t, s.cliente.estado = .pidiendo o → l = .oir trama t →
    Confirma mac xid o k trama → s.pedida = some (o.ip, o.servidor)

variable {mac : Mac} {xid : UInt32} {s : Seguido}

private theorem confirma_of_leer {o k : Concesion} {trama : Bytes}
    (h : leer trama mac xid = .ok (.confirmada k)) (hip : k.ip = o.ip)
    (hsrv : k.servidor = o.servidor) : Confirma mac xid o k trama := by
  obtain ⟨tipo, k', htrae, hclase⟩ := leer_eq_ok.mp h
  obtain ⟨rfl, rfl, hposible, hnadie, hseg⟩ := clasificar_confirmada.mp hclase
  exact ⟨htrae, hip, hsrv, hnadie, hposible, hseg⟩

theorem leer_of_confirma {o k : Concesion} {trama : Bytes} (h : Confirma mac xid o k trama) :
    leer trama mac xid = .ok (.confirmada k) :=
  leer_eq_ok.mpr ⟨_, _, h.ack,
    clasificar_confirmada.mpr ⟨rfl, rfl, h.posible, h.alguien, h.segundos⟩⟩

/-- An offer to the client that looks for one. -/
theorem hace_oferta {k : Concesion} {trama : Bytes} (hestado : s.cliente.estado = .descubriendo)
    (h : leer trama s.cliente.mac s.cliente.xid = .ok (.oferta k)) (t : Nat) :
    (s.hace (.oir trama t)).cliente =
      { s.cliente with estado := .pidiendo k, enviadoMs := none, intentos := 0 } := by
  rw [Seguido.hace, Cliente.oir, h]
  dsimp only
  rw [hestado]

/-- A refusal stops the client that asks, whoever it comes from. -/
theorem hace_negada {o : Concesion} {trama : Bytes} (hestado : s.cliente.estado = .pidiendo o)
    (h : leer trama s.cliente.mac s.cliente.xid = .ok .negada) (t : Nat) :
    (s.hace (.oir trama t)).cliente.estado = .fallo .negada := by
  rw [Seguido.hace, Cliente.oir, h]
  dsimp only
  rw [hestado]

/-- What is granted to the client that asks for it. -/
theorem hace_confirmada {o k : Concesion} {trama : Bytes} (hestado : s.cliente.estado = .pidiendo o)
    (h : leer trama s.cliente.mac s.cliente.xid = .ok (.confirmada k)) (hip : k.ip = o.ip)
    (hsrv : k.servidor = o.servidor) (t : Nat) :
    (s.hace (.oir trama t)).cliente.estado = .concedida k t := by
  rw [Seguido.hace, Cliente.oir, h]
  dsimp only
  rw [hestado]
  dsimp only
  rw [if_pos ⟨hip, hsrv⟩]

/-- Only the confirmation of what is asked for grants it. -/
theorem otorga_of_concedida (l : Llamada) {k : Concesion} {t : Nat}
    (h : (s.hace l).cliente.estado = .concedida k t) (hno : s.cliente.estado ≠ .concedida k t) :
    ∃ o trama, l = .oir trama t ∧ s.cliente.estado = .pidiendo o ∧
      Confirma s.cliente.mac s.cliente.xid o k trama := by
  cases l with
  | empezar => cases h
  | latir ahoraMs dst =>
    obtain heq | heq | ⟨-, -, -, heq⟩ := s.hace_latir ahoraMs dst
    · exact absurd (heq ▸ h) hno
    · rw [heq] at h
      cases h
    · rw [heq] at h
      exact absurd h hno
  | oir trama ahoraMs =>
    obtain heq | ⟨k', -, heq⟩ | ⟨o, k', hestado, hleer, hip, hsrv, heq⟩ | ⟨o, -, -, heq⟩ :=
      s.hace_oir trama ahoraMs
    · exact absurd (heq ▸ h) hno
    · rw [heq] at h
      cases h
    · rw [heq] at h
      cases h
      exact ⟨o, trama, rfl, hestado, confirma_of_leer hleer hip hsrv⟩
    · rw [heq] at h
      cases h

private theorem Sano.prudente (h : Sano mac xid s) (l : Llamada) : Prudente mac xid s l where
  otorga := by
    intro k t hk hno
    obtain ⟨o, trama, hl, hestado, hconf⟩ := otorga_of_concedida l hk hno
    rw [h.mac, h.xid] at hconf
    exact ⟨o, trama, hl, hestado, hconf⟩
  pocas := (h.hace l).pocas
  lejos := (h.hace l).lejos

/-- It talks to one server at this call exactly when no other refuses and nothing comes before it
is asked for. -/
theorem Sano.unServidor_iff (h : Sano mac xid s) (l : Llamada) :
    UnServidor mac xid s l ↔ Limpia mac xid s l := by
  constructor
  · intro hs
    constructor
    · intro o k trama t hestado hl htrae
      subst hl
      by_contra hotro
      have hajena : servidorDe trama ≠ some o.servidor := by
        rw [htrae.servidorDe]
        exact fun heq ↦ hotro (Option.some.inj heq)
      have hleer : leer trama mac xid = .ok .negada :=
        leer_eq_ok.mpr ⟨_, k, htrae, clasificar_negada.mpr rfl⟩
      rw [← h.mac, ← h.xid] at hleer
      have hneg := hace_negada hestado hleer t
      rw [hs.ajenas o trama t hestado rfl hajena, hestado] at hneg
      cases hneg
    · intro o k trama t hestado hl hconf
      subst hl
      have hleer := leer_of_confirma hconf
      rw [← h.mac, ← h.xid] at hleer
      have hk := hace_confirmada hestado hleer hconf.ip hconf.servidor t
      rw [← hconf.ip, ← hconf.servidor]
      exact hs.pedida k t hk (by rw [hestado]; exact nofun)
  · intro hc
    refine ⟨h.prudente l, ?_, ?_⟩
    · intro k t hk hno
      obtain ⟨o, trama, hl, hestado, hconf⟩ := (h.prudente l).otorga k t hk hno
      rw [hconf.ip, hconf.servidor]
      exact hc.confirmadas o k trama t hestado hl hconf
    · intro o trama t hestado hl hajena
      subst hl
      obtain heq | ⟨k, hbusca, -⟩ | ⟨o', k, hestado', hleer, -, hsrv, -⟩ |
        ⟨o', hestado', hleer, -⟩ := s.hace_oir trama t
      · rw [heq]
      · rw [hestado] at hbusca
        cases hbusca
      · rw [hestado] at hestado'
        cases hestado'
        rw [h.mac, h.xid] at hleer
        have hconf := confirma_of_leer hleer rfl rfl
        rw [hconf.ack.servidorDe, hsrv] at hajena
        exact absurd rfl hajena
      · rw [h.mac, h.xid] at hleer
        obtain ⟨tipo, k, htrae, hclase⟩ := leer_eq_ok.mp hleer
        cases clasificar_negada.mp hclase
        rw [htrae.servidorDe, hc.negadas o k trama t hestado rfl htrae] at hajena
        exact absurd rfl hajena

/-- In every run what is granted is a confirmation, for this client, of the offer that it asks for,
of an address that can be and for a minute at least, and a phase sends few frames and far apart. And
it talks to one server at every step exactly when at none another server refuses while it asks, and
none grants what it has not asked for yet. -/
theorem unServidor_iff_limpia (mac : Mac) (xid : UInt32) (ls : List Llamada) :
    AtSteps hace (inicio mac xid) (Prudente mac xid) ls ∧
      (AtSteps hace (inicio mac xid) (UnServidor mac xid) ls ↔
        AtSteps hace (inicio mac xid) (Limpia mac xid) ls) := by
  have hpaso : ∀ s l, Sano mac xid s → Sano mac xid (hace s l) := fun _ l hs ↦ hs.hace l
  constructor
  · exact atSteps_of_invariant (Sano.inicio mac xid) hpaso (fun _ l hs ↦ hs.prudente l) ls
  · apply atSteps_congr
    exact atSteps_of_invariant (Sano.inicio mac xid) hpaso (fun _ l hs ↦ hs.unServidor_iff l) ls

/-! A client that asks one server and is refused by another. -/

/-- The addresses of the client, the router and the two servers, and the one that is free. -/
def yo : Mac := ⟨[0x02, 0x1A, 0x2B, 0x3C, 0x4D, 0x5E], rfl⟩
@[inherit_doc yo] def router : Mac := ⟨[0x02, 0, 0, 0, 0, 0x01], rfl⟩
@[inherit_doc yo] def srv : Ip := ⟨[10, 0, 0, 1], rfl⟩
@[inherit_doc yo] def otro : Ip := ⟨[10, 0, 0, 66], rfl⟩
@[inherit_doc yo] def libre : Ip := ⟨[10, 0, 0, 57], rfl⟩

/-- The options of a message of a kind, from a server. -/
def anuncio (tipo : UInt8) (servidor : Ip) : List (UInt8 × Bytes) :=
  [(opcionTipo, [tipo]), (opcionServidor, servidor.1)]

private theorem escribible_anuncio (tipo : UInt8) (servidor : Ip) :
    ∀ o ∈ anuncio tipo servidor, Escribible o := by
  have htipo : opcionTipo ≠ opcionRelleno ∧ opcionTipo ≠ opcionFin := by decide
  have hservidor : opcionServidor ≠ opcionRelleno ∧ opcionServidor ≠ opcionFin := by decide
  intro o ho
  simp only [anuncio, List.mem_cons, List.not_mem_nil, or_false] at ho
  rcases ho with rfl | rfl
  · exact ⟨htipo.1, htipo.2, by simp⟩
  · exact ⟨hservidor.1, hservidor.2, by simp⟩

private theorem length_anuncio_le (tipo : UInt8) (servidor : Ip) :
    desdeOpciones + (opcionesDe (anuncio tipo servidor)).length ≤ Udp.maxDatos := by
  have hlen : (opcionesDe (anuncio tipo servidor)).length = 10 := by
    simp [opcionesDe, opcionDe, anuncio]
  rw [hlen]
  decide

/-- The offer of a server. -/
def oferta : Bytes :=
  tramaDe yo router srv
    (respuesta yo 0x12345678 libre (anuncio tipoOffer srv))

/-- The refusal of the other. -/
def negativa : Bytes :=
  tramaDe yo router otro
    (respuesta yo 0x12345678 nadie (anuncio tipoNak otro))

/-- A client that is offered an address by one server is stopped by the refusal of another. -/
theorem negada_por_otro :
    ¬AtSteps hace (inicio yo 0x12345678) (UnServidor yo 0x12345678)
      [.oir negativa 2, .oir oferta 1, .empezar] := by
  have hoferta : Trae oferta yo 0x12345678 tipoOffer ⟨libre, srv, nadie, nadie, nadie, 0⟩ :=
    trae_tramaDe (by decide) (by decide) (escribible_anuncio _ _) (length_anuncio_le _ _) rfl
  have hnegativa : Trae negativa yo 0x12345678 tipoNak ⟨nadie, otro, nadie, nadie, nadie, 0⟩ :=
    trae_tramaDe (by decide) (by decide) (escribible_anuncio _ _) (length_anuncio_le _ _) rfl
  have hclase : clasificar tipoOffer ⟨libre, srv, nadie, nadie, nadie, 0⟩ =
      .ok (.oferta ⟨libre, srv, nadie, nadie, nadie, 0⟩) := by decide
  have hleer : leer oferta yo 0x12345678 = .ok (.oferta ⟨libre, srv, nadie, nadie, nadie, 0⟩) :=
    leer_eq_ok.mpr ⟨_, _, hoferta, hclase⟩
  have hpide : (runOn hace (inicio yo 0x12345678) [.oir oferta 1, .empezar]).cliente.estado =
      .pidiendo ⟨libre, srv, nadie, nadie, nadie, 0⟩ := by
    have hbusca : (runOn hace (inicio yo 0x12345678) [.empezar]).cliente.estado =
        .descubriendo := rfl
    rw [runOn_cons, hace_oferta hbusca hleer 1]
  rintro ⟨-, h⟩
  have hsano := runOn_induction (Sano.inicio yo 0x12345678) (fun _ l hs ↦ hs.hace l)
    [.oir oferta 1, .empezar]
  have hlimpia := (hsano.unServidor_iff _).mp h
  have hsrv := hlimpia.negadas _ _ negativa 2 hpide rfl hnegativa
  exact absurd hsrv (by decide)

end Seguido

end BmoX.Pila.Dhcp
