import BmoX.Pila.Arp
import BmoX.Pila.Datagrama

/-!
# The node

`platform/shared/bmo-pila/src/nodo.rs`: an Ethernet and an IPv4 address that answer ARP and echoes
and hand over the rest. Its ARP cache only changes as the cache itself does.
-/

namespace BmoX.Pila

open BmoX.Base

/-! ### The code -/

/-- `Cuentas`; `nodo.rs:30–38`. -/
structure Cuentas where
  tramas : UInt64
  rechazadas : UInt64
  arpContestadas : UInt64
  ecosContestados : UInt64
  udp : UInt64
  tcp : UInt64

/-- What came of a frame; `nodo.rs:40–48`. -/
inductive Hecho
  | nada
  | contestar (largo : Nat)
  | eco (origen : Ip) (id secuencia : UInt16)
  | udp (origen : Ip) (datagrama : Udp.Datagrama)
  | tcp (origen destino : Ip) (segmento : Bytes)

/-- `Nodo`; `nodo.rs:50–57`. -/
structure Nodo where
  mac : Mac
  ip : Ip
  arp : Arp.Cache
  cuentas : Cuentas
  id : UInt16
  ecos : Nat × UInt32

namespace Nodo

/-- Where the payload of an IPv4 packet starts in a frame, `CARGA`; `nodo.rs:27`. -/
abbrev carga : Nat := Ether.cabecera + Ipv4.cabecera

/-- `ECOS_POR_SEGUNDO`; `nodo.rs:28`. -/
def ecosPorSegundo : UInt32 := 10

/-- `Nodo::nuevo`; `nodo.rs:60–69`. -/
def nuevo (mac : Mac) (ip : Ip) : Nodo := ⟨mac, ip, .nueva, ⟨0, 0, 0, 0, 0, 0⟩, 0, (0, 0)⟩

/-- What the functions of a node run in: the node and the buffer for the answer, both as they are
left when the function refuses. -/
abbrev Curso := ExceptT Rechazo (StateM (Nodo × Bytes))

/-- Change the node. -/
def cambiar (f : Nodo → Nodo) : Curso Unit := modify fun s ↦ (f s.1, s.2)

/-- Write in the buffer from a place on. -/
def escribirDesde (desde : Nat) (f : Bytes → Except Rechazo (Nat × Bytes)) : Curso Nat :=
  ExceptT.mk fun (yo, salida) ↦
    match f (salida.drop desde) with
    | .error e => (.error e, yo, salida)
    | .ok (n, b) => (.ok n, yo, salida.take desde ++ b)

/-- Pad what is in the buffer. -/
def rellenar (largo : Nat) : Curso Nat :=
  ExceptT.mk fun (yo, salida) ↦
    let r := Ether.conRelleno salida largo
    (.ok r.1, yo, r.2)

/-- The buffer has room. -/
def conSitio (n : Nat) : Curso Unit := do
  if (← get).2.length < n then throw .corto

/-- `envolver`; `nodo.rs:157–165`. -/
def envolver (macDestino : Mac) (ipDestino : Ip) (protocolo : UInt8) (largo : Nat) : Curso Nat := do
  conSitio (carga + largo)
  let yo := (← get).1
  let _ ← escribirDesde 0 (Ether.escribir · macDestino yo.mac Ether.tipoIpv4)
  cambiar fun n ↦ { n with id := n.id + 1 }
  let id := (← get).1.id
  let _ ← escribirDesde Ether.cabecera (Ipv4.escribir · yo.ip ipDestino protocolo largo id)
  rellenar (carga + largo)

/-- An ARP frame in the buffer; `nodo.rs:104–107` and `173–175`. -/
def mandarArp (destino : Mac) (a : Arp.Mensaje) : Curso Nat := do
  let yo := (← get).1
  let n ← escribirDesde 0 (Ether.escribir · destino yo.mac Ether.tipoArp)
  let m ← escribirDesde n (Arp.escribir · a)
  return n + m

/-- The answer to an ARP question; `nodo.rs:97–109`. -/
def contestarArp (a : Arp.Mensaje) : Curso Hecho := do
  let yo := (← get).1
  let largo ← mandarArp a.macOrigen ⟨.respuesta, yo.mac, yo.ip, a.macOrigen, a.ipOrigen⟩
  cambiar fun n ↦
    { n with cuentas := { n.cuentas with arpContestadas := n.cuentas.arpContestadas + 1 } }
  return .contestar (← rellenar largo)

/-- The ARP part of `atender_sin_contar`; `nodo.rs:86–110`. -/
def atenderArp (t : Ether.Trama) (ahora : Nat) : Curso Hecho := do
  let yo := (← get).1
  match Arp.leer t.carga with
  | .error e => throw e
  | .ok a =>
    if a.macOrigen ≠ t.origen then throw .direccion
    else if a.ipDestino ≠ yo.ip then throw .noEsParaMi
    else
      match a.op with
      | .respuesta =>
        let r := yo.arp.aprender a.ipOrigen a.macOrigen ahora
        cambiar fun n ↦ { n with arp := r.1 }
        match r.2 with
        | .error e => throw e
        | .ok () => return .nada
      | .pregunta => contestarArp a

/-- The answer to an echo; `nodo.rs:129–139`. -/
def contestarEco (t : Ether.Trama) (p : Ipv4.Paquete) (e : Icmp.Eco) : Curso Hecho := do
  if ecosPorSegundo ≤ (← get).1.ecos.2 then throw .lleno
  else
    conSitio carga
    let m ← escribirDesde carga (Icmp.escribir · ⟨Icmp.ecoRespuesta, e.id, e.secuencia, e.datos⟩)
    let largo ← envolver t.origen p.origen Ipv4.icmp m
    cambiar fun n ↦
      { n with
        ecos := (n.ecos.1, n.ecos.2 + 1)
        cuentas := { n.cuentas with ecosContestados := n.cuentas.ecosContestados + 1 } }
    return .contestar largo

/-- The ICMP part; `nodo.rs:121–139`. -/
def atenderIcmp (t : Ether.Trama) (p : Ipv4.Paquete) (ahora : Nat) : Curso Hecho := do
  match Icmp.leer p.carga with
  | .error e => throw e
  | .ok e =>
    if e.tipo = Icmp.ecoRespuesta then return .eco p.origen e.id e.secuencia
    else
      cambiar fun n ↦ if 1000 ≤ ahora - n.ecos.1 then { n with ecos := (ahora, 0) } else n
      contestarEco t p e

/-- The IPv4 part; `nodo.rs:112–151`. -/
def atenderIpv4 (t : Ether.Trama) (ahora : Nat) : Curso Hecho := do
  let yo := (← get).1
  match Ipv4.leer t.carga with
  | .error e => throw e
  | .ok p =>
    if p.destino ≠ yo.ip then throw .noEsParaMi
    else if t.destino ≠ yo.mac then throw .direccion
    else if p.protocolo = Ipv4.icmp then atenderIcmp t p ahora
    else if p.protocolo = Ipv4.udp then
      match Udp.leer p.carga p.origen p.destino with
      | .error e => throw e
      | .ok d =>
        cambiar fun n ↦ { n with cuentas := { n.cuentas with udp := n.cuentas.udp + 1 } }
        return .udp p.origen d
    else if p.protocolo = Ipv4.tcp then
      cambiar fun n ↦ { n with cuentas := { n.cuentas with tcp := n.cuentas.tcp + 1 } }
      return .tcp p.origen p.destino p.carga
    else throw .protocolo

/-- `atender_sin_contar`; `nodo.rs:81–154`. -/
def atenderSinContar (trama : Bytes) (ahora : Nat) : Curso Hecho := do
  let yo := (← get).1
  match Ether.leer trama with
  | .error e => throw e
  | .ok t =>
    if t.destino ≠ yo.mac ∧ t.destino ≠ Ether.difusion then throw .noEsParaMi
    else if t.tipo = Ether.tipoArp then atenderArp t ahora
    else if t.tipo = Ether.tipoIpv4 then atenderIpv4 t ahora
    else throw .tipo

/-- `atender`; `nodo.rs:73–80`. -/
def atender (n : Nodo) (trama : Bytes) (ahora : Nat) (salida : Bytes) :
    Except Rechazo Hecho × Nodo × Bytes :=
  let n := { n with cuentas := { n.cuentas with tramas := n.cuentas.tramas + 1 } }
  match (atenderSinContar trama ahora).run (n, salida) with
  | (.ok h, n, salida) => (.ok h, n, salida)
  | (.error e, n, salida) =>
    (.error e,
      { n with cuentas := { n.cuentas with rechazadas := n.cuentas.rechazadas + 1 } }, salida)

/-- `preguntar`: the frame of the question, if it is to be sent now; `nodo.rs:168–176`. -/
def preguntarSinSalir (ip : Ip) (ahora : Nat) : Curso (Option Nat) := do
  let yo := (← get).1
  let r := yo.arp.preguntar ip ahora
  cambiar fun n ↦ { n with arp := r.1 }
  match r.2 with
  | .error e => throw e
  | .ok false => return none
  | .ok true =>
    let largo ← mandarArp Ether.difusion ⟨.pregunta, yo.mac, yo.ip, Arr.pad 6 [], ip⟩
    return some (← rellenar largo)

@[inherit_doc preguntarSinSalir]
def preguntar (n : Nodo) (ip : Ip) (ahora : Nat) (salida : Bytes) :
    Except Rechazo (Option Nat) × Nodo × Bytes :=
  (preguntarSinSalir ip ahora).run (n, salida)

/-! ### What reaches the cache -/

/-- The ARP answer that a frame brings to a node: to its address, and from the one it speaks of. -/
def respuestaArp (n : Nodo) (trama : Bytes) : Option Arp.Mensaje :=
  match Ether.leer trama with
  | .error _ => none
  | .ok t =>
    if t.destino ≠ n.mac ∧ t.destino ≠ Ether.difusion ∨ t.tipo ≠ Ether.tipoArp then none
    else
      match Arp.leer t.carga with
      | .error _ => none
      | .ok a =>
        if a.macOrigen = t.origen ∧ a.ipDestino = n.ip ∧ a.op = .respuesta then some a else none

/-- What can be done with a node: its cache is public. -/
inductive Accion
  | llamada (l : Arp.Llamada)
  | atender (trama salida : Bytes)
  | preguntar (ip : Ip) (salida : Bytes)

/-- The node after something was done. -/
def hace (n : Nodo) (ahora : Nat) : Accion → Nodo
  | .llamada l => { n with arp := (n.arp.hace ahora l).1 }
  | .atender trama salida => (n.atender trama ahora salida).2.1
  | .preguntar ip salida => (n.preguntar ip ahora salida).2.1

/-- What it asks of the cache. -/
def llamadaDe (n : Nodo) : Accion → Option Arp.Llamada
  | .llamada l => some l
  | .atender trama _ => (n.respuestaArp trama).map fun a ↦ .aprender a.ipOrigen a.macOrigen
  | .preguntar ip _ => some (.preguntar ip)

/-- One function after another: the second starts where the first left everything. -/
theorem run_bind {α β : Type} (x : Curso α) (f : α → Curso β) (s : Nodo × Bytes) :
    (x >>= f).run s =
      match x.run s with
      | (.ok a, s') => (f a).run s'
      | (.error e, s') => (.error e, s') := by
  have hcont : (x >>= f).run s = (ExceptT.bindCont f (x.run s).1) (x.run s).2 := rfl
  rw [hcont]
  generalize x.run s = r
  obtain ⟨r, s'⟩ := r
  cases r <;> rfl

private theorem run_get_bind {α : Type} (f : Nodo × Bytes → Curso α) (s : Nodo × Bytes) :
    (get >>= f).run s = (f s).run s := rfl

/-- A function that leaves the cache as it was, whatever it answers. -/
structure Fija {α : Type} (x : Curso α) : Prop where
  arp : ∀ s, (x.run s).2.1.arp = s.1.arp

namespace Fija

variable {α β : Type} {x : Curso α} {f : α → Curso β}

theorem pure (a : α) : Fija (Pure.pure a) := ⟨fun _ ↦ rfl⟩

theorem throw (e : Rechazo) : Fija (throw e : Curso α) := ⟨fun _ ↦ rfl⟩

theorem bind (hx : Fija x) (hf : ∀ a, Fija (f a)) : Fija (x >>= f) := by
  constructor
  intro s
  have h := hx.arp s
  rw [run_bind]
  generalize x.run s = r at h
  obtain ⟨_ | a, s'⟩ := r
  · exact h
  · exact ((hf a).arp s').trans h

private theorem get_bind {f : Nodo × Bytes → Curso β} (hf : ∀ s, Fija (f s)) : Fija (get >>= f) :=
  bind ⟨fun _ ↦ rfl⟩ hf

private theorem cambiar_bind {g : Nodo → Nodo} {f : Unit → Curso β} (h : ∀ n, (g n).arp = n.arp)
    (hf : ∀ a, Fija (f a)) : Fija (cambiar g >>= f) :=
  bind ⟨fun s ↦ h s.1⟩ hf

private theorem conSitio (n : Nat) : Fija (conSitio n) := by
  refine get_bind fun s ↦ ?_
  split
  · exact throw _
  · exact pure _

private theorem escribirDesde (desde : Nat) (g : Bytes → Except Rechazo (Nat × Bytes)) :
    Fija (escribirDesde desde g) := by
  constructor
  rintro ⟨yo, salida⟩
  change (match g (salida.drop desde) with
    | .error e => ((.error e, yo, salida) : Except Rechazo Nat × Nodo × Bytes)
    | .ok (n, b) => (.ok n, yo, salida.take desde ++ b)).2.1.arp = yo.arp
  cases g (salida.drop desde) <;> rfl

theorem rellenar (largo : Nat) : Fija (rellenar largo) := ⟨fun _ ↦ rfl⟩

private theorem envolver (macDestino : Mac) (ipDestino : Ip) (protocolo : UInt8) (largo : Nat) :
    Fija (envolver macDestino ipDestino protocolo largo) := by
  apply bind (conSitio _)
  intro _
  apply get_bind
  intro s
  apply bind (escribirDesde ..)
  intro _
  refine cambiar_bind (fun _ ↦ rfl) fun _ ↦ ?_
  apply get_bind
  intro s'
  apply bind (escribirDesde ..)
  exact fun _ ↦ rellenar _

private theorem mandarArp (destino : Mac) (a : Arp.Mensaje) : Fija (mandarArp destino a) := by
  apply get_bind
  intro s
  apply bind (escribirDesde ..)
  intro n
  apply bind (escribirDesde ..)
  exact fun _ ↦ pure _

private theorem contestarArp (a : Arp.Mensaje) : Fija (contestarArp a) := by
  apply get_bind
  intro s
  apply bind (mandarArp ..)
  intro largo
  refine cambiar_bind (fun _ ↦ rfl) fun _ ↦ ?_
  apply bind (rellenar _)
  exact fun _ ↦ pure _

private theorem contestarEco (t : Ether.Trama) (p : Ipv4.Paquete) (e : Icmp.Eco) :
    Fija (contestarEco t p e) := by
  apply get_bind
  intro s
  split
  · exact throw _
  apply bind (conSitio _)
  intro _
  apply bind (escribirDesde ..)
  intro m
  apply bind (envolver ..)
  intro largo
  exact cambiar_bind (fun _ ↦ rfl) fun _ ↦ pure _

private theorem atenderIcmp (t : Ether.Trama) (p : Ipv4.Paquete) (ahora : Nat) :
    Fija (atenderIcmp t p ahora) := by
  rw [Nodo.atenderIcmp]
  cases Icmp.leer p.carga with
  | error e => exact throw e
  | ok e =>
    dsimp only
    split
    · exact pure _
    · refine cambiar_bind (fun n ↦ ?_) fun _ ↦ contestarEco t p e
      split <;> rfl

private theorem atenderIpv4 (t : Ether.Trama) (ahora : Nat) : Fija (atenderIpv4 t ahora) := by
  apply get_bind
  intro s
  cases Ipv4.leer t.carga with
  | error e => exact throw e
  | ok p =>
    dsimp only
    split
    · exact throw _
    split
    · exact throw _
    split
    · exact atenderIcmp t p ahora
    split
    · cases Udp.leer p.carga p.origen p.destino with
      | error e => exact throw e
      | ok d => exact cambiar_bind (fun _ ↦ rfl) fun _ ↦ pure _
    split
    · exact cambiar_bind (fun _ ↦ rfl) fun _ ↦ pure _
    · exact throw _

end Fija

/-- An ARP frame changes the cache as the answer it may bring does. -/
theorem arp_atenderArp (t : Ether.Trama) (ahora : Nat) (n : Nodo) (salida : Bytes) :
    ((atenderArp t ahora).run (n, salida)).2.1.arp =
      match Arp.leer t.carga with
      | .error _ => n.arp
      | .ok a =>
        if a.macOrigen = t.origen ∧ a.ipDestino = n.ip ∧ a.op = .respuesta then
          (n.arp.aprender a.ipOrigen a.macOrigen ahora).1
        else n.arp := by
  rw [atenderArp, run_get_bind]
  cases Arp.leer t.carga with
  | error e => rfl
  | ok a =>
    dsimp only
    by_cases hmac : a.macOrigen = t.origen
    swap
    · rw [if_pos hmac, if_neg fun h ↦ hmac h.1]
      rfl
    by_cases hip : a.ipDestino = n.ip
    swap
    · rw [if_neg (not_not.mpr hmac), if_pos hip, if_neg fun h ↦ hip h.2.1]
      rfl
    rw [if_neg (not_not.mpr hmac), if_neg (not_not.mpr hip)]
    cases hop : a.op with
    | respuesta =>
      rw [if_pos ⟨hmac, hip, rfl⟩]
      dsimp only
      rw [run_bind]
      cases (n.arp.aprender a.ipOrigen a.macOrigen ahora).2 <;> rfl
    | pregunta =>
      rw [if_neg fun h ↦ nomatch h.2.2]
      exact (Fija.contestarArp a).arp (n, salida)

/-- A frame changes the cache as the ARP answer it may bring does. -/
theorem arp_atenderSinContar (n : Nodo) (trama : Bytes) (ahora : Nat) (salida : Bytes) :
    ((atenderSinContar trama ahora).run (n, salida)).2.1.arp =
      match n.respuestaArp trama with
      | none => n.arp
      | some a => (n.arp.aprender a.ipOrigen a.macOrigen ahora).1 := by
  rw [atenderSinContar, run_get_bind, respuestaArp]
  cases Ether.leer trama with
  | error e => rfl
  | ok t =>
    dsimp only
    by_cases hmac : t.destino ≠ n.mac ∧ t.destino ≠ Ether.difusion
    · rw [if_pos hmac, if_pos (.inl hmac)]
      rfl
    rw [if_neg hmac]
    by_cases htipo : t.tipo = Ether.tipoArp
    · rw [if_pos htipo, if_neg (not_or.mpr ⟨hmac, not_not.mpr htipo⟩), arp_atenderArp]
      cases Arp.leer t.carga with
      | error e => rfl
      | ok a =>
        dsimp only
        split <;> rfl
    · have hno : t.destino ≠ n.mac ∧ t.destino ≠ Ether.difusion ∨ t.tipo ≠ Ether.tipoArp := .inr htipo
      rw [if_neg htipo, if_pos hno]
      split
      · exact (Fija.atenderIpv4 t ahora).arp (n, salida)
      · rfl

private theorem arp_atender (n : Nodo) (trama : Bytes) (ahora : Nat) (salida : Bytes) :
    (n.atender trama ahora salida).2.1.arp =
      match n.respuestaArp trama with
      | none => n.arp
      | some a => (n.arp.aprender a.ipOrigen a.macOrigen ahora).1 := by
  have h := arp_atenderSinContar
    { n with cuentas := { n.cuentas with tramas := n.cuentas.tramas + 1 } } trama ahora salida
  rw [atender]
  generalize (atenderSinContar trama ahora).run _ = r at h
  obtain ⟨_ | _, n', salida'⟩ := r <;> exact h

private theorem arp_preguntar (n : Nodo) (ip : Ip) (ahora : Nat) (salida : Bytes) :
    (n.preguntar ip ahora salida).2.1.arp = (n.arp.preguntar ip ahora).1 := by
  rw [preguntar, preguntarSinSalir, run_get_bind]
  dsimp only
  rw [run_bind]
  cases (n.arp.preguntar ip ahora).2 with
  | error e => rfl
  | ok toca =>
    cases toca with
    | false => rfl
    | true =>
      have hmandar : ∀ a, Fija (do return some (← rellenar (← mandarArp Ether.difusion a))) := fun a ↦
        (Fija.mandarArp ..).bind fun _ ↦ (Fija.rellenar _).bind fun _ ↦ Fija.pure _
      exact (hmandar _).arp _

private theorem arp_hace (n : Nodo) (ahora : Nat) (a : Accion) :
    (n.hace ahora a).arp =
      match n.llamadaDe a with
      | none => n.arp
      | some l => (n.arp.hace ahora l).1 := by
  cases a with
  | llamada l => rfl
  | preguntar ip salida => exact arp_preguntar n ip ahora salida
  | atender trama salida =>
    rw [hace, arp_atender, llamadaDe]
    cases n.respuestaArp trama <;> rfl

/-! ### Runs -/

/-- What is done with a node and when, the last first; time does not go back. -/
structure Carrera where
  acciones : List (Nat × Accion)
  orden : acciones.Pairwise fun a b ↦ b.1 ≤ a.1

/-- The node that some actions leave. -/
def tras (mac : Mac) (ip : Ip) : List (Nat × Accion) → Nodo
  | [] => .nuevo mac ip
  | (ahora, a) :: as => (tras mac ip as).hace ahora a

/-- What they ask of its cache. -/
def llamadas (mac : Mac) (ip : Ip) : List (Nat × Accion) → List (Nat × Arp.Llamada)
  | [] => []
  | (ahora, a) :: as =>
    match (tras mac ip as).llamadaDe a with
    | none => llamadas mac ip as
    | some l => (ahora, l) :: llamadas mac ip as

section Carrera

variable {mac : Mac} {ip : Ip} {as : List (Nat × Accion)}

private theorem arp_tras (mac : Mac) (ip : Ip) (as : List (Nat × Accion)) :
    (tras mac ip as).arp = (Arp.corre (llamadas mac ip as)).1 := by
  induction as with
  | nil => rfl
  | cons e as ih =>
    rw [tras, arp_hace, llamadas]
    cases (tras mac ip as).llamadaDe e.2 with
    | none => exact ih
    | some l =>
      dsimp only
      rw [Arp.corre, runOn_cons, Arp.paso, ih]
      rfl

private theorem tiempos_llamadas (mac : Mac) (ip : Ip) (as : List (Nat × Accion)) :
    ((llamadas mac ip as).map Prod.fst).Sublist (as.map Prod.fst) := by
  induction as with
  | nil => exact List.Sublist.slnil
  | cons e as ih =>
    rw [llamadas, List.map_cons]
    cases (tras mac ip as).llamadaDe e.2 with
    | none => exact ih.cons _
    | some l => exact ih.cons_cons _

private theorem orden_llamadas (h : as.Pairwise fun a b ↦ b.1 ≤ a.1) :
    (llamadas mac ip as).Pairwise fun a b ↦ b.1 ≤ a.1 := by
  rw [← List.pairwise_map (R := fun a b ↦ b ≤ a)] at h ⊢
  exact h.sublist (tiempos_llamadas mac ip as)

theorem llamadas_le {t : Nat} (h : ∀ e ∈ as, e.1 ≤ t) : ∀ e ∈ llamadas mac ip as, e.1 ≤ t := by
  intro e he
  have hmem := (tiempos_llamadas mac ip as).subset (List.mem_map_of_mem he)
  obtain ⟨e', he', heq⟩ := List.mem_map.mp hmem
  exact heq ▸ h e' he'

end Carrera

/-- The cache of a node, whatever is done with it and whatever frames come: no address has two rows,
at most `PREGUNTAS` questions are open, what is found was learned less than `VIDA_MS` before, and
what is stored anew answers an open question. A question is sent once in `REINTENTO_MS`, unless it is
asked again after its answer. -/
theorem cache_sin_envenenar (mac : Mac) (ip : Ip) (r : Carrera) :
    (tras mac ip r.acciones).arp = (Arp.corre (llamadas mac ip r.acciones)).1 ∧
    (tras mac ip r.acciones).arp.SinDobles ∧
    (∀ ahora, (∀ e ∈ r.acciones, e.1 ≤ ahora) → ∀ ips : List Ip, ips.Nodup →
      (∀ x ∈ ips, Arp.Abierta (Arp.corre (llamadas mac ip r.acciones)).2 ahora x) →
        ips.length ≤ Arp.preguntas) ∧
    Arp.EnCadaPaso Arp.Veraz (llamadas mac ip r.acciones) ∧
    (Arp.EnCadaPaso Arp.Espaciada (llamadas mac ip r.acciones) ↔
      Arp.EnCadaPaso (fun c h t l ↦ ¬Arp.Repetida c h t l) (llamadas mac ip r.acciones)) := by
  have hsana := Arp.sana_corre (llamadas mac ip r.acciones)
  have horden := @orden_llamadas mac ip _ r.orden
  refine ⟨arp_tras .., ?_, ?_, ?_, ?_⟩
  · rw [arp_tras]
    exact hsana.unicas
  · intro ahora ht ips hn hips
    exact hsana.abiertas_le (Arp.tiempos_le (llamadas_le ht)) hn hips
  · apply Arp.enCadaPaso_of _ horden
    intro c h t l hs _ _
    exact ⟨fun _ _ _ hb ↦ hs.busca hb, fun _ _ hnueva hvieja ↦ hs.guarda hnueva hvieja⟩
  · have hiff : Arp.EnCadaPaso (fun c h t l ↦ Arp.Espaciada c h t l ↔ ¬Arp.Repetida c h t l)
        (llamadas mac ip r.acciones) :=
      Arp.enCadaPaso_of (fun _ _ _ l hs ho ht ↦ hs.espaciada_iff ho ht l) horden
    exact atSteps_congr hiff

/-- Asked, answered and asked again at once. -/
def seguidas (ip : Ip) (mac : Mac) : Carrera where
  acciones := [(0, .llamada (.preguntar ip)), (0, .llamada (.aprender ip mac)),
    (0, .llamada (.preguntar ip))]
  orden := by simp

/-- The question is sent twice within a millisecond. -/
theorem seguidas_repite :
    ∃ mac ip, ¬Arp.EnCadaPaso Arp.Espaciada (llamadas mac ip (seguidas ip mac).acciones) := by
  let mac : Mac := ⟨[2, 0, 0, 0, 0, 1], rfl⟩
  let ip : Ip := ⟨[10, 0, 0, 1], rfl⟩
  refine ⟨mac, ip, fun h ↦ ?_⟩
  obtain ⟨-, hultimo⟩ := h
  have hsegunda := hultimo ip rfl rfl 0 (.tail _ (.head _))
  exact absurd hsegunda (by decide)

end Nodo

end BmoX.Pila
