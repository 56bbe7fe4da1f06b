import BmoX.Pila.Tcp
import Mathlib.Data.List.FinRange

/-!
# What a call does to a slot

Every call of the stack changes a slot in one of a few ways, listed in `Mueve`; what holds of
one connection is proved over them.
-/

namespace BmoX.Pila

open BmoX.Base

/-! ### Slots -/

namespace Tcp

@[simp] theorem pon_self (t : Tcp) (i : Fin conexiones) (c : Conexion) : (t.pon i c).c i = c :=
  Function.update_self ..

@[simp] theorem pon_of_ne (t : Tcp) {i j : Fin conexiones} (h : j ≠ i) (c : Conexion) :
    (t.pon i c).c j = t.c j :=
  Function.update_of_ne h ..

private theorem primera_spec {t : Tcp} {p : Conexion → Bool} {i : Fin conexiones}
    (h : t.primera p = some i) : p (t.c i) = true :=
  List.find?_some (p := fun i ↦ p (t.c i)) h

theorem primera_none {t : Tcp} {p : Conexion → Bool} (h : t.primera p = none)
    (i : Fin conexiones) : p (t.c i) = false := by
  have := List.find?_eq_none.mp h i (List.mem_finRange i)
  simpa using this

/-- A handle that was accepted. -/
theorem con_spec {t : Tcp} {asa : Nat} {i : Fin conexiones} (h : t.con asa = .ok i) :
    i.val = asa ∧ (t.c i).estado ≠ .libre := by
  unfold con at h
  split at h
  · split at h
    · cases h
    · next hl =>
      cases h
      exact ⟨rfl, hl⟩
  · cases h

private theorem libre_spec {t : Tcp} {i : Fin conexiones} (h : t.libre = .ok i) :
    (t.c i).estado = .libre := by
  unfold libre at h
  split at h
  · next hp =>
    cases h
    simpa using primera_spec hp
  · cases h

/-- A challenge changes at most the slot it is for, which owes an ACK. -/
theorem reto_c (t : Tcp) (i : Fin conexiones) (ahora : UInt64) (j : Fin conexiones) :
    (t.reto i ahora).c j = t.c j ∨
      (j = i ∧ (t.reto i ahora).c j = { t.c i with ackDebido := true }) := by
  unfold reto
  dsimp only
  split
  · by_cases hji : j = i
    · rw [hji]
      exact .inr ⟨rfl, pon_self ..⟩
    · exact .inl (pon_of_ne t hji _)
  · exact .inl rfl

theorem exacta_spec {t : Tcp} {o d : Ip} {s : Segmento} {i : Fin conexiones}
    (h : t.exacta o d s = some i) : (t.c i).viva = true ∧ (t.c i).miIp = d ∧ (t.c i).suIp = o ∧
      (t.c i).miPuerto = s.destino ∧ (t.c i).suPuerto = s.origen := by
  have := primera_spec h
  simpa [and_assoc] using this

theorem turnos_nodup : ∀ k : Fin conexiones, ((List.finRange conexiones).map (k + ·)).Nodup := by
  decide

theorem mem_turnos : ∀ k i : Fin conexiones, i ∈ (List.finRange conexiones).map (k + ·) := by
  decide

private theorem emitir_c (t : Tcp) (i : Fin conexiones) (ahora : UInt64) (dst : Bytes) :
    (t.emitir i ahora dst).1.c = Function.update t.c i ((t.c i).emite ahora dst).1 ∧
      (t.emitir i ahora dst).2 = ((t.c i).emite ahora dst).2.2 := by
  unfold emitir
  dsimp only
  split <;> exact ⟨rfl, rfl⟩

/-- A round leaves the slots outside it alone. -/
theorem ronda_of_not_mem (t : Tcp) (ahora : UInt64) (dst : Bytes) {is : List (Fin conexiones)}
    {j : Fin conexiones} (hj : j ∉ is) : (t.ronda ahora dst is).1.c j = t.c j := by
  induction is generalizing t with
  | nil => rfl
  | cons i is ih =>
    rw [List.mem_cons, not_or] at hj
    obtain ⟨hc, -⟩ := t.emitir_c i ahora dst
    unfold ronda
    split
    · next t' n dst' he =>
      rw [he] at hc
      rw [show t'.c = _ from hc, Function.update_of_ne hj.1]
    · next t' he =>
      rw [he] at hc
      rw [ih t' hj.2, show t'.c = _ from hc, Function.update_of_ne hj.1]

/-- In a round where nothing is emitted every slot of it had its chance. -/
theorem ronda_none {t : Tcp} {ahora : UInt64} {dst : Bytes} {is : List (Fin conexiones)}
    (hn : is.Nodup) (h : (t.ronda ahora dst is).2 = none) :
    (∀ j ∈ is, ((t.c j).emite ahora dst).2.2 = none ∧
      (t.ronda ahora dst is).1.c j = ((t.c j).emite ahora dst).1) ∧
    ∀ j ∉ is, (t.ronda ahora dst is).1.c j = t.c j := by
  induction is generalizing t with
  | nil => exact ⟨fun j hj ↦ absurd hj List.not_mem_nil, fun _ _ ↦ rfl⟩
  | cons i is ih =>
    obtain ⟨hi, hn⟩ := List.nodup_cons.mp hn
    obtain ⟨hc, hr⟩ := t.emitir_c i ahora dst
    unfold ronda at h ⊢
    split at h
    · cases h
    · next t' he =>
      rw [he] at hc hr
      dsimp only at hc hr h ⊢
      obtain ⟨h1, h2⟩ := ih hn h
      have hne : ∀ j, j ≠ i → t'.c j = t.c j := fun j hj ↦ by rw [hc, Function.update_of_ne hj]
      refine ⟨fun j hj ↦ ?_, fun j hj ↦ ?_⟩
      · rcases List.mem_cons.mp hj with rfl | hj
        · rw [h2 j hi, hc, Function.update_self]
          exact ⟨hr.symm, rfl⟩
        · have hji : j ≠ i := fun e ↦ hi (e ▸ hj)
          have := h1 j hj
          rwa [hne j hji] at this
      · rw [List.mem_cons, not_or] at hj
        rw [h2 j hj.2, hne j hj.1]

/-- In a round where something is emitted one slot emitted it; the ones before it had their
chance. -/
theorem ronda_some {t : Tcp} {ahora : UInt64} {dst : Bytes} {is : List (Fin conexiones)}
    {r : Ip × Ip × Nat × Bytes} (hn : is.Nodup) (h : (t.ronda ahora dst is).2 = some r) :
    ∃ i ∈ is, ((t.c i).emite ahora dst).2.2 = some r.2.2 ∧
      r.1 = ((t.c i).emite ahora dst).1.miIp ∧ r.2.1 = ((t.c i).emite ahora dst).1.suIp ∧
      (t.ronda ahora dst is).1.c i = ((t.c i).emite ahora dst).1 ∧
      ∀ j, j ≠ i → (t.ronda ahora dst is).1.c j = t.c j ∨
        ((t.ronda ahora dst is).1.c j = ((t.c j).emite ahora dst).1 ∧
          ((t.c j).emite ahora dst).2.2 = none) := by
  induction is generalizing t with
  | nil => cases h
  | cons i is ih =>
    obtain ⟨hi, hn⟩ := List.nodup_cons.mp hn
    obtain ⟨hc, hr⟩ := t.emitir_c i ahora dst
    unfold ronda at h ⊢
    split at h
    · next t' n dst' he =>
      rw [he] at hc hr
      dsimp only at hc hr h ⊢
      obtain rfl := Option.some.inj h
      have hci : t'.c i = ((t.c i).emite ahora dst).1 := by rw [hc, Function.update_self]
      refine ⟨i, List.mem_cons_self .., hr.symm, ?_, ?_, hci, fun j hj ↦ .inl ?_⟩
      · rw [hci]
      · rw [hci]
      · rw [hc, Function.update_of_ne hj]
    · next t' he =>
      rw [he] at hc hr
      dsimp only at hc hr h ⊢
      obtain ⟨k, hk, h1, h2, h3, h4, h5⟩ := ih hn h
      have hki : k ≠ i := fun e ↦ hi (e ▸ hk)
      have hne : ∀ j, j ≠ i → t'.c j = t.c j := fun j hj ↦ by rw [hc, Function.update_of_ne hj]
      rw [hne k hki] at h1 h2 h3 h4
      refine ⟨k, List.mem_cons_of_mem _ hk, h1, h2, h3, h4, fun j hj ↦ ?_⟩
      by_cases hji : j = i
      · rw [hji, ronda_of_not_mem t' ahora dst hi, hc, Function.update_self]
        exact .inr ⟨rfl, hr.symm⟩
      · have := h5 j hj
        rwa [hne j hji] at this

end Tcp

/-! ### The ways a slot changes -/

/-- The connection `c` of a slot before a call, and after it. -/
inductive Mueve (c : Conexion) : Tcp.Orden → Conexion → Prop
  /-- The call is not for this slot. -/
  | igual (o : Tcp.Orden) : Mueve c o c
  | conecta {miIp suIp : Ip} {suPuerto : UInt16} {ahora : UInt64} (h : c.estado = .libre)
      (puerto : UInt16) (isn : UInt32) :
      Mueve c (.conectar miIp suIp suPuerto ahora) { Conexion.nueva with
        estado := .synEnviado, miIp, suIp, miPuerto := puerto, suPuerto, isn
        sndUna := isn, sndNxt := isn, desde := ahora }
  | escucha {miIp : Ip} {puerto : UInt16} (h : c.estado = .libre) :
      Mueve c (.escuchar miIp puerto) { Conexion.nueva with
        estado := .escucha, miIp, miPuerto := puerto }
  | acepta {asa : Nat} (h : c.huerfana = true)
      (he : c.estado = .establecida ∨ c.estado = .cierreEspera) :
      Mueve c (.aceptar asa) { c with huerfana := false, escucha := none }
  | envia {asa : Nat} {datos : Bytes} (hf : c.finPedido = false)
      (he : c.estado = .synEnviado ∨ c.estado = .establecida ∨ c.estado = .cierreEspera) :
      Mueve c (.enviar asa datos) { c with
        tx := c.tx ++ datos.take (Nat.min datos.length (bufer - c.tx.length)) }
  | saca {asa cuanto : Nat} (b : Bool) :
      Mueve c (.recibir asa cuanto) { c with
        rx := c.rx.drop (Nat.min c.rx.length cuanto), ackDebido := b }
  | pideFin {asa : Nat}
      (he : c.estado = .synRecibido ∨ c.estado = .establecida ∨ c.estado = .cierreEspera) :
      Mueve c (.cerrar asa) { c with finPedido := true }
  | cierraSyn {asa : Nat} (he : c.estado = .synEnviado) :
      Mueve c (.cerrar asa) (c.cerrarCon .normal)
  | calla {asa : Nat} (he : c.estado = .escucha) : Mueve c (.cerrar asa) { c with estado := .libre }
  | aborta {asa : Nat} : Mueve c (.abortar asa) (c.cerrarCon .abortada)
  | suelta {asa : Nat} (he : c.viva = false) : Mueve c (.soltar asa) { c with estado := .libre }
  | deja {asa : Nat} (he : c.estado = .tiempoEspera) :
      Mueve c (.soltar asa) { c with huerfana := true }
  | llega {o d : Ip} {b : Bytes} {ahora : UInt64} {s : Segmento} (hl : Segmento.leer b o d = .ok s)
      (hv : c.viva = true) (ha : c.miIp = d ∧ c.suIp = o ∧ c.miPuerto = s.destino ∧
        c.suPuerto = s.origen) :
      Mueve c (.entrada o d b ahora) (c.entra s ahora).1
  | reta {o d : Ip} {b : Bytes} {ahora : UInt64} {s : Segmento} (hl : Segmento.leer b o d = .ok s)
      (hv : c.viva = true) (ha : c.miIp = d ∧ c.suIp = o ∧ c.miPuerto = s.destino ∧
        c.suPuerto = s.origen) (he : (c.entra s ahora).2.1 = .reto) :
      Mueve c (.entrada o d b ahora) { c with ackDebido := true }
  | nace {o d : Ip} {b : Bytes} {ahora : UInt64} {s : Segmento} (hl : Segmento.leer b o d = .ok s)
      (hs : s.banderas &&& rst = 0 ∧ s.banderas &&& (syn ||| ack) = syn) (h : c.estado = .libre)
      (isn : UInt32) (e : UInt8) :
      Mueve c (.entrada o d b ahora) { Conexion.nueva with
        estado := .synRecibido, miIp := d, suIp := o, miPuerto := s.destino, suPuerto := s.origen
        isn, sndUna := isn, sndNxt := isn, sndWnd := s.ventana.toUInt32, suMss := mssDe s
        rcvNxt := s.sec + 1, escucha := some e, huerfana := true, desde := ahora }
  | habla {ahora : UInt64} {dst : Bytes} : Mueve c (.salida ahora dst) (c.emite ahora dst).1

/-- A challenge leaves the connection as it was. -/
theorem Conexion.entra_reto {c : Conexion} {s : Segmento} {ahora : UInt64}
    (h : (c.entra s ahora).2.1 = .reto) : (c.entra s ahora).1 = c := by
  unfold Conexion.entra at h ⊢
  split at h
  · cases h
  · next h1 =>
    rw [if_neg h1]
    split at h
    · next h2 =>
      rw [if_pos h2]
      split at h
      · cases h
      · next h3 =>
        rw [if_neg h3]
        split at h
        · cases h
        · next h4 =>
          rw [if_neg h4]
          have hite : ∀ (p : Prop) [Decidable p], (if p then (c, Efecto.reto,
              (.ok () : Except Rechazo Unit)) else (c, .nada, .ok ())).1 = c := by
            intro p _
            split <;> rfl
          exact hite _
    · next h2 =>
      rw [if_neg h2]
      split at h
      · next h3 =>
        rw [if_pos h3]
        split at h
        · cases h
        · next h4 => rw [if_neg h4]
      · next h3 =>
        rw [if_neg h3]
        split at h
        · cases h
        · next h4 =>
          rw [if_neg h4]
          split at h
          · next h5 => rw [if_pos h5]
          · split at h <;> cases h

/-! ### What each call does to a slot -/

namespace Tcp

private theorem mueve_pon (t : Tcp) {i j : Fin conexiones} {o : Orden} {c : Conexion}
    (h : Mueve (t.c j) o c) : Mueve (t.c i) o ((t.pon j c).c i) := by
  by_cases hij : i = j
  · rw [hij, pon_self]
    exact h
  · rw [pon_of_ne t hij]
    exact .igual o

variable (hmac : Bytes → Bytes → Arr 32) (t : Tcp) (i : Fin conexiones)

private theorem conectar_mueve (miIp suIp : Ip) (suPuerto : UInt16) (ahora : UInt64) :
    Mueve (t.c i) (.conectar miIp suIp suPuerto ahora)
      ((t.conectar hmac miIp suIp suPuerto ahora).1.c i) := by
  unfold conectar
  split
  · exact .igual _
  · split
    · exact .igual _
    · split
      · exact .igual _
      · next j hj =>
        dsimp only
        split
        · exact .igual _
        · next puerto _ => exact t.mueve_pon (.conecta (libre_spec hj) puerto _)

private theorem escuchar_mueve (miIp : Ip) (puerto : UInt16) :
    Mueve (t.c i) (.escuchar miIp puerto) ((t.escuchar miIp puerto).1.c i) := by
  unfold escuchar
  split
  · exact .igual _
  · split
    · exact .igual _
    · split
      · exact .igual _
      · next j hj => exact t.mueve_pon (.escucha (libre_spec hj))

private theorem aceptar_mueve (asa : Nat) :
    Mueve (t.c i) (.aceptar asa) ((t.aceptar asa).1.c i) := by
  unfold aceptar
  split
  · exact .igual _
  · next j hj =>
    have h := primera_spec hj
    simp only [Bool.and_eq_true, Bool.or_eq_true, decide_eq_true_eq] at h
    exact t.mueve_pon (.acepta h.1.1 h.2)

private theorem enviar_mueve (asa : Nat) (datos : Bytes) :
    Mueve (t.c i) (.enviar asa datos) ((t.enviar asa datos).1.c i) := by
  unfold enviar
  split
  · exact .igual _
  · next j hj =>
    dsimp only
    split
    · exact .igual _
    · next h =>
      rw [not_or, not_not, Bool.not_eq_true] at h
      exact t.mueve_pon (.envia h.1 h.2)

private theorem recibir_mueve (asa cuanto : Nat) :
    Mueve (t.c i) (.recibir asa cuanto) ((t.recibir asa cuanto).1.c i) := by
  unfold recibir
  split
  · exact .igual _
  · next j hj => exact t.mueve_pon (.saca _)

private theorem cerrar_mueve (asa : Nat) :
    Mueve (t.c i) (.cerrar asa) ((t.cerrar asa).1.c i) := by
  unfold cerrar
  split
  · exact .igual _
  · next j hj =>
    dsimp only
    split
    · next h => exact t.mueve_pon (.calla h)
    · next h => exact t.mueve_pon (.cierraSyn h)
    · next h => exact t.mueve_pon (.pideFin (.inl h))
    · next h => exact t.mueve_pon (.pideFin (.inr (.inl h)))
    · next h => exact t.mueve_pon (.pideFin (.inr (.inr h)))
    · exact .igual _

private theorem abortar_mueve (asa : Nat) :
    Mueve (t.c i) (.abortar asa) ((t.abortar asa).1.c i) := by
  unfold abortar
  split
  · exact .igual _
  · next j hj =>
    dsimp only
    split
    · exact t.mueve_pon .aborta
    · exact t.mueve_pon .aborta

private theorem soltar_mueve (asa : Nat) :
    Mueve (t.c i) (.soltar asa) ((t.soltar asa).1.c i) := by
  unfold soltar
  split
  · exact .igual _
  · next j hj =>
    dsimp only
    split
    · next h => exact t.mueve_pon (.suelta (by rw [Conexion.viva, h]))
    · next h => exact t.mueve_pon (.suelta (by rw [Conexion.viva, h]))
    · next h => exact t.mueve_pon (.deja h)
    · exact .igual _

private theorem enConexion_mueve {o d : Ip} {b : Bytes} {ahora : UInt64} {s : Segmento}
    {j : Fin conexiones} (hs : Segmento.leer b o d = .ok s)
    (hj : t.exacta o d s = some j) :
    Mueve (t.c i) (.entrada o d b ahora) ((t.enConexion j s ahora).1.c i) := by
  obtain ⟨hv, ha⟩ := exacta_spec hj
  unfold enConexion
  split
  · next c r he =>
    refine t.mueve_pon ?_
    rw [← show ((t.c j).entra s ahora).1 = c from congrArg Prod.fst he]
    exact .llega hs hv ha
  · next c r he =>
    have hreto : ((t.c j).entra s ahora).2.1 = .reto := by rw [he]
    have hc : c = t.c j := by
      rw [← Conexion.entra_reto hreto, he]
    have hreta := @Mueve.reta _ o d b ahora _ hs hv ha hreto
    rcases reto_c (t.pon j c) j ahora i with hret | ⟨rfl, hret⟩
    · rw [hret]
      exact t.mueve_pon (hc ▸ .igual _)
    · rw [hret, pon_self, hc]
      exact hreta

private theorem entrada_mueve (ipOrigen ipDestino : Ip) (b : Bytes) (ahora : UInt64) :
    Mueve (t.c i) (.entrada ipOrigen ipDestino b ahora)
      ((t.entrada hmac ipOrigen ipDestino b ahora).1.c i) := by
  unfold entrada
  split
  · exact .igual _
  · next s hs =>
    split
    · next j hj => exact t.enConexion_mueve i hs hj
    · split
      · next e _ =>
        unfold enEscucha
        split
        · exact .igual _
        · next hr =>
          split
          · exact .igual _
          · next hsyn =>
            split
            · exact .igual _
            · next j hj =>
              exact t.mueve_pon (.nace hs ⟨not_not.mp hr, not_not.mp hsyn⟩ (libre_spec hj) _ _)
      · exact .igual _

private theorem salida_mueve (ahora : UInt64) (dst : Bytes) :
    Mueve (t.c i) (.salida ahora dst) ((t.salida ahora dst).1.c i) := by
  unfold salida
  split
  · dsimp only
    split
    · exact .igual _
    · exact .igual _
  · have hn := turnos_nodup t.turno
    cases hr : (t.ronda ahora dst ((List.finRange conexiones).map (t.turno + ·))).2 with
    | none =>
      obtain ⟨h1, h2⟩ := ronda_none hn hr
      by_cases hi : i ∈ (List.finRange conexiones).map (t.turno + ·)
      · rw [(h1 i hi).2]
        exact .habla
      · rw [h2 i hi]
        exact .igual _
    | some r =>
      obtain ⟨k, -, -, -, -, hk, h⟩ := ronda_some hn hr
      by_cases hik : i = k
      · rw [hik, hk]
        exact .habla
      · rcases h i hik with h | ⟨h, -⟩
        · rw [h]
          exact .igual _
        · rw [h]
          exact .habla

/-- Every call changes every slot in one of those ways. -/
theorem hace_mueve (hmac : Bytes → Bytes → Arr 32) (t : Tcp) (o : Tcp.Orden)
    (i : Fin conexiones) : Mueve (t.c i) o ((t.hace hmac o).c i) := by
  cases o with
  | conectar miIp suIp suPuerto ahora => exact t.conectar_mueve hmac i miIp suIp suPuerto ahora
  | escuchar miIp puerto => exact t.escuchar_mueve i miIp puerto
  | aceptar asa => exact t.aceptar_mueve i asa
  | enviar asa datos => exact t.enviar_mueve i asa datos
  | recibir asa cuanto => exact t.recibir_mueve i asa cuanto
  | cerrar asa => exact t.cerrar_mueve i asa
  | abortar asa => exact t.abortar_mueve i asa
  | soltar asa => exact t.soltar_mueve i asa
  | entrada ipOrigen ipDestino b ahora => exact t.entrada_mueve hmac i ipOrigen ipDestino b ahora
  | salida ahora dst => exact t.salida_mueve i ahora dst

end Tcp

/-! ### What emitting leaves alone -/

namespace Conexion

/-- The fields that a connection keeps while it emits. -/
structure Marco (c c' : Conexion) : Prop where
  miIp : c'.miIp = c.miIp
  suIp : c'.suIp = c.suIp
  miPuerto : c'.miPuerto = c.miPuerto
  suPuerto : c'.suPuerto = c.suPuerto
  isn : c'.isn = c.isn
  sndUna : c'.sndUna = c.sndUna
  sndWnd : c'.sndWnd = c.sndWnd
  suMss : c'.suMss = c.suMss
  tx : c'.tx = c.tx
  finPedido : c'.finPedido = c.finPedido
  finConfirmado : c'.finConfirmado = c.finConfirmado
  rcvNxt : c'.rcvNxt = c.rcvNxt
  rx : c'.rx = c.rx
  desde : c'.desde = c.desde
  escucha : c'.escucha = c.escucha
  huerfana : c'.huerfana = c.huerfana

theorem Marco.refl (c : Conexion) : Marco c c :=
  ⟨rfl, rfl, rfl, rfl, rfl, rfl, rfl, rfl, rfl, rfl, rfl, rfl, rfl, rfl, rfl, rfl⟩

theorem Marco.trans {a b c : Conexion} (h : Marco a b) (h' : Marco b c) : Marco a c :=
  ⟨h'.miIp.trans h.miIp, h'.suIp.trans h.suIp, h'.miPuerto.trans h.miPuerto,
    h'.suPuerto.trans h.suPuerto, h'.isn.trans h.isn, h'.sndUna.trans h.sndUna,
    h'.sndWnd.trans h.sndWnd, h'.suMss.trans h.suMss, h'.tx.trans h.tx,
    h'.finPedido.trans h.finPedido, h'.finConfirmado.trans h.finConfirmado,
    h'.rcvNxt.trans h.rcvNxt, h'.rx.trans h.rx, h'.desde.trans h.desde,
    h'.escucha.trans h.escucha, h'.huerfana.trans h.huerfana⟩

theorem Marco.symm {a b : Conexion} (h : Marco a b) : Marco b a :=
  ⟨h.miIp.symm, h.suIp.symm, h.miPuerto.symm, h.suPuerto.symm, h.isn.symm, h.sndUna.symm,
    h.sndWnd.symm, h.suMss.symm, h.tx.symm, h.finPedido.symm, h.finConfirmado.symm, h.rcvNxt.symm,
    h.rx.symm, h.desde.symm, h.escucha.symm, h.huerfana.symm⟩

private theorem marco_cerrarCon (c : Conexion) (por : Cierre) : Marco c (c.cerrarCon por) :=
  ⟨rfl, rfl, rfl, rfl, rfl, rfl, rfl, rfl, rfl, rfl, rfl, rfl, rfl, rfl, rfl, rfl⟩

@[simp] theorem viva_cerrarCon (c : Conexion) (por : Cierre) : (c.cerrarCon por).viva = false := by
  unfold viva cerrarCon
  cases c.huerfana <;> rfl

private theorem marco_armar (c : Conexion) (ahora : UInt64) : Marco c (c.armar ahora) := by
  unfold armar
  split
  · exact ⟨rfl, rfl, rfl, rfl, rfl, rfl, rfl, rfl, rfl, rfl, rfl, rfl, rfl, rfl, rfl, rfl⟩
  · exact .refl c

@[simp] theorem estado_armar (c : Conexion) (ahora : UInt64) :
    (c.armar ahora).estado = c.estado := by
  unfold armar
  split <;> rfl

@[simp] theorem sndNxt_armar (c : Conexion) (ahora : UInt64) :
    (c.armar ahora).sndNxt = c.sndNxt := by
  unfold armar
  split <;> rfl

private theorem marco_envia (c : Conexion) (ahora : UInt64) (sndNxt : UInt32) (sondear : Bool) :
    Marco c ({ c with sndNxt, sondear, ackDebido := false }.armar ahora) := by
  have h : Marco c { c with sndNxt, sondear, ackDebido := false } :=
    ⟨rfl, rfl, rfl, rfl, rfl, rfl, rfl, rfl, rfl, rfl, rfl, rfl, rfl, rfl, rfl, rfl⟩
  exact h.trans (marco_armar _ ahora)

private theorem marco_estado (c : Conexion) (estado : Estado) : Marco c { c with estado } :=
  ⟨rfl, rfl, rfl, rfl, rfl, rfl, rfl, rfl, rfl, rfl, rfl, rfl, rfl, rfl, rfl, rfl⟩

theorem marco_temporiza {c c' : Conexion} {ahora : UInt64} (h : c.temporiza ahora = some c') :
    Marco c c' ∧ c'.estado = c.estado := by
  unfold temporiza at h
  split at h
  · cases h
    exact ⟨.refl c, rfl⟩
  · split at h
    · cases h
      exact ⟨.refl c, rfl⟩
    · split at h
      · cases h
      · cases h
        exact ⟨⟨rfl, rfl, rfl, rfl, rfl, rfl, rfl, rfl, rfl, rfl, rfl, rfl, rfl, rfl, rfl, rfl⟩, rfl⟩

private theorem marco_saluda {c : Conexion} {ahora : UInt64} {dst : Bytes}
    {r : Conexion × Option (Nat × Bytes)} (h : c.saluda ahora dst = some r) :
    Marco c r.1 ∧ r.1.estado = c.estado := by
  unfold saluda at h
  split at h
  · split at h
    · cases h
      exact ⟨.refl c, rfl⟩
    · split at h
      · cases h
        exact ⟨.refl c, rfl⟩
      · cases h
        refine ⟨.trans ?_ (marco_armar _ _), estado_armar _ _⟩
        exact ⟨rfl, rfl, rfl, rfl, rfl, rfl, rfl, rfl, rfl, rfl, rfl, rfl, rfl, rfl, rfl, rfl⟩
  · split at h
    · split at h
      · cases h
        exact ⟨.refl c, rfl⟩
      · cases h
        exact ⟨marco_envia c ahora _ _, estado_armar _ _⟩
    · cases h

private theorem marco_mandaDatos (c : Conexion) (ahora : UInt64) (dst : Bytes) :
    Marco c (c.mandaDatos ahora dst).1 ∧ (c.mandaDatos ahora dst).1.estado = c.estado := by
  unfold mandaDatos
  split
  · dsimp only
    split
    · split
      · exact ⟨.refl c, rfl⟩
      · exact ⟨marco_envia c ahora _ _, estado_armar _ _⟩
    · split
      · exact ⟨marco_armar c ahora, estado_armar _ _⟩
      · exact ⟨.refl c, rfl⟩
  · exact ⟨.refl c, rfl⟩

private theorem marco_mandaControl (c : Conexion) (ahora : UInt64) (dst : Bytes) :
    Marco c (c.mandaControl ahora dst).1 ∧ ((c.mandaControl ahora dst).2 = none →
      (c.mandaControl ahora dst).1.estado = c.estado) := by
  unfold mandaControl
  split
  · split
    · exact ⟨.refl c, fun _ ↦ rfl⟩
    · dsimp only
      split
      · refine ⟨.trans (marco_envia c ahora _ _) (marco_estado _ _), fun h ↦ ?_⟩
        cases h
      · refine ⟨.trans (marco_envia c ahora _ _) (marco_estado _ _), fun h ↦ ?_⟩
        cases h
      · refine ⟨marco_envia c ahora _ _, fun h ↦ ?_⟩
        cases h
  · split
    · split
      · exact ⟨.refl c, fun _ ↦ rfl⟩
      · refine ⟨⟨rfl, rfl, rfl, rfl, rfl, rfl, rfl, rfl, rfl, rfl, rfl, rfl, rfl, rfl, rfl, rfl⟩,
          fun h ↦ ?_⟩
        cases h
    · exact ⟨.refl c, fun _ ↦ rfl⟩

/-- Speaking keeps the frame; without a segment the state stays. -/
theorem marco_habla (c : Conexion) (ahora : UInt64) (dst : Bytes) :
    Marco c (c.habla ahora dst).1 ∧ ((c.habla ahora dst).2 = none →
      (c.habla ahora dst).1.estado = c.estado) := by
  unfold habla
  split
  · next r h => exact ⟨(marco_saluda h).1, fun _ ↦ (marco_saluda h).2⟩
  · obtain ⟨hm, he⟩ := marco_mandaDatos c ahora dst
    split
    · next c' r h =>
      rw [h] at hm he
      exact ⟨hm, fun _ ↦ he⟩
    · next c' h =>
      rw [h] at hm he
      obtain ⟨hm', he'⟩ := marco_mandaControl c' ahora dst
      exact ⟨hm.trans hm', fun hn ↦ (he' hn).trans he⟩

private theorem estado_mandaControl (c : Conexion) (ahora : UInt64) (dst : Bytes) :
    (c.mandaControl ahora dst).1.estado = c.estado ∨
    (c.estado = .establecida ∧ (c.mandaControl ahora dst).1.estado = .finEspera1) ∨
    (c.estado = .cierreEspera ∧ (c.mandaControl ahora dst).1.estado = .ultimoAck) := by
  unfold mandaControl
  split
  · split
    · exact .inl rfl
    · dsimp only
      split
      · next h =>
        rw [estado_armar] at h
        exact .inr (.inl ⟨h, rfl⟩)
      · next h =>
        rw [estado_armar] at h
        exact .inr (.inr ⟨h, rfl⟩)
      · exact .inl (estado_armar _ _)
  · split
    · split <;> exact .inl rfl
    · exact .inl rfl

/-- The state after speaking. -/
theorem estado_habla (c : Conexion) (ahora : UInt64) (dst : Bytes) :
    (c.habla ahora dst).1.estado = c.estado ∨
    (c.estado = .establecida ∧ (c.habla ahora dst).1.estado = .finEspera1) ∨
    (c.estado = .cierreEspera ∧ (c.habla ahora dst).1.estado = .ultimoAck) := by
  unfold habla
  split
  · next r h => exact .inl (marco_saluda h).2
  · obtain ⟨-, he⟩ := marco_mandaDatos c ahora dst
    split
    · next c' r h =>
      rw [h] at he
      exact .inl he
    · next c' h =>
      rw [h] at he
      rw [← show c'.estado = c.estado from he]
      exact estado_mandaControl c' ahora dst

/-- What `emite` does: nothing, end the connection, or speak after the timer. -/
theorem emite_cases (c : Conexion) (ahora : UInt64) (dst : Bytes) :
    (c.viva = false ∧ c.emite ahora dst = (c, none, none)) ∨
    (c.viva = true ∧ ∃ c' r, c.caduca ahora = some (c', r) ∧ c.emite ahora dst = (c', r, none)) ∨
    (c.viva = true ∧ c.caduca ahora = none ∧ c.temporiza ahora = none ∧
      c.emite ahora dst = (c.cerrarCon .agotada, none, none)) ∨
    (c.viva = true ∧ c.caduca ahora = none ∧ ∃ c', c.temporiza ahora = some c' ∧
      c.emite ahora dst = ((c'.habla ahora dst).1, none, (c'.habla ahora dst).2)) := by
  unfold emite
  split
  · next h => exact .inl ⟨by simpa using h, rfl⟩
  · next h =>
    have hv : c.viva = true := by simpa using h
    split
    · next c' r hc => exact .inr (.inl ⟨hv, c', r, hc, rfl⟩)
    · next hc =>
      split
      · next ht => exact .inr (.inr (.inl ⟨hv, hc, ht, rfl⟩))
      · next c' ht => exact .inr (.inr (.inr ⟨hv, hc, c', ht, rfl⟩))

/-- What the clock ends is closed. -/
theorem caduca_spec {c c' : Conexion} {ahora : UInt64} {r : Option Rst}
    (h : c.caduca ahora = some (c', r)) : Marco c c' ∧ c'.viva = false := by
  unfold caduca at h
  split at h
  · cases h
    exact ⟨marco_cerrarCon .., viva_cerrarCon ..⟩
  · split at h
    · cases h
      exact ⟨marco_cerrarCon .., viva_cerrarCon ..⟩
    · cases h

/-- Emitting keeps the frame; without a segment a connection that stays alive keeps its
state. -/
theorem marco_emite (c : Conexion) (ahora : UInt64) (dst : Bytes) :
    Marco c (c.emite ahora dst).1 ∧ ((c.emite ahora dst).2.2 = none →
      (c.emite ahora dst).1.viva = true → (c.emite ahora dst).1.estado = c.estado) := by
  rcases c.emite_cases ahora dst with ⟨-, h⟩ | ⟨-, c', r, hc, h⟩ | ⟨-, -, -, h⟩ |
    ⟨-, -, c', ht, h⟩
  · rw [h]
    exact ⟨.refl c, fun _ _ ↦ rfl⟩
  · rw [h]
    obtain ⟨hm, hv⟩ := caduca_spec hc
    exact ⟨hm, fun _ h ↦ absurd (hv.symm.trans h) Bool.false_ne_true⟩
  · rw [h]
    exact ⟨marco_cerrarCon .., fun _ h ↦ absurd ((viva_cerrarCon ..).symm.trans h)
      Bool.false_ne_true⟩
  · rw [h]
    obtain ⟨hm, he⟩ := marco_temporiza ht
    obtain ⟨hm', he'⟩ := marco_habla c' ahora dst
    exact ⟨hm.trans hm', fun hn _ ↦ (he' hn).trans he⟩

/-- The state of a connection that emits and stays alive. -/
theorem estado_emite (c : Conexion) (ahora : UInt64) (dst : Bytes)
    (hv : (c.emite ahora dst).1.viva = true) :
    (c.emite ahora dst).1.estado = c.estado ∨
    (c.estado = .establecida ∧ (c.emite ahora dst).1.estado = .finEspera1) ∨
    (c.estado = .cierreEspera ∧ (c.emite ahora dst).1.estado = .ultimoAck) := by
  rcases c.emite_cases ahora dst with ⟨-, h⟩ | ⟨-, c', r, hc, h⟩ | ⟨-, -, -, h⟩ |
    ⟨-, -, c', ht, h⟩
  · rw [h]
    exact .inl rfl
  · rw [h] at hv
    exact absurd ((caduca_spec hc).2.symm.trans hv) Bool.false_ne_true
  · rw [h] at hv
    exact absurd ((viva_cerrarCon ..).symm.trans hv) Bool.false_ne_true
  · rw [h, ← (marco_temporiza ht).2]
    exact estado_habla c' ahora dst

end Conexion

end BmoX.Pila
