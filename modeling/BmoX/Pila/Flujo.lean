import BmoX.Pila.Red

/-!
# What a call does to the stream of a connection

What the application's calls, the segments that come and those that leave do to one slot, with
the bytes that go in and out of it.
-/

namespace BmoX.Pila

open BmoX.Base

namespace Conexion

/-- The states before a close, where the FIN may still be asked for. -/
def abierta (c : Conexion) : Bool :=
  match c.estado with
  | .synEnviado | .synRecibido | .establecida | .cierreEspera => true
  | _ => false

/-- The connection `c` of a slot before a call of the application that puts bytes in its queue,
takes bytes out of its buffer and may close it, and after the call. -/
inductive Toca (c : Conexion) : Bytes → Bytes → Bool → Conexion → Prop
  | nada (b : Bool) (h : b = true → c.abierta = false) : Toca c [] [] b c
  | recoge (huerfana : Bool) (escucha : Option UInt8) : Toca c [] [] false { c with huerfana, escucha }
  | pone (datos : Bytes) (hf : c.finPedido = false)
      (ha : c.estado = .synEnviado ∨ c.estado = .establecida ∨ c.estado = .cierreEspera)
      (hl : datos.length ≤ bufer - c.tx.length) : Toca c datos [] false { c with tx := c.tx ++ datos }
  | saca (n : Nat) (b : Bool) :
      Toca c [] (c.rx.take n) false { c with rx := c.rx.drop n, ackDebido := b }
  | pideFin (ha : c.abierta = true) : Toca c [] [] true { c with finPedido := true }
  | acaba (b : Bool) (estado : Estado) (vence : Option UInt64)
      (he : estado = .libre ∨ ∃ por, estado = .cerrada por) :
      Toca c [] [] b { c with estado, vence }
  | escucha (hl : c.estado = .libre ∨ c.estado = .escucha) (c' : Conexion)
      (hv : c'.viva = false) : Toca c [] [] false c'
  | conecta (hl : c.estado = .libre) (miIp suIp : Ip) (miPuerto suPuerto : UInt16) (isn : UInt32)
      (ahora : UInt64) :
      Toca c [] [] false { Conexion.nueva with
        estado := .synEnviado, miIp, suIp, miPuerto, suPuerto, isn, sndUna := isn, sndNxt := isn
        desde := ahora }

private theorem toca_cerrarCon (c : Conexion) (b : Bool) (por : Cierre) :
    Toca c [] [] b (c.cerrarCon por) := by
  refine .acaba b _ none ?_
  split
  · exact .inl rfl
  · exact .inr ⟨por, rfl⟩

end Conexion

/-- A call that neither gives nor takes bytes, and asks for no end. -/
private def Tcp.Orden.muda : Tcp.Orden → Bool
  | .conectar .. | .escuchar .. | .aceptar _ | .abortar _ | .soltar _ => true
  | _ => false

private theorem Mueve.toca {c c' : Conexion} {o : Tcp.Orden} (h : Mueve c o c')
    (ho : o.muda = true) : c.Toca [] [] false c' := by
  cases h with
  | igual => exact .nada false Bool.noConfusion
  | conecta h puerto isn => exact .conecta h _ _ _ _ _ _
  | escucha h => exact .escucha (.inl h) _ rfl
  | acepta => exact .recoge _ _
  | aborta => exact Conexion.toca_cerrarCon _ _ _
  | suelta => exact .acaba _ _ _ (.inl rfl)
  | deja => exact .recoge _ _
  | envia | saca | pideFin | cierraSyn | calla | llega | reta | nace | habla => cases ho

namespace Tcp

variable (t : Tcp) (i : Fin conexiones)

private theorem enviar_toca (asa : Nat) (datos : Bytes) :
    (t.c i).Toca (t.aceptados i (.enviar asa datos)) [] false ((t.enviar asa datos).1.c i) := by
  have hnada : (t.c i).Toca [] [] false (t.c i) := .nada false Bool.noConfusion
  unfold aceptados
  dsimp only
  unfold enviar
  cases hc : t.con asa with
  | error r =>
    dsimp only
    rw [ite_self]
    exact hnada
  | ok j =>
    dsimp only
    by_cases hij : asa = i.val
    · have hji : j = i := Fin.ext ((con_spec hc).1.trans hij)
      rw [if_pos hij, hji]
      by_cases h : (t.c i).finPedido = true ∨ ¬((t.c i).estado = .synEnviado ∨
        (t.c i).estado = .establecida ∨ (t.c i).estado = .cierreEspera)
      · rw [if_pos h]
        exact hnada
      · rw [if_neg h]
        rw [not_or, not_not, Bool.not_eq_true] at h
        rw [pon_self]
        dsimp only
        refine .pone _ h.1 h.2 ?_
        rw [List.length_take]
        exact (Nat.min_le_left _ _).trans (Nat.min_le_right _ _)
    · have hne : i ≠ j := fun e ↦ hij ((con_spec hc).1.symm.trans (congrArg Fin.val e.symm))
      rw [if_neg hij]
      split
      · exact hnada
      · rw [pon_of_ne _ hne]
        exact hnada

private theorem recibir_toca (asa cuanto : Nat) :
    (t.c i).Toca [] (t.entregados i (.recibir asa cuanto)) false
      ((t.recibir asa cuanto).1.c i) := by
  have hnada : (t.c i).Toca [] [] false (t.c i) := .nada false Bool.noConfusion
  unfold entregados
  dsimp only
  unfold recibir
  cases hc : t.con asa with
  | error r =>
    dsimp only
    rw [ite_self]
    exact hnada
  | ok j =>
    dsimp only
    by_cases hij : asa = i.val
    · have hji : j = i := Fin.ext ((con_spec hc).1.trans hij)
      rw [if_pos hij, hji, pon_self]
      exact .saca _ _
    · have hne : i ≠ j := fun e ↦ hij ((con_spec hc).1.symm.trans (congrArg Fin.val e.symm))
      rw [if_neg hij, pon_of_ne _ hne]
      exact hnada

private theorem cerrar_toca (asa : Nat) :
    (t.c i).Toca [] [] (asa = i.val && (t.cerrar asa).2.isOk) ((t.cerrar asa).1.c i) := by
  have hnada : (t.c i).Toca [] [] false (t.c i) := .nada false Bool.noConfusion
  unfold cerrar
  cases hc : t.con asa with
  | error r =>
    dsimp only
    rw [show (Except.error r : Except Rechazo Unit).isOk = false from rfl, Bool.and_false]
    exact hnada
  | ok j =>
    dsimp only
    by_cases hij : asa = i.val
    · have hji : j = i := Fin.ext ((con_spec hc).1.trans hij)
      rw [hji, decide_eq_true hij, Bool.true_and]
      split
      · next h =>
        rw [pon_self]
        exact .acaba _ _ _ (.inl rfl)
      · rw [pon_self]
        exact Conexion.toca_cerrarCon _ _ _
      · next h =>
        rw [pon_self]
        exact .pideFin (by rw [Conexion.abierta, h])
      · next h =>
        rw [pon_self]
        exact .pideFin (by rw [Conexion.abierta, h])
      · next h =>
        rw [pon_self]
        exact .pideFin (by rw [Conexion.abierta, h])
      · next h1 h2 h3 h4 h5 =>
        refine .nada _ fun _ ↦ ?_
        unfold Conexion.abierta
        split
        · next h => exact absurd h h2
        · next h => exact absurd h h3
        · next h => exact absurd h h4
        · next h => exact absurd h h5
        · rfl
    · have hne : i ≠ j := fun e ↦ hij ((con_spec hc).1.symm.trans (congrArg Fin.val e.symm))
      rw [decide_eq_false hij, Bool.false_and]
      -- whatever the state of the other slot
      split
      all_goals first
        | exact hnada
        | rw [pon_of_ne _ hne]
          exact hnada

end Tcp

/-- A call of the application touches a slot in one of those ways. -/
theorem Tcp.hace_toca (hmac : Bytes → Bytes → Arr 32) (t : Tcp) (o : Tcp.Orden)
    (i : Fin conexiones)
    (ho : ∀ ipOrigen ipDestino b ahora, o ≠ .entrada ipOrigen ipDestino b ahora)
    (hs : ∀ ahora dst, o ≠ .salida ahora dst) :
    (t.c i).Toca (t.aceptados i o) (t.entregados i o) (t.cierra i o) ((t.hace hmac o).c i) := by
  cases o with
  | conectar | escuchar | aceptar | abortar | soltar => exact (t.hace_mueve hmac _ i).toca rfl
  | enviar asa datos => exact t.enviar_toca i asa datos
  | recibir asa cuanto => exact t.recibir_toca i asa cuanto
  | cerrar asa => exact t.cerrar_toca i asa
  | entrada ipOrigen ipDestino b ahora => exact absurd rfl (ho _ _ _ _)
  | salida ahora dst => exact absurd rfl (hs _ _)

/-! ### What leaves -/

namespace Tcp

/-- What leaves is a reset. -/
def DeRst (dst : Bytes) (p : Ip × Ip × Bytes) : Prop :=
  ∃ s n dst', s.banderas = Pila.rst ||| ack ∧
    Segmento.escribir dst p.1 p.2.1 s = .ok (n, dst') ∧ p.2.2 = dst'.take n

/-- What leaves is what the connection of a slot emits. -/
def DeRanura (t : Tcp) (k : Fin conexiones) (ahora : UInt64) (dst : Bytes)
    (p : Ip × Ip × Bytes) : Prop :=
  ∃ r, ((t.c k).emite ahora dst).2.2 = some r ∧
    p = ((t.c k).miIp, (t.c k).suIp, r.2.take r.1)

/-- What `salida` does to a slot: nothing, or it lets it emit; and what leaves is what the slot
emitted, what another did, or a reset. -/
theorem salida_ranura (hmac : Bytes → Bytes → Arr 32) (t : Tcp) (ahora : UInt64) (dst : Bytes)
    (i : Fin conexiones) :
    (((t.hace hmac (.salida ahora dst)).c i = t.c i ∨
        ((t.hace hmac (.salida ahora dst)).c i = ((t.c i).emite ahora dst).1 ∧
          ((t.c i).emite ahora dst).2.2 = none)) ∧
      ∀ p, t.emitido (.salida ahora dst) = some p →
        DeRst dst p ∨ ∃ k, k ≠ i ∧ t.DeRanura k ahora dst p) ∨
    ((t.hace hmac (.salida ahora dst)).c i = ((t.c i).emite ahora dst).1 ∧
      ∃ p, t.emitido (.salida ahora dst) = some p ∧ t.DeRanura i ahora dst p) := by
  show (((t.salida ahora dst).1.c i = t.c i ∨ ((t.salida ahora dst).1.c i = _ ∧ _)) ∧ _) ∨
    ((t.salida ahora dst).1.c i = _ ∧ _)
  unfold emitido
  dsimp only
  unfold salida
  cases hr : t.rst with
  | some r =>
    refine .inl ?_
    dsimp only
    cases he : Segmento.escribir dst r.miIp r.suIp
        ⟨r.miPuerto, r.suPuerto, r.sec, r.ack, Pila.rst ||| ack, 0, none, []⟩ with
    | error _ => exact ⟨.inl rfl, fun p hp ↦ by cases hp⟩
    | ok x =>
      refine ⟨.inl rfl, fun p hp ↦ .inl ?_⟩
      obtain rfl := Option.some.inj hp
      exact ⟨_, x.1, x.2, rfl, he, rfl⟩
  | none =>
    dsimp only
    have hn := turnos_nodup t.turno
    cases hx : (t.ronda ahora dst ((List.finRange conexiones).map (t.turno + ·))).2 with
    | none =>
      obtain ⟨h1, -⟩ := ronda_none hn hx
      obtain ⟨h2, h3⟩ := h1 i (mem_turnos t.turno i)
      exact .inl ⟨.inr ⟨h3, h2⟩, fun p hp ↦ by cases hp⟩
    | some x =>
      obtain ⟨k, -, h1, h2, h3, h4, h5⟩ := ronda_some hn hx
      have hk : t.DeRanura k ahora dst (x.1, x.2.1, x.2.2.2.take x.2.2.1) := by
        obtain ⟨hm, -⟩ := (t.c k).marco_emite ahora dst
        exact ⟨x.2.2, h1, by rw [h2, h3, hm.miIp, hm.suIp]⟩
      by_cases hik : i = k
      · subst hik
        exact .inr ⟨h4, _, rfl, hk⟩
      · refine .inl ⟨h5 i hik, fun p hp ↦ .inr ⟨k, Ne.symm hik, ?_⟩⟩
        obtain rfl := Option.some.inj hp
        exact hk

end Tcp

end BmoX.Pila
