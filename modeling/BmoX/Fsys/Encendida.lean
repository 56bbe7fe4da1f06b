import BmoX.Fsys.Fases

/-!
# The machine since it was switched on

Runs of the operations of the store, one after another, over a disk that holds anything and may
fail any call. Only a mount and a confirmed commit set the static variables, so the superblock
they hold is always one that a mount would accept.

Every operation that publishes ends alike: with its tree prepared below its log head it writes an
estrato over it, whose parent is the mounted one, and confirms. What was below the old log head
is not touched, so the history grows by one.
-/

namespace BmoX.Fsys

open BmoX.Base BmoX.Blake3 BmoX.Estratos

/-! ### A mounted volume and its next version -/

/-- The copies of the superblock are not data. -/
theorem conserva_aMedias {m : Mundo} {copia c : UInt64} {nuevo : Superblock} :
    Conserva m.vista (m.aMedias copia nuevo).vista (Debajo c) (Debajo c) := by
  rintro lba ⟨hdos, hlt⟩
  refine ⟨⟨hdos, hlt⟩, ?_⟩
  have hne : lba ≠ nextSuperBlock copia := by
    rintro rfl
    rw [nextSuperBlock] at hdos
    split at hdos <;> exact absurd hdos (by decide)
  exact (congrFun (Cache.view_write ..) lba).trans (Function.update_of_ne hne ..)

/-! ### What does not set the static variables -/

/-- The calls that leave the static variables alone. -/
def Orden.Muda : Orden → Prop
  | .fija _ => False
  | _ => True

/-- A program that leaves them alone. -/
abbrev Mudo {α : Type} (p : Prog nucleo α) : Prop := p.Calls Orden.Muda

section Mudos

theorem mudo_okOr {α : Type} {e : WriteError} {o : Option α} : Mudo (Escritura.okOr e o).run := by
  cases o <;> trivial

private theorem mudo_deExcept {α ε : Type} {f : ε → WriteError} {x : Except ε α} :
    Mudo (Escritura.deExcept f x).run := by
  cases x <;> trivial

private theorem mudo_liftExcept {α ε : Type} (x : Except ε α) :
    Mudo (liftM x : ExceptT ε (Prog nucleo) α).run := by
  cases x <;> trivial

private theorem mudo_readBlock (lba : UInt64) : Mudo (readBlock lba) := Prog.calls_op.mpr trivial

theorem mudo_superbloque : Mudo superbloque :=
  Prog.Calls.bind (Prog.calls_op.mpr trivial) fun _ ↦ trivial

theorem mudo_seguir (p : BlockPtr) : Mudo (seguir p) := by
  refine (mudo_readBlock p.lba).bind fun b ↦ ?_
  cases b with
  | none => trivial
  | some buf =>
    dsimp only
    split <;> trivial

private theorem mudo_nodo (p : BlockPtr) : Mudo (nodo p) := by
  refine (mudo_seguir p).bind fun d ↦ ?_
  cases d <;> trivial

/-- Walking a tree only reads. -/
theorem mudo_bajar {τ : Type} (salida : Salida τ) (niveles scratch : Nat) (p : BlockPtr)
    (e : τ × Bool) : Mudo (bajar readBlock salida niveles scratch p e).run := by
  have hlee : ∀ scratch p, Mudo (leerPuntero readBlock scratch p).run := by
    intro scratch p
    rw [leerPuntero]
    split
    · trivial
    refine Prog.Calls.liftBind (mudo_readBlock _) fun b ↦ ?_
    cases b with
    | none => trivial
    | some mio =>
      dsimp only
      split
      · trivial
      · split <;> trivial
  induction niveles generalizing scratch p e with
  | zero =>
    rw [bajar]
    split
    · exact (hlee scratch p).tryBind fun _ ↦ trivial
    · trivial
  | succ niveles ih =>
    rw [bajar]
    split
    · refine (hlee scratch p).tryBind fun datos ↦ ?_
      dsimp only
      generalize records ptrLen datos = rs
      clear * - ih
      induction rs generalizing e with
      | nil => trivial
      | cons r rs ihrs =>
        refine (mudo_liftExcept _).tryBind fun hijo ↦ ?_
        split
        · trivial
        · refine (ih _ hijo e).tryBind fun e ↦ ?_
          split
          · exact ihrs e
          · trivial
    · trivial

private theorem mudo_flujo (a : Attr) (hueco : Nat) : Mudo (flujo a hueco) := by
  rw [flujo]
  split
  · split <;> trivial
  split
  · trivial
  refine Prog.Calls.bind ?_ fun r ↦ by cases r <;> trivial
  exact (mudo_bajar _ _ _ _ _).tryBind fun _ ↦ trivial

private theorem mudo_estrato : Mudo estrato := by
  refine mudo_superbloque.bind fun sb ↦ ?_
  cases sb with
  | none => trivial
  | some sb =>
    dsimp only
    split
    · trivial
    · refine (mudo_seguir _).bind fun d ↦ ?_
      cases d <;> trivial

private theorem mudo_raiz : Mudo raiz := by
  refine mudo_estrato.bind fun e ↦ ?_
  cases e with
  | none => trivial
  | some e =>
    refine (mudo_nodo _).bind fun n ↦ ?_
    cases n <;> trivial

private theorem mudo_buscarEn (dir : Nodo) (name : String) : Mudo (buscarEn dir name) := by
  refine Prog.Calls.bind ?_ fun r ↦ by cases r <;> trivial
  rw [entries]
  split
  · trivial
  · refine (mudo_flujo _ _).bind fun b ↦ ?_
    cases b <;> trivial

private theorem mudo_resolver (ruta : String) : Mudo (resolver ruta).run := by
  have hbaja : ∀ (ts : List String) (ultimo : Nodo × Bytes) (arriba : Camino),
      Mudo (bajarRuta ts ultimo arriba).run := by
    intro ts
    induction ts with
    | nil => exact fun _ _ ↦ trivial
    | cons t ts ih =>
      rintro ⟨padre, nombre⟩ arriba
      rw [bajarRuta]
      split
      · trivial
      refine Prog.Calls.liftBind (mudo_buscarEn _ _) fun p ↦ mudo_okOr.tryBind fun p ↦ ?_
      refine Prog.Calls.liftBind (mudo_nodo _) fun n ↦ mudo_okOr.tryBind fun n ↦ ?_
      split
      · trivial
      · exact ih _ _
  exact Prog.Calls.liftBind mudo_raiz fun r ↦ mudo_okOr.tryBind fun r ↦ hbaja _ _ _

private theorem mudo_poner (lba : UInt64) (datos : Bytes) : Mudo (poner lba datos).run := by
  rw [poner]
  split
  · trivial
  refine Prog.Calls.liftBind (Prog.calls_op.mpr trivial) fun r ↦ ?_
  split <;> trivial

private theorem mudo_ponerOk (lba : UInt64) (datos : Bytes) : Mudo (ponerOk lba datos) :=
  (mudo_poner lba datos).bind fun r ↦ by cases r <;> trivial

private theorem mudo_coste (origen : Origen) : Mudo (coste origen).run := by
  have hplan : ∀ size : UInt32, Mudo (if size = 0 then throw .noCabe else do
      let plan ← Escritura.okOr .noCabe (planDe size.toUInt64)
      return (plan, size) : Escritura (Plan × UInt32)).run := by
    intro size
    split
    · trivial
    · exact mudo_okOr.tryBind fun _ ↦ trivial
  cases origen with
  | fat32 ruta =>
    exact Prog.Calls.liftBind (Prog.calls_op.mpr trivial) fun _ ↦ mudo_okOr.tryBind hplan
  | ram datos h => exact hplan _

private theorem mudo_colgar (quedan : Nat) (a : Arbol) (p : BlockPtr) :
    Mudo (Arbol.colgar ponerOk quedan a p).run ∧ ∀ nivel, Mudo (a.cerrarNivel ponerOk nivel).run := by
  have hcierra : ∀ (a : Arbol) nivel, Mudo (a.cerrarNivel ponerOk nivel).run := by
    intro a nivel
    refine Prog.Calls.liftBind (mudo_ponerOk _ _) fun r ↦ ?_
    split <;> trivial
  refine ⟨?_, hcierra a⟩
  induction quedan generalizing a p with
  | zero => trivial
  | succ quedan ih =>
    rw [Arbol.colgar]
    dsimp only
    split
    · trivial
    · exact (hcierra _ _).tryBind fun x ↦ ih _ _

private theorem mudo_empujar (a : Arbol) (datos : Bytes) : Mudo (a.empujar ponerOk datos).run := by
  rw [Arbol.empujar]
  split
  · trivial
  split
  · trivial
  refine Prog.Calls.liftBind (mudo_ponerOk _ _) fun r ↦ ?_
  split
  · exact (mudo_colgar _ _ _).1
  · trivial

private theorem mudo_cerrar (a : Arbol) : Mudo (a.cerrar ponerOk).run := by
  have hdesde : ∀ quedan (a : Arbol), Mudo (Arbol.cerrarDesde ponerOk quedan a).run := by
    intro quedan
    induction quedan with
    | zero => exact fun _ ↦ trivial
    | succ quedan ih =>
      intro a
      rw [Arbol.cerrarDesde]
      dsimp only
      split
      · exact ((mudo_colgar 0 a .nulo).2 _).tryBind fun x ↦
          (mudo_colgar _ _ _).1.tryBind fun _ ↦ ih _
      · exact ih _
  rw [Arbol.cerrar]
  split
  · trivial
  · refine (hdesde _ _).tryBind fun a ↦ ?_
    split <;> trivial

private theorem mudo_traer (origen : Origen) (plan : Plan) (size : UInt32) (base : UInt64) :
    Mudo (traer origen plan size base).run := by
  have hcacho : ∀ leidos, Mudo (cacho origen leidos size).run := by
    intro leidos
    cases origen with
    | fat32 ruta =>
      refine Prog.Calls.liftBind (Prog.calls_op.mpr trivial) fun b ↦ ?_
      dsimp only
      split <;> trivial
    | ram datos h => trivial
  have hdesde : ∀ vueltas leidos arbol,
      Mudo (traerDesde origen size vueltas leidos arbol).run := by
    intro vueltas
    induction vueltas with
    | zero => exact fun _ _ ↦ trivial
    | succ vueltas ih =>
      intro leidos arbol
      rw [traerDesde]
      split
      · exact (hcacho _).tryBind fun trozo ↦ (mudo_empujar _ _).adapt.tryBind fun a ↦ ih _ _
      · trivial
  have hraiz : ∀ arbol : Arbol, Mudo (do
      let raiz ← (arbol.cerrar ponerOk).adapt fun _ ↦ .noEscribio
      Escritura.deExcept (fun _ ↦ .noCabe)
        (nodoDeFicheroGrande size.toUInt64 (UInt8.ofNat plan.niveles) raiz) :
          Escritura Bytes).run :=
    fun arbol ↦ (mudo_cerrar _).adapt.tryBind fun raiz ↦ mudo_deExcept
  cases origen with
  | fat32 ruta =>
    refine Prog.Calls.liftBind (Prog.calls_op.mpr trivial) fun b ↦ ?_
    split
    · trivial
    · exact mudo_deExcept.tryBind fun a ↦ (hdesde _ _ _).tryBind hraiz
  | ram datos h => exact mudo_deExcept.tryBind fun a ↦ (hdesde _ _ _).tryBind hraiz

private theorem mudo_ponerFinal (objeto : Option Bytes) (cursor : UInt64) : Mudo (match objeto with
    | none => pure (none, cursor)
    | some datos => do
      poner cursor datos
      return (some (.nuevo cursor 0 datos), cursor + 1) :
        Escritura (Option BlockPtr × UInt64)).run := by
  cases objeto with
  | none => trivial
  | some datos => exact (mudo_poner _ _).tryBind fun _ ↦ trivial

private theorem mudo_ponerObjeto (gesto : Gesto) (objeto : Option Bytes)
    (contenido : Option (Plan × UInt32)) (base : UInt64) :
    Mudo (ponerObjeto gesto objeto contenido base).run := by
  unfold ponerObjeto
  cases gesto.origen? with
  | none => exact mudo_ponerFinal _ _
  | some origen =>
    cases contenido with
    | none => exact mudo_ponerFinal _ _
    | some x =>
      exact (mudo_traer _ _ _ _).tryBind fun nodo ↦
        mudo_ponerFinal (some nodo) (base + UInt64.ofNat x.1.total)

private theorem mudo_publicarNiveles (gesto : Gesto) (pObjeto : Option BlockPtr) (camino : Camino)
    (hijo : Option (Bytes × BlockPtr)) (cursor : UInt64) :
    Mudo (publicarNiveles gesto pObjeto camino hijo cursor).run := by
  induction camino generalizing hijo cursor with
  | nil => exact mudo_okOr.tryBind fun _ ↦ trivial
  | cons este arriba ih =>
    have hlee : ∀ a, Mudo (leerEntradas a).run := by
      intro a
      rw [leerEntradas]
      split
      · trivial
      · exact Prog.Calls.liftBind (mudo_flujo _ _) fun _ ↦ mudo_okOr
    rw [publicarNiveles]
    dsimp only
    split
    all_goals
      refine Prog.Calls.tryBind (by first | trivial | exact hlee _) fun previas ↦
        mudo_deExcept.tryBind fun entradas ↦ (mudo_poner _ _).tryBind fun _ ↦ ?_
      split
      · exact Prog.Calls.tryBind trivial fun _ ↦ (mudo_poner _ _).tryBind fun _ ↦ ih _ _
      · exact mudo_deExcept.tryBind fun _ ↦ (mudo_poner _ _).tryBind fun _ ↦ ih _ _

theorem mudo_buscarVersion (n : Nat) (donde : BlockPtr) : Mudo (buscarVersion n donde).run := by
  induction n generalizing donde with
  | zero =>
    rw [buscarVersion]
    split
    · trivial
    · exact Prog.Calls.liftBind (mudo_seguir _) fun d ↦ mudo_okOr.tryBind fun d ↦
        mudo_deExcept.tryBind fun e ↦ trivial
  | succ n ih =>
    rw [buscarVersion]
    split
    · trivial
    · exact Prog.Calls.liftBind (mudo_seguir _) fun d ↦ mudo_okOr.tryBind fun d ↦
        mudo_deExcept.tryBind fun e ↦ ih _

end Mudos

/-! ### The superblock in memory -/

/-- The superblock in memory, if there is one, is one that `decode` accepts. -/
def SuperValido (m : Mundo) : Prop := ∀ sb, m.memoria.super = some sb → sb.Valido

section Super

variable {m : Mundo} {α β : Type}

/-- A call that leaves the static variables alone. -/
theorem paso_muda {o : Orden} {r : nucleo.Res o} {m' : Mundo} (ho : o.Muda) (h : paso o m r m') :
    m'.memoria = m.memoria := by
  cases o with
  | fija mem => exact ho.elim
  | escribe lba b =>
    rcases h with ⟨-, rfl⟩ | ⟨-, rfl | ⟨b', rfl⟩⟩ <;> rfl
  | escribeSuper lba sector =>
    rcases h with ⟨-, rfl⟩ | ⟨-, rfl | rfl⟩ <;> rfl
  | vacia =>
    rcases h with ⟨-, rfl⟩ | ⟨-, d, -, rfl⟩ <;> rfl
  | lee lba => rw [h.1]
  | memoria => rw [h.1]
  | _ => exact congrArg _ h

theorem mudo_safe {p : Prog nucleo α} (hp : Mudo p) :
    p.Safe paso (fun _ _ ↦ True) (fun _ m' ↦ m'.memoria = m.memoria) m :=
  hp.safe (fun _ _ _ _ ho h hm ↦ (paso_muda ho h).trans hm) rfl

private theorem mudo_tryBind {x : Escritura α} (hx : Mudo x.run) {f : α → Escritura β}
    {Q : Except WriteError β → Mundo → Prop}
    (hok : ∀ a m', m'.memoria = m.memoria → Prog.Safe paso (fun _ _ ↦ True) Q (f a).run m')
    (herr : ∀ e m', m'.memoria = m.memoria → Q (.error e) m') :
    Prog.Safe paso (fun _ _ ↦ True) Q (x >>= f).run m :=
  (mudo_safe hx).tryBind hok herr

/-- What one operation keeps. -/
abbrev Guarda (x : Escritura α) (m : Mundo) : Prop :=
  Prog.Safe paso (fun _ _ ↦ True) (fun _ ↦ SuperValido) x.run m

theorem SuperValido.congr (h : SuperValido m) {m' : Mundo} (hm : m'.memoria = m.memoria) :
    SuperValido m' := by
  intro sb hsb
  rw [hm] at hsb
  exact h sb hsb

/-- Confirming publishes a superblock that `decode` accepts. -/
theorem confirmar_guarda (h : SuperValido m) {sb : Superblock} (hsb : sb.Valido) {copia : UInt64}
    {n : Nat} {t : Transaccion} (ht : t.Abierta sb copia n) {p : BlockPtr} (hp : p.EnBloque) :
    Guarda (confirmar t p) m :=
  confirmar_safe maquina_paso ht trivial (fun _ _ ↦ h.congr rfl) trivial (h.congr rfl)
    (h.congr rfl) trivial (fun _ _ ↦ h.congr rfl) (fun _ _ ↦ trivial) (by
      rintro _ ⟨⟩
      exact ht.valido hsb hp)

/-- So do opening, reserving and writing an estrato before it. -/
theorem cierre_guarda (h : SuperValido m) {sb : Superblock} (hsb : sb.Valido) {copia : UInt64}
    {n : Nat} {t : Transaccion} (ht : t.Abierta sb copia n) (raiz padre : BlockPtr)
    (motivo : String) (cursor : UInt64) :
    Guarda (ponerEstrato raiz padre motivo cursor >>= confirmar t) m := by
  have hG : Guardia (fun _ _ ↦ True) (fun _ ↦ True) m := fun _ _ _ _ ↦ trivial
  refine (ponerEstrato_safe maquina_paso hG trivial).tryBind ?_ ?_
  · rintro p m' ⟨e, -, rfl, rfl⟩
    have hm : SuperValido (m.conTodo [(cursor, Arr.pad bloque e.encode)]) := h.congr rfl
    refine confirmar_guarda hm hsb ht (enBloque_nuevo ?_)
    rw [Estrato.length_encode]
    decide
  · rintro e m' ⟨ws, rotos, -, rfl⟩
    exact h.congr rfl

private theorem super_guarda (h : SuperValido m) {f : Superblock → Escritura α}
    (hf : ∀ sb, m.memoria.super = some sb → sb.Valido → Guarda (f sb) m) :
    Guarda (liftM superbloque >>= fun s ↦ Escritura.okOr .sinVolumen s >>= f) m := by
  refine Prog.safe_lift_bind.mpr (superbloque_safe maquina_paso (fun _ _ ↦ trivial) ?_)
  exact safe_okOr (fun sb hsb ↦ hf sb hsb (h sb hsb)) fun _ ↦ h

private theorem abrir_guarda (h : SuperValido m) {sb : Superblock} {f : Transaccion → Escritura α}
    (hf : ∀ t copia, t.Abierta sb copia 0 → Guarda (f t) m) : Guarda (abrir sb >>= f) m := by
  have hcopia : copiaEnUso.Safe paso (fun _ _ ↦ True) (fun _ m' ↦ m' = m ∧ True) m :=
    (copiaEnUso_safe maquina_paso fun _ _ ↦ trivial).post fun _ _ hr ↦ ⟨hr.1, trivial⟩
  refine (abrir_safe maquina_paso (fun _ _ ↦ trivial) hcopia sb).tryBind ?_ ?_
  · rintro t m' ⟨rfl, copia, -, ht⟩
    exact hf t copia ht
  · rintro e m' rfl
    exact h

private theorem seal_guarda (h : SuperValido m) : Guarda «seal» m :=
  super_guarda h fun _ _ hsb ↦ abrir_guarda h fun _ _ ht ↦ confirmar_guarda h hsb ht hsb.estrato

private theorem marcar_guarda (h : SuperValido m) (nombre : String) : Guarda (marcar nombre) m := by
  refine super_guarda h fun sb hsuper hsb ↦ ?_
  split
  · exact h
  refine Prog.safe_lift_bind.mpr ((mudo_safe mudo_estrato).post fun e m' hm ↦ ?_)
  have h := h.congr hm
  refine safe_okOr (fun actual _ ↦ abrir_guarda h fun t copia ht ↦ ?_) fun _ ↦ h
  refine safe_deExcept (fun x hx ↦ ?_) fun _ _ ↦ h
  exact cierre_guarda h hsb (ht.reserve hx).2 _ _ _ _

private theorem volver_guarda (h : SuperValido m) (n : Nat) : Guarda (volver n) m := by
  refine super_guarda h fun sb hsuper hsb ↦ ?_
  split
  · exact h
  refine mudo_tryBind (mudo_buscarVersion _ _) (fun destino m' hm ↦ ?_) fun _ _ ↦ h.congr
  have h := h.congr hm
  refine safe_okOr (fun raiz _ ↦ abrir_guarda h fun t copia ht ↦ ?_) fun _ ↦ h
  refine safe_deExcept (fun x hx ↦ ?_) fun _ _ ↦ h
  exact cierre_guarda h hsb (ht.reserve hx).2 _ _ _ _

private theorem publicarDesde_guarda (h : SuperValido m) {sb : Superblock} (hsb : sb.Valido)
    (gesto : Gesto) (objeto : Option Bytes) (contenido : Option (Plan × UInt32)) (camino : Camino) :
    Guarda (do
      let t ← abrir sb
      let (base, t) ← Escritura.deExcept .rechazada
        (t.reserve (cuesta gesto contenido camino.length))
      let (pObjeto, cursor) ← ponerObjeto gesto objeto contenido base
      let (pRaiz, cursor) ← publicarNiveles gesto pObjeto camino none cursor
      let pEstrato ← ponerEstrato pRaiz sb.estrato "" cursor
      confirmar t pEstrato) m := by
  refine abrir_guarda h fun t copia ht ↦ safe_deExcept (fun x hx ↦ ?_) fun _ _ ↦ h
  refine mudo_tryBind (mudo_ponerObjeto _ _ _ _) (fun o m' hm ↦ ?_) fun _ _ ↦ h.congr
  have h := h.congr hm
  refine mudo_tryBind (mudo_publicarNiveles _ _ _ _ _) (fun r m' hm ↦ ?_) fun _ _ ↦ h.congr
  exact cierre_guarda (h.congr hm) hsb (ht.reserve hx).2 _ _ _ _

private theorem publicar_guarda (h : SuperValido m) (ruta : String) (gesto : Gesto) :
    Guarda (publicar ruta gesto) m := by
  refine super_guarda h fun sb hsuper hsb ↦ ?_
  refine mudo_tryBind (mudo_resolver ruta) (fun camino m' hm ↦ ?_) fun _ _ ↦ h.congr
  have h := h.congr hm
  refine safe_deExcept (fun objeto _ ↦ ?_) fun _ _ ↦ h
  cases gesto.origen? with
  | none => exact publicarDesde_guarda h hsb gesto objeto none camino
  | some origen =>
    refine mudo_tryBind (x := some <$> coste origen) ?_ (fun c m' hm ↦ publicarDesde_guarda (h.congr hm) hsb gesto objeto c camino)
      fun _ _ ↦ h.congr
    exact (mudo_coste origen).bind fun r ↦ by cases r <;> trivial

private theorem valido_of_pick {a b : Bytes} {sb : Superblock} {copia : UInt64}
    (h : pickSuperblock a b = .ok (sb, copia)) : sb.Valido := by
  rw [pickSuperblock] at h
  split at h
  · next ha hb =>
    split at h
    · cases h
      exact Superblock.valido_of_decode ha
    · cases h
      exact Superblock.valido_of_decode hb
  · next ha _ =>
    cases h
    exact Superblock.valido_of_decode ha
  · next hb =>
    cases h
    exact Superblock.valido_of_decode hb
  · cases h

private theorem mount_guarda : mount.Safe paso (fun _ _ ↦ True) (fun _ ↦ SuperValido) m := by
  have hnada : ∀ m' : Mundo, m'.memoria = ⟨none, false⟩ → SuperValido m' := by
    intro m' hm sb hsb
    rw [hm] at hsb
    cases hsb
  have hlee : ∀ (lba : UInt64) (m' : Mundo), m'.memoria = ⟨none, false⟩ →
      (readBlock lba).Safe paso (fun _ _ ↦ True) (fun _ m'' ↦ m''.memoria = ⟨none, false⟩) m' :=
    fun lba m' hm ↦ (mudo_safe (mudo_readBlock lba)).post fun _ _ hr ↦ hr.trans hm
  refine Prog.safe_bind.mpr (safe_fijar.mpr ⟨trivial, ?_⟩)
  rintro - m₁ rfl
  refine Prog.safe_bind.mpr ((hlee _ _ rfl).post fun a m₂ h₂ ↦ ?_)
  cases a with
  | none => exact hnada _ h₂
  | some a =>
    refine Prog.safe_bind.mpr ((hlee _ _ h₂).post fun b m₃ h₃ ↦ ?_)
    cases b with
    | none => exact hnada _ h₃
    | some b =>
      dsimp only
      split
      · exact hnada _ h₃
      · next sb copia hpick =>
        have hval := valido_of_pick hpick
        refine Prog.safe_bind.mpr (safe_fijar.mpr ⟨trivial, ?_⟩)
        rintro - m₄ rfl
        refine Prog.safe_bind.mpr (safe_idDisco.mpr ⟨trivial, ?_⟩)
        rintro id m₅ -
        refine safe_fijar.mpr ⟨trivial, ?_⟩
        rintro - m₆ rfl sb' hsb'
        cases hsb'
        exact hval

end Super

/-! ### Runs -/

/-- A call from outside that may set the static variables. -/
inductive Operacion
  | mount
  | publicar (ruta : String) (gesto : Gesto)
  | marcar (nombre : String)
  | volver (n : Nat)
  | sella

/-- What the call runs; its answer is for the caller. -/
def Operacion.prog : Operacion → Prog nucleo (Option (Except WriteError UInt64))
  | mount => do
    Fsys.mount
    return none
  | publicar ruta gesto => some <$> (Fsys.publicar ruta gesto).run
  | marcar nombre => some <$> (Fsys.marcar nombre).run
  | volver n => some <$> (Fsys.volver n).run
  | sella => some <$> («seal»).run

/-- The machine at some moment between two operations, since it was switched on. In between the
disk may come to hold anything. -/
inductive Encendida : Mundo → Prop
  | arranque {m : Mundo} (h : m.memoria = ⟨none, false⟩) : Encendida m
  | opera {m m' : Mundo} {o : Operacion} {r : Option (Except WriteError UInt64)}
    (h : Encendida m) (hr : Prog.Runs paso (o.prog, m) (.ret r, m')) : Encendida m'
  | disco {m m' : Mundo} (h : Encendida m) (hm : m'.memoria = m.memoria) : Encendida m'

/-- An operation keeps the superblock valid. -/
theorem Operacion.guarda (o : Operacion) {m : Mundo} (h : SuperValido m) :
    o.prog.Safe paso (fun _ _ ↦ True) (fun _ ↦ SuperValido) m := by
  cases o with
  | mount => exact Prog.safe_bind.mpr mount_guarda
  | publicar ruta gesto => exact Prog.safe_bind.mpr (publicar_guarda h ruta gesto)
  | marcar nombre => exact Prog.safe_bind.mpr (marcar_guarda h nombre)
  | volver n => exact Prog.safe_bind.mpr (volver_guarda h n)
  | sella => exact Prog.safe_bind.mpr (seal_guarda h)

/-- Whatever was run, the superblock in memory is valid. -/
theorem Encendida.superValido {m : Mundo} (h : Encendida m) : SuperValido m := by
  induction h with
  | arranque hm =>
    intro sb hsb
    rw [hm] at hsb
    cases hsb
  | opera _ hr ih => exact Prog.safe_iff.mp (Operacion.guarda _ ih) _ hr
  | disco _ hm ih => exact ih.congr hm

end BmoX.Fsys
