import BmoX.Fsys.Escribir

/-!
# The phases of an operation

An operation reads, prepares blocks it has reserved, and confirms. What each phase may leave is
said once here, whatever the operation: `Roto R` for the blocks being prepared, and the calls of
`confirmar` one by one. `G` is what has to hold whenever a call is made.
-/

namespace BmoX.Fsys

open BmoX.Base BmoX.Blake3 BmoX.Estratos

/-! ### Blocks in preparation -/

/-- The data blocks below `n`; the two copies of the superblock are not among them. -/
def Debajo (n : UInt64) (lba : UInt64) : Prop := 2 ≤ lba ∧ lba < n

/-- The copy of the superblock that rules over some blocks. -/
def rige (v : UInt64 → Bloque) : Except FormatError (Superblock × UInt64) :=
  pickSuperblock ((v superABlock).1.take superLen) ((v superBBlock).1.take superLen)

namespace Mundo

/-- After accepting some data blocks. -/
def conTodo (m : Mundo) (ws : List (UInt64 × Bloque)) : Mundo :=
  ⟨⟨m.disco.durable, m.disco.pending ++ ws⟩, m.memoria, m.puestos ++ ws⟩

@[simp] theorem conTodo_nil (m : Mundo) : m.conTodo [] = m := by
  rw [conTodo, List.append_nil, List.append_nil]

@[simp] theorem memoria_conTodo (m : Mundo) (ws : List (UInt64 × Bloque)) :
    (m.conTodo ws).memoria = m.memoria := rfl

theorem vista_conTodo (m : Mundo) (ws : List (UInt64 × Bloque)) :
    (m.conTodo ws).vista = Cache.applyAll m.vista ws := Cache.applyAll_append ..

/-- After the barrier and the commit of `nuevo`, before the second flush. -/
def aMedias (m : Mundo) (copia : UInt64) (nuevo : Superblock) : Mundo :=
  m.vaciado.sellado (nextSuperBlock copia) (sector nuevo)

/-- After publishing `nuevo`. -/
def confirmado (m : Mundo) (copia : UInt64) (nuevo : Superblock) : Mundo :=
  { (m.aMedias copia nuevo).vaciado with memoria := { m.memoria with super := some nuevo } }

end Mundo

/-- Some data blocks of `R` were accepted, and others may be torn. -/
def Roto (R : UInt64 → Prop) (m m' : Mundo) : Prop :=
  ∃ ws rotos, (∀ w ∈ ws ++ rotos, R w.1) ∧
    m' = ⟨⟨m.disco.durable, m.disco.pending ++ (ws ++ rotos)⟩, m.memoria, m.puestos ++ ws⟩

/-- The calls that prepare blocks of `R`. -/
def Orden.Prepara (R : UInt64 → Prop) : Orden → Prop
  | .escribe lba _ => R lba
  | o => o.Lectura

/-- Blocks of `R` may be prepared from `m` on. -/
def Guardia (G : Orden → Mundo → Prop) (R : UInt64 → Prop) (m : Mundo) : Prop :=
  ∀ m', Roto R m m' → ∀ o, o.Prepara R → G o m'

/-- A piece of code that may stop: `Q` if it does not, `F` if it does. -/
def Deja {ε α : Type} (F : Mundo → Prop) (Q : α → Mundo → Prop) : Except ε α → Mundo → Prop
  | .ok a, m => Q a m
  | .error _, m => F m

section Preparar

variable {R R' : UInt64 → Prop} {m m' : Mundo} {ws : List (UInt64 × Bloque)}

private theorem roto_conTodo (h : ∀ w ∈ ws, R w.1) : Roto R m (m.conTodo ws) :=
  ⟨ws, [], by rwa [List.append_nil], by rw [List.append_nil]; rfl⟩

private theorem roto_refl : Roto R m m := by
  have h : Roto R m (m.conTodo []) := roto_conTodo fun w hw ↦ absurd hw List.not_mem_nil
  rwa [Mundo.conTodo_nil] at h

theorem Orden.Lectura.prepara {o : Orden} (ho : o.Lectura) : o.Prepara R := by
  cases o with
  | escribe lba b => exact ho.elim
  | _ => exact ho

variable {G : Orden → Mundo → Prop}

theorem Guardia.lectura (hG : Guardia G R m) : ∀ o, o.Lectura → G o m :=
  fun o ho ↦ hG m roto_refl o ho.prepara

end Preparar

/-! ### Pieces of an operation -/

section Piezas

variable {E : Prog.Env nucleo Mundo} {Falla : Prop} {G : Orden → Mundo → Prop}
  {R : UInt64 → Prop} {m : Mundo} {α β ε : Type}

/-- `ok_or` goes on with a value or stops. -/
theorem safe_okOr {e : WriteError} {o : Option α} {f : α → Escritura β}
    {Q : Except WriteError β → Mundo → Prop} (hok : ∀ a, o = some a → Prog.Safe E G Q (f a).run m)
    (herr : o = none → Q (.error e) m) : Prog.Safe E G Q (Escritura.okOr e o >>= f).run m := by
  cases o with
  | some a => exact hok a rfl
  | none => exact herr rfl

/-- So does a value that may be an error. -/
theorem safe_deExcept {g : ε → WriteError} {x : Except ε α} {f : α → Escritura β}
    {Q : Except WriteError β → Mundo → Prop} (hok : ∀ a, x = .ok a → Prog.Safe E G Q (f a).run m)
    (herr : ∀ e, x = .error e → Q (.error (g e)) m) :
    Prog.Safe E G Q (Escritura.deExcept g x >>= f).run m := by
  cases x with
  | ok a => exact hok a rfl
  | error e => exact herr e rfl

/-- `poner` writes its block with zeros behind, or may leave it torn. -/
theorem poner_safe (hE : Maquina E Falla) (hG : Guardia G R m) {lba : UInt64} (hR : R lba)
    {datos : Bytes} :
    Prog.Safe E G (Deja (fun m' ↦ Roto R m m' ∧ (Falla ∨ bloque < datos.length)) fun _ m' ↦
        datos.length ≤ bloque ∧ m' = m.conTodo [(lba, Arr.pad bloque datos)])
      (poner lba datos).run m := by
  rw [poner]
  split
  · next hlen => exact ⟨roto_refl, .inr hlen⟩
  next hlen =>
  rw [Prog.safe_lift_bind]
  refine safe_writeBlock.mpr ⟨hG m roto_refl _ hR, fun r m' h ↦ ?_⟩
  have hfalla : r = false → Falla := fun hr ↦ by
    rcases hE.bien h with hb | hf
    · rw [hr] at hb
      cases hb.1
    · exact hf
  rcases hE.paso h with ⟨rfl, rfl⟩ | ⟨rfl, rfl | ⟨b', rfl⟩⟩
  · exact ⟨Nat.not_lt.mp hlen, rfl⟩
  · exact ⟨roto_refl, .inl (hfalla rfl)⟩
  · refine ⟨⟨[], [(lba, b')], fun w hw ↦ ?_, ?_⟩, .inl (hfalla rfl)⟩
    · rw [List.mem_singleton.mp hw]
      exact hR
    · rw [List.append_nil]
      rfl

/-- `copia_en_uso` answers the copy that rules, or the first one where a read fails. -/
theorem copiaEnUso_safe (hE : Maquina E Falla) (hG : ∀ o, o.Lectura → G o m) :
    Prog.Safe E G (fun copia m' ↦ m' = m ∧ ((∃ sb, rige m.vista = .ok (sb, copia)) ∨
        copia = superABlock ∧ (Falla ∨ ∃ e, rige m.vista = .error e))) copiaEnUso m := by
  rw [copiaEnUso, Prog.safe_bind]
  refine (hE.fuente hG superABlock m rfl).post fun r m' hr ↦ ?_
  obtain ⟨rfl, rfl | ⟨rfl, hf⟩⟩ := hr
  · rw [Prog.safe_bind]
    refine (hE.fuente hG superBBlock m' rfl).post fun r m'' hr ↦ ?_
    obtain ⟨rfl, rfl | ⟨rfl, hf⟩⟩ := hr
    · dsimp only
      split
      · next hp => exact ⟨rfl, .inl ⟨_, hp⟩⟩
      · next hp => exact ⟨rfl, .inr ⟨rfl, .inr ⟨_, hp⟩⟩⟩
    · exact ⟨rfl, .inr ⟨rfl, .inl hf⟩⟩
  · exact ⟨rfl, .inr ⟨rfl, .inl hf⟩⟩

/-- `abrir` opens a transaction over the copy in use. -/
theorem abrir_safe (hE : Maquina E Falla) (hG : ∀ o, o.Lectura → G o m) {K : UInt64 → Prop}
    (hK : Prog.Safe E G (fun copia m' ↦ m' = m ∧ K copia) copiaEnUso m) (sb : Superblock) :
    Prog.Safe E G (Deja (· = m) fun t m' ↦ m' = m ∧ ∃ copia, K copia ∧ t.Abierta sb copia 0)
      (abrir sb).run m := by
  rw [abrir, Prog.safe_lift_bind]
  refine hK.post fun copia m' h ↦ ?_
  obtain ⟨rfl, hcopia⟩ := h
  rw [identidadOk, Prog.safe_lift_bind, Prog.safe_bind]
  refine safe_memoria.mpr ⟨hG _ trivial, fun mem m'' h ↦ ?_⟩
  obtain ⟨rfl, rfl⟩ := hE.paso h
  rw [Prog.safe_pure]
  cases ht : Transaccion.open sb copia m''.memoria.identidadOk with
  | error r => exact rfl
  | ok t => exact ⟨rfl, copia, hcopia, Transaccion.abierta_open ht⟩

/-- An estrato fresh on the disk. -/
theorem esEstrato_nuevo {v : UInt64 → Bloque} {B : UInt64 → Prop} {cursor : UInt64} {e : Estrato}
    (hr : e.raiz.EnBloque) (hp : e.padre.EnBloque) (hv : v cursor = Arr.pad bloque e.encode)
    (hB : B cursor) : EsEstrato v B (.nuevo cursor 0 e.encode) e := by
  have hlen : e.encode.length ≤ bloque := by
    rw [Estrato.length_encode]
    decide
  have hne : e.encode ≠ [] := List.ne_nil_of_length_pos (by rw [Estrato.length_encode]; decide)
  exact ⟨esNulo_nuevo hlen hne, _, ⟨leePtr_nuevo hlen hv, hB⟩, Estrato.decode_encode hr hp⟩

/-- `ponerEstrato` writes the estrato of what it is given, dated and signed. -/
theorem ponerEstrato_safe (hE : Maquina E Falla) (hG : Guardia G R m) {raiz padre : BlockPtr}
    {motivo : String} {cursor : UInt64} (hR : R cursor) :
    Prog.Safe E G (Deja (Roto R m) fun p m' ↦ ∃ e : Estrato,
        (∃ cuando pid, e = .new raiz padre cuando (.proceso pid) motivo) ∧
        p = .nuevo cursor 0 e.encode ∧ m' = m.conTodo [(cursor, Arr.pad bloque e.encode)])
      (ponerEstrato raiz padre motivo cursor).run m := by
  rw [ponerEstrato, Prog.safe_lift_bind]
  refine safe_ahora.mpr ⟨hG.lectura _ trivial, fun cuando m' h ↦ ?_⟩
  obtain rfl : m' = m := hE.paso h
  rw [Prog.safe_lift_bind]
  refine safe_currentPid.mpr ⟨hG.lectura _ trivial, fun pid m'' h ↦ ?_⟩
  obtain rfl : m'' = m' := hE.paso h
  refine (poner_safe hE hG hR).tryBind ?_ ?_
  · rintro u m' ⟨-, hm'⟩
    rw [Prog.safe_run_pure]
    exact ⟨_, ⟨cuando, pid, rfl⟩, rfl, hm'⟩
  · exact fun e m' h ↦ h.1

/-- `confirmar`, call by call: what has to hold at each of them and after each of them fails. -/
theorem confirmar_safe (hE : Maquina E Falla) {t : Transaccion} {sb : Superblock} {copia : UInt64}
    {n : Nat} (ht : t.Abierta sb copia n) {p : BlockPtr}
    {Q : Except WriteError UInt64 → Mundo → Prop} (barrera : G .vacia m)
    (sinBarrera : ∀ d, m.disco.FlushFailed d → Q (.error .sinBarrera) { m with disco := d })
    (commit : G (.escribeSuper (nextSuperBlock copia) (sector (t.sucesor p))) m.vaciado)
    (sinCommit : Q (.error .noEscribio) m.vaciado)
    (medioCommit : Q (.error .noEscribio) (m.aMedias copia (t.sucesor p)))
    (segunda : G .vacia (m.aMedias copia (t.sucesor p)))
    (sinSegunda : ∀ d, (m.aMedias copia (t.sucesor p)).disco.FlushFailed d →
      Q (.error .sinBarrera) { m.aMedias copia (t.sucesor p) with disco := d })
    (fin : ∀ o, (o = .memoria ∨ ∃ mem, o = .fija mem) →
      G o (m.aMedias copia (t.sucesor p)).vaciado)
    (hecho : Q (.ok (t.generacion + 1)) (m.confirmado copia (t.sucesor p))) :
    Prog.Safe E G Q (confirmar t p).run m := by
  obtain ⟨t₁, t₂, t₃, h1, h2, h3⟩ := ht.commit p
  rw [confirmar]
  refine safe_deExcept ?_ fun e he ↦ absurd (h1.symm.trans he) nofun
  rintro t₁' ht₁
  cases h1.symm.trans ht₁
  rw [Prog.safe_lift_bind]
  refine safe_flush.mpr ⟨barrera, fun r m' h ↦ ?_⟩
  rcases hE.paso h with ⟨rfl, rfl⟩ | ⟨rfl, d, hd, rfl⟩
  swap
  · exact sinBarrera d hd
  refine safe_deExcept ?_ fun e he ↦ absurd (h2.symm.trans he) nofun
  rintro t₂' ht₂
  cases h2.symm.trans ht₂
  refine safe_deExcept ?_ fun e he ↦ absurd (h3.symm.trans he) nofun
  rintro ⟨destino, nuevo, t₃'⟩ ht₃
  cases h3.symm.trans ht₃
  rw [Prog.safe_lift_bind]
  refine safe_writeSuperblock.mpr ⟨commit, fun r m' h ↦ ?_⟩
  rcases hE.paso h with ⟨rfl, rfl⟩ | ⟨rfl, rfl | rfl⟩
  rotate_left
  · exact sinCommit
  · exact medioCommit
  rw [if_neg (by decide), Prog.safe_lift_bind]
  refine safe_flush.mpr ⟨segunda, fun r m' h ↦ ?_⟩
  rcases hE.paso h with ⟨rfl, rfl⟩ | ⟨rfl, d, hd, rfl⟩
  swap
  · exact sinSegunda d hd
  rw [if_neg (by decide), Prog.safe_lift_bind, fijarSuperbloque, Prog.safe_bind]
  refine safe_memoria.mpr ⟨fin _ (.inl rfl), fun mem m' h ↦ ?_⟩
  obtain ⟨rfl, rfl⟩ := hE.paso h
  refine safe_fijar.mpr ⟨fin _ (.inr ⟨_, rfl⟩), fun _ m' h ↦ ?_⟩
  obtain rfl := hE.paso h
  exact hecho

end Piezas

end BmoX.Fsys
