import BmoX.Base.Utf8
import BmoX.Fsys.Encendida

/-!
# A marked version keeps its name

`Estrato::con_nombre` of `estratos/src/lib.rs:380` looks at the first byte of the reason, and
`historia::con_nombre` of `fsys/estratos/historia.rs:139–141` at the length of its text. The name
is cut at 64 bytes, wherever that falls.
-/

namespace BmoX.Fsys

open BmoX.Base BmoX.Blake3 BmoX.Estratos

/-- `con_nombre`; `historia.rs:139–141`. -/
def conNombre (versiones : List Version) (i : Nat) : UInt64 :=
  match versiones[i]? with
  | none => 0
  | some v => if v.nombre.length > 0 then 1 else 0

/-! ### Two notions of a name -/

/-- The reason is empty or a text up to its first zero byte. -/
def Legible (e : Estrato) : Prop :=
  e.motivo.1.head? = some 0 ∨ IsText (e.motivo.1.takeWhile (· ≠ 0))

private theorem takeWhile_eq_nil_iff {a : Arr motivoLen} :
    a.1.takeWhile (· ≠ 0) = [] ↔ a.1.head? = some 0 := by
  obtain ⟨l, hl⟩ := a
  cases l with
  | nil => cases hl
  | cons x l =>
    rw [List.head?_cons, Option.some.injEq]
    by_cases hx : x = 0 <;> simp [hx]

private theorem nombre_de_texto {e : Estrato} (h : IsText (e.motivo.1.takeWhile (· ≠ 0))) :
    utf8 e.motivoStr = e.motivo.1.takeWhile (· ≠ 0) ∧
    (Version.de e).nombre = e.motivo.1.takeWhile (· ≠ 0) := by
  have hstr : utf8 e.motivoStr = e.motivo.1.takeWhile (· ≠ 0) := utf8_utf8D h
  refine ⟨hstr, ?_⟩
  have hlen : (e.motivo.1.takeWhile (· ≠ 0)).length ≤ motivoLen :=
    (List.takeWhile_prefix _).length_le.trans (Nat.le_of_eq e.motivo.2)
  rw [Version.de, hstr]
  exact List.take_of_length_le hlen

private theorem conNombre_acuerdo_iff (e : Estrato) :
    (e.conNombre = true ↔ 0 < (Version.de e).nombre.length) ↔ Legible e := by
  have hcon : e.conNombre = true ↔ e.motivo.1.takeWhile (· ≠ 0) ≠ [] := by
    rw [Ne, takeWhile_eq_nil_iff]
    simp [Estrato.conNombre]
  by_cases ht : IsText (e.motivo.1.takeWhile (· ≠ 0))
  · rw [hcon, (nombre_de_texto ht).2, List.length_pos_iff]
    exact iff_of_true Iff.rfl (.inr ht)
  · have hvacio : (Version.de e).nombre.length = 0 := by
      have hstr : e.motivoStr = "" := utf8D_eq_empty ht
      rw [Version.de, hstr]
      rfl
    have hlleno : e.motivo.1.takeWhile (· ≠ 0) ≠ [] := by
      intro hnil
      rw [hnil] at ht
      exact ht ⟨"", by decide⟩
    refine iff_of_false ?_ ?_
    · rw [hcon, hvacio]
      exact fun h ↦ Nat.lt_irrefl 0 (h.mp hlleno)
    · rintro (h0 | h0)
      · exact hlleno (takeWhile_eq_nil_iff.mpr h0)
      · exact ht h0

/-! ### A name given to `marcar` -/

/-- The name does not start with a null character and, where it is cut, no character is. -/
def NombreEntero (nombre : String) : Prop :=
  (utf8 nombre).head? ≠ some 0 ∧ ((utf8 nombre).length ≤ motivoLen ∨
    0 ∈ (utf8 nombre).take motivoLen ∨ IsText ((utf8 nombre).take motivoLen))

/-- An estrato with this name counts as named everywhere, and the name is its own. -/
structure Nombrado (e : Estrato) (nombre : String) : Prop where
  conNombre : e.conNombre = true
  lleno : e.motivoStr ≠ ""
  inicio : utf8 e.motivoStr <+: utf8 nombre
  historia : 0 < (Version.de e).nombre.length

private theorem takeWhile_pad {c : Bytes} {n : Nat} (h : c.length ≤ n) :
    (Arr.pad n c).1.takeWhile (· ≠ 0) = c.takeWhile (· ≠ 0) := by
  have hz : ∀ k, (zeros k).takeWhile (· ≠ 0) = [] := by
    intro k
    cases k <;> simp [zeros, List.replicate_succ]
  rw [Arr.val_pad h, List.takeWhile_append, hz, List.append_nil]
  split
  · next hl => exact ((List.takeWhile_prefix _).eq_of_length hl).symm
  · rfl

/-- Where a cut name is still a text. -/
theorem isText_cortado_iff {nombre : String} :
    IsText (((utf8 nombre).take motivoLen).takeWhile (· ≠ 0)) ↔
      (utf8 nombre).length ≤ motivoLen ∨ 0 ∈ (utf8 nombre).take motivoLen ∨
        IsText ((utf8 nombre).take motivoLen) := by
  constructor
  · intro h
    by_cases h0 : 0 ∈ (utf8 nombre).take motivoLen
    · exact .inr (.inl h0)
    · refine .inr (.inr ?_)
      have htodo : ((utf8 nombre).take motivoLen).takeWhile (· ≠ 0) =
          (utf8 nombre).take motivoLen := by
        apply List.takeWhile_eq_self_iff.mpr
        intro x hx
        rw [decide_eq_true_eq]
        rintro rfl
        exact h0 hx
      rwa [htodo] at h
  · rintro (h | h | ⟨s, hs⟩)
    · rw [List.take_of_length_le h]
      exact isText_takeWhile nombre
    · -- the zero byte comes before the cut
      have hcorta : (utf8 nombre).takeWhile (· ≠ 0) =
          ((utf8 nombre).take motivoLen).takeWhile (· ≠ 0) := by
        have hne : (((utf8 nombre).take motivoLen).takeWhile (· ≠ 0)).length ≠
            ((utf8 nombre).take motivoLen).length := by
          intro hl
          have heq := (List.takeWhile_prefix (· ≠ (0 : UInt8))).eq_of_length hl
          have := List.takeWhile_eq_self_iff.mp heq 0 h
          simp at this
        conv_lhs => rw [← List.take_append_drop motivoLen (utf8 nombre)]
        rw [List.takeWhile_append, if_neg hne]
      rw [← hcorta]
      exact isText_takeWhile nombre
    · rw [← hs]
      exact isText_takeWhile s

/-- An estrato made with a name is named with it exactly when the name survives the cut. -/
theorem nombrado_iff {raiz padre : BlockPtr} {cuando : UInt64} {autor : Autor} {nombre : String}
    (hn : nombre ≠ "") :
    Nombrado (.new raiz padre cuando autor nombre) nombre ↔ NombreEntero nombre := by
  have hne : utf8 nombre ≠ [] := mt utf8_eq_nil.mp hn
  have hcorte : ((utf8 nombre).take motivoLen).length ≤ motivoLen := List.length_take_le ..
  have htexto : (Estrato.new raiz padre cuando autor nombre).motivo.1.takeWhile (· ≠ 0) =
      ((utf8 nombre).take motivoLen).takeWhile (· ≠ 0) := takeWhile_pad hcorte
  have hhead : (Estrato.new raiz padre cuando autor nombre).motivo.1.head? =
      (utf8 nombre).head? := by
    rw [Estrato.new, Arr.val_pad hcorte]
    cases h : utf8 nombre with
    | nil => exact absurd h hne
    | cons x b => rfl
  constructor
  · intro h
    refine ⟨?_, isText_cortado_iff.mp ?_⟩
    · have hc := h.conNombre
      rw [Estrato.conNombre, hhead] at hc
      simpa using hc
    · rw [← htexto]
      by_contra ht
      exact h.lleno (utf8D_eq_empty ht)
  · rintro ⟨h0, hcab⟩
    have ht := isText_cortado_iff.mpr hcab
    rw [← htexto] at ht
    obtain ⟨hstr, hver⟩ := nombre_de_texto ht
    have hlleno : (Estrato.new raiz padre cuando autor nombre).motivo.1.takeWhile (· ≠ 0) ≠ [] := by
      rwa [Ne, takeWhile_eq_nil_iff, hhead]
    refine ⟨?_, ?_, ?_, ?_⟩
    · rw [Estrato.conNombre, hhead]
      simpa using h0
    · rwa [Ne, ← utf8_eq_nil, hstr]
    · rw [hstr, htexto]
      exact (List.takeWhile_prefix _).trans (List.take_prefix _ _)
    · rw [hver]
      exact List.length_pos_iff.mpr hlleno

/-! ### What `marcar` leaves -/

section Marcar

variable {m : Mundo}

private theorem estrato_leido : estrato.Safe paso (fun _ _ ↦ True)
    (fun r m' ↦ m'.memoria = m.memoria ∧ ∀ e, r = some e → e.raiz.EnBloque) m := by
  refine Prog.safe_bind.mpr ((mudo_safe mudo_superbloque).post fun sb m' hm ↦ ?_)
  cases sb with
  | none => exact ⟨hm, nofun⟩
  | some sb =>
    dsimp only
    split
    · exact ⟨hm, nofun⟩
    refine Prog.safe_bind.mpr ((mudo_safe (mudo_seguir _)).post fun d m'' hm' ↦ ?_)
    cases d with
    | none => exact ⟨hm'.trans hm, nofun⟩
    | some d =>
      refine ⟨hm'.trans hm, fun e he ↦ ?_⟩
      cases hdec : Estrato.decode d with
      | error err =>
        rw [hdec] at he
        cases he
      | ok e' =>
        rw [hdec] at he
        cases he
        exact (Estrato.enBloque_of_decode hdec).1

/-- The mounted estrato is one made with this name, and it reads back. -/
def EstratoPuesto (nombre : String) (m : Mundo) : Prop :=
  ∃ sb raiz padre cuando autor, m.memoria.super = some sb ∧
    EsEstrato m.vista (fun _ ↦ True) sb.estrato (.new raiz padre cuando autor nombre)

/-- A `marcar` that succeeds leaves an estrato with the name it was given. -/
theorem marcar_pone (h : SuperValido m) (nombre : String) :
    (marcar nombre).run.Safe paso (fun _ _ ↦ True)
      (fun r m' ↦ ∀ g, r = .ok g → nombre ≠ "" ∧ EstratoPuesto nombre m') m := by
  refine Prog.safe_lift_bind.mpr (superbloque_safe maquina_paso (fun _ _ ↦ trivial) ?_)
  refine safe_okOr (fun sb hsuper ↦ ?_) fun _ ↦ nofun
  have hsb := h sb hsuper
  split
  · exact nofun
  next hn =>
  refine Prog.safe_lift_bind.mpr (estrato_leido.post fun e m₁ h₁ ↦ ?_)
  refine safe_okOr (fun actual hactual ↦ ?_) fun _ ↦ nofun
  have hraiz := h₁.2 actual hactual
  have hcopia : copiaEnUso.Safe paso (fun _ _ ↦ True) (fun _ m' ↦ m' = m₁ ∧ True) m₁ :=
    (copiaEnUso_safe maquina_paso fun _ _ ↦ trivial).post fun _ _ hr ↦ ⟨hr.1, trivial⟩
  refine (abrir_safe maquina_paso (fun _ _ ↦ trivial) hcopia sb).tryBind ?_ fun _ _ _ ↦ nofun
  rintro t m₁ ⟨rfl, copia, -, ht⟩
  refine safe_deExcept (fun x hx ↦ ?_) fun _ _ ↦ nofun
  obtain ⟨base, t'⟩ := x
  obtain ⟨rfl, ht'⟩ := ht.reserve hx
  have hbase : t.logHead = sb.logHead := UInt64.toNat.inj ht.logHead
  refine (ponerEstrato_safe maquina_paso (R := fun _ ↦ True) (fun _ _ _ _ ↦ trivial)
    trivial).tryBind ?_ fun _ _ _ ↦ nofun
  rintro p m₂ ⟨_, ⟨cuando, pid, rfl⟩, rfl, rfl⟩
  refine confirmar_safe maquina_paso ht' trivial (fun _ _ ↦ nofun) trivial nofun nofun trivial
    (fun _ _ ↦ nofun) (fun _ _ ↦ trivial) fun g _ ↦ ?_
  refine ⟨hn, _, actual.raiz, sb.estrato, cuando, .proceso pid, rfl, ?_⟩
  -- the block of the estrato is not one of the two of the superblock
  have hdentro : Debajo t'.logHead t.logHead := by
    refine ⟨?_, ?_⟩
    · rw [hbase]
      exact hsb.logHead.1
    · rw [UInt64.lt_iff_toNat_lt, ht'.logHead, ht.logHead]
      exact Nat.lt_succ_self _
  have hpuesto : EsEstrato (m₁.conTodo [(t.logHead, Arr.pad bloque
      (Estrato.new actual.raiz sb.estrato cuando (.proceso pid) nombre).encode)]).vista
      (Debajo t'.logHead) (.nuevo t.logHead 0 (Estrato.new actual.raiz sb.estrato cuando
        (.proceso pid) nombre).encode)
      (.new actual.raiz sb.estrato cuando (.proceso pid) nombre) := by
    refine esEstrato_nuevo hraiz hsb.estrato ?_ hdentro
    rw [Mundo.vista_conTodo]
    exact Function.update_self ..
  obtain ⟨hp, d, hd, hdec⟩ := hpuesto.conserva (@conserva_aMedias _ copia _ (t'.sucesor
    (.nuevo t.logHead 0 (Estrato.new actual.raiz sb.estrato cuando (.proceso pid) nombre).encode)))
  exact ⟨hp, d, ⟨hd.lee, trivial⟩, hdec⟩

end Marcar

/-! ### What the history says of it -/

/-- On a disk that does all it is asked `releer` starts with what it keeps of the mounted
estrato. -/
theorem releer_primera {m : Mundo} {sb : Superblock} {e : Estrato}
    (hsuper : m.memoria.super = some sb) (he : EsEstrato m.vista (fun _ ↦ True) sb.estrato e) :
    releer.Safe pasoBien (fun _ _ ↦ True) (fun vs _ ↦ ∃ resto, vs = .de e :: resto) m := by
  obtain ⟨hp, d, hd, hdec⟩ := he
  refine Prog.safe_bind.mpr (superbloque_safe maquina_pasoBien (fun _ _ ↦ trivial) ?_)
  rw [hsuper]
  dsimp only
  rw [releerDesde, if_neg (by rw [hp]; exact Bool.false_ne_true)]
  refine Prog.safe_bind.mpr ((seguir_safe maquina_pasoBien (fun _ _ ↦ trivial) hd).post ?_)
  rintro r m' ⟨rfl, rfl | ⟨-, hf⟩⟩
  · dsimp only
    rw [hdec]
    dsimp only
    refine Prog.safe_bind.mpr ((Prog.safe_true _).post fun resto _ _ ↦ ?_)
    exact ⟨resto, rfl⟩
  · exact hf.elim

/-- The version of now is permanent under this name: the mounted estrato counts as named, its
name is its own, and the history reports it as named. -/
structure Permanente (m : Mundo) (nombre : String) : Prop where
  estrato : ∃ sb e, m.memoria.super = some sb ∧
    EsEstrato m.vista (fun _ ↦ True) sb.estrato e ∧ Nombrado e nombre
  historia : releer.Safe pasoBien (fun _ _ ↦ True) (fun vs _ ↦ conNombre vs 0 = 1) m

private theorem permanente_iff {m : Mundo} {nombre : String} (hn : nombre ≠ "")
    (h : EstratoPuesto nombre m) : Permanente m nombre ↔ NombreEntero nombre := by
  obtain ⟨sb, raiz, padre, cuando, autor, hsuper, he⟩ := h
  constructor
  · rintro ⟨⟨sb', e', hsuper', he', hnom⟩, -⟩
    obtain rfl := Option.some.inj (hsuper.symm.trans hsuper')
    obtain rfl := he.unico he'
    exact (nombrado_iff hn).mp hnom
  · intro hent
    have hnom : Nombrado (.new raiz padre cuando autor nombre) nombre :=
      (nombrado_iff hn).mpr hent
    refine ⟨⟨sb, _, hsuper, he, hnom⟩, (releer_primera hsuper he).post ?_⟩
    rintro vs - ⟨resto, rfl⟩
    exact if_pos hnom.historia

/-! ### A volume where it is seen -/

/-- A machine that does all it is asked. -/
def bien : Prog.Handler nucleo Mundo
  | .lee lba, m => (some (m.vista lba), m)
  | .escribe lba b, m => (true, m.con lba b)
  | .escribeSuper lba sector, m => (true, m.sellado lba sector)
  | .vacia, m => (true, m.vaciado)
  | .memoria, m => (m.memoria, m)
  | .fija mem, m => ((), { m with memoria := mem })
  | .idDisco, m => (noHash, m)
  | .ahora, m => (0, m)
  | .pidActual, m => (1, m)
  | .tamano _, m => (none, m)
  | .abrirRangos _, m => (false, m)
  | .leerRango _ _ _, m => (⟨[], Nat.zero_le _⟩, m)

private theorem paso_bien (o : Orden) (m : Mundo) : paso o m (bien o m).1 (bien o m).2 := by
  cases o with
  | lee lba => exact ⟨rfl, .inl rfl⟩
  | escribe lba b => exact .inl ⟨rfl, rfl⟩
  | escribeSuper lba sector => exact .inl ⟨rfl, rfl⟩
  | vacia => exact .inl ⟨rfl, rfl⟩
  | memoria => exact ⟨rfl, rfl⟩
  | _ => rfl

/-- The estrato of a volume just formatted. -/
def primero : Estrato := .new .nulo .nulo 0 .kernel ""

/-- And its superblock. -/
def formateado : Superblock :=
  { version := Estratos.version, blockSize := Estratos.blockSize, generation := 1
    totalBlocks := 100, logHead := 3, diskId := noHash, estrato := .nuevo 2 0 primero.encode }

/-- The volume: the estrato in its block, and the superblock in both copies. -/
def volumen (lba : UInt64) : Bloque :=
  Arr.pad bloque (if lba = 2 then primero.encode else formateado.encode)

/-- The machine with that disk and these static variables. -/
def conVolumen (mem : Memoria) : Mundo := ⟨.settled volumen, mem, []⟩

/-- The volume mounted. -/
def montado : Mundo := conVolumen ⟨some formateado, true⟩

private theorem formateado_valido : formateado.Valido := by
  refine ⟨rfl, rfl, by decide, enBloque_nuevo ?_⟩
  rw [Estrato.length_encode]
  decide

private theorem pick_volumen : rige volumen = .ok (formateado, superABlock) := by
  have hcopia : ∀ lba, lba ≠ 2 → Superblock.decode ((volumen lba).1.take superLen) = .ok formateado := by
    intro lba h
    have hl : formateado.encode.length = superLen := formateado.length_encode
    rw [volumen, if_neg h, Arr.val_pad (by rw [hl]; decide), List.take_left' hl]
    have := Superblock.decode_encode formateado_valido []
    rwa [List.append_nil] at this
  rw [rige, pickSuperblock, hcopia _ (by decide), hcopia _ (by decide)]
  exact if_pos (UInt64.le_refl _)

private theorem exec_mount_eq (m : Mundo) :
    Prog.exec bien mount m = Prog.exec bien
      (match rige m.vista with
        | .error _ => return ()
        | .ok (sb, _) => do
          fijar ⟨some sb, false⟩
          let id ← idDisco
          fijar ⟨some sb, sb.belongsTo id⟩) { m with memoria := ⟨none, false⟩ } := rfl

private theorem exec_mount {m : Mundo} {sb : Superblock} {lba : UInt64}
    (h : rige m.vista = .ok (sb, lba)) :
    Prog.exec bien mount m = ((), { m with memoria := ⟨some sb, sb.belongsTo noHash⟩ }) := by
  rw [exec_mount_eq, h]
  rfl

private theorem encendida_montado : Encendida montado := by
  have hrun := Prog.runs_exec paso_bien Operacion.mount.prog (conVolumen ⟨none, false⟩)
  have hid : formateado.belongsTo noHash = true := decide_eq_true rfl
  have hexec : Prog.exec bien Operacion.mount.prog (conVolumen ⟨none, false⟩) =
      (none, montado) := by
    have hmount : Prog.exec bien mount (conVolumen ⟨none, false⟩) = ((), montado) := by
      rw [exec_mount (m := conVolumen ⟨none, false⟩) pick_volumen, hid]
      rfl
    rw [Operacion.prog, Prog.exec_bind, hmount]
    rfl
  rw [hexec] at hrun
  exact .opera (.arranque rfl) hrun

private theorem maquina_bien : Maquina bien.env False := by
  refine ⟨?_, ?_⟩
  · rintro o m r m' h
    have h : bien o m = (r, m') := h
    have hp := paso_bien o m
    rwa [h] at hp
  · rintro o m r m' h
    have h : bien o m = (r, m') := h
    refine .inl ?_
    cases o <;> cases h <;> first | exact ⟨rfl, rfl⟩ | rfl

private theorem exec_of_safe {α : Type} {p : Prog nucleo α} {m : Mundo} {Q : α → Mundo → Prop}
    (h : p.Safe paso (fun _ _ ↦ True) Q m) : Q (Prog.exec bien p m).1 (Prog.exec bien p m).2 :=
  Prog.safe_env_iff.mp (h.mono (fun _ _ _ _ ↦ maquina_bien.paso) (fun _ _ ↦ id) fun _ _ ↦ id)

private theorem confirmar_acepta {t : Transaccion} {sb : Superblock} {copia : UInt64} {n : Nat}
    (ht : t.Abierta sb copia n) (p : BlockPtr) (m : Mundo) :
    (confirmar t p).run.Safe bien.env (fun _ _ ↦ True) (fun r _ ↦ ∃ g, r = .ok g) m := by
  obtain ⟨t₁, t₂, t₃, h1, h2, h3⟩ := ht.commit p
  rw [confirmar, h1]
  refine Prog.safe_lift_bind.mpr (safe_flush.mpr ⟨trivial, ?_⟩)
  rintro r m₁ ⟨⟩
  rw [if_neg (by decide), h2]
  refine safe_deExcept ?_ fun _ h ↦ by cases h
  rintro _ ⟨⟩
  rw [h3]
  refine safe_deExcept ?_ fun _ h ↦ by cases h
  rintro _ ⟨⟩
  refine Prog.safe_lift_bind.mpr (safe_writeSuperblock.mpr ⟨trivial, ?_⟩)
  rintro r m₂ ⟨⟩
  rw [if_neg (by decide)]
  refine Prog.safe_lift_bind.mpr (safe_flush.mpr ⟨trivial, ?_⟩)
  rintro r m₃ ⟨⟩
  rw [if_neg (by decide)]
  refine Prog.safe_lift_bind.mpr ((Prog.safe_true _).post fun _ _ _ ↦ ?_)
  exact ⟨_, rfl⟩

/-- And there `marcar` accepts any name, where there is room for one block. -/
theorem marcar_acepta {m : Mundo} {sb : Superblock} {e : Estrato} {nombre : String}
    (hsuper : m.memoria = ⟨some sb, true⟩)
    (he : EsEstrato m.vista (fun _ ↦ True) sb.estrato e) (hn : nombre ≠ "")
    (hsitio : ∀ copia, ∃ t x, Transaccion.open sb copia true = .ok t ∧ t.reserve 1 = .ok x) :
    (marcar nombre).run.Safe bien.env (fun _ _ ↦ True) (fun r _ ↦ ∃ g, r = .ok g) m := by
  refine Prog.safe_lift_bind.mpr (superbloque_safe maquina_bien (fun _ _ ↦ trivial) ?_)
  rw [hsuper]
  refine safe_okOr ?_ fun h ↦ by cases h
  rintro _ ⟨⟩
  rw [if_neg hn]
  refine Prog.safe_lift_bind.mpr
    ((estrato_safe maquina_bien (fun _ _ ↦ trivial) (by rw [hsuper]) he).post ?_)
  rintro r m₁ ⟨rfl, rfl | ⟨-, hf⟩⟩
  swap
  · exact hf.elim
  refine safe_okOr ?_ fun h ↦ by cases h
  rintro _ ⟨⟩
  rw [abrir]
  refine Prog.Safe.tryBind (R := fun r m' ↦ m' = m₁ ∧ ∃ t copia x, r = .ok t ∧
    t.Abierta sb copia 0 ∧ t.reserve 1 = .ok x) ?_ ?_ ?_
  · refine Prog.safe_lift_bind.mpr
      ((copiaEnUso_safe maquina_bien fun _ _ ↦ trivial).post fun copia m₂ h ↦ ?_)
    obtain ⟨rfl, -⟩ := h
    refine Prog.safe_lift_bind.mpr (Prog.safe_bind.mpr (safe_memoria.mpr ⟨trivial, ?_⟩))
    rintro mem m₃ ⟨⟩
    obtain ⟨t, x, ht, hx⟩ := hsitio copia
    rw [Prog.safe_pure, hsuper, ht]
    exact ⟨rfl, t, copia, x, rfl, Transaccion.abierta_open ht, hx⟩
  · rintro t m₂ ⟨rfl, _, copia, ⟨base, t'⟩, ⟨⟩, ht, hx⟩
    rw [hx]
    refine safe_deExcept ?_ fun _ h ↦ by cases h
    rintro _ ⟨⟩
    refine Prog.Safe.tryBind (R := fun r _ ↦ ∃ p, r = .ok p) ?_ ?_ ?_
    · refine Prog.safe_lift_bind.mpr (safe_ahora.mpr ⟨trivial, ?_⟩)
      rintro cuando m₃ ⟨⟩
      refine Prog.safe_lift_bind.mpr (safe_currentPid.mpr ⟨trivial, ?_⟩)
      rintro pid m₄ ⟨⟩
      refine (poner_safe maquina_bien (R := fun _ ↦ True) (fun _ _ _ _ ↦ trivial)
        trivial).tryBind (fun _ _ _ ↦ ⟨_, rfl⟩) ?_
      rintro e m₅ ⟨-, hf | hlen⟩
      · exact hf.elim
      · rw [Estrato.length_encode] at hlen
        exact absurd hlen (by decide)
    · rintro p m₃ -
      exact confirmar_acepta (ht.reserve hx).2 p m₃
    · rintro e m₃ ⟨p, ⟨⟩⟩
  · rintro e m₂ ⟨-, t, copia, x, ⟨⟩, -⟩

private theorem marcar_montado {nombre : String} (hn : nombre ≠ "") :
    ∃ g, (Prog.exec bien (marcar nombre).run montado).1 = .ok g := by
  refine Prog.safe_env_iff.mp (marcar_acepta (e := primero) rfl ?_ hn fun copia ↦ ?_)
  · have hdos : montado.vista 2 = Arr.pad bloque primero.encode := by
      change volumen 2 = _
      rw [volumen, if_pos rfl]
    exact esEstrato_nuevo (by decide) (by decide) hdos trivial
  · exact ⟨_, _, rfl, rfl⟩

/-- The two notions of a named version agree over the estratos whose reason can be read, and
whatever `marcar` accepts is permanent exactly when its name starts with a character other than
null and no character of it is cut. -/
theorem marca_permanente_iff (e : Estrato) (m : Mundo) (nombre : String) (hm : Encendida m) :
    ((e.conNombre = true ↔ 0 < (Version.de e).nombre.length) ↔ Legible e) ∧
      (marcar nombre).run.Safe paso (fun _ _ ↦ True)
        (fun r m' ↦ ∀ g, r = .ok g → (Permanente m' nombre ↔ NombreEntero nombre)) m := by
  refine ⟨conNombre_acuerdo_iff e, ?_⟩
  refine (marcar_pone hm.superValido nombre).post fun r m' h g hg ↦ ?_
  obtain ⟨hn, hpuesto⟩ := h g hg
  exact permanente_iff hn hpuesto

/-- On a volume just formatted the version marked `v1` is permanent. -/
theorem marca_permanente_v1 : ∃ g, (Prog.exec bien (marcar "v1").run montado).1 = .ok g ∧
    Permanente (Prog.exec bien (marcar "v1").run montado).2 "v1" := by
  have hn : "v1" ≠ "" := by decide
  obtain ⟨g, hg⟩ := marcar_montado hn
  have hiff := exec_of_safe (marca_permanente_iff primero montado "v1" encendida_montado).2 g hg
  exact ⟨g, hg, hiff.mpr ⟨by decide, .inl (by decide)⟩⟩

/-- Sixty-three letters and one character of two bytes, which the cut splits. -/
def partido : String := String.ofList (List.replicate 63 'a' ++ ['ñ'])

private theorem utf8_partido : utf8 partido = List.replicate 63 97 ++ [0xC3, 0xB1] := by
  have ha : String.utf8EncodeChar 'a' = [97] := by decide
  have hene : ['ñ'].flatMap String.utf8EncodeChar = [0xC3, 0xB1] := by decide
  have haes : ∀ n, (List.replicate n 'a').flatMap String.utf8EncodeChar = List.replicate n 97 := by
    intro n
    induction n with
    | zero => rfl
    | succ n ih =>
      rw [List.replicate_succ, List.flatMap_cons, ih, ha, List.replicate_succ,
        List.singleton_append]
  have hlista : partido.toList = List.replicate 63 'a' ++ ['ñ'] := by
    unfold partido
    exact String.toList_ofList
  rw [utf8_eq_flatMap, hlista, List.flatMap_append, haes]
  exact congrArg _ hene

/-- Marked with a name that is cut inside a character, a version is not permanent everywhere. -/
theorem marca_partida : ¬ ∀ (m : Mundo) (nombre : String), Encendida m →
    (marcar nombre).run.Safe paso (fun _ _ ↦ True)
      (fun r m' ↦ ∀ g, r = .ok g → Permanente m' nombre) m := by
  intro h
  have hn : partido ≠ "" := by
    rw [Ne, ← utf8_eq_nil, utf8_partido]
    decide
  obtain ⟨g, hg⟩ := marcar_montado hn
  have hperm := exec_of_safe (h montado partido encendida_montado) g hg
  obtain ⟨-, hpuesto⟩ := exec_of_safe (marcar_pone encendida_montado.superValido partido) g hg
  obtain ⟨-, hlen | h0 | ⟨s, hs⟩⟩ := (permanente_iff hn hpuesto).mp hperm
  · rw [utf8_partido] at hlen
    exact absurd hlen (by decide)
  · rw [utf8_partido] at h0
    exact absurd h0 (by decide)
  · rw [utf8_partido] at hs
    have hfin : (utf8 s).getLast? = some 0xC3 := by
      rw [hs]
      rfl
    exact absurd (getLast?_utf8_lt hfin) (by decide)

end BmoX.Fsys
