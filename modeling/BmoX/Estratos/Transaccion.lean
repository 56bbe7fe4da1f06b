import BmoX.Estratos.Formato

/-!
# Room and transactions

`platform/drivers/storage/estratos/src/espacio.rs:45–155` and `escritura/mod.rs:50–241`. A
transaction writes nothing: it decides what is reserved, in which order the writes go out and
which of the two superblocks is written.
-/

namespace BmoX.Estratos

open BmoX.Base BmoX.Blake3

/-! ### Room -/

/-- `espacio.rs:45–58`. -/
inductive Nivel
  | holgado
  | ambar
  | rojo
  | soloLectura
  deriving DecidableEq

/-- `espacio.rs:75–77`. -/
def Nivel.admiteEscritura (n : Nivel) : Bool := n ≠ .soloLectura

/-- The room of a volume; `espacio.rs:86–93`. -/
structure Ocupacion where
  usados : UInt64
  totales : UInt64
  bloque : UInt32

namespace Ocupacion

/-- `espacio.rs:101–110`. -/
def de (logHead totalBlocks : UInt64) (bloque : UInt32) : Ocupacion :=
  ⟨min logHead totalBlocks, totalBlocks, bloque⟩

/-- In thousandths, saturating the product; `espacio.rs:118–123`. -/
def porMil (o : Ocupacion) : UInt32 :=
  if o.totales = 0 then 0
  else UInt32.ofNat (min (o.usados.toNat * 1000) (2 ^ 64 - 1) / o.totales.toNat)

/-- `espacio.rs:138–149`. -/
def nivel (o : Ocupacion) : Nivel :=
  if o.porMil ≥ 950 then .soloLectura
  else if o.porMil ≥ 850 then .rojo
  else if o.porMil ≥ 700 then .ambar
  else .holgado

end Ocupacion

/-! ### Transactions -/

/-- Why a transaction cannot go on; `escritura/mod.rs:54–65`. -/
inductive Rechazo
  | sinSitio
  | noCabe
  | otroDisco
  | fueraDeOrden
  deriving DecidableEq, Repr

/-- Where in the sequence a transaction is; `escritura/mod.rs:79–92`. -/
inductive Fase
  | datos
  | barrera
  | commit
  | cerrada
  deriving DecidableEq

/-- `escritura/mod.rs:100–114`. -/
structure Transaccion where
  logHead : UInt64
  logHeadInicial : UInt64
  total : UInt64
  generacion : UInt64
  origen : Superblock
  copiaEnUso : UInt64
  fase : Fase

namespace Transaccion

/-- Open a transaction on the mounted volume; `escritura/mod.rs:122–139`. -/
def «open» (sb : Superblock) (copiaEnUso : UInt64) (identidadOk : Bool) :
    Except Rechazo Transaccion :=
  if !identidadOk then .error .otroDisco
  else if !(Ocupacion.de sb.logHead sb.totalBlocks sb.blockSize).nivel.admiteEscritura then
    .error .sinSitio
  else .ok
    { logHead := sb.logHead, logHeadInicial := sb.logHead, total := sb.totalBlocks
      generacion := sb.generation, origen := sb, copiaEnUso := copiaEnUso, fase := .datos }

/-- Reserve consecutive blocks and answer the first; `escritura/mod.rs:159–173`. -/
def reserve (t : Transaccion) (cuantos : UInt64) : Except Rechazo (UInt64 × Transaccion) :=
  if t.fase ≠ .datos then .error .fueraDeOrden
  else if cuantos = 0 then .ok (t.logHead, t)
  else if t.logHead.toNat + cuantos.toNat ≥ 2 ^ 64 then .error .noCabe
  else if t.logHead + cuantos > t.total then .error .noCabe
  else .ok (t.logHead, { t with logHead := t.logHead + cuantos })

/-- No more data; `escritura/mod.rs:176–182`. -/
def cerrarDatos (t : Transaccion) : Except Rechazo Transaccion :=
  if t.fase ≠ .datos then .error .fueraDeOrden else .ok { t with fase := .barrera }

/-- The disk confirmed everything so far; `escritura/mod.rs:190–196`. -/
def barreraHecha (t : Transaccion) : Except Rechazo Transaccion :=
  if t.fase ≠ .barrera then .error .fueraDeOrden else .ok { t with fase := .commit }

/-- Where the new superblock goes and what it says; `escritura/mod.rs:206–230`. -/
def commit (t : Transaccion) (estrato : BlockPtr) :
    Except Rechazo (UInt64 × Superblock × Transaccion) :=
  if t.fase ≠ .commit then .error .fueraDeOrden
  else
    let destino := if t.copiaEnUso = superABlock then superBBlock else superABlock
    let sb := { t.origen with
      generation := t.generacion + 1, logHead := t.logHead, estrato := estrato }
    .ok (destino, sb, { t with fase := .cerrada })

/-- Give up: nothing to undo; `escritura/mod.rs:238–241`. -/
def abandonar (t : Transaccion) : Transaccion :=
  { t with fase := .cerrada, logHead := t.logHeadInicial }

/-! ### What a transaction carries -/

/-- A transaction of `sb`, still taking data, that has reserved `n` blocks. -/
structure Abierta (sb : Superblock) (copia : UInt64) (n : Nat) (t : Transaccion) : Prop where
  fase : t.fase = .datos
  origen : t.origen = sb
  generacion : t.generacion = sb.generation
  copiaEnUso : t.copiaEnUso = copia
  total : t.total = sb.totalBlocks
  logHead : t.logHead.toNat = sb.logHead.toNat + n
  cabe : n = 0 ∨ t.logHead ≤ sb.totalBlocks

/-- The superblock a transaction publishes an estrato with. -/
def sucesor (t : Transaccion) (estrato : BlockPtr) : Superblock :=
  { t.origen with generation := t.generacion + 1, logHead := t.logHead, estrato := estrato }

variable {sb : Superblock} {copia : UInt64} {n : Nat} {t t' : Transaccion}

/-- Opening reserves nothing. -/
theorem abierta_open {identidadOk : Bool} (h : «open» sb copia identidadOk = .ok t) :
    t.Abierta sb copia 0 := by
  rw [«open»] at h
  split at h
  · cases h
  · split at h
    · cases h
    · cases h
      exact ⟨rfl, rfl, rfl, rfl, rfl, rfl, .inl rfl⟩

/-- A reservation answers the log head and moves it. -/
theorem Abierta.reserve (ht : t.Abierta sb copia n) {cuantos base : UInt64}
    (h : t.reserve cuantos = .ok (base, t')) :
    base = t.logHead ∧ t'.Abierta sb copia (n + cuantos.toNat) := by
  rw [Transaccion.reserve, if_neg (not_not.mpr ht.fase)] at h
  split at h
  · next h0 =>
    cases h
    subst h0
    exact ⟨rfl, ht⟩
  · split at h
    · cases h
    next hlt =>
    split at h
    · cases h
    next htot =>
    cases h
    have hsum : (t.logHead + cuantos).toNat = t.logHead.toNat + cuantos.toNat := by
      rw [UInt64.toNat_add, Nat.mod_eq_of_lt (Nat.not_le.mp hlt)]
    refine ⟨rfl, ht.fase, ht.origen, ht.generacion, ht.copiaEnUso, ht.total, ?_, .inr ?_⟩
    · rw [hsum, ht.logHead, Nat.add_assoc]
    · rw [← ht.total]
      exact UInt64.not_lt.mp htot

/-- An open transaction goes through its two last steps. -/
theorem Abierta.commit (ht : t.Abierta sb copia n) (estrato : BlockPtr) :
    ∃ t₁ t₂ t₃, t.cerrarDatos = .ok t₁ ∧ t₁.barreraHecha = .ok t₂ ∧
      t₂.commit estrato = .ok (nextSuperBlock copia, t.sucesor estrato, t₃) := by
  have h1 : t.cerrarDatos = .ok { t with fase := .barrera } := if_neg (not_not.mpr ht.fase)
  refine ⟨_, { t with fase := .commit }, { t with fase := .cerrada }, h1, rfl, ?_⟩
  rw [← ht.copiaEnUso]
  rfl

theorem Abierta.le (ht : t.Abierta sb copia n) : sb.logHead ≤ t.logHead := by
  rw [UInt64.le_iff_toNat_le, ht.logHead]
  exact Nat.le_add_right ..

/-- What a transaction publishes is a valid superblock. -/
theorem Abierta.valido (ht : t.Abierta sb copia n) (hsb : sb.Valido) {estrato : BlockPtr}
    (he : estrato.EnBloque) : (t.sucesor estrato).Valido := by
  obtain ⟨hdos, htope⟩ := hsb.logHead
  refine ⟨?_, ?_, ⟨?_, ?_⟩, he⟩
  · rw [sucesor, ht.origen]
    exact hsb.version
  · rw [sucesor, ht.origen]
    exact hsb.blockSize
  · exact UInt64.le_trans hdos ht.le
  · rw [sucesor, ht.origen]
    rcases ht.cabe with rfl | h
    · have hl : t.logHead = sb.logHead := UInt64.toNat.inj ht.logHead
      rw [hl]
      exact htope
    · exact .inr h

end Transaccion

end BmoX.Estratos
