import BmoX.Base.Signed
import Mathlib.Logic.Relation

/-!
# The frame of a function

`toolchain/lang/inti/emisor-x86_64/src/marco.rs`. Each local has a place in the frame, by its size. A
temporal has a register while one is free, and a word of the frame otherwise. The lives of the
temporals are intervals of the list of instructions.

`toolchain/lang/inti/src/ir/forma.rs` and `arbol/mod.rs:354–415`. A function is a list of instructions
on temporals and locals, which have no place yet.
-/

namespace BmoX.Inti

/-! ### The instructions of INTI -/

/-- `arbol/mod.rs:354–382`. -/
inductive Op
  | suma | resta | por | divide | entre | resto | elevado | igual | noEs | esUn | menor | mayor
  | menorIgual | mayorIgual | y | o | bitsY | bitsO | bitsXor | desplazaIzquierda | desplazaDerecha
  deriving DecidableEq

/-- With which arithmetic; `arbol/mod.rs:404–407`. -/
inductive Clase
  | entero | flotante
  deriving DecidableEq

/-- `arbol/mod.rs:410–415`. -/
inductive OpUno
  | menos | no
  deriving DecidableEq

abbrev Temporal := Nat

abbrev Local := Nat

abbrev Etiqueta := Nat

/-- `forma.rs:45–66`. -/
inductive Const
  | entero (n : Int)
  | flotante (bits : UInt64)
  | decimal (texto : String)
  | texto (i : Nat)
  | logico (b : Bool)
  | nada
  deriving DecidableEq

/-- `forma.rs:69–76`. -/
inductive Valor
  | temporal (t : Temporal)
  | local (l : Local)
  | const (c : Const)
  | nombre (n : String)
  deriving DecidableEq

/-- `forma.rs:84–109`. -/
inductive Comprobacion
  | desborde
  | entreCero
  | indice
  | cociente
  | conversion (bytes : Nat)
  deriving DecidableEq

/-- `forma.rs:184–403`. -/
inductive Instr
  | mueve (destino : Temporal) (origen : Valor)
  | binaria (destino : Temporal) (op : Op) (clase : Clase) (sinSigno : Bool)
      (izquierda derecha : Valor)
  | unaria (destino : Temporal) (op : OpUno) (clase : Clase) (valor : Valor)
  | comprueba (que : Comprobacion) (sinSigno : Bool) (sobre : Valor) (contra : Option Valor)
  | direccion (destino : Temporal) (congelado : Nat)
  | direccionDeLocal (destino : Temporal) (l : Local)
  | montonDeLaTarea (destino : Temporal)
  | convierte (destino : Temporal) (valor : Valor) (desde hacia : Clase)
  | llama (destino : Option Temporal) (que : Valor) (argumentos : List Valor)
  | lee (destino : Temporal) (direccion : Valor) (ancho : Nat)
  | escribe (direccion valor : Valor) (ancho : Nat)
  | metal (destino : Option Temporal) (nombre : String) (argumentos : List Valor)
  | guarda (destino : Local) (valor : Valor)
  | etiqueta (e : Etiqueta)
  | salta (e : Etiqueta)
  | saltaSi (cond : Valor) (cierto falso : Etiqueta)
  | devuelve (valor : Option Valor)
  deriving DecidableEq

/-- `forma.rs:406–451`. -/
structure FuncionIr where
  parametros : Nat
  locales : Nat
  medidasLocales : List Nat
  temporales : Nat
  instrucciones : List Instr
  deriving DecidableEq

/-! ### What an instruction does with the temporals -/

/-- The temporals of a value. -/
def Valor.temporales : Valor → List Temporal
  | .temporal t => [t]
  | _ => []

namespace Instr

/-- The values that an instruction needs. -/
def valores : Instr → List Valor
  | mueve _ origen => [origen]
  | binaria _ _ _ _ izquierda derecha => [izquierda, derecha]
  | unaria _ _ _ valor => [valor]
  | comprueba _ _ sobre contra => sobre :: contra.toList
  | direccion _ _ => []
  | direccionDeLocal _ _ => []
  | montonDeLaTarea _ => []
  | convierte _ valor _ _ => [valor]
  | llama _ que argumentos => que :: argumentos
  | lee _ dir _ => [dir]
  | escribe dir valor _ => [dir, valor]
  | metal _ _ argumentos => argumentos
  | guarda _ valor => [valor]
  | etiqueta _ => []
  | salta _ => []
  | saltaSi cond _ _ => [cond]
  | devuelve valor => valor.toList

/-- The temporals that an instruction reads. -/
def usa (i : Instr) : List Temporal := i.valores.flatMap Valor.temporales

/-- The temporal that an instruction writes. -/
def define : Instr → Option Temporal
  | mueve d _ => some d
  | binaria d _ _ _ _ _ => some d
  | unaria d _ _ _ => some d
  | direccion d _ => some d
  | direccionDeLocal d _ => some d
  | montonDeLaTarea d => some d
  | convierte d _ _ _ => some d
  | llama d _ _ => d
  | lee d _ _ => some d
  | metal d _ _ => d
  | comprueba _ _ _ _ => none
  | escribe _ _ _ => none
  | guarda _ _ => none
  | etiqueta _ => none
  | salta _ => none
  | saltaSi _ _ _ => none
  | devuelve _ => none

/-- The jumps. -/
def esSalto : Instr → Bool
  | salta _ => true
  | saltaSi _ _ _ => true
  | _ => false

end Instr

/-! ### Paths -/

namespace FuncionIr

variable (f : FuncionIr)

/-- The place of a label: that of the first one, or the end of the function; `funcion.rs:712–721`. -/
def sitioDeEtiqueta (e : Etiqueta) : Nat :=
  f.instrucciones.findIdx (· == .etiqueta e)

/-- From an instruction to one that comes after it in some execution. -/
def Paso (i j : Nat) : Prop :=
  match f.instrucciones[i]? with
  | none => False
  | some (.salta e) => j = f.sitioDeEtiqueta e
  | some (.saltaSi _ _ falso) => j = i + 1 ∨ j = f.sitioDeEtiqueta falso
  | some (.devuelve _) => False
  | some _ => j = i + 1

/-- A way of one or more instructions. -/
def Camino (i j : Nat) : Prop := Relation.TransGen f.Paso i j

/-- A temporal is written before an instruction and read after it, on one way. -/
def Cruza (t : Temporal) (j : Nat) : Prop :=
  ∃ i k a b, f.instrucciones[i]? = some a ∧ a.define = some t ∧ f.Camino i j ∧ f.Camino j k ∧
    f.instrucciones[k]? = some b ∧ t ∈ b.usa

end FuncionIr

open BmoX.Base

/-! ### The frame of a function -/

/-- `marco.rs:52`. -/
def PALABRA : Int := 8

/-- `marco.rs:69–74`. -/
inductive Sitio
  | registro (r : Nat)
  | pila (disp : Int)
  deriving DecidableEq

/-- From where to where a temporal lives; without a start, it is not used. `marco.rs:307–314`. -/
structure Tramo where
  nace : Option Nat
  muere : Nat
  deriving DecidableEq

/-- `marco.rs:316–324`. -/
def Tramo.toca (i : Nat) (e : Tramo) : Tramo where
  nace := some (e.nace.getD i)
  muere := if i > e.muere then i else e.muere

/-- The temporals of a value, for the lives; `marco.rs:326–330`. -/
def mira : Valor → List Temporal
  | .temporal t => [t]
  | _ => []

/-- The temporals that are touched at an instruction; `marco.rs:333–431`. -/
def toques : Instr → List Temporal
  | .mueve destino origen => mira origen ++ [destino]
  | .binaria destino _ _ _ izquierda derecha => mira izquierda ++ mira derecha ++ [destino]
  | .unaria destino _ _ valor => mira valor ++ [destino]
  | .convierte destino valor _ _ => mira valor ++ [destino]
  | .comprueba _ _ sobre contra => mira sobre ++ contra.toList.flatMap mira
  | .direccion destino _ => [destino]
  | .montonDeLaTarea destino => [destino]
  | .direccionDeLocal destino _ => [destino]
  | .lee destino direccion _ => mira direccion ++ [destino]
  | .escribe direccion valor _ => mira direccion ++ mira valor
  | .guarda _ valor => mira valor
  | .devuelve (some v) => mira v
  | .saltaSi cond _ _ => mira cond
  | .llama destino que argumentos => mira que ++ argumentos.flatMap mira ++ destino.toList
  | .metal destino _ argumentos => argumentos.flatMap mira ++ destino.toList
  | .etiqueta _ => []
  | .salta _ => []
  | .devuelve none => []

/-- The touches of the instructions from the `i`-th on. -/
def tramosDesde : Nat → List Instr → List Tramo → List Tramo
  | _, [], tramos => tramos
  | i, instr :: resto, tramos =>
    tramosDesde (i + 1) resto ((toques instr).foldl (fun ts t ↦ ts.modify t (Tramo.toca i)) tramos)

/-- `marco.rs:440–443`. -/
def haySaltos (f : FuncionIr) : Bool := f.instrucciones.any Instr.esSalto

/-- A temporal that the function does not declare stops the compiler; `marco.rs:313–454`. -/
def tramosDeVida (f : FuncionIr) : Option (List Tramo) :=
  if f.instrucciones.all fun i ↦ (toques i).all (· < f.temporales) then
    let tramos := tramosDesde 0 f.instrucciones (List.replicate f.temporales ⟨none, 0⟩)
    let fin := f.instrucciones.length
    some (if haySaltos f
      then tramos.map fun t ↦ if t.nace.isSome then { t with muere := fin } else t
      else tramos)
  else none

/-- What is alive: until where, in which register, and which temporal. -/
structure Vivo where
  fin : Nat
  reg : Nat
  temporal : Temporal
  deriving DecidableEq

/-- The places so far, the free registers from the next one on, and what is alive. -/
structure Reparto where
  sitios : List Sitio
  libres : List Nat
  vivos : List Vivo
  deriving DecidableEq

/-- A temporal gets a register, where one is free; `marco.rs:283–306`. -/
def Reparto.asigna (r : Reparto) (temporal : Temporal) (tramo : Tramo) : Reparto :=
  match tramo.nace with
  | none => r
  | some nace =>
    let libres := (r.vivos.filter (·.fin < nace)).foldl (fun ls v ↦ v.reg :: ls) r.libres
    let vivos := r.vivos.filter (¬ ·.fin < nace)
    match libres with
    | reg :: resto =>
      ⟨r.sitios.set temporal (.registro reg), resto, vivos ++ [⟨tramo.muere, reg, temporal⟩]⟩
    | [] => ⟨r.sitios, [], vivos⟩

/-- The temporals from the `t`-th on. -/
def reparteDesde : Nat → List Tramo → Reparto → Reparto
  | _, [], r => r
  | t, tramo :: resto, r => reparteDesde (t + 1) resto (r.asigna t tramo)

/-- `marco.rs:255`. -/
def llamaAlguien (f : FuncionIr) : Bool :=
  f.instrucciones.any fun
    | .llama .. => true
    | _ => false

/-- The registers that are given out; `marco.rs:255–262`. -/
def pool (f : FuncionIr) (disponibles preservados : List Nat) : List Nat :=
  if llamaAlguien f then preservados else disponibles ++ preservados

/-- `marco.rs:236–307`. -/
def reparte (f : FuncionIr) (enPila : Temporal → Int) (disponibles preservados : List Nat) :
    Option (List Sitio) := do
  let sitios := (List.range f.temporales).map fun t ↦ Sitio.pila (enPila t)
  if pool f disponibles preservados = [] then some sitios
  else
    let tramos ← tramosDeVida f
    some (reparteDesde 0 tramos ⟨sitios, pool f disponibles preservados, []⟩).sitios

/-! ### The frame -/

/-- `marco.rs:76–94`. -/
structure Marco where
  sitiosLocales : List Int
  bytesLocales : Int
  temporales : Nat
  sitios : List Sitio
  guardados : List Nat
  deriving DecidableEq

/-- The size of a local; `marco.rs:123–129`. -/
def medida (f : FuncionIr) (i : Nat) : Nat :=
  match f.medidasLocales[i]? with
  | some m => if m > 0 then m else 8
  | none => 8

/-- Where the frame ends after a local of that size; `marco.rs:130–136`. -/
def avanza (cursor : Int) (medida : Nat) : Int :=
  let medida := i32 medida
  let alineacion := max (min medida PALABRA) 1
  let cursor := i32 (cursor + medida)
  if cursor.tmod alineacion ≠ 0 then i32 (cursor + (alineacion - cursor.tmod alineacion)) else cursor

/-- The ends of the frame after each local. -/
def cursores (cursor : Int) : List Nat → List Int
  | [] => []
  | m :: ms => avanza cursor m :: cursores (avanza cursor m) ms

/-- The place of a temporal in the frame; `marco.rs:219–228`. -/
def enPilaDe (bytesLocales : Int) (t : Temporal) : Int :=
  i32 (-(i32 (bytesLocales + i32 (i32 (i32 t + 1) * PALABRA))))

/-- `marco.rs:111–161`. -/
def conRegistros (f : FuncionIr) (disponibles preservados : List Nat) : Option Marco := do
  let cs := cursores 0 ((List.range f.locales).map (medida f))
  let bytesLocales := cs.getLast?.getD 0
  let sitios ← reparte f (enPilaDe bytesLocales) disponibles preservados
  let usados := sitios.foldl (fun usados s ↦
    match s with
    | .registro r => if r ∈ preservados ∧ r ∉ usados then usados ++ [r] else usados
    | .pila _ => usados) []
  some ⟨cs.map fun c ↦ i32 (-c), bytesLocales, f.temporales, sitios, usados⟩

namespace Marco

variable (m : Marco)

/-- `marco.rs:219–228`. -/
def enPila (t : Temporal) : Int := enPilaDe m.bytesLocales t

/-- `marco.rs:169–171`. -/
def sitioGuardado (k : Nat) : Int :=
  i32 (-(i32 (m.bytesLocales + i32 (i32 (i32 (i32 m.temporales + i32 k) + 1) * PALABRA))))

/-- `marco.rs:184–189`. -/
def size : Int :=
  let bruto := i32 (i32 (m.bytesLocales + i32 (i32 m.temporales * PALABRA)) +
    i32 (i32 m.guardados.length * PALABRA))
  let x := i32 (bruto + 15)
  x - x % 16

/-- `marco.rs:193–203`. -/
def deLocal (l : Local) : Int := m.sitiosLocales[l]?.getD (i32 (-(i32 (i32 (i32 l + 1) * PALABRA))))

/-- `marco.rs:206–212`. -/
def sitio (t : Temporal) : Sitio := m.sitios[t]?.getD (.pila (m.enPila t))

end Marco

end BmoX.Inti
