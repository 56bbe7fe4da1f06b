import BmoX.Inti.Marco

/-!
# The code of an instruction

`toolchain/lang/inti/emisor-x86_64/src/{funcion,operaciones,reglas,metal,puerta}.rs`. Each instruction
of a function becomes some of the machine, on the two registers of work, on those that its tables name,
and on the places of its temporals.
-/

namespace BmoX.Inti

/-- `lib.rs:91`: `rax`. -/
def IZQ : Nat := 0

/-- `lib.rs:92`: `rcx`. -/
def DER : Nat := 1

/-- `types/convention.rs:46`. -/
def ARGUMENTOS : List Nat := [7, 6, 2, 1, 8, 9]

/-! ### The machine -/

/-- The instructions of the machine that are emitted, by the routines that write their bytes. -/
inductive Ins
  | movImm (d : Nat) (v : UInt64)
  | zero (d : Nat)
  | mov (d s : Nat)
  | mov32 (d s : Nat)
  | deMarco (d : Nat) (disp : Int)
  | aMarco (disp : Int) (s : Nat)
  | lea (d : Nat) (disp : Int)
  | add (d s : Nat)
  | sub (d s : Nat)
  | imul (d s : Nat)
  | and (d s : Nat)
  | or (d s : Nat)
  | xor (d s : Nat)
  | neg (d : Nat)
  | shlCl (d : Nat)
  | shrCl (d : Nat)
  | sarCl (d : Nat)
  | shlImm (d k : Nat)
  | shrImm (d k : Nat)
  | mul (s : Nat)
  | div (s : Nat)
  | idiv (s : Nat)
  | cqo
  | cmp (a b : Nat)
  | cmpImm (a : Nat) (v : Int)
  | test (a b : Nat)
  | setcc (cc d : Nat)
  | andLow (d s : Nat)
  | orLow (d s : Nat)
  | movzxLow (d s : Nat)
  | movsx (bytes d s : Nat)
  | movqXmm (x s : Nat)
  | movqDeXmm (d x : Nat)
  | sse (op : Op)
  | comisd
  | cvtsi2sd (s : Nat)
  | cvttsd2si (d : Nat)
  | leeEn (ancho d s : Nat)
  | escribeEn (ancho d s : Nat)
  | xchg (a b : Nat)
  | atrapa (cc codigo : Nat)
  | saltaAlFinal (e : Etiqueta)
  | saltaSiCero (e : Etiqueta)
  | corto (cc : Nat)
  | cierraCorto
  | push (s : Nat)
  | retira (bytes : Nat)
  | call (n : String)
  | syscall
  | crudo (instruccion : String) (bytes : List Nat)
  | popMarco
  | ret
  deriving DecidableEq

/-- The registers that a call may leave in any state: all but the stack and those that are preserved
by whoever uses them; `inti.toml`, `[registros]`. -/
def pisaLlamada : List Nat := [0, 1, 2, 6, 7, 8, 9, 10, 11]

/-- The general registers that the processor writes in an instruction of the table, but the stack.
`xchg`, `xadd` and `cmpxchg` have the one of their result, and an instruction that is not of the table
could write any. -/
def silicio (instruccion : String) : List Nat :=
  if instruccion = "cpuid" then [0, 3, 1, 2]
  else if instruccion ∈ ["rdtsc", "rdmsr", "xgetbv"] then [0, 2]
  else if instruccion = "rdtscp" then [0, 2, 1]
  else if instruccion ∈ ["syscall", "syscall_valor"] then [0, 2, 1, 11]
  else if instruccion ∈ ["inb", "inw", "inl", "cr0", "cr2", "cr3", "cr4", "flags", "xchg", "cmpxchg",
    "xadd", "popcnt", "bsf", "bsr", "tzcnt", "lzcnt", "bswap", "bswap64", "rdrand", "rdseed"] then [0]
  else if instruccion = "absd" then [1, 0]
  else if instruccion ∈ ["hlt", "pause", "nop", "cli", "sti", "mfence", "lfence", "sfence", "wbinvd",
    "swapgs", "int3", "outb", "outw", "outl", "wrmsr", "set_cr0", "set_cr3", "set_cr4", "invlpg",
    "clflush", "invd", "lgdt", "lidt", "sgdt", "sidt", "ltr", "lldt", "xsetbv", "set_flags",
    "lock_add", "lock_or", "lock_and", "monitor", "mwait", "ud2", "sqrtsd", "minsd", "maxsd",
    "avx_suma4", "avx_resta4", "avx_por4", "avx_funde4", "avx_sin_altos", "bits_de_flotante",
    "flotante_de_bits"] then []
  else List.range 16

/-- The general registers that an instruction writes. -/
def Ins.escribe : Ins → List Nat
  | movImm d _ | zero d | mov d _ | mov32 d _ | deMarco d _ | lea d _ => [d]
  | add d _ | sub d _ | imul d _ | and d _ | or d _ | xor d _ | neg d => [d]
  | shlCl d | shrCl d | sarCl d | shlImm d _ | shrImm d _ => [d]
  | mul _ | div _ | idiv _ => [0, 2]
  | cqo => [2]
  | setcc _ d | andLow d _ | orLow d _ | movzxLow d _ | movsx _ d _ => [d]
  | movqDeXmm d _ | cvttsd2si d | leeEn _ d _ => [d]
  | xchg a b => [a, b]
  | push _ | retira _ => [4]
  | call _ => pisaLlamada
  | syscall => silicio "syscall"
  | crudo instruccion _ => silicio instruccion
  | popMarco => [4, 5]
  | ret => [4]
  | aMarco _ _ | cmp _ _ | cmpImm _ _ | test _ _ | movqXmm _ _ | sse _ | comisd | cvtsi2sd _ => []
  | escribeEn _ _ _ | atrapa _ _ | saltaAlFinal _ | saltaSiCero _ | corto _ | cierraCorto => []

/-! ### The tables -/

/-- A row of `intrinsics.toml`. -/
structure Fila where
  nombre : String
  bytes : List Nat
  args : List String
  returns : Option String
  deriving DecidableEq

/-- `puerta.rs:30–39`. -/
structure Puerta where
  numero : Nat
  argumentos : List Nat
  codigo : Nat
  valor : Nat
  deriving DecidableEq

/-- `puerta.rs:103–108`. -/
def Puerta.recogida (p : Puerta) (que : Option String) : Nat :=
  if que = some "valor" then p.valor else p.codigo

/-- `lib.rs:189–215`. -/
structure Taller where
  puerta : Puerta
  nombresDePuerta : List String
  recoge : List (String × String)
  cruza : List (String × String)
  temporales : List Nat
  preservados : List Nat
  maquina : Option (List (String × String))
  intrinsecos : Option (List Fila)

namespace Taller

variable (taller : Taller)

/-- The row of a name of INTI. -/
def fila (nombre : String) : Option Fila := do
  let maquina ← taller.maquina
  let instruccion ← maquina.lookup nombre
  let intrinsecos ← taller.intrinsecos
  intrinsecos.find? (·.nombre = instruccion)

end Taller

/-- `metal.rs:227–243`. -/
def registroLlamado (nombre : String) : Option Nat :=
  if nombre ∈ ["rax", "eax", "ax", "al"] then some 0
  else if nombre ∈ ["rcx", "ecx", "cx", "cl"] then some 1
  else if nombre ∈ ["rdx", "edx", "dx", "dl"] then some 2
  else if nombre ∈ ["rbx", "ebx", "bx", "bl"] then some 3
  else if nombre = "rsp" then some 4
  else if nombre = "rbp" then some 5
  else if nombre ∈ ["rsi", "esi", "si"] then some 6
  else if nombre ∈ ["rdi", "edi", "di"] then some 7
  else if nombre = "r8" then some 8
  else if nombre = "r9" then some 9
  else if nombre = "r10" then some 10
  else if nombre = "r11" then some 11
  else none

/-- `metal.rs:251–259`. -/
def registroFlotante (nombre : String) : Option Nat :=
  if nombre = "xmm0" then some 0
  else if nombre = "xmm1" then some 1
  else if nombre = "xmm2" then some 2
  else if nombre = "xmm3" then some 3
  else none

/-- The registers of a row; `metal.rs:207–214`. -/
def Fila.pisa (fila : Fila) : List Nat :=
  fila.args.filterMap registroLlamado ++ (fila.returns.bind registroLlamado).toList

/-- The names of the machine in a function. -/
def metales (f : FuncionIr) : List String :=
  f.instrucciones.filterMap fun
    | .metal _ nombre _ => some nombre
    | _ => none

/-- The registers that a function writes by the instructions of its machine; the order is of no use.
`metal.rs:191–219`. -/
def registrosQuePisa (f : FuncionIr) (taller : Taller) : List Nat :=
  if taller.maquina.isNone ∨ taller.intrinsecos.isNone then List.range 16
  else if (metales f).all fun n ↦ (taller.fila n).isSome then
    2 :: ((metales f).filterMap taller.fila).flatMap Fila.pisa
  else List.range 16

/-- The frame of a function; `funcion.rs:26–42`. -/
def marcoDe (f : FuncionIr) (taller : Taller) : Option Marco :=
  let pisados := registrosQuePisa f taller
  conRegistros f (taller.temporales.filter (· ∉ pisados)) (taller.preservados.filter (· ∉ pisados))

/-! ### The emission -/

variable (taller : Taller) (marco : Marco)

/-- A value to a register; `lib.rs:612–645`. -/
def carga (reg : Nat) : Valor → List Ins
  | .const (.entero n) => [.movImm reg (UInt64.ofInt n)]
  | .const (.flotante bits) => [.movImm reg bits]
  | .const (.logico b) => [.movImm reg (if b then 1 else 0)]
  | .const .nada => [.zero reg]
  | .const (.decimal _) => [.zero reg]
  | .const (.texto _) => [.zero reg]
  | .local l => [.deMarco reg (marco.deLocal l)]
  | .temporal t =>
    match marco.sitio t with
    | .registro r => if r ≠ reg then [.mov reg r] else []
    | .pila disp => [.deMarco reg disp]
  | .nombre _ => [.zero reg]

/-- A register to a temporal; `lib.rs:647–661`. -/
def guardaTemporal (reg : Nat) (t : Temporal) : List Ins :=
  match marco.sitio t with
  | .registro r => if r ≠ reg then [.mov r reg] else []
  | .pila disp => [.aMarco disp reg]

/-- `lib.rs:603–610`. -/
def epilogo : List Ins :=
  (marco.guardados.mapIdx fun k reg ↦ Ins.deMarco reg (marco.sitioGuardado k)) ++
    [Ins.mov 4 5, .popMarco, .ret]

/-- `operaciones.rs:23–157`. -/
def binaria (op : Op) (sinSigno : Bool) : List Ins :=
  match op with
  | .suma => [.add IZQ DER]
  | .resta => [.sub IZQ DER]
  | .por => if sinSigno then [.mul DER] else [.imul IZQ DER]
  | .entre | .divide => if sinSigno then [.zero 2, .div DER] else [.cqo, .idiv DER]
  | .resto => (if sinSigno then [.zero 2, .div DER] else [Ins.cqo, .idiv DER]) ++ [Ins.mov IZQ 2]
  | .bitsY | .y => [.and IZQ DER]
  | .bitsO | .o => [.or IZQ DER]
  | .bitsXor => [.xor IZQ DER]
  | .desplazaIzquierda => [.shlCl IZQ, .cmpImm DER 64, .corto 0x72, .zero IZQ, .cierraCorto]
  | .desplazaDerecha =>
    [if sinSigno then .shrCl IZQ else .sarCl IZQ, .cmpImm DER 64, .corto 0x72, .zero IZQ, .cierraCorto]
  | .igual => [.cmp IZQ DER, .setcc 0x94 IZQ, .movzxLow IZQ IZQ]
  | .noEs => [.cmp IZQ DER, .setcc 0x95 IZQ, .movzxLow IZQ IZQ]
  | .menor => [.cmp IZQ DER, .setcc (if sinSigno then 0x92 else 0x9C) IZQ, .movzxLow IZQ IZQ]
  | .mayor => [.cmp IZQ DER, .setcc (if sinSigno then 0x97 else 0x9F) IZQ, .movzxLow IZQ IZQ]
  | .menorIgual => [.cmp IZQ DER, .setcc (if sinSigno then 0x96 else 0x9E) IZQ, .movzxLow IZQ IZQ]
  | .mayorIgual => [.cmp IZQ DER, .setcc (if sinSigno then 0x93 else 0x9D) IZQ, .movzxLow IZQ IZQ]
  | .elevado | .esUn => []

/-- A comparison of floats, of one register with another. -/
def comparaFlotantes (a b : Nat) : List Ins := [.movqXmm 0 a, .movqXmm 1 b, .comisd]

/-- `operaciones.rs:186–261`. -/
def flotante (op : Op) : List Ins :=
  match op with
  | .suma | .resta | .por | .divide =>
    [.movqXmm 0 IZQ, .movqXmm 1 DER, .sse op, .movqDeXmm IZQ 0]
  | .mayor => comparaFlotantes IZQ DER ++ [Ins.setcc 0x97 IZQ, .movzxLow IZQ IZQ]
  | .menor => comparaFlotantes DER IZQ ++ [Ins.setcc 0x97 IZQ, .movzxLow IZQ IZQ]
  | .mayorIgual => comparaFlotantes IZQ DER ++ [Ins.setcc 0x93 IZQ, .movzxLow IZQ IZQ]
  | .menorIgual => comparaFlotantes DER IZQ ++ [Ins.setcc 0x93 IZQ, .movzxLow IZQ IZQ]
  | .igual => comparaFlotantes IZQ DER ++
    [Ins.setcc 0x94 IZQ, .setcc 0x9B DER, .andLow IZQ DER, .movzxLow IZQ IZQ]
  | .noEs => comparaFlotantes IZQ DER ++
    [Ins.setcc 0x95 IZQ, .setcc 0x9A DER, .orLow IZQ DER, .movzxLow IZQ IZQ]
  | .entre | .resto | .elevado | .esUn | .y | .o | .bitsY | .bitsO | .bitsXor
  | .desplazaIzquierda | .desplazaDerecha => []

/-- `forma.rs:111–120`. -/
def Comprobacion.codigo : Comprobacion → Nat
  | desborde | cociente => 1001
  | indice => 1002
  | entreCero => 1003
  | conversion _ => 1012

/-- `reglas.rs:50–106`. -/
def reglaDoce (sobre : Valor) (bytes codigo : Nat) : List Ins :=
  carga marco IZQ sobre ++
    [Ins.movqXmm 0 IZQ, .cvttsd2si IZQ, .movImm DER 0x8000000000000000, .cmp IZQ DER, .corto 0x75,
      .movImm DER 0xC3E0000000000000, .movqXmm 1 DER, .comisd, .atrapa 0x8A codigo,
      .atrapa 0x85 codigo, .cierraCorto] ++
    if bytes ≥ 8 then [] else [.movsx bytes DER IZQ, .cmp IZQ DER, .atrapa 0x85 codigo]

/-- A value that is not to be zero. -/
def noCero (sobre : Valor) (codigo : Nat) : List Ins :=
  carga marco IZQ sobre ++ [Ins.test IZQ IZQ, .atrapa 0x84 codigo]

/-- `funcion.rs:208–330`. -/
def comprueba (que : Comprobacion) (sinSigno : Bool) (sobre : Valor) (contra : Option Valor) :
    List Ins :=
  match que with
  | .desborde => [.atrapa (if sinSigno then 0x82 else 0x80) que.codigo]
  | .entreCero => noCero marco sobre que.codigo
  | .cociente =>
    match contra with
    | none => []
    | some divisor =>
      carga marco DER divisor ++ [Ins.cmpImm DER (-1), .corto 0x75] ++ carga marco IZQ sobre ++
        [Ins.movImm 2 0x8000000000000000, .cmp IZQ 2, .atrapa 0x84 que.codigo, .cierraCorto]
  | .conversion bytes => reglaDoce marco sobre bytes que.codigo
  | .indice => noCero marco sobre que.codigo

/-- The arguments of an instruction of the machine, each in its register, and if all of them have
one; `metal.rs:116–153`. -/
def argumentosMetal : List String → List Valor → List Ins × Bool
  | arg :: args, a :: as =>
    if arg = "u64_edx_eax" then
      let (resto, bien) := argumentosMetal args as
      (carga marco IZQ a ++ [Ins.mov 2 IZQ, .shrImm 2 32] ++ resto, bien)
    else
      match registroFlotante arg with
      | some x =>
        let (resto, bien) := argumentosMetal args as
        (carga marco IZQ a ++ [Ins.movqXmm x IZQ] ++ resto, bien)
      | none =>
        match registroLlamado arg with
        | some r =>
          let (resto, bien) := argumentosMetal args as
          (carga marco r a ++ resto, bien)
        | none => ([], false)
  | _, _ => ([], true)

/-- `metal.rs:267–297`. -/
def recogeDe : Option String → List Ins
  | some n =>
    if n = "u64_edx_eax" then [.shlImm 2 32, .or IZQ 2]
    else if n = "al" ∨ n = "ax" then [.movzxLow IZQ IZQ]
    else if n = "rdx" ∨ n = "edx" then [.mov IZQ 2]
    else
      match registroFlotante n with
      | some x => [.movqDeXmm IZQ x]
      | none => []
  | none => [.zero IZQ]

/-- `metal.rs:59–159`; what cannot be emitted is reported, and leaves nothing or its arguments. -/
def metal (nombre : String) (argumentos : List Valor) (destino : Option Temporal) : List Ins :=
  match taller.fila nombre with
  | none => []
  | some fila =>
    if argumentos.length ≠ fila.args.length then []
    else
      let (args, bien) := argumentosMetal marco fila.args argumentos
      if bien then
        args ++ .crudo fila.nombre fila.bytes :: recogeDe fila.returns ++
          destino.toList.flatMap (guardaTemporal marco IZQ)
      else args

/-- `surface/puertas.rs:18, 44`. -/
def NR_INVOKE : UInt64 := 0x00

def NR_WAIT : UInt64 := 0x02

/-- A call through the door of the kernel; `funcion.rs:368–412`. -/
def llamaPuerta (n : String) (argumentos : List Valor) (destino : Option Temporal) : List Ins :=
  let p := taller.puerta
  let nr := if taller.cruza.lookup n = some "espera" then NR_WAIT else NR_INVOKE
  let recoge := taller.recoge.lookup n
  let de := p.recogida recoge
  (p.argumentos.zip argumentos).flatMap (fun (r, a) ↦ carga marco r a) ++
    [Ins.movImm p.numero nr, .syscall] ++
    destino.toList.flatMap fun d ↦
      (if recoge ≠ some "valor" then [.mov32 de de] else []) ++ guardaTemporal marco de d

/-- A call; `funcion.rs:353–455`. -/
def llama (destino : Option Temporal) (que : Valor) (argumentos : List Valor) : List Ins :=
  let normal :=
    (argumentos.drop 6).reverse.flatMap (fun a ↦ carga marco 0 a ++ [Ins.push 0]) ++
      (ARGUMENTOS.zip argumentos).flatMap (fun (r, a) ↦ carga marco r a) ++
      (match que with
        | .nombre n => [.call n]
        | _ => []) ++
      (if argumentos.length > 6 then [.retira ((argumentos.length - 6) * 8)] else []) ++
      destino.toList.flatMap (guardaTemporal marco IZQ)
  match que with
  | .nombre n =>
    if n ∈ taller.nombresDePuerta then llamaPuerta taller marco n argumentos destino else normal
  | _ => normal

/-- `funcion.rs:102–655`. -/
def emitir : Instr → List Ins
  | .etiqueta _ => []
  | .mueve destino origen => carga marco IZQ origen ++ guardaTemporal marco IZQ destino
  | .guarda destino valor => carga marco IZQ valor ++ [Ins.aMarco (marco.deLocal destino) IZQ]
  | .binaria destino op clase sinSigno izquierda derecha =>
    carga marco IZQ izquierda ++ carga marco DER derecha ++
      (match clase with
        | .entero => binaria op sinSigno
        | .flotante => flotante op) ++
      guardaTemporal marco IZQ destino
  | .convierte destino valor desde hacia =>
    carga marco IZQ valor ++
      (match desde, hacia with
        | .entero, .flotante => [.cvtsi2sd IZQ, .movqDeXmm IZQ 0]
        | .flotante, .entero => [.movqXmm 0 IZQ, .cvttsd2si IZQ]
        | _, _ => []) ++
      guardaTemporal marco IZQ destino
  | .unaria destino op clase valor =>
    carga marco IZQ valor ++
      (match op, clase with
        | .menos, .flotante => [.movImm 1 0x8000000000000000, .xor 0 1]
        | .menos, .entero => [.neg IZQ]
        | .no, _ => [Ins.test IZQ IZQ, .setcc 0x94 0, .movzxLow 0 0]) ++
      guardaTemporal marco IZQ destino
  | .comprueba que sinSigno sobre contra => comprueba marco que sinSigno sobre contra
  | .devuelve valor => valor.toList.flatMap (carga marco IZQ) ++ epilogo marco
  | .salta e => [.saltaAlFinal e]
  | .saltaSi cond _ falso => carga marco IZQ cond ++ [Ins.test IZQ IZQ, .saltaSiCero falso]
  | .llama destino que argumentos => llama taller marco destino que argumentos
  | .lee destino direccion ancho =>
    carga marco IZQ direccion ++
      [if ancho ∈ [1, 2, 4, 8] then .leeEn ancho IZQ IZQ else .zero IZQ] ++
      guardaTemporal marco IZQ destino
  | .direccion destino _ => .movImm IZQ 0 :: guardaTemporal marco IZQ destino
  | .direccionDeLocal destino l => .lea IZQ (marco.deLocal l) :: guardaTemporal marco IZQ destino
  | .montonDeLaTarea destino =>
    .movImm IZQ 0 :: .leeEn 8 IZQ IZQ :: guardaTemporal marco IZQ destino
  | .escribe direccion valor ancho =>
    let en (r : Nat) : Valor → Bool
      | .temporal t => marco.sitio t = .registro r
      | _ => false
    (if en IZQ valor ∧ en DER direccion then [.xchg IZQ DER]
      else if en DER direccion then carga marco IZQ direccion ++ carga marco DER valor
      else carga marco DER valor ++ carga marco IZQ direccion) ++
      if ancho ∈ [1, 2, 4, 8] then [.escribeEn ancho IZQ DER] else []
  | .metal destino nombre argumentos => metal taller marco nombre argumentos destino

end BmoX.Inti
