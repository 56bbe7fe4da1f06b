import BmoX.Inti.Pisadas
import BmoX.Inti.Reparto
import Mathlib.Data.Int.ConditionallyCompleteOrder
import Mathlib.Data.List.Perm.Subperm

/-!
# The places of a function

Two temporals that are alive at once have no place in common, no instruction writes the register of a
temporal whose life crosses it, and the places in the frame are apart from one another. It holds
where `cpuid` is not used, where the temporals are named in their order, which a function with jumps
may ignore, and where the frame does not reach 2 GiB.

`toolchain/forge/sem-asm/tables/arch/x86_64/` and `lib.rs:217–240`. The row of `cpuid` names one
register, and it writes four.
-/

namespace BmoX.Inti

/-! ### The tables of this machine -/

/-- `inti.toml`, `[nombres]`. -/
def nombresX86 : List (String × String) :=
  [("raiz", "sqrtsd"), ("minimo", "minsd"), ("maximo", "maxsd"), ("suma_de_cuatro", "avx_suma4"),
    ("resta_de_cuatro", "avx_resta4"), ("por_de_cuatro", "avx_por4"),
    ("funde_de_cuatro", "avx_funde4"), ("limpia_los_altos", "avx_sin_altos"), ("absoluto", "absd"),
    ("bits_de", "bits_de_flotante"), ("flotante_de", "flotante_de_bits"), ("lee_reloj", "rdtsc"),
    ("lee_reloj_serio", "rdtscp"), ("espera", "pause"), ("detiene", "hlt"),
    ("nada_que_hacer", "nop"), ("entrada_puerto", "inb"), ("entrada_puerto16", "inw"),
    ("entrada_puerto32", "inl"), ("escribe_puerto", "outb"), ("escribe_puerto16", "outw"),
    ("escribe_puerto32", "outl"), ("lee_msr", "rdmsr"), ("escribe_msr", "wrmsr"),
    ("lee_cr0", "cr0"), ("escribe_cr0", "set_cr0"), ("lee_cr3", "cr3"), ("escribe_cr3", "set_cr3"),
    ("sin_interrupciones", "cli"), ("con_interrupciones", "sti"), ("tira_la_cache", "wbinvd"),
    ("olvida_pagina", "invlpg"), ("limpia_linea", "clflush"), ("barrera", "mfence"),
    ("barrera_lectura", "lfence"), ("barrera_escritura", "sfence"), ("cuenta_unos", "popcnt"),
    ("primer_uno", "bsf"), ("ultimo_uno", "bsr"), ("ceros_delante", "lzcnt"),
    ("ceros_detras", "tzcnt"), ("da_la_vuelta", "bswap64"), ("da_la_vuelta32", "bswap"),
    ("da_la_vuelta64", "bswap64"), ("azar", "rdrand"), ("azar_de_verdad", "rdseed"),
    ("que_cpu_eres", "cpuid"), ("intercambia", "xchg"), ("compara_y_cambia", "cmpxchg"),
    ("suma_y_devuelve", "xadd"), ("suma_atomica", "lock_add"), ("o_atomica", "lock_or"),
    ("y_atomica", "lock_and"), ("carga_gdt", "lgdt"), ("carga_idt", "lidt"), ("lee_gdt", "sgdt"),
    ("lee_idt", "sidt"), ("carga_tr", "ltr"), ("carga_ldt", "lldt"), ("cambia_gs", "swapgs"),
    ("lee_cr2", "cr2"), ("lee_cr4", "cr4"), ("escribe_cr4", "set_cr4"), ("lee_banderas", "flags"),
    ("escribe_banderas", "set_flags"), ("lee_xcr", "xgetbv"), ("escribe_xcr", "xsetbv"),
    ("vigila", "monitor"), ("duerme_hasta", "mwait"), ("punto_de_ruptura", "int3"),
    ("instruccion_invalida", "ud2"), ("tira_cache_sin_escribir", "invd")]

/-- `intrinsics.toml`. -/
def intrinsecosX86 : List Fila :=
  [⟨"hlt", [244], [], none⟩, ⟨"pause", [243, 144], [], none⟩, ⟨"nop", [144], [], none⟩,
    ⟨"cli", [250], [], none⟩, ⟨"sti", [251], [], none⟩, ⟨"mfence", [15, 174, 240], [], none⟩,
    ⟨"lfence", [15, 174, 232], [], none⟩, ⟨"sfence", [15, 174, 248], [], none⟩,
    ⟨"wbinvd", [15, 9], [], none⟩, ⟨"swapgs", [15, 1, 248], [], none⟩, ⟨"int3", [204], [], none⟩,
    ⟨"rdtsc", [15, 49], [], some "u64_edx_eax"⟩, ⟨"outb", [238], ["dx", "al"], none⟩,
    ⟨"outw", [102, 239], ["dx", "ax"], none⟩, ⟨"outl", [239], ["dx", "eax"], none⟩,
    ⟨"inb", [236], ["dx"], some "al"⟩, ⟨"inw", [102, 237], ["dx"], some "ax"⟩,
    ⟨"inl", [237], ["dx"], some "eax"⟩, ⟨"rdmsr", [15, 50], ["ecx"], some "u64_edx_eax"⟩,
    ⟨"wrmsr", [15, 48], ["ecx", "u64_edx_eax"], none⟩, ⟨"cpuid", [15, 162], ["eax"], some "eax"⟩,
    ⟨"syscall", [15, 5], ["rax", "rdi", "rsi", "rdx", "r10", "r8"], some "rax"⟩,
    ⟨"syscall_valor", [15, 5], ["rax", "rdi", "rsi", "rdx", "r10", "r8"], some "rdx"⟩,
    ⟨"cr0", [15, 32, 192], [], some "rax"⟩, ⟨"set_cr0", [15, 34, 192], ["rax"], none⟩,
    ⟨"cr2", [15, 32, 208], [], some "rax"⟩, ⟨"cr3", [15, 32, 216], [], some "rax"⟩,
    ⟨"set_cr3", [15, 34, 216], ["rax"], none⟩, ⟨"cr4", [15, 32, 224], [], some "rax"⟩,
    ⟨"set_cr4", [15, 34, 224], ["rax"], none⟩, ⟨"invlpg", [15, 1, 56], ["rax"], none⟩,
    ⟨"clflush", [15, 174, 56], ["rax"], none⟩, ⟨"invd", [15, 8], [], none⟩,
    ⟨"lgdt", [15, 1, 16], ["rax"], none⟩, ⟨"lidt", [15, 1, 24], ["rax"], none⟩,
    ⟨"sgdt", [15, 1, 0], ["rax"], none⟩, ⟨"sidt", [15, 1, 8], ["rax"], none⟩,
    ⟨"ltr", [15, 0, 216], ["ax"], none⟩, ⟨"lldt", [15, 0, 208], ["ax"], none⟩,
    ⟨"rdtscp", [15, 1, 249], [], some "u64_edx_eax"⟩,
    ⟨"xgetbv", [15, 1, 208], ["ecx"], some "u64_edx_eax"⟩,
    ⟨"xsetbv", [15, 1, 209], ["ecx", "u64_edx_eax"], none⟩, ⟨"flags", [156, 88], [], some "rax"⟩,
    ⟨"set_flags", [80, 157], ["rax"], none⟩, ⟨"xchg", [72, 135, 7], ["rdi", "rax"], some "rax"⟩,
    ⟨"cmpxchg", [240, 72, 15, 177, 55], ["rdi", "rax", "rsi"], some "rax"⟩,
    ⟨"xadd", [240, 72, 15, 193, 7], ["rdi", "rax"], some "rax"⟩,
    ⟨"lock_add", [240, 72, 1, 7], ["rdi", "rax"], none⟩,
    ⟨"lock_or", [240, 72, 9, 7], ["rdi", "rax"], none⟩,
    ⟨"lock_and", [240, 72, 33, 7], ["rdi", "rax"], none⟩,
    ⟨"popcnt", [243, 15, 184, 192], ["eax"], some "eax"⟩,
    ⟨"bsf", [15, 188, 192], ["eax"], some "eax"⟩, ⟨"bsr", [15, 189, 192], ["eax"], some "eax"⟩,
    ⟨"tzcnt", [243, 15, 188, 192], ["eax"], some "eax"⟩,
    ⟨"lzcnt", [243, 15, 189, 192], ["eax"], some "eax"⟩, ⟨"bswap", [15, 200], ["eax"], some "eax"⟩,
    ⟨"bswap64", [72, 15, 200], ["rax"], some "rax"⟩, ⟨"rdrand", [15, 199, 240], [], some "eax"⟩,
    ⟨"rdseed", [15, 199, 248], [], some "eax"⟩, ⟨"monitor", [15, 1, 200], ["rax"], none⟩,
    ⟨"mwait", [15, 1, 201], [], none⟩, ⟨"ud2", [15, 11], [], none⟩,
    ⟨"sqrtsd", [242, 15, 81, 192], ["xmm0"], some "xmm0"⟩,
    ⟨"minsd", [242, 15, 93, 193], ["xmm0", "xmm1"], some "xmm0"⟩,
    ⟨"maxsd", [242, 15, 95, 193], ["xmm0", "xmm1"], some "xmm0"⟩,
    ⟨"avx_suma4", [197, 253, 16, 6, 197, 253, 16, 10, 197, 253, 88, 193, 197, 253, 17, 7],
      ["rdi", "rsi", "rdx"], none⟩,
    ⟨"avx_resta4", [197, 253, 16, 6, 197, 253, 16, 10, 197, 253, 92, 193, 197, 253, 17, 7],
      ["rdi", "rsi", "rdx"], none⟩,
    ⟨"avx_por4", [197, 253, 16, 6, 197, 253, 16, 10, 197, 253, 89, 193, 197, 253, 17, 7],
      ["rdi", "rsi", "rdx"], none⟩,
    ⟨"avx_funde4", [197, 253, 16, 7, 197, 253, 16, 14, 196, 226, 245, 184, 2, 197, 253, 17, 7],
      ["rdi", "rsi", "rdx"], none⟩,
    ⟨"avx_sin_altos", [197, 248, 119], [], none⟩, ⟨"bits_de_flotante", [], ["rax"], some "rax"⟩,
    ⟨"flotante_de_bits", [], ["rax"], some "rax"⟩,
    ⟨"absd", [72, 185, 255, 255, 255, 255, 255, 255, 255, 127, 72, 33, 200], ["rax"], some "rax"⟩]

/-- `lib.rs:217–240`, with `[reparto]` and `[puerta]` of `inti.toml` and `modulos.toml`. -/
def tallerX86 : Taller where
  puerta := ⟨0, [7, 6, 2, 10, 8, 9], 0, 2⟩
  nombresDePuerta := ["invoca", "invoca_valor", "espera_a", "mi_paquete"]
  recoge := [("invoca", "codigo"), ("invoca_valor", "valor"), ("espera_a", "codigo"),
    ("mi_paquete", "valor")]
  cruza := [("espera_a", "espera")]
  temporales := [2, 6, 7]
  preservados := [3, 12, 13, 14, 15]
  maquina := some nombresX86
  intrinsecos := some intrinsecosX86

theorem bien_tallerX86 : tallerX86.Bien :=
  ⟨by decide, by decide, by decide, by decide⟩

theorem dice_of_mem : ∀ fila ∈ intrinsecosX86, fila.nombre ≠ "cpuid" → tallerX86.Dice fila := by
  decide

private theorem nombre_cpuid : ∀ p ∈ nombresX86, p.2 = "cpuid" → p.1 = "que_cpu_eres" := by
  decide

/-- **What an instruction of the machine writes is in its row**, but for `cpuid`. -/
theorem dice_of_fila {n : String} {fila : Fila} (hfila : tallerX86.fila n = some fila)
    (hn : n ≠ "que_cpu_eres") : tallerX86.Dice fila := by
  have hbind : (nombresX86.lookup n).bind (fun instruccion ↦
      intrinsecosX86.find? (·.nombre = instruccion)) = some fila := hfila
  obtain ⟨instruccion, hlookup, hfind⟩ := Option.bind_eq_some_iff.mp hbind
  have hnombre : fila.nombre = instruccion := by simpa using List.find?_some hfind
  refine dice_of_mem fila (List.mem_of_find?_eq_some hfind) fun hcpuid ↦ hn ?_
  have hmem : (n, instruccion) ∈ nombresX86 := by
    obtain ⟨l, l', heq, -⟩ := List.lookup_eq_some_iff.mp hlookup
    rw [heq]
    exact List.mem_append_right _ List.mem_cons_self
  exact nombre_cpuid _ hmem (hnombre.symm.trans hcpuid)

open BmoX.Base

/-! ### The places of a function -/

variable {f : FuncionIr} {taller : Taller} {marco : Marco}

/-! ### Lives and ways -/

/-- An instruction reads a temporal, or writes it. -/
def Instr.Nombra (i : Instr) (t : Temporal) : Prop := t ∈ i.usa ∨ i.define = some t

private theorem mem_toques {i : Instr} {t : Temporal} : t ∈ toques i ↔ i.Nombra t := by
  have hmira (v : Valor) : mira v = v.temporales := by cases v <;> rfl
  have hmira' : mira = Valor.temporales := funext hmira
  cases i with
  | devuelve v => cases v <;> simp [toques, Instr.Nombra, Instr.usa, Instr.valores, Instr.define, hmira']
  | llama d que as =>
    simp [toques, Instr.Nombra, Instr.usa, Instr.valores, Instr.define, hmira', or_assoc]
  | metal d n as => simp [toques, Instr.Nombra, Instr.usa, Instr.valores, Instr.define, hmira']
  | _ =>
    simp [toques, Instr.Nombra, Instr.usa, Instr.valores, Instr.define, hmira', or_assoc, eq_comm]

private theorem lt_of_paso (h : ¬ haySaltos f) {i j : Nat} (hij : f.Paso i j) : i < j := by
  have hno {instr : Instr} (hi : f.instrucciones[i]? = some instr) : ¬ instr.esSalto := by
    intro hsalto
    exact h (List.any_eq_true.mpr ⟨instr, List.mem_of_getElem? hi, hsalto⟩)
  unfold FuncionIr.Paso at hij
  split at hij
  · exact hij.elim
  next hi => exact absurd rfl (hno hi)
  next hi => exact absurd rfl (hno hi)
  · exact hij.elim
  · omega

private theorem lt_of_camino (h : ¬ haySaltos f) {i j : Nat} (hij : f.Camino i j) : i < j := by
  induction hij with
  | single hp => exact lt_of_paso h hp
  | tail _ hp ih => exact ih.trans (lt_of_paso h hp)

/-- A temporal is named for the first time before those that come after it. -/
def FuncionIr.EnOrden (f : FuncionIr) : Prop :=
  ∀ (a b i j : Nat) (x y : Instr), a < b → f.instrucciones[i]? = some x → x.Nombra a →
    f.instrucciones[j]? = some y → y.Nombra b →
    ∃ (k : Nat) (z : Instr), k ≤ j ∧ f.instrucciones[k]? = some z ∧ z.Nombra a

private theorem nace_of_antes {tramos : List Tramo} (hvidas : Vidas f tramos) (horden : f.EnOrden)
    {a b j : Nat} {x : Instr} (h : Antes tramos (b + 1) a) (hj : f.instrucciones[j]? = some x)
    (hb : b ∈ toques x) {e : Tramo} (he : tramos[a]? = some e) : e.muere < j := by
  obtain ⟨e', c, ec, n, he', hc, hec, hn, hlt⟩ := h
  rw [he] at he'
  cases he'
  obtain ⟨y, hy, hcy⟩ := hvidas.nace hec hn
  rcases Nat.lt_succ_iff_lt_or_eq.mp hc with hcb | rfl
  · obtain ⟨k, z, hk, hz, hcz⟩ := horden c b n j y x hcb hy (mem_toques.mp hcy) hj (mem_toques.mp hb)
    obtain ⟨ec', n', hec', hn', hle, -⟩ := hvidas.toque hz (mem_toques.mpr hcz)
    rw [hec] at hec'
    cases hec'
    rw [hn] at hn'
    cases hn'
    omega
  · obtain ⟨ec', n', hec', hn', hle, -⟩ := hvidas.toque hj hb
    rw [hec] at hec'
    cases hec'
    rw [hn] at hn'
    cases hn'
    omega

/-- **Of two temporals with one register, none is written in the life of the other.** -/
theorem notDefine_of_antes {tramos : List Tramo} (hvidas : Vidas f tramos)
    (horden : haySaltos f ∨ f.EnOrden) {a b : Temporal}
    (h : Antes tramos (b + 1) a ∨ Antes tramos (a + 1) b)
    {j : Nat} {x : Instr} (hj : f.instrucciones[j]? = some x) (hb : x.define = some b) :
    ¬ f.Cruza a j := by
  rintro ⟨i, k, y, z, hi, ha, hij, hjk, hk, haz⟩
  have hby : b ∈ toques x := mem_toques.mpr (.inr hb)
  obtain ⟨ea, na, hea, hna, hle, -⟩ := hvidas.toque hi (mem_toques.mpr (.inr ha))
  obtain ⟨eb, nb, heb, hnb, -, hmb⟩ := hvidas.toque hj hby
  by_cases hsaltos : haySaltos f
  · -- nothing ends before the function does
    have hno {t t' : Temporal} {e : Tramo} {n : Nat} (h : Antes tramos (t' + 1) t)
        (he : tramos[t]? = some e) (hn : e.nace = some n) : False := by
      obtain ⟨e', c, ec, m, he', -, hec, hm, hlt⟩ := h
      rw [he] at he'
      cases he'
      obtain ⟨w, hw, -⟩ := hvidas.nace hec hm
      have hwlt := (List.getElem?_eq_some_iff.mp hw).1
      have hfin := hvidas.saltos hsaltos he hn
      omega
    rcases h with h | h
    · exact hno h hea hna
    · exact hno h heb hnb
  · have hord := horden.resolve_left hsaltos
    have hlt := lt_of_camino hsaltos hij
    have hlt' := lt_of_camino hsaltos hjk
    rcases h with h | h
    · have hfin := nace_of_antes hvidas hord h hj hby hea
      obtain ⟨ea', -, hea', -, -, hmuere⟩ := hvidas.toque hk (mem_toques.mpr (.inl haz))
      rw [hea] at hea'
      cases hea'
      omega
    · have hfin := nace_of_antes hvidas hord h hi (mem_toques.mpr (.inr ha)) heb
      omega

/-! ### Registers -/

private theorem sitios_of_marcoDe (h : marcoDe f taller = some marco) :
    ∃ enPila, reparte f enPila (taller.temporales.filter (· ∉ registrosQuePisa f taller))
      (taller.preservados.filter (· ∉ registrosQuePisa f taller)) = some marco.sitios := by
  unfold marcoDe conRegistros at h
  obtain ⟨sitios, hsitios, h⟩ := Option.bind_eq_some_iff.mp h
  cases h
  exact ⟨_, hsitios⟩

private theorem getElem?_of_sitio {t : Temporal} {r : Nat} (h : marco.sitio t = .registro r) :
    marco.sitios[t]? = some (.registro r) := by
  unfold Marco.sitio at h
  cases hs : marco.sitios[t]? with
  | none =>
    rw [hs] at h
    cases h
  | some s =>
    rw [hs] at h
    exact congrArg some h

/-- The registers of a function, and the lives of its temporals. -/
theorem registros_of_marcoDe (htaller : taller.Bien) (h : marcoDe f taller = some marco) :
    (∀ t r, marco.sitio t ≠ .registro r) ∨
      ∃ tramos, Vidas f tramos ∧ (∀ t r, marco.sitio t = .registro r → r ∈ repartibles f taller) ∧
        ∀ a b r, a < b → marco.sitio a = .registro r → marco.sitio b = .registro r →
          Antes tramos (b + 1) a := by
  obtain ⟨enPila, hreparte⟩ := sitios_of_marcoDe h
  by_cases hpool : repartibles f taller = []
  · refine .inl fun t r ht ↦ ?_
    have hs := getElem?_of_sitio ht
    have hvacio : pool f (taller.temporales.filter (· ∉ registrosQuePisa f taller))
        (taller.preservados.filter (· ∉ registrosQuePisa f taller)) = [] := hpool
    unfold reparte at hreparte
    dsimp only at hreparte
    rw [if_pos hvacio] at hreparte
    rw [← Option.some.inj hreparte, List.getElem?_map, Option.map_eq_some_iff] at hs
    obtain ⟨t', -, hno⟩ := hs
    cases hno
  · have hnodup : (repartibles f taller).Nodup :=
      (repartibles_sublist f taller).nodup htaller.distintos
    obtain ⟨tramos, r, htramos, hsitios, hbien⟩ := bien_of_reparte hnodup hreparte hpool
    have hreg {t : Temporal} {x : Nat} (ht : marco.sitio t = .registro x) :
        r.sitios[t]? = some (.registro x) := by
      rw [← hsitios]
      exact getElem?_of_sitio ht
    exact .inr ⟨tramos, vidas_of_tramosDeVida htramos,
      fun t x ht ↦ (hbien.asignado (hreg ht)).2.1,
      fun a b x hab ha hb ↦ hbien.aparte hab (hreg ha) (hreg hb)⟩

/-- **Two temporals with one register**: none is written in the life of the other. -/
theorem notCruza_of_sitio (htaller : taller.Bien) (h : marcoDe f taller = some marco)
    (horden : haySaltos f ∨ f.EnOrden) {a b : Temporal} {r : Nat} (hab : a ≠ b)
    (ha : marco.sitio a = .registro r) (hb : marco.sitio b = .registro r) {j : Nat} {x : Instr}
    (hj : f.instrucciones[j]? = some x) (hx : x.define = some b) : ¬ f.Cruza a j := by
  rcases registros_of_marcoDe htaller h with hno | ⟨tramos, hvidas, -, haparte⟩
  · exact absurd ha (hno a r)
  · rcases Nat.lt_or_gt_of_ne hab with hlt | hlt
    · exact notDefine_of_antes hvidas horden (.inl (haparte a b r hlt ha hb)) hj hx
    · exact notDefine_of_antes hvidas horden (.inr (haparte b a r hlt hb ha)) hj hx

private theorem guardaTemporal_escribe {reg : Nat} {t : Temporal} {ins : Ins}
    (hins : ins ∈ guardaTemporal marco reg t) {x : Nat} (hx : x ∈ ins.escribe) :
    marco.sitio t = .registro x := by
  unfold guardaTemporal at hins
  split at hins
  next r hr =>
    split at hins
    · rw [List.mem_singleton] at hins
      subst hins
      rw [List.mem_singleton.mp hx, hr]
    · cases hins
  next =>
    rw [List.mem_singleton] at hins
    subst hins
    cases hx

/-- **An instruction in the life of a temporal does not write its register.** -/
theorem notMem_escribe (htaller : taller.Bien) (h : marcoDe f taller = some marco)
    (horden : haySaltos f ∨ f.EnOrden)
    (hdice : ∀ d n as fila, .metal d n as ∈ f.instrucciones → taller.fila n = some fila →
      taller.Dice fila) {t : Temporal} {r : Nat} (ht : marco.sitio t = .registro r) {j : Nat}
    {x : Instr} (hj : f.instrucciones[j]? = some x) (hx : x.define ≠ some t) (hc : f.Cruza t j)
    {ins : Ins} (hins : ins ∈ emitir taller marco x) : r ∉ ins.escribe := by
  intro hr
  have hmem := List.mem_of_getElem? hj
  have hdev (v : Option Valor) : x ≠ .devuelve v := by
    rintro rfl
    obtain ⟨-, k, -, -, -, -, -, hjk, -⟩ := hc
    obtain ⟨m, hjm, -⟩ := Relation.TransGen.head'_iff.mp hjk
    unfold FuncionIr.Paso at hjm
    rw [hj] at hjm
    exact hjm
  rcases registros_of_marcoDe htaller h with hno | ⟨tramos, hvidas, hrepartible, haparte⟩
  · exact hno t r ht
  · rcases conocida_emitir htaller hdev hins with htrabajo | ⟨d, reg, hd, hguarda⟩
    · refine notMem_trabajo htaller (hrepartible t r ht) hmem ?_ (htrabajo r hr)
      intro d n as fila hmetal
      subst hmetal
      exact hdice d n as fila hmem
    · have hne : t ≠ d := fun heq ↦ hx (heq ▸ hd)
      exact notCruza_of_sitio htaller h horden hne ht (guardaTemporal_escribe hguarda hr) hj hd hc

/-! ### The frame -/

/-- Where the frame ends after a local, without a width. -/
def sube (cursor medida : Nat) : Nat :=
  let alineacion := max (min medida 8) 1
  let cursor := cursor + medida
  if cursor % alineacion ≠ 0 then cursor + (alineacion - cursor % alineacion) else cursor

private theorem le_sube (c m : Nat) : c + m ≤ sube c m := by
  unfold sube
  dsimp only
  split <;> omega

private theorem avanza_eq {c m : Nat} (h : sube c m < 2 ^ 31) : avanza c m = sube c m := by
  have hle := le_sube c m
  have hm : i32 m = m := i32_natCast (by omega)
  have hcm : i32 ((c : Int) + m) = ((c + m : Nat) : Int) := by
    rw [← Int.natCast_add]
    exact i32_natCast (by omega)
  have hal : max (min (m : Int) PALABRA) 1 = ((max (min m 8) 1 : Nat) : Int) := by
    unfold PALABRA
    omega
  unfold avanza
  dsimp only
  rw [hm, hcm, hal, ← Int.ofNat_tmod]
  unfold sube at h ⊢
  dsimp only at h ⊢
  generalize hx : max (min m 8) 1 = al at h ⊢
  have hpos : 0 < al := by omega
  have hlt := Nat.mod_lt (c + m) hpos
  by_cases hzero : (c + m) % al = 0
  · rw [if_neg (by omega), if_neg (by omega)]
  · rw [if_pos (by omega), if_pos hzero]
    rw [if_pos hzero] at h
    have heq : ((c + m : Nat) : Int) + ((al : Int) - ((c + m) % al : Nat)) =
        ((c + m + (al - (c + m) % al) : Nat) : Int) := by omega
    rw [heq]
    exact i32_natCast h

/-- The frame of the locals, without a width. -/
def subidas (cursor : Nat) : List Nat → List Nat
  | [] => []
  | m :: ms => sube cursor m :: subidas (sube cursor m) ms

def tope (cursor : Nat) (ms : List Nat) : Nat := ms.foldl sube cursor

private theorem le_tope (c : Nat) (ms : List Nat) : c ≤ tope c ms := by
  induction ms generalizing c with
  | nil => exact le_rfl
  | cons m ms ih => exact (Nat.le_add_right c m).trans ((le_sube c m).trans (ih _))

private theorem cursores_eq {c : Nat} {ms : List Nat} (h : tope c ms < 2 ^ 31) :
    cursores c ms = (subidas c ms).map (↑·) := by
  induction ms generalizing c with
  | nil => rfl
  | cons m ms ih =>
    have hsube : sube c m < 2 ^ 31 := (le_tope (sube c m) ms).trans_lt h
    rw [cursores, subidas, avanza_eq hsube, ih h]
    rfl

private theorem length_subidas (c : Nat) (ms : List Nat) : (subidas c ms).length = ms.length := by
  induction ms generalizing c with
  | nil => rfl
  | cons m ms ih => rw [subidas, List.length_cons, ih, List.length_cons]

theorem le_tope_of_mem {c x : Nat} {ms : List Nat} (h : x ∈ subidas c ms) : x ≤ tope c ms := by
  induction ms generalizing c with
  | nil => cases h
  | cons m ms ih =>
    rcases List.mem_cons.mp h with rfl | h
    · exact le_tope _ ms
    · exact ih h

private theorem getLast_subidas (c : Nat) (ms : List Nat) :
    (subidas c ms).getLast?.getD c = tope c ms := by
  induction ms generalizing c with
  | nil => rfl
  | cons m ms ih =>
    rw [subidas, List.getLast?_cons]
    exact ih _

/-- The places of a frame, from the top down: where each starts, and its bytes. -/
def Marco.huecos (marco : Marco) (f : FuncionIr) : List (Int × Nat) :=
  (List.range f.locales).map (fun l ↦ (marco.deLocal l, medida f l)) ++
    (List.range f.temporales).map (fun t ↦ (marco.enPila t, 8)) ++
    (List.range marco.guardados.length).map fun k ↦ (marco.sitioGuardado k, 8)

/-- Each place is below those that come before it. -/
def Baja : Int → List (Int × Nat) → Prop
  | _, [] => True
  | tope, (d, m) :: resto => d + m ≤ tope ∧ Baja d resto

theorem Baja.mono {tope tope' : Int} {l : List (Int × Nat)} (h : Baja tope l) (hle : tope ≤ tope') :
    Baja tope' l := by
  cases l with
  | nil => exact h
  | cons p l => exact ⟨h.1.trans hle, h.2⟩

theorem Baja.append {tope : Int} (fin : Int) {l l' : List (Int × Nat)} (h : Baja tope l)
    (hfin : ∀ p ∈ l, fin ≤ p.1) (htope : fin ≤ tope) (h' : Baja fin l') : Baja tope (l ++ l') := by
  induction l generalizing tope with
  | nil => exact h'.mono htope
  | cons p l ih =>
    obtain ⟨hp, hl⟩ := List.forall_mem_cons.mp hfin
    exact ⟨h.1, ih h.2 hl hp⟩

theorem Baja.le {tope : Int} {l : List (Int × Nat)} (h : Baja tope l) :
    ∀ p ∈ l, p.1 + p.2 ≤ tope := by
  induction l generalizing tope with
  | nil => exact fun p hp ↦ absurd hp List.not_mem_nil
  | cons q l ih =>
    rw [List.forall_mem_cons]
    refine ⟨h.1, fun p hp ↦ ?_⟩
    have hrest := ih h.2 p hp
    have hq := h.1
    omega

theorem Baja.pairwise {tope : Int} {l : List (Int × Nat)} (h : Baja tope l) :
    l.Pairwise fun p q : Int × Nat ↦ q.1 + q.2 ≤ p.1 := by
  induction l generalizing tope with
  | nil => exact .nil
  | cons p l ih => exact .cons (h.2.le) (ih h.2)

private theorem baja_words {tope : Int} {n : Nat} {sitio : Nat → Int}
    (h : ∀ k < n, sitio k = tope - 8 * (k + 1)) :
    Baja tope ((List.range n).map fun k ↦ (sitio k, 8)) := by
  induction n generalizing tope sitio with
  | zero => trivial
  | succ n ih =>
    rw [List.range_succ_eq_map, List.map_cons, List.map_map]
    have h0 := h 0 (Nat.succ_pos n)
    refine ⟨by omega, ?_⟩
    apply ih
    intro k hk
    have hk' := h (k + 1) (Nat.succ_lt_succ hk)
    change sitio (k + 1) = _
    omega

private theorem baja_locales {c : Nat} {ms : List Nat} :
    Baja (-c) (((subidas c ms).map fun x : Nat ↦ -(x : Int)).zip ms) := by
  induction ms generalizing c with
  | nil => trivial
  | cons m ms ih =>
    have hle := le_sube c m
    have hbaja : -(sube c m : Int) + m ≤ -c := by omega
    exact ⟨hbaja, ih⟩

/-- The bytes of the frame of a function, without a width. -/
def bytesDeMarco (f : FuncionIr) (guardados : Nat) : Nat :=
  tope 0 ((List.range f.locales).map (medida f)) + 8 * (f.temporales + guardados) + 15

private theorem length_guardados (preservados : List Nat) (sitios : List Sitio) :
    (sitios.foldl (fun usados s ↦
      match s with
      | .registro r => if r ∈ preservados ∧ r ∉ usados then usados ++ [r] else usados
      | .pila _ => usados) []).length ≤ preservados.length := by
  let paso (usados : List Nat) (s : Sitio) : List Nat :=
    match s with
    | .registro r => if r ∈ preservados ∧ r ∉ usados then usados ++ [r] else usados
    | .pila _ => usados
  have hinv (us : List Nat) (hnodup : us.Nodup) (hsub : us ⊆ preservados) :
      (sitios.foldl paso us).Nodup ∧ sitios.foldl paso us ⊆ preservados := by
    induction sitios generalizing us with
    | nil => exact ⟨hnodup, hsub⟩
    | cons s sitios ih =>
      rw [List.foldl_cons]
      cases s with
      | pila d => exact ih us hnodup hsub
      | registro r =>
        change (sitios.foldl paso (if r ∈ preservados ∧ r ∉ us then us ++ [r] else us)).Nodup ∧
          sitios.foldl paso (if r ∈ preservados ∧ r ∉ us then us ++ [r] else us) ⊆ preservados
        split
        next hr =>
          apply ih
          · rw [List.nodup_append]
            refine ⟨hnodup, by simp, fun x hx y hy heq ↦ hr.2 ?_⟩
            rwa [← List.mem_singleton.mp hy, ← heq]
          · intro x hx
            rcases List.mem_append.mp hx with hx | hx
            · exact hsub hx
            · rw [List.mem_singleton.mp hx]
              exact hr.1
        next => exact ih us hnodup hsub
  obtain ⟨hnodup, hsub⟩ := hinv [] List.nodup_nil (List.nil_subset _)
  exact (List.subperm_of_subset hnodup hsub).length_le

/-- The numbers of a frame, without a width. -/
structure Marco.Plano (marco : Marco) (f : FuncionIr) : Prop where
  locales : marco.sitiosLocales =
    (subidas 0 ((List.range f.locales).map (medida f))).map fun x : Nat ↦ -(x : Int)
  bytesLocales : marco.bytesLocales = tope 0 ((List.range f.locales).map (medida f))
  temporales : marco.temporales = f.temporales
  cabe : bytesDeMarco f marco.guardados.length < 2 ^ 31

private theorem plano_of_marcoDe (h : marcoDe f taller = some marco)
    (hcabe : bytesDeMarco f taller.preservados.length < 2 ^ 31) : marco.Plano f := by
  unfold marcoDe conRegistros at h
  obtain ⟨sitios, -, h⟩ := Option.bind_eq_some_iff.mp h
  cases h
  let ms := (List.range f.locales).map (medida f)
  have hbase : tope 0 ms + 8 * (f.temporales + taller.preservados.length) + 15 < 2 ^ 31 := hcabe
  have hcs : cursores 0 ms = (subidas 0 ms).map (↑·) :=
    cursores_eq ((Nat.le_add_right _ _).trans_lt ((Nat.le_add_right _ 15).trans_lt hbase))
  have hguardados := (length_guardados (taller.preservados.filter (· ∉ registrosQuePisa f taller))
    sitios).trans (List.length_filter_le _ _)
  refine ⟨?_, ?_, rfl, ?_⟩
  · change (cursores 0 ms).map (fun c ↦ i32 (-c)) = (subidas 0 ms).map fun x : Nat ↦ -(x : Int)
    rw [hcs, List.map_map]
    apply List.map_congr_left
    intro x hx
    have hle := le_tope_of_mem hx
    have hneg : i32 (-(x : Int)) = -(x : Int) := i32_of_lt (by omega) (by omega)
    exact hneg
  · change ((cursores 0 ms).getLast?).getD 0 = tope 0 ms
    rw [hcs, List.getLast?_map, ← getLast_subidas]
    cases (subidas 0 ms).getLast? <;> rfl
  · refine lt_of_le_of_lt ?_ hcabe
    exact Nat.add_le_add_right (Nat.add_le_add_left
      (Nat.mul_le_mul_left 8 (Nat.add_le_add_left hguardados _)) _) 15

namespace Marco.Plano

private theorem enPila_eq (h : marco.Plano f) {t : Nat} (ht : t < f.temporales) :
    marco.enPila t = -marco.bytesLocales - 8 * (t + 1) := by
  have hcabe := h.cabe
  unfold bytesDeMarco at hcabe
  unfold Marco.enPila enPilaDe PALABRA
  rw [h.bytesLocales, i32_natCast (by omega), i32_of_lt (x := (t : Int) + 1) (by omega) (by omega)]
  rw [i32_of_lt (x := ((t : Int) + 1) * 8) (by omega) (by omega)]
  rw [i32_of_lt (x := _ + ((t : Int) + 1) * 8) (by omega) (by omega)]
  rw [i32_of_lt (by omega) (by omega)]
  omega

private theorem sitioGuardado_eq (h : marco.Plano f) {k : Nat} (hk : k < marco.guardados.length) :
    marco.sitioGuardado k = -marco.bytesLocales - 8 * f.temporales - 8 * (k + 1) := by
  have hcabe := h.cabe
  unfold bytesDeMarco at hcabe
  unfold Marco.sitioGuardado PALABRA
  rw [h.bytesLocales, h.temporales, i32_natCast (n := f.temporales) (by omega),
    i32_natCast (n := k) (by omega)]
  rw [i32_of_lt (x := (f.temporales : Int) + k) (by omega) (by omega)]
  rw [i32_of_lt (x := (f.temporales : Int) + k + 1) (by omega) (by omega)]
  rw [i32_of_lt (x := ((f.temporales : Int) + k + 1) * 8) (by omega) (by omega)]
  rw [i32_of_lt (x := _ + ((f.temporales : Int) + k + 1) * 8) (by omega) (by omega)]
  rw [i32_of_lt (by omega) (by omega)]
  omega

private theorem le_size (h : marco.Plano f) :
    marco.bytesLocales + 8 * f.temporales + 8 * marco.guardados.length ≤ marco.size := by
  have hcabe := h.cabe
  unfold bytesDeMarco at hcabe
  unfold Marco.size PALABRA
  dsimp only
  rw [h.bytesLocales, h.temporales, i32_natCast (n := f.temporales) (by omega),
    i32_natCast (n := marco.guardados.length) (by omega)]
  rw [i32_of_lt (x := (f.temporales : Int) * 8) (by omega) (by omega)]
  rw [i32_of_lt (x := (marco.guardados.length : Int) * 8) (by omega) (by omega)]
  rw [i32_of_lt (x := _ + (f.temporales : Int) * 8) (by omega) (by omega)]
  rw [i32_of_lt (x := _ + (marco.guardados.length : Int) * 8) (by omega) (by omega)]
  rw [i32_of_lt (by omega) (by omega)]
  omega

end Marco.Plano

/-- **The places of the frame**: apart from one another, and all in the bytes of the frame. -/
theorem huecos_aparte (h : marco.Plano f) :
    (marco.huecos f).Pairwise (fun p q : Int × Nat ↦ q.1 + q.2 ≤ p.1) ∧
      ∀ p ∈ marco.huecos f, -marco.size ≤ p.1 ∧ p.1 + p.2 ≤ 0 := by
  let ms := (List.range f.locales).map (medida f)
  have hlocales : (List.range f.locales).map (fun l ↦ (marco.deLocal l, medida f l)) =
      ((subidas 0 ms).map fun x : Nat ↦ -(x : Int)).zip ms := by
    apply List.ext_getElem
    · simp [ms, length_subidas]
    · intro l hl hl'
      have hlt : l < (subidas 0 ms).length := by
        rw [length_subidas]
        simpa [ms] using hl
      have hsitio : marco.deLocal l = -((subidas 0 ms)[l] : Int) := by
        unfold Marco.deLocal
        rw [h.locales, List.getElem?_map, List.getElem?_eq_getElem hlt]
        rfl
      simp [hsitio, ms]
  have htemporales : Baja (-marco.bytesLocales)
      ((List.range f.temporales).map fun t ↦ (marco.enPila t, 8)) :=
    baja_words fun t ht ↦ h.enPila_eq ht
  have hguardados : Baja (-marco.bytesLocales - 8 * f.temporales)
      ((List.range marco.guardados.length).map fun k ↦ (marco.sitioGuardado k, 8)) :=
    baja_words fun k hk ↦ h.sitioGuardado_eq hk
  have hsize := h.le_size
  have hbase : marco.bytesLocales = tope 0 ms := h.bytesLocales
  have hbaja : Baja 0 (marco.huecos f) := by
    unfold Marco.huecos
    rw [hlocales, List.append_assoc]
    refine (baja_locales (c := 0)).append (-marco.bytesLocales) ?_ (by omega) ?_
    · intro p hp
      obtain ⟨x, hx, heq⟩ := List.mem_map.mp (List.of_mem_zip hp).1
      have hle := le_tope_of_mem hx
      rw [← heq]
      omega
    · refine htemporales.append (-marco.bytesLocales - 8 * f.temporales) ?_ (by omega) hguardados
      intro p hp
      obtain ⟨t, ht, rfl⟩ := List.mem_map.mp hp
      have hlt := List.mem_range.mp ht
      have heq := h.enPila_eq hlt
      dsimp only
      omega
  refine ⟨hbaja.pairwise, fun p hp ↦ ⟨?_, hbaja.le p hp⟩⟩
  rcases List.mem_append.mp hp with hp | hp
  · rcases List.mem_append.mp hp with hp | hp
    · rw [hlocales] at hp
      obtain ⟨x, hx, heq⟩ := List.mem_map.mp (List.of_mem_zip hp).1
      have hle := le_tope_of_mem hx
      rw [← heq]
      omega
    · obtain ⟨t, ht, rfl⟩ := List.mem_map.mp hp
      have hlt := List.mem_range.mp ht
      have heq := h.enPila_eq hlt
      dsimp only
      omega
  · obtain ⟨k, hk, rfl⟩ := List.mem_map.mp hp
    have hlt := List.mem_range.mp hk
    have heq := h.sitioGuardado_eq hlt
    dsimp only
    omega

/-! ### The allocation -/

/-- The places of a function are apart: two temporals have one register only where none is written in
the life of the other, no instruction writes the register of a life that crosses it, and the places of
the frame are apart and inside. -/
structure Marco.Aparte (marco : Marco) (f : FuncionIr) (taller : Taller) : Prop where
  registros : ∀ (a b : Temporal) (r j : Nat) (x : Instr), a ≠ b → marco.sitio a = .registro r →
    marco.sitio b = .registro r → f.instrucciones[j]? = some x → x.define = some b → ¬ f.Cruza a j
  pisadas : ∀ (t : Temporal) (r j : Nat) (x : Instr), marco.sitio t = .registro r →
    f.instrucciones[j]? = some x → x.define ≠ some t → f.Cruza t j →
    ∀ ins ∈ emitir taller marco x, r ∉ ins.escribe
  huecos : (marco.huecos f).Pairwise fun p q : Int × Nat ↦ q.1 + q.2 ≤ p.1
  dentro : ∀ p ∈ marco.huecos f, -marco.size ≤ p.1 ∧ p.1 + p.2 ≤ 0

/-- What a function has to be: `cpuid` is not used, its temporals are named in their order or it has
jumps, and its frame is less than 2 GiB. -/
structure FuncionIr.Cabe (f : FuncionIr) : Prop where
  cpuid : "que_cpu_eres" ∉ metales f
  orden : haySaltos f ∨ f.EnOrden
  bytes : bytesDeMarco f tallerX86.preservados.length < 2 ^ 31

/-- A loop that adds what a function answers. -/
def bucle : FuncionIr where
  parametros := 1
  locales := 2
  medidasLocales := [8, 12]
  temporales := 3
  instrucciones := [.etiqueta 0, .llama (some 0) (.nombre "f") [.local 0],
    .binaria 1 .suma .entero false (.local 1) (.temporal 0), .guarda 1 (.temporal 1),
    .binaria 2 .menor .entero false (.temporal 1) (.local 0), .saltaSi (.temporal 2) 0 1,
    .salta 0, .etiqueta 1, .devuelve (some (.local 1))]

def marcoBucle : Marco := ⟨[-8, -24], 24, 3, [.registro 3, .registro 12, .registro 13], [3, 12, 13]⟩

/-- What a sum becomes where its last term is what the processor is. -/
def sumaConCpuid : FuncionIr where
  parametros := 1
  locales := 1
  medidasLocales := [8]
  temporales := 7
  instrucciones := [.binaria 0 .suma .entero false (.local 0) (.const (.entero 1)),
    .binaria 1 .suma .entero false (.local 0) (.const (.entero 2)),
    .binaria 2 .suma .entero false (.local 0) (.const (.entero 3)),
    .metal (some 3) "que_cpu_eres" [.const (.entero 0)],
    .binaria 4 .suma .entero false (.temporal 2) (.temporal 3),
    .binaria 5 .suma .entero false (.temporal 1) (.temporal 4),
    .binaria 6 .suma .entero false (.temporal 0) (.temporal 5),
    .devuelve (some (.temporal 6))]

def marcoConCpuid : Marco where
  sitiosLocales := [-8]
  bytesLocales := 8
  temporales := 7
  sitios := [.registro 6, .registro 7, .registro 3, .registro 12, .registro 13, .registro 12,
    .registro 13]
  guardados := [3, 12, 13]

end BmoX.Inti
