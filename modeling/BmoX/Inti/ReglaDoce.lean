import BmoX.Inti.Cpu
import BmoX.Inti.Sitios

/-!
# Rule 12

`toolchain/lang/inti/emisor-x86_64/src/reglas.rs` and `src/ir/expresion.rs:372–443`. A double
becomes an integer or traps. The check knows how many bytes the integer has, and not whether it has
a sign. -/

namespace BmoX.Inti

open BmoX.Base

/-! ### The integers -/

/-- The integers of `medidas.toml`. -/
inductive Entero
  | entero8 | entero16 | entero32 | entero64 | natural8 | natural16 | natural32 | natural64
  deriving DecidableEq

namespace Entero

/-- `medidas.toml`, `[bytes]`. -/
def bytes : Entero → Nat
  | entero8 | natural8 => 1
  | entero16 | natural16 => 2
  | entero32 | natural32 => 4
  | entero64 | natural64 => 8

/-- `medidas.toml`, `sin_signo`. -/
def llevaSigno : Entero → Bool
  | entero8 | entero16 | entero32 | entero64 => true
  | natural8 | natural16 | natural32 | natural64 => false

variable (e : Entero)

/-- The values of an integer. -/
def Vale (t : Int) : Prop :=
  if e.llevaSigno then -2 ^ (8 * e.bytes - 1) ≤ t ∧ t < 2 ^ (8 * e.bytes - 1)
  else 0 ≤ t ∧ t < 2 ^ (8 * e.bytes)

instance (t : Int) : Decidable (e.Vale t) := by
  unfold Vale
  infer_instance

/-- The value that a word is. -/
def lee (w : UInt64) : Int := if e.llevaSigno then signed w else w.toNat

/-- The values that an integer without a sign has and that with one has not, or the other way. -/
def Ajeno (t : Int) : Prop :=
  e.llevaSigno = false ∧
    (-2 ^ (8 * e.bytes - 1) ≤ t ∧ t < 0 ∨ 2 ^ (8 * e.bytes - 1) ≤ t ∧ t < 2 ^ (8 * e.bytes))

end Entero

/-! ### The check -/

section

variable (marco : Marco) {m : Cpu} {is : List Ins}

/-- What the code of a rule leaves as it was. -/
structure Cpu.Deja (m m' : Cpu) : Prop where
  regs : ∀ r, r ≠ IZQ → r ≠ DER → m'.regs r = m.regs r
  marco : m'.marco = m.marco

/-- The first half: the number of a word of 64 bits. -/
def centinela (codigo : Nat) : List Ins :=
  [.movqXmm 0 IZQ, .cvttsd2si IZQ, .movImm DER 0x8000000000000000, .cmp IZQ DER, .corto 0x75,
    .movImm DER 0xC3E0000000000000, .movqXmm 1 DER, .comisd, .atrapa 0x8A codigo,
    .atrapa 0x85 codigo, .cierraCorto]

/-- The second half: the number of fewer bytes. -/
def alAncho (bytes codigo : Nat) : List Ins :=
  if bytes ≥ 8 then [] else [.movsx bytes DER IZQ, .cmp IZQ DER, .atrapa 0x85 codigo]

private theorem reglaDoce_eq (sobre : Valor) (bytes codigo : Nat) :
    reglaDoce marco sobre bytes codigo =
      carga marco IZQ sobre ++ (centinela codigo ++ alAncho bytes codigo) :=
  List.append_assoc ..

set_option maxRecDepth 4096 in
private theorem units_menos2a63 :
    Binary64.units 0xC3E0000000000000 = -2 ^ 63 * Binary64.ONE ∧
      Binary64.isNaN 0xC3E0000000000000 = false := by
  decide

/-- The least word of a double is the number that it is, or none. -/
theorem menos2a63_iff {w : UInt64} (hw : Binary64.toWord w = 0x8000000000000000) :
    (∃ t, Binary64.whole w = some t ∧ Fits t) ↔
      Binary64.isNaN w = false ∧ Binary64.units w = -2 ^ 63 * Binary64.ONE := by
  have hmenos := (Binary64.toWord_eq_least w).mp hw
  constructor
  · rintro ⟨t, ht, hfits⟩
    obtain ⟨hfinite, htdiv⟩ := Binary64.finite_of_whole ht
    refine ⟨Binary64.isNaN_of_finite hfinite, ?_⟩
    rw [hmenos t ht hfits] at htdiv
    have hgrande : 2 ^ 53 ≤ ((Binary64.units w).tdiv Binary64.ONE).natAbs := by
      rw [← htdiv]
      decide
    rw [Binary64.units_eq_of_large hgrande, ← htdiv]
  · rintro ⟨-, hunits⟩
    have htdiv : (Binary64.units w).tdiv Binary64.ONE = -2 ^ 63 := by
      rw [hunits]
      exact Int.mul_tdiv_cancel _ (Int.natCast_pos.mpr Binary64.one_pos).ne'
    cases hfinite : Binary64.finite w with
    | true =>
      refine ⟨-2 ^ 63, ?_, by decide⟩
      rw [Binary64.whole, hfinite, if_pos rfl, htdiv]
    | false =>
      have hinf := Binary64.units_of_infinite hfinite
      rw [htdiv] at hinf
      exact absurd hinf (by decide)

/-- **The first half** goes on with the number that the double is, if a word can be it. -/
theorem corre_centinela (codigo : Nat) (is : List Ins) (m : Cpu) :
    ((∃ t, Binary64.whole (m.regs IZQ) = some t ∧ Fits t) →
      ∃ m', corre (centinela codigo ++ is) false m = corre is false m' ∧
        m'.regs IZQ = Binary64.toWord (m.regs IZQ) ∧ m.Deja m') ∧
    ((¬∃ t, Binary64.whole (m.regs IZQ) = some t ∧ Fits t) →
      corre (centinela codigo ++ is) false m = .atrapa codigo) := by
  let m' : Cpu :=
    { ((m.ponXmm 0 (m.regs IZQ)).pon IZQ (Binary64.toWord (m.regs IZQ))).pon DER
        0x8000000000000000 with
      banderas := Cpu.compara (Binary64.toWord (m.regs IZQ)) 0x8000000000000000 }
  let m'' : Cpu :=
    { (m'.pon DER 0xC3E0000000000000).ponXmm 1 0xC3E0000000000000 with
      banderas := Cpu.comparaDobles (m.regs IZQ) 0xC3E0000000000000 }
  have hdeja' : m.Deja m' := ⟨fun r hi hd ↦ by simp [m', hi, hd], rfl⟩
  have hdeja'' : m.Deja m'' := ⟨fun r hi hd ↦ by simp [m'', m', hi, hd], rfl⟩
  have hcorre : corre (centinela codigo ++ is) false m =
      corre ([Ins.movImm DER 0xC3E0000000000000, .movqXmm 1 DER, .comisd, .atrapa 0x8A codigo,
        .atrapa 0x85 codigo, .cierraCorto] ++ is) (!m'.banderas.zero) m' := rfl
  rw [hcorre]
  by_cases hw : Binary64.toWord (m.regs IZQ) = 0x8000000000000000
  · have hzero : m'.banderas.zero = true := decide_eq_true hw
    have hcompara : corre ([Ins.movImm DER 0xC3E0000000000000, .movqXmm 1 DER, .comisd,
          .atrapa 0x8A codigo, .atrapa 0x85 codigo, .cierraCorto] ++ is) false m' =
        if Binary64.isNaN (m.regs IZQ) = false ∧
          Binary64.units (m.regs IZQ) = -2 ^ 63 * Binary64.ONE then corre is false m''
        else .atrapa codigo := by
      obtain ⟨hunits, hnan⟩ := units_menos2a63
      change corre (.atrapa 0x8A codigo :: .atrapa 0x85 codigo :: .cierraCorto :: is) false m'' = _
      rw [corre_atrapa (b := m''.banderas.parity) rfl,
        corre_atrapa (b := !m''.banderas.zero) rfl]
      simp only [m'', Cpu.comparaDobles, hnan, hunits]
      cases Binary64.isNaN (m.regs IZQ) with
      | true => rfl
      | false =>
        by_cases heq : Binary64.units (m.regs IZQ) = -2 ^ 63 * Binary64.ONE
        · simp only [heq, decide_true, Bool.false_eq_true, and_self, if_true]
          rfl
        · simp only [heq, decide_false, Bool.not_false, Bool.false_eq_true, or_self, if_false,
            and_false, if_true]
    rw [hzero, Bool.not_true, hcompara, menos2a63_iff hw]
    exact ⟨fun h ↦ ⟨m'', if_pos h, rfl, hdeja''⟩, fun h ↦ if_neg h⟩
  · have hzero : m'.banderas.zero = false := decide_eq_false hw
    rw [hzero]
    refine ⟨fun _ ↦ ⟨m', rfl, rfl, hdeja'⟩, fun hno ↦ absurd ?_ hw⟩
    exact (Binary64.toWord_eq_least _).mpr fun t ht hfits ↦ absurd ⟨t, ht, hfits⟩ hno

private theorem extiende_eq_iff {bytes : Nat} (hbytes : bytes ∈ [1, 2, 4]) (w : UInt64) :
    w = Cpu.extiende bytes w ↔
      -2 ^ (8 * bytes - 1) ≤ signed w ∧ signed w < 2 ^ (8 * bytes - 1) := by
  have hsigned {k : Nat} (hk : k ≤ 64) :
      signed ⟨(w.toBitVec.setWidth k).signExtend 64⟩ = (signed w).bmod (2 ^ k) := by
    unfold signed
    rw [BitVec.toInt_signExtend_of_le hk, ← BitVec.signExtend_eq_setWidth_of_le _ hk,
      BitVec.toInt_signExtend_eq_toInt_bmod_of_le _ hk]
  rw [← signed_inj]
  simp only [List.mem_cons, List.not_mem_nil, or_false] at hbytes
  rcases hbytes with rfl | rfl | rfl
  · change signed w = signed ⟨(w.toBitVec.setWidth 8).signExtend 64⟩ ↔ _
    rw [hsigned (by decide), Int.bmod_def]
    split <;> omega
  · change signed w = signed ⟨(w.toBitVec.setWidth 16).signExtend 64⟩ ↔ _
    rw [hsigned (by decide), Int.bmod_def]
    split <;> omega
  · change signed w = signed ⟨(w.toBitVec.setWidth 32).signExtend 64⟩ ↔ _
    rw [hsigned (by decide), Int.bmod_def]
    split <;> omega

/-- **The second half** goes on with a number of that many bytes. -/
theorem corre_alAncho {bytes : Nat} (hbytes : bytes ∈ [1, 2, 4, 8]) (codigo : Nat) (is : List Ins)
    (m : Cpu) :
    (-2 ^ (8 * bytes - 1) ≤ signed (m.regs IZQ) ∧ signed (m.regs IZQ) < 2 ^ (8 * bytes - 1) →
      ∃ m', corre (alAncho bytes codigo ++ is) false m = corre is false m' ∧
        m'.regs IZQ = m.regs IZQ ∧ m.Deja m') ∧
    (¬(-2 ^ (8 * bytes - 1) ≤ signed (m.regs IZQ) ∧ signed (m.regs IZQ) < 2 ^ (8 * bytes - 1)) →
      corre (alAncho bytes codigo ++ is) false m = .atrapa codigo) := by
  by_cases hocho : bytes ≥ 8
  · obtain rfl : bytes = 8 := by
      simp only [List.mem_cons, List.not_mem_nil, or_false] at hbytes
      omega
    have hfits := fits_signed (m.regs IZQ)
    exact ⟨fun _ ↦ ⟨m, rfl, rfl, ⟨fun _ _ _ ↦ rfl, rfl⟩⟩, fun hno ↦ absurd hfits hno⟩
  · have hpocos : bytes ∈ [1, 2, 4] := by
      simp only [List.mem_cons, List.not_mem_nil, or_false] at hbytes ⊢
      omega
    let m' : Cpu :=
      { m.pon DER (Cpu.extiende bytes (m.regs IZQ)) with
        banderas := Cpu.compara (m.regs IZQ) (Cpu.extiende bytes (m.regs IZQ)) }
    have hdeja : m.Deja m' := ⟨fun r _ hd ↦ by simp [m', hd], rfl⟩
    have hcorre : corre (alAncho bytes codigo ++ is) false m =
        if m.regs IZQ = Cpu.extiende bytes (m.regs IZQ) then corre is false m'
        else .atrapa codigo := by
      rw [alAncho, if_neg hocho]
      change corre (.atrapa 0x85 codigo :: is) false m' = _
      rw [corre_atrapa (b := !m'.banderas.zero) rfl]
      by_cases heq : m.regs IZQ = Cpu.extiende bytes (m.regs IZQ)
      · have hzero : m'.banderas.zero = true := decide_eq_true heq
        rw [hzero, if_pos heq]
        rfl
      · have hzero : m'.banderas.zero = false := decide_eq_false heq
        rw [hzero, if_neg heq]
        rfl
    rw [hcorre, ← extiende_eq_iff hpocos]
    exact ⟨fun h ↦ ⟨m', if_pos h, rfl, hdeja⟩, fun h ↦ if_neg h⟩

theorem Cpu.Deja.trans {m m' m'' : Cpu} (h : m.Deja m') (h' : m'.Deja m'') : m.Deja m'' :=
  ⟨fun r hi hd ↦ (h'.regs r hi hd).trans (h.regs r hi hd), h'.marco.trans h.marco⟩

private theorem mem_bytes (e : Entero) : e.bytes ∈ [1, 2, 4, 8] := by
  cases e <;> decide

/-- The check goes on with a number of that many bytes with a sign, whatever the integer is. -/
def Entero.Pasa (e : Entero) (w : UInt64) : Prop :=
  ∃ t, Binary64.whole w = some t ∧ -2 ^ (8 * e.bytes - 1) ≤ t ∧ t < 2 ^ (8 * e.bytes - 1)

private theorem fits_of_bytes (e : Entero) {t : Int} (hmin : -2 ^ (8 * e.bytes - 1) ≤ t)
    (hmax : t < 2 ^ (8 * e.bytes - 1)) : Fits t := by
  unfold Fits
  cases e <;> (dsimp only [Entero.bytes] at hmin hmax; omega)

/-- **The check**: what it leaves in the register of work is the number of the double. -/
theorem corre_reglaDoce (e : Entero) (sobre : Valor) (codigo : Nat) (is : List Ins) (m : Cpu) :
    (e.Pasa (sobre.palabra marco m) →
      ∃ m', corre (reglaDoce marco sobre e.bytes codigo ++ is) false m = corre is false m' ∧
        m'.regs IZQ = Binary64.toWord (sobre.palabra marco m) ∧ m.Deja m') ∧
    (¬e.Pasa (sobre.palabra marco m) →
      corre (reglaDoce marco sobre e.bytes codigo ++ is) false m = .atrapa codigo) := by
  generalize hw : sobre.palabra marco m = w
  let m₀ := m.pon IZQ w
  have hizq : m₀.regs IZQ = w := by simp [m₀]
  have hdeja : m.Deja m₀ := ⟨fun r hi _ ↦ by simp [m₀, hi], rfl⟩
  obtain ⟨hsi, hno⟩ := corre_centinela codigo (alAncho e.bytes codigo ++ is) m₀
  rw [reglaDoce_eq, List.append_assoc, List.append_assoc, corre_carga, hw]
  rw [hizq] at hsi hno
  by_cases hfits : ∃ t, Binary64.whole w = some t ∧ Fits t
  · obtain ⟨t, ht, hft⟩ := hfits
    obtain ⟨m₁, hcorre, hm₁, hdeja₁⟩ := hsi ⟨t, ht, hft⟩
    obtain ⟨hsi', hno'⟩ := corre_alAncho (mem_bytes e) codigo is m₁
    rw [hm₁, Binary64.signed_toWord ht hft] at hsi' hno'
    rw [hcorre]
    constructor
    · rintro ⟨t', ht', hrango⟩
      rw [ht] at ht'
      obtain rfl := Option.some.inj ht'
      obtain ⟨m₂, hcorre₂, hm₂, hdeja₂⟩ := hsi' hrango
      exact ⟨m₂, hcorre₂, hm₂, (hdeja.trans hdeja₁).trans hdeja₂⟩
    · exact fun h ↦ hno' fun hrango ↦ h ⟨t, ht, hrango⟩
  · constructor
    · rintro ⟨t, ht, hmin, hmax⟩
      exact absurd ⟨t, ht, fits_of_bytes e hmin hmax⟩ hfits
    · exact fun _ ↦ hno hfits

end

/-! ### The conversion -/

section

variable {f : FuncionIr} {marco : Marco}

private theorem ne_of_marcoDe (h : marcoDe f tallerX86 = some marco) {t : Temporal} {r : Nat}
    (ht : marco.sitio t = .registro r) : r ≠ IZQ ∧ r ≠ DER := by
  rcases registros_of_marcoDe bien_tallerX86 h with hno | ⟨-, -, hreg, -⟩
  · exact absurd ht (hno t r)
  · have hlibres : ∀ x ∈ tallerX86.temporales ++ tallerX86.preservados, x ≠ IZQ ∧ x ≠ DER := by
      decide
    exact hlibres r ((repartibles_sublist f tallerX86).subset (hreg t r ht))

/-- What the IR has for `entero32(x)`; `ir/expresion.rs:407–443`. -/
def conversion (e : Entero) (destino : Temporal) (v : Valor) : List Instr :=
  [.comprueba (.conversion e.bytes) false v none, .convierte destino v .flotante .entero]

private theorem palabra_deja (h : marcoDe f tallerX86 = some marco) {m m' : Cpu} (hdeja : m.Deja m')
    (v : Valor) : v.palabra marco m' = v.palabra marco m := by
  unfold Valor.palabra
  cases v with
  | const c => cases c <;> rfl
  | «local» l =>
    dsimp only
    rw [hdeja.marco]
  | temporal t =>
    dsimp only
    cases ht : marco.sitio t with
    | pila disp =>
      dsimp only
      rw [hdeja.marco]
    | registro r =>
      obtain ⟨hi, hd⟩ := ne_of_marcoDe h ht
      exact hdeja.regs r hi hd
  | nombre n => rfl

private theorem palabra_temporal (t : Temporal) (m : Cpu) : (Valor.temporal t).palabra marco m =
    match marco.sitio t with
    | .registro r => m.regs r
    | .pila disp => m.marco disp := rfl

theorem corre_guardaTemporal (h : marcoDe f tallerX86 = some marco) (t : Temporal) (m : Cpu) :
    ∃ m', corre (guardaTemporal marco IZQ t) false m = .sigue m' ∧ m'.regs IZQ = m.regs IZQ ∧
      (Valor.temporal t).palabra marco m' = m.regs IZQ := by
  simp only [palabra_temporal]
  unfold guardaTemporal
  cases ht : marco.sitio t with
  | pila disp =>
    exact ⟨{ m with marco := Function.update m.marco disp (m.regs IZQ) }, rfl, rfl,
      Function.update_self ..⟩
  | registro r =>
    obtain ⟨hi, -⟩ := ne_of_marcoDe h ht
    dsimp only
    rw [if_pos hi]
    exact ⟨m.pon r (m.regs IZQ), rfl, by simp [hi.symm], by simp⟩

/-- **What a conversion does.** -/
theorem corre_conversion (h : marcoDe f tallerX86 = some marco) (e : Entero) (destino : Temporal)
    (v : Valor) (m : Cpu) :
    (e.Pasa (v.palabra marco m) →
      ∃ m', corre ((conversion e destino v).flatMap (emitir tallerX86 marco)) false m = .sigue m' ∧
        m'.regs IZQ = Binary64.toWord (v.palabra marco m) ∧
        (Valor.temporal destino).palabra marco m' = Binary64.toWord (v.palabra marco m)) ∧
    (¬e.Pasa (v.palabra marco m) →
      corre ((conversion e destino v).flatMap (emitir tallerX86 marco)) false m = .atrapa 1012) :=
        by
  have hcodigo : (conversion e destino v).flatMap (emitir tallerX86 marco) =
      reglaDoce marco v e.bytes 1012 ++ (carga marco IZQ v ++
        ([Ins.movqXmm 0 IZQ, .cvttsd2si IZQ] ++ guardaTemporal marco IZQ destino)) := by
    rw [conversion, List.flatMap_cons, List.flatMap_singleton, ← List.append_assoc (carga _ _ _)]
    rfl
  obtain ⟨hsi, hno⟩ := corre_reglaDoce marco e v 1012 (carga marco IZQ v ++
    ([Ins.movqXmm 0 IZQ, .cvttsd2si IZQ] ++ guardaTemporal marco IZQ destino)) m
  rw [hcodigo]
  refine ⟨fun hp ↦ ?_, hno⟩
  obtain ⟨m₁, hcorre, -, hdeja⟩ := hsi hp
  let m₂ := (((m₁.pon IZQ (v.palabra marco m)).ponXmm 0 (v.palabra marco m)).pon IZQ
    (Binary64.toWord (v.palabra marco m)))
  obtain ⟨m₃, hcorre₃, hizq, htemporal⟩ := corre_guardaTemporal h destino m₂
  refine ⟨m₃, ?_, hizq, htemporal⟩
  rw [hcorre, corre_carga, palabra_deja h hdeja v]
  exact hcorre₃

/-- A conversion is exact: it goes on if the number of the double, truncated, is a value of the
integer, which its register and its temporal are then, and traps if not. -/
def ConvierteBien (marco : Marco) (e : Entero) (destino : Temporal) (v : Valor) (m : Cpu) : Prop :=
  match corre ((conversion e destino v).flatMap (emitir tallerX86 marco)) false m with
  | .sigue m' =>
    ∃ q, Binary64.value (v.palabra marco m) = some q ∧ e.Vale (truncate q) ∧
      e.lee (m'.regs IZQ) = truncate q ∧
      e.lee ((Valor.temporal destino).palabra marco m') = truncate q
  | .atrapa codigo =>
    codigo = 1012 ∧ ¬∃ q, Binary64.value (v.palabra marco m) = some q ∧ e.Vale (truncate q)
  | .fuera => False

private theorem vale_iff_of_rango {e : Entero} {t : Int}
    (h : -2 ^ (8 * e.bytes - 1) ≤ t ∧ t < 2 ^ (8 * e.bytes - 1)) : e.Vale t ↔ ¬e.Ajeno t := by
  unfold Entero.Vale Entero.Ajeno
  cases e <;> dsimp only [Entero.bytes, Entero.llevaSigno] at h ⊢ <;> simp <;> omega

private theorem vale_iff_of_not_rango {e : Entero} {t : Int}
    (h : ¬(-2 ^ (8 * e.bytes - 1) ≤ t ∧ t < 2 ^ (8 * e.bytes - 1))) : e.Vale t ↔ e.Ajeno t := by
  unfold Entero.Vale Entero.Ajeno
  cases e <;> dsimp only [Entero.bytes, Entero.llevaSigno] at h ⊢ <;> simp <;> omega

/-- A word with the number of a value is that value, with a sign or without. -/
theorem lee_of_vale {e : Entero} {w : UInt64} (h : e.Vale (signed w)) : e.lee w = signed w := by
  unfold Entero.Vale at h
  unfold Entero.lee
  split
  · rfl
  · next hno =>
    rw [if_neg hno] at h
    exact toNat_of_nonneg h.1

/-- **A double becomes an integer exactly**, but for a number that an integer without a sign has and
that with a sign has not, or the other way. -/
theorem convierteBien_iff (h : marcoDe f tallerX86 = some marco) (e : Entero) (destino : Temporal)
    (v : Valor) (m : Cpu) :
    ConvierteBien marco e destino v m ↔
      ∀ q, Binary64.value (v.palabra marco m) = some q → ¬e.Ajeno (truncate q) := by
  obtain ⟨hsi, hno⟩ := corre_conversion h e destino v m
  unfold ConvierteBien
  generalize v.palabra marco m = w at *
  have hwhole := Binary64.whole_eq w
  by_cases hp : e.Pasa w
  · obtain ⟨m', hcorre, hizq, htemporal⟩ := hsi hp
    obtain ⟨t, ht, hrango⟩ := hp
    rw [ht] at hwhole
    obtain ⟨q, hq, rfl⟩ := Option.map_eq_some_iff.mp hwhole.symm
    have hword := Binary64.signed_toWord ht (fits_of_bytes e hrango.1 hrango.2)
    rw [hcorre]
    dsimp only
    rw [hizq, htemporal, hq]
    constructor
    · rintro ⟨q', hq', hvale, -⟩ q'' hq''
      obtain rfl := Option.some.inj hq'
      obtain rfl := Option.some.inj hq''
      exact (vale_iff_of_rango hrango).mp hvale
    · intro hajeno
      have hvale := (vale_iff_of_rango hrango).mpr (hajeno q rfl)
      have hlee : e.lee (Binary64.toWord w) = truncate q := by
        rw [lee_of_vale (hword.symm ▸ hvale), hword]
      exact ⟨q, rfl, hvale, hlee, hlee⟩
  · rw [hno hp]
    dsimp only
    have hiff {q : Rat} (hq : Binary64.value w = some q) :
        e.Vale (truncate q) ↔ e.Ajeno (truncate q) := by
      refine vale_iff_of_not_rango fun hrango ↦ hp ⟨truncate q, ?_, hrango⟩
      rw [hwhole, hq, Option.map_some]
    constructor
    · rintro ⟨-, hnada⟩ q hq hajeno
      exact hnada ⟨q, hq, (hiff hq).mpr hajeno⟩
    · refine fun hall ↦ ⟨rfl, ?_⟩
      rintro ⟨q, hq, hvale⟩
      exact hall q hq ((hiff hq).mp hvale)

theorem convierteBien_iff_uno :
    ConvierteBien marcoBucle .entero8 2 (.const (.flotante 0x3FF0000000000000)) default ↔
      ∀ q, Binary64.value 0x3FF0000000000000 = some q → ¬Entero.entero8.Ajeno (truncate q) :=
  convierteBien_iff (f := bucle) (by decide +kernel) .entero8 2 _ _

/-- A number of that many bytes with a sign goes on, whether it is a value or not. -/
theorem not_convierteBien (h : marcoDe f tallerX86 = some marco) {e : Entero} {bits : UInt64}
    {t : Int} (ht : Binary64.whole bits = some t)
    (hrango : -2 ^ (8 * e.bytes - 1) ≤ t ∧ t < 2 ^ (8 * e.bytes - 1)) (hno : ¬e.Vale t)
    (destino : Temporal) (m : Cpu) :
    ¬ConvierteBien marco e destino (.const (.flotante bits)) m := by
  intro hbien
  obtain ⟨m', hcorre, -⟩ :=
    (corre_conversion h e destino (.const (.flotante bits)) m).1 ⟨t, ht, hrango⟩
  unfold ConvierteBien at hbien
  rw [hcorre] at hbien
  obtain ⟨q, hq, hvale, -⟩ := hbien
  rw [Cpu.palabra_flotante] at hq
  rw [Binary64.whole_eq, hq, Option.map_some, Option.some_inj] at ht
  exact hno (ht ▸ hvale)

set_option maxRecDepth 4096 in
/-- `natural8(-1.0)` goes on, and what it leaves is not a value of `natural8`. -/
theorem natural8_menos_uno :
    marcoDe bucle tallerX86 = some marcoBucle ∧
      ¬ConvierteBien marcoBucle .natural8 2 (.const (.flotante 0xBFF0000000000000)) default := by
  have hmarco : marcoDe bucle tallerX86 = some marcoBucle := by decide +kernel
  have hmenos : Binary64.whole 0xBFF0000000000000 = some (-1) := by decide
  exact ⟨hmarco, not_convierteBien hmarco hmenos (by decide) (by decide) 2 default⟩

end

end BmoX.Inti
