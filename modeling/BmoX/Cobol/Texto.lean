import BmoX.Base.Signed
import Mathlib.Data.List.Basic
import Mathlib.Data.List.TakeWhile
import Mathlib.Tactic.Ring

/-!
# Operands as text

`toolchain/lang/cobol/emisor-x86_64/src/codegen.rs:182–252, 328–357`. The parser leaves the operands
of a statement as they were written: a name, a name with a subscript or a literal. A literal is
scaled when the program is compiled.
-/

namespace BmoX.Cobol

open BmoX.Base

abbrev Texto := List Char

/-- `char::is_whitespace`. -/
def esBlanco (c : Char) : Bool :=
  let n := c.toNat
  (9 ≤ n && n ≤ 13) || n == 0x20 || n == 0x85 || n == 0xA0 || n == 0x1680 ||
    (0x2000 ≤ n && n ≤ 0x200A) || n == 0x2028 || n == 0x2029 || n == 0x202F || n == 0x205F ||
    n == 0x3000

def trim (t : Texto) : Texto := ((t.dropWhile esBlanco).reverse.dropWhile esBlanco).reverse

/-- `str::find` of a character, and `str::rfind`. -/
def find (c : Char) (t : Texto) : Option Nat := t.findIdx? (· == c)

def rfind (c : Char) (t : Texto) : Option Nat :=
  (t.reverse.findIdx? (· == c)).map (t.length - 1 - ·)

/-- `str::split_once` at a character. -/
def partir (c : Char) : Texto → Option (Texto × Texto)
  | [] => none
  | x :: xs => if x = c then some ([], xs) else (partir c xs).map fun p ↦ (x :: p.1, p.2)

/-- `TOTAL(I)` is the table `TOTAL` and the subscript `I`; `codegen.rs:328–341`. -/
def subindice (name : Texto) : Option (Texto × Texto) := do
  let abre ← find '(' name
  let cierra ← rfind ')' name
  if cierra < abre then none
  else
    let base := trim (name.take abre)
    let idx := trim ((name.take cierra).drop (abre + 1))
    if base.isEmpty || idx.isEmpty then none else some (base, idx)

/-- The name without its subscript; `codegen.rs:345–347`. -/
def nombreBase (name : Texto) : Texto :=
  match subindice name with
  | some (base, _) => base
  | none => name

/-! ### Numbers -/

/-- The number that some digits write. -/
def valor (t : Texto) : Nat := t.foldl (fun n c ↦ n * 10 + (c.toNat - 48)) 0

/-- Digits only, and at least one. -/
def digitos (t : Texto) : Option Nat :=
  if t ≠ [] ∧ t.all Char.isDigit then some (valor t) else none

/-- A number may be written with a plus. -/
def sinMas : Texto → Texto
  | '+' :: r => r
  | t => t

/-- `str::parse::<u64>`. -/
def parseU64 (t : Texto) : Option Nat := (digitos (sinMas t)).filter (· < 2 ^ 64)

/-- `str::parse::<i64>`. -/
def parseI64 (t : Texto) : Option Int :=
  match t with
  | '-' :: r => ((digitos r).filter (· ≤ 2 ^ 63)).map fun n ↦ -n
  | _ => ((digitos (sinMas t)).filter (· < 2 ^ 63)).map fun n ↦ n

/-- `10u64.pow`, modulo `2^64`: the compiler is built without overflow checks. -/
def pow10 (k : Nat) : UInt64 := UInt64.ofNat (10 ^ k)

/-- The bytes of a text. -/
def bytes (t : Texto) : Nat := (t.map Char.utf8Size).sum

/-- The first bytes of a text, where no character is cut. -/
def tomaBytes : Nat → Texto → Option Texto
  | 0, _ => some []
  | _ + 1, [] => none
  | n + 1, c :: cs =>
    if c.utf8Size ≤ n + 1 then (tomaBytes (n + 1 - c.utf8Size) cs).map (c :: ·) else none

/-- The decimals of a literal, as many as the scale has. -/
def decimales (fracPart : Texto) (scale : Nat) : Option Nat :=
  if scale = 0 then some 0
  else
    (tomaBytes scale (fracPart ++ List.replicate (scale - bytes fracPart) '0')).map fun frac ↦
      (parseU64 frac).getD 0

/-- A literal as a whole number at a scale, truncated, or none where the compiler stops;
`codegen.rs:204–227`. -/
def scaledImm (lit : Texto) (scale : Nat) : Option UInt64 := do
  let t := trim lit
  let negativo := t.head? == some '-'
  let s := t.dropWhile fun c ↦ c == '+' || c == '-'
  let partes := (partir '.' s).getD (s, [])
  let intVal := (parseU64 partes.1).getD 0
  let fracVal ← decimales partes.2 scale
  let magnitud := UInt64.ofNat intVal * pow10 scale + UInt64.ofNat fracVal
  some (if negativo then -magnitud else magnitud)

/-! ### What a literal is -/

/-- Whether a text starts with a minus, and the text without its sign. -/
def signo : Texto → Bool × Texto
  | '-' :: r => (true, r)
  | '+' :: r => (false, r)
  | t => (false, t)

/-- A numeric literal: a sign, or none, digits, and perhaps a point and more digits. The whole number
of all its digits, and how many are decimals. -/
def literal (lit : Texto) : Option (Int × Nat) :=
  let p := signo (trim lit)
  let q := (partir '.' p.2).getD (p.2, [])
  (digitos (q.1 ++ q.2)).map fun n ↦ (if p.1 then -n else n, q.2.length)

section

variable {t : Texto}

theorem valor_append (a b : Texto) : valor (a ++ b) = valor a * 10 ^ b.length + valor b := by
  have h (n : Nat) : b.foldl (fun n c ↦ n * 10 + (c.toNat - 48)) n =
      n * 10 ^ b.length + valor b := by
    unfold valor
    induction b generalizing n with
    | nil => simp
    | cons c b ih =>
      rw [List.foldl_cons, List.foldl_cons, ih, ih (0 * 10 + _), List.length_cons, pow_succ]
      ring
  exact (List.foldl_append ..).trans (h _)

private theorem valor_zeros (k : Nat) : valor (List.replicate k '0') = 0 := by
  induction k with
  | zero => rfl
  | succ k ih =>
    rw [List.replicate_succ, ← List.singleton_append, valor_append, ih]
    exact Nat.zero_mul _

private theorem of_isDigit {c : Char} (h : c.isDigit = true) :
    c.utf8Size = 1 ∧ c ≠ '+' ∧ c ≠ '-' ∧ c ≠ '.' := by
  have hle : c.val.toNat ≤ 57 ∧ 48 ≤ c.val.toNat := by
    unfold Char.isDigit at h
    simp only [ge_iff_le, Bool.and_eq_true, decide_eq_true_eq, UInt32.le_iff_toNat_le] at h
    exact ⟨h.2, h.1⟩
  refine ⟨?_, ?_, ?_, ?_⟩
  · apply Char.utf8Size_eq_one_iff.mpr
    rw [UInt32.le_iff_toNat_le]
    change _ ≤ 127
    omega
  all_goals
    rintro rfl
    exact absurd hle (by decide)

private theorem bytes_of_isDigit (h : t.all Char.isDigit = true) : bytes t = t.length := by
  unfold bytes
  induction t with
  | nil => rfl
  | cons c t ih =>
    rw [List.all_cons, Bool.and_eq_true] at h
    rw [List.map_cons, List.sum_cons, ih h.2, (of_isDigit h.1).1, List.length_cons, Nat.add_comm]

private theorem tomaBytes_of_isDigit (h : t.all Char.isDigit = true) :
    tomaBytes t.length t = some t := by
  induction t with
  | nil => rfl
  | cons c t ih =>
    rw [List.all_cons, Bool.and_eq_true] at h
    rw [List.length_cons, tomaBytes, (of_isDigit h.1).1, if_pos (by omega), Nat.add_sub_cancel,
      ih h.2]
    rfl

private theorem parseU64_of_isDigit (h : t.all Char.isDigit = true) (hlt : valor t < 2 ^ 64) :
    (parseU64 t).getD 0 = valor t := by
  cases t with
  | nil => rfl
  | cons c t =>
    have hd := h
    rw [List.all_cons, Bool.and_eq_true] at hd
    have hplus := (of_isDigit hd.1).2.1
    have hmas : sinMas (c :: t) = c :: t := by
      unfold sinMas
      split
      · next heq => exact absurd (List.cons.inj heq).1 hplus
      · rfl
    unfold parseU64 digitos
    rw [hmas, if_pos ⟨by simp, h⟩, Option.filter_some, if_pos (decide_eq_true hlt)]
    rfl

/-- A text of digits, perhaps with a point in it, does not start with a sign. -/
theorem dropWhile_signo {s entera frac : Texto} (hs : (partir '.' s).getD (s, []) = (entera, frac))
    (h : (entera ++ frac).all Char.isDigit = true) :
    s.dropWhile (fun c ↦ c == '+' || c == '-') = s := by
  cases s with
  | nil => rfl
  | cons c s =>
    have hc : c = '.' ∨ c.isDigit = true := by
      by_cases hdot : c = '.'
      · exact Or.inl hdot
      · right
        rw [partir, if_neg hdot] at hs
        cases hp : partir '.' s with
        | none =>
          rw [hp] at hs
          obtain ⟨rfl, rfl⟩ := Prod.mk.inj hs
          rw [List.append_nil, List.all_cons, Bool.and_eq_true] at h
          exact h.1
        | some p =>
          rw [hp] at hs
          obtain ⟨rfl, rfl⟩ := Prod.mk.inj hs
          rw [List.cons_append, List.all_cons, Bool.and_eq_true] at h
          exact h.1
    have hno : (c == '+' || c == '-') = false := by
      rcases hc with rfl | hc
      · rfl
      · obtain ⟨-, h1, h2, -⟩ := of_isDigit hc
        simp [h1, h2]
    rw [List.dropWhile_cons_of_neg (by simp [hno])]

private theorem all_relleno {t : Texto} (h : t.all Char.isDigit = true) (k : Nat) :
    (t ++ List.replicate k '0').all Char.isDigit = true := by
  rw [List.all_append, h, Bool.true_and, List.all_eq_true]
  intro c hc
  rw [List.eq_of_mem_replicate hc]
  rfl

/-- The two parts of a literal, scaled. -/
theorem magnitud_eq {entera frac : Texto} {scale : Nat} (h : (entera ++ frac).all Char.isDigit = true)
    (hscale : frac.length ≤ scale)
    (hlt : valor (entera ++ frac) * 10 ^ (scale - frac.length) < 2 ^ 64) :
    (parseU64 entera).getD 0 * 10 ^ scale +
        (parseU64 (frac ++ List.replicate (scale - frac.length) '0')).getD 0 =
      valor (entera ++ frac) * 10 ^ (scale - frac.length) := by
  rw [List.all_append, Bool.and_eq_true] at h
  have hsplit : valor (entera ++ frac) * 10 ^ (scale - frac.length) =
      valor entera * 10 ^ scale + valor (frac ++ List.replicate (scale - frac.length) '0') := by
    have hpow : 10 ^ scale = 10 ^ frac.length * 10 ^ (scale - frac.length) := by
      rw [← pow_add, Nat.add_sub_cancel' hscale]
    rw [valor_append, valor_append, valor_zeros, List.length_replicate, hpow]
    ring
  have hpos : 0 < 10 ^ scale := pow_pos (by decide) scale
  have hle : valor entera ≤ valor entera * 10 ^ scale := Nat.le_mul_of_pos_right _ hpos
  rw [hsplit] at hlt ⊢
  rw [parseU64_of_isDigit h.1 (by omega), parseU64_of_isDigit (all_relleno h.2 _) (by omega)]

private theorem decimales_of_isDigit {frac : Texto} {scale : Nat} (h : frac.all Char.isDigit = true)
    (hscale : frac.length ≤ scale) : decimales frac scale =
      some ((parseU64 (frac ++ List.replicate (scale - frac.length) '0')).getD 0) := by
  unfold decimales
  rw [bytes_of_isDigit h]
  split
  · next h0 =>
    have hnil : frac = [] := List.eq_nil_of_length_eq_zero (by omega)
    rw [hnil, h0]
    rfl
  · have htoma := tomaBytes_of_isDigit (all_relleno h (scale - frac.length))
    rw [List.length_append, List.length_replicate, Nat.add_sub_cancel' hscale] at htoma
    rw [htoma]
    rfl

/-- A literal is scaled without loss, where its decimals and the number fit. -/
theorem scaledImm_literal {lit : Texto} {x : Int} {e scale : Nat} (h : literal lit = some (x, e))
    (he : e ≤ scale) (hfits : Fits (x * 10 ^ (scale - e))) :
    scaledImm lit scale = some (ofSigned (x * 10 ^ (scale - e))) := by
  have hsigno (t : Texto) : (t.head? == some '-') = (signo t).1 ∧
      t.dropWhile (fun c ↦ c == '+' || c == '-') =
        (signo t).2.dropWhile (fun c ↦ c == '+' || c == '-') := by
    unfold signo
    split
    · exact ⟨rfl, rfl⟩
    · exact ⟨rfl, rfl⟩
    · next h1 h2 =>
      refine ⟨?_, rfl⟩
      cases t with
      | nil => rfl
      | cons c t =>
        have hne : c ≠ '-' := by
          rintro rfl
          exact h1 t rfl
        simp [hne]
  unfold literal digitos at h
  dsimp only at h
  obtain ⟨n, hn, heq⟩ := Option.map_eq_some_iff.mp h
  split at hn
  · next hdig =>
    obtain ⟨hsig, hdrop⟩ := hsigno (trim lit)
    cases hn
    obtain ⟨rfl, rfl⟩ := Prod.mk.inj heq
    generalize hq : (partir '.' (signo (trim lit)).2).getD ((signo (trim lit)).2, []) = q at *
    obtain ⟨entera, frac⟩ := q
    rw [dropWhile_signo hq hdig.2] at hdrop
    dsimp only at he hfits ⊢
    have hall := hdig.2
    rw [List.all_append, Bool.and_eq_true] at hall
    have hcast : (if (signo (trim lit)).1 = true then -(valor (entera ++ frac) : Int)
        else valor (entera ++ frac)) * 10 ^ (scale - frac.length) =
        if (signo (trim lit)).1 = true
          then -((valor (entera ++ frac) * 10 ^ (scale - frac.length) : Nat) : Int)
          else (valor (entera ++ frac) * 10 ^ (scale - frac.length) : Nat) := by
      push_cast
      split <;> ring
    rw [hcast] at hfits ⊢
    have hlt : valor (entera ++ frac) * 10 ^ (scale - frac.length) < 2 ^ 64 := by
      unfold Fits at hfits
      split at hfits <;> omega
    have hmag := magnitud_eq hdig.2 he hlt
    unfold scaledImm
    dsimp only
    rw [hsig, hdrop, hq]
    dsimp only
    rw [decimales_of_isDigit hall.2 he]
    simp only [Option.bind_eq_bind, Option.bind_some, pow10, ← UInt64.ofNat_mul,
      ← UInt64.ofNat_add, hmag]
    split
    · rw [ofSigned_neg, ofSigned_natCast]
    · rw [ofSigned_natCast]
  · exact absurd hn (by simp)

/-- The decimals of a literal are the digits after its point. -/
theorem decimales_literal {lit : Texto} {x : Int} {e : Nat} (h : literal lit = some (x, e)) :
    (match partir '.' (trim lit) with
      | some (_, frac) => (frac.takeWhile Char.isDigit).length
      | none => 0) = e := by
  have hsigno (t : Texto) : ((partir '.' t).map Prod.snd) =
      (partir '.' (signo t).2).map Prod.snd := by
    have hcons (c : Char) (hc : c ≠ '.') (r : Texto) :
        (partir '.' (c :: r)).map Prod.snd = (partir '.' r).map Prod.snd := by
      rw [partir, if_neg hc, Option.map_map]
      rfl
    unfold signo
    split
    · exact hcons _ (by decide) _
    · exact hcons _ (by decide) _
    · rfl
  have hfrac (p : Option (Texto × Texto)) : (match p with
      | some (_, frac) => (frac.takeWhile Char.isDigit).length
      | none => 0) = (match p.map Prod.snd with
      | some frac => (frac.takeWhile Char.isDigit).length
      | none => 0) := by
    cases p <;> rfl
  rw [hfrac, hsigno]
  unfold literal digitos at h
  dsimp only at h
  obtain ⟨n, hn, heq⟩ := Option.map_eq_some_iff.mp h
  split at hn
  · next hdig =>
    obtain ⟨-, rfl⟩ := Prod.mk.inj heq
    cases hp : partir '.' (signo (trim lit)).2 with
    | none => rfl
    | some q =>
      rw [hp, Option.getD_some, List.all_append, Bool.and_eq_true] at hdig
      simp only [Option.map_some, Option.getD_some]
      rw [List.takeWhile_eq_self_iff.mpr (List.all_eq_true.mp hdig.2.2)]
  · exact absurd hn (by simp)

end

end BmoX.Cobol
