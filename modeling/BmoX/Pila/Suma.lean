import BmoX.Base.OnesSum

/-!
# The Internet checksum

`platform/shared/bmo-pila/src/suma.rs`, and the big-endian words and the reasons for a refusal
of `bmo-pila/src/lib.rs`. The running sum is fed in chunks of any length; a loose byte waits
for the first one of the next chunk.
-/

namespace BmoX.Pila

open BmoX.Base

/-- Why not; `bmo-pila/src/lib.rs:71–107`. -/
inductive Rechazo
  | corto | largo | version | cabecera | opciones | fragmento | banderas | suma | direccion
  | tipo | protocolo | puerto | secuencia | lleno | estado | asa | noEsParaMi
  deriving DecidableEq, Repr

/-- A check that did not refuse was passed. -/
theorem ite_error_eq_ok {α : Type*} {c : Prop} [Decidable c] {e : Rechazo} {x : Except Rechazo α}
    {v : α} : (if c then .error e else x) = .ok v ↔ ¬c ∧ x = .ok v := by
  split
  · next h =>
    constructor
    · intro hx
      cases hx
    · intro hx
      exact absurd h hx.1
  · next h => exact ⟨fun hx ↦ ⟨h, hx⟩, And.right⟩

/-! ### Big-endian words -/

/-- `u16::to_be_bytes`. -/
def u16Be (v : UInt16) : Bytes := [UInt8.ofNat (v.toNat / 256), UInt8.ofNat v.toNat]

/-- `u16::from_be_bytes`. -/
def u16De (alto bajo : UInt8) : UInt16 := UInt16.ofNat (alto.toNat * 256 + bajo.toNat)

/-- `u32::to_be_bytes`. -/
def u32Be (v : UInt32) : Bytes :=
  u16Be (UInt16.ofNat (v.toNat / 65536)) ++ u16Be (UInt16.ofNat v.toNat)

/-- `lib.rs:133–135`. Every caller checks the length first. -/
def be16 (b : Bytes) (i : Nat) : UInt16 := u16De (b.getD i 0) (b.getD (i + 1) 0)

/-- `lib.rs:137–139`. -/
def be32 (b : Bytes) (i : Nat) : UInt32 :=
  UInt32.ofNat ((be16 b i).toNat * 65536 + (be16 b (i + 2)).toNat)

/-- `lib.rs:141–143`. -/
def pon16 (b : Bytes) (i : Nat) (v : UInt16) : Bytes := splice b i (u16Be v)

@[simp] theorem length_u16Be (v : UInt16) : (u16Be v).length = 2 := rfl

@[simp] theorem length_u32Be (v : UInt32) : (u32Be v).length = 4 := rfl

private theorem toNat_u16De (alto bajo : UInt8) :
    (u16De alto bajo).toNat = alto.toNat * 256 + bajo.toNat := by
  have := alto.toNat_lt
  have := bajo.toNat_lt
  rw [u16De, UInt16.toNat_ofNat', Nat.mod_eq_of_lt (by omega)]

theorem u16De_u16Be (v : UInt16) :
    u16De (UInt8.ofNat (v.toNat / 256)) (UInt8.ofNat v.toNat) = v := by
  have hv := v.toNat_lt
  rw [← UInt16.toNat_inj, toNat_u16De, UInt8.toNat_ofNat', UInt8.toNat_ofNat']
  omega

theorem slice_of_eq {b a c r : Bytes} {o n : Nat} (h : b = a ++ (c ++ r)) (ho : o = a.length)
    (hn : n = c.length) : slice b o n = c := by
  rw [h, slice_append_right (Nat.le_of_eq ho.symm), ho, Nat.sub_self, slice_append_self hn]

theorem getD_of_eq {b a r : Bytes} {x : UInt8} {i : Nat} (h : b = a ++ (x :: r))
    (hi : i = a.length) : b.getD i 0 = x := by
  rw [h, hi, List.getD_append_right _ _ _ _ (Nat.le_refl _), Nat.sub_self]
  rfl

/-- Reading where a word was written. -/
theorem be16_of_eq {b a r : Bytes} {v : UInt16} {i : Nat} (h : b = a ++ (u16Be v ++ r))
    (hi : i = a.length) : be16 b i = v := by
  have hbajo : b = (a ++ [UInt8.ofNat (v.toNat / 256)]) ++ (UInt8.ofNat v.toNat :: r) := by
    rw [h, List.append_assoc]
    rfl
  rw [be16, getD_of_eq h hi, getD_of_eq hbajo (by rw [hi, List.length_append]; rfl)]
  exact u16De_u16Be v

/-- Reading where a double word was written. -/
theorem be32_of_eq {b a r : Bytes} {v : UInt32} {i : Nat} (h : b = a ++ (u32Be v ++ r))
    (hi : i = a.length) : be32 b i = v := by
  have hv := v.toNat_lt
  have hbajo : b = (a ++ u16Be (UInt16.ofNat (v.toNat / 65536))) ++
      (u16Be (UInt16.ofNat v.toNat) ++ r) := by
    rw [h, u32Be, List.append_assoc, List.append_assoc]
  rw [u32Be, List.append_assoc] at h
  rw [be32, be16_of_eq h hi, be16_of_eq hbajo (by rw [hi, List.length_append, length_u16Be]),
    ← UInt32.toNat_inj, UInt32.toNat_ofNat', UInt16.toNat_ofNat', UInt16.toNat_ofNat']
  omega

/-! ### The running sum -/

/-- A sum half made; `suma.rs:11–15`. -/
structure Suma where
  acum : UInt32
  impar : Option UInt8

namespace Suma

/-- `suma.rs:18–20`. -/
def nueva : Suma := ⟨0, none⟩

/-- Add a word and fold the carry at once; `suma.rs:22–27`. -/
def anadir (s : Suma) (v : UInt16) : Suma :=
  let acum := s.acum + v.toUInt32
  { s with acum := (acum &&& (0xFFFF : UInt32)) + (acum >>> (16 : UInt32)) }

/-- The pairs of a chunk, and the loose byte that may be left; `suma.rs:42–48`. -/
def pares (s : Suma) : Bytes → Suma
  | [] => s
  | [suelto] => { s with impar := some suelto }
  | alto :: bajo :: resto => (s.anadir (u16De alto bajo)).pares resto

/-- Feed a chunk; `suma.rs:29–49`. -/
def bytes (s : Suma) (b : Bytes) : Suma :=
  match s.impar with
  | some alto =>
    match b with
    | bajo :: resto => ({ s with impar := none }.anadir (u16De alto bajo)).pares resto
    | [] => s
  | none => s.pares b

/-- `suma.rs:51–53`. -/
def u16 (s : Suma) (v : UInt16) : Suma := s.bytes (u16Be v)

/-- The complement of the sum, a loose byte completed with zero; `suma.rs:56–61`. -/
def cerrar (s : Suma) : UInt16 :=
  match s.impar with
  | some alto => ~~~({ s with impar := none }.anadir (u16De alto 0)).acum.toUInt16
  | none => ~~~s.acum.toUInt16

end Suma

/-- The sum of a whole block; `suma.rs:65–69`. -/
def de (b : Bytes) : UInt16 := (Suma.nueva.bytes b).cerrar

/-- An IPv4 address; `ipv4.rs:22`. -/
abbrev Ip := Arr 4

/-- The pseudo-header of UDP and TCP; `suma.rs:72–79`. -/
def pseudo (origen destino : Ip) (protocolo : UInt8) (largo : UInt16) : Suma :=
  (((Suma.nueva.bytes origen.1).bytes destino.1).u16 protocolo.toUInt16).u16 largo

/-! ### Chunks do not show -/

namespace Suma

@[simp] theorem impar_anadir (s : Suma) (v : UInt16) : (s.anadir v).impar = s.impar := rfl

theorem bytes_of_none {s : Suma} (hs : s.impar = none) (b : Bytes) : s.bytes b = s.pares b := by
  unfold bytes
  rw [hs]

private theorem bytes_of_some {s : Suma} {alto : UInt8} (hs : s.impar = some alto) (bajo : UInt8)
    (resto : Bytes) : s.bytes (bajo :: resto) =
      ({ s with impar := none }.anadir (u16De alto bajo)).pares resto := by
  unfold bytes
  rw [hs]

@[simp] theorem bytes_nil (s : Suma) : s.bytes [] = s := by
  unfold bytes
  split <;> rfl

private theorem pares_append (s : Suma) (hs : s.impar = none) (a b : Bytes) :
    s.pares (a ++ b) = (s.pares a).bytes b := by
  fun_induction pares s a with
  | case1 s => rw [List.nil_append, bytes_of_none hs]
  | case2 s suelto =>
    cases b with
    | nil => rw [List.append_nil, bytes_nil, pares]
    | cons bajo resto =>
      rw [List.singleton_append, pares, bytes_of_some rfl, anadir, anadir, hs]
  | case3 s alto bajo resto ih => exact ih hs

private theorem bytes_append (s : Suma) (a b : Bytes) : s.bytes (a ++ b) = (s.bytes a).bytes b := by
  cases hs : s.impar with
  | none => rw [bytes_of_none hs, bytes_of_none hs, pares_append s hs]
  | some alto =>
    cases a with
    | nil => rw [List.nil_append, bytes_nil]
    | cons bajo resto =>
      rw [List.cons_append, bytes_of_some hs, bytes_of_some hs, pares_append _ rfl]

theorem foldl_bytes (s : Suma) (trozos : List Bytes) :
    trozos.foldl bytes s = s.bytes trozos.flatten := by
  induction trozos generalizing s with
  | nil => rw [List.foldl_nil, List.flatten_nil, bytes_nil]
  | cons t trozos ih => rw [List.foldl_cons, ih, List.flatten_cons, bytes_append]

end Suma

/-! ### The running sum is the one's-complement sum -/

private theorem Suma.acum_anadir (s : Suma) (v : UInt16) (hs : s.acum.toNat < 65536) :
    (s.anadir v).acum.toNat = carryAdd 65536 s.acum.toNat v.toNat := by
  have hv := v.toNat_lt
  have hm : (0xFFFF : UInt32).toNat = 2 ^ 16 - 1 := rfl
  rw [anadir, carryAdd, UInt32.toNat_add, UInt32.toNat_and, hm, Nat.and_two_pow_sub_one_eq_mod,
    UInt32.toNat_shiftRight, UInt32.toNat_add, UInt16.toNat_toUInt32, Nat.shiftRight_eq_div_pow,
    show (16 : UInt32).toNat % 32 = 16 from rfl]
  omega

private theorem toNat_compl16 (v : UInt16) : (~~~v).toNat = 65535 - v.toNat := by
  rw [UInt16.toNat_not]
  rfl

private theorem cerrar_pares (s : Suma) (hs : s.impar = none) (n : Nat)
    (hn : s.acum.toNat = carryFold 65536 n) (b : Bytes) :
    (s.pares b).cerrar.toNat = 65535 - carryFold 65536 (n + (beWords b).sum) := by
  have hcierra : ∀ (s : Suma) (n : Nat), s.acum.toNat = carryFold 65536 n →
      (~~~s.acum.toUInt16).toNat = 65535 - carryFold 65536 n := by
    intro s n hn
    have hlt := carryFold_lt (m := 65536) (by decide) n
    rw [toNat_compl16, UInt32.toNat_toUInt16, hn, Nat.mod_eq_of_lt hlt]
  have hsuma : ∀ (s : Suma) (n : Nat) (v : UInt16), s.acum.toNat = carryFold 65536 n →
      (s.anadir v).acum.toNat = carryFold 65536 (n + v.toNat) := by
    intro s n v hn
    have hlt := carryFold_lt (m := 65536) (by decide) n
    rw [Suma.acum_anadir s v (by omega), hn, carryAdd_eq (by decide) hlt v.toNat_lt,
      carryFold_carryFold_add]
  fun_induction Suma.pares s b generalizing n with
  | case1 s =>
    rw [Suma.cerrar, hs]
    exact hcierra s n hn
  | case2 s suelto =>
    have h := hsuma { s with impar := none } n (u16De suelto 0) hn
    rw [toNat_u16De] at h
    exact hcierra _ _ h
  | case3 s alto bajo resto ih =>
    rw [ih hs (n + (alto.toNat * 256 + bajo.toNat)), beWords, List.sum_cons, Nat.add_assoc]
    rw [← toNat_u16De]
    exact hsuma s n _ hn

theorem toNat_de (b : Bytes) : (de b).toNat = 65535 - onesSum 65536 (beWords b) := by
  rw [de, Suma.bytes_of_none rfl, cerrar_pares Suma.nueva rfl 0 rfl, Nat.zero_add,
    onesSum_eq (by decide) (beWords_lt b)]

theorem de_eq_zero_iff (b : Bytes) : de b = 0 ↔ carryFold 65536 (beWords b).sum = 65535 := by
  have hlt := carryFold_lt (m := 65536) (by decide) (beWords b).sum
  rw [← UInt16.toNat_inj, toNat_de, onesSum_eq (by decide) (beWords_lt b), UInt16.toNat_zero]
  omega

private theorem sum_beWords_campo {a : Bytes} (ha : a.length % 2 = 0) (v : UInt16) (b : Bytes) :
    (beWords (a ++ (u16Be v ++ b))).sum =
      (beWords a).sum + (v.toNat + (beWords b).sum) := by
  have hv : beWords (u16Be v) = [v.toNat] := by
    have hlt := v.toNat_lt
    rw [u16Be, beWords, beWords, UInt8.toNat_ofNat', UInt8.toNat_ofNat']
    congr 1
    omega
  have hpar : (u16Be v).length % 2 = 0 := by rw [length_u16Be]
  rw [beWords_append ha, beWords_append hpar, hv, List.sum_append, List.sum_append,
    List.sum_singleton]

/-- Filling the field of the sum, zero while summing, makes the block check. -/
theorem de_campo {a : Bytes} (ha : a.length % 2 = 0) (b : Bytes) :
    de (a ++ (u16Be (de (a ++ (u16Be 0 ++ b))) ++ b)) = 0 := by
  have h0 := sum_beWords_campo ha 0 b
  have hc := carryFold_compl (m := 65536) (by decide) (beWords (a ++ (u16Be 0 ++ b))).sum
  have hreparto : (beWords a).sum + (65535 - carryFold 65536 (beWords (a ++ (u16Be 0 ++ b))).sum +
      (beWords b).sum) = (beWords (a ++ (u16Be 0 ++ b))).sum +
        (65536 - 1 - carryFold 65536 (beWords (a ++ (u16Be 0 ++ b))).sum) := by
    rw [h0, UInt16.toNat_zero]
    omega
  rw [de_eq_zero_iff, sum_beWords_campo ha, toNat_de, onesSum_eq (by decide) (beWords_lt _),
    hreparto, hc]

/-- A field of all ones counts as one of zeros: where a zero checks, so does it. -/
theorem de_campo_unos {a b : Bytes} (ha : a.length % 2 = 0) (h : de (a ++ (u16Be 0 ++ b)) = 0) :
    de (a ++ (u16Be 0xFFFF ++ b)) = 0 := by
  rw [de_eq_zero_iff, sum_beWords_campo ha, UInt16.toNat_zero, Nat.zero_add] at h
  have hpos : 0 < (beWords a).sum + (beWords b).sum := by
    by_contra hcero
    rw [Nat.eq_zero_of_not_pos hcero] at h
    exact absurd h (by decide)
  have hunos : (0xFFFF : UInt16).toNat = 65536 - 1 := rfl
  have hreparto : (beWords a).sum + (65536 - 1 + (beWords b).sum) =
      (beWords a).sum + (beWords b).sum + (65536 - 1) := by omega
  rw [de_eq_zero_iff, sum_beWords_campo ha, hunos, hreparto, carryFold_add _ hpos, h]

theorem de_flipBit {b : Bytes} {i k : Nat} (hi : i < b.length) (hk : k < 8) (h : de b = 0) :
    de (flipBit b i k) ≠ 0 :=
  mt (de_eq_zero_iff _).mp (carryFold_flipBit hi hk ((de_eq_zero_iff _).mp h))

/-- The bytes of the pseudo-header. -/
def cabeceraPseudo (origen destino : Ip) (protocolo : UInt8) (largo : UInt16) : Bytes :=
  origen.1 ++ (destino.1 ++ (u16Be protocolo.toUInt16 ++ u16Be largo))

@[simp] theorem length_cabeceraPseudo (origen destino : Ip) (protocolo : UInt8)
    (largo : UInt16) : (cabeceraPseudo origen destino protocolo largo).length = 12 := by
  simp [cabeceraPseudo]

/-- Summing after the pseudo-header sums the pseudo-header and the rest as one block. -/
theorem cerrar_pseudo (origen destino : Ip) (protocolo : UInt8) (largo : UInt16) (b : Bytes) :
    ((pseudo origen destino protocolo largo).bytes b).cerrar =
      de (cabeceraPseudo origen destino protocolo largo ++ b) := by
  rw [pseudo, Suma.u16, Suma.u16, ← Suma.bytes_append, ← Suma.bytes_append,
    ← Suma.bytes_append, ← Suma.bytes_append, de, cabeceraPseudo]
  simp only [List.append_assoc]

end BmoX.Pila
