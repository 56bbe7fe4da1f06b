import BmoX.Cripto.Fips180
import BmoX.Base.Blocks

/-!
# HMAC and HKDF

`platform/shared/bmo-cripto/src/hmac.rs`, against RFC 2104 and RFC 5869. A label that does not fit
is refused inside the loop, so it is not refused where the loop has no turn.
-/

namespace BmoX.Cripto

open BmoX.Base

namespace Rfc2104

/-- The hash, and the bytes of its block. -/
def H (m : Bytes) : Bytes := Fips180.digest Fips180.sha256 m

def B : Nat := 64

/-- The key, of the length of a block. -/
def key (K : Bytes) : Bytes :=
  let K := if B < K.length then H K else K
  K ++ zeros (B - K.length)

/-- `H(K XOR opad, H(K XOR ipad, text))`. -/
def hmac (K text : Bytes) : Bytes :=
  H ((key K).map (· ^^^ 0x5C) ++ H ((key K).map (· ^^^ 0x36) ++ text))

end Rfc2104

namespace Rfc5869

/-- §2.2. -/
def extract (salt ikm : Bytes) : Bytes := Rfc2104.hmac salt ikm

/-- The blocks of the output; §2.3. -/
def T (prk info : Bytes) : Nat → Bytes
  | 0 => []
  | i + 1 => Rfc2104.hmac prk (T prk info i ++ info ++ [UInt8.ofNat (i + 1)])

/-- `T(1) | T(2) | … | T(N)`. -/
def blocks (prk info : Bytes) (N : Nat) : Bytes := (List.range N).flatMap fun i ↦ T prk info (i + 1)

/-- The first `L` bytes of the blocks that they need; §2.3. -/
def expand (prk info : Bytes) (L : Nat) : Bytes := (blocks prk info ((L + 31) / 32)).take L

end Rfc5869

namespace Hmac

open Sha2

/-- `sha256.rs:61`. -/
def LARGO : Nat := 32

/-- The key in a block: hashed, if it is longer; `hmac.rs:56–62`. -/
def enBloque (clave : Bytes) : Option Bytes :=
  if clave.length > BLOQUE 32 then
    (hash sha256 clave).map fun h ↦ splice (zeros (BLOQUE 32)) 0 h
  else some (splice (zeros (BLOQUE 32)) 0 clave)

/-- `hmac.rs:49–82`. -/
def hmac (clave mensaje : Bytes) : Option Bytes := do
  let k ← enBloque clave
  let ipad := List.zipWith (· ^^^ ·) (List.replicate (BLOQUE 32) (0x36 : UInt8)) k
  let opad := List.zipWith (· ^^^ ·) (List.replicate (BLOQUE 32) (0x5C : UInt8)) k
  let interior ← (((nuevo sha256).mete sha256 ipad).mete sha256 mensaje).cierra sha256
  (((nuevo sha256).mete sha256 opad).mete sha256 interior).cierra sha256

/-- `hmac.rs:139–141`. -/
def extraer (sal secreto : Bytes) : Option Bytes := hmac sal secreto

/-- What a turn hashes: the block before, if there is one, the label and the count of the turn;
`hmac.rs:175–189`. -/
def entrada (previo : Bytes) (hayPrevio : Bool) (etiqueta : Bytes) (n : Nat) : Bytes :=
  let entrada := zeros (LARGO + 256 + 1)
  let (entrada, k) := if hayPrevio then (splice entrada 0 previo, LARGO) else (entrada, 0)
  let entrada := splice entrada k etiqueta
  let k := k + etiqueta.length
  let entrada := entrada.set k (UInt8.ofNat n)
  entrada.take (k + 1)

/-- The `i` turns that are left from the `n`-th, and the output that they write; `hmac.rs:165–194`. -/
def vueltas (llave etiqueta : Bytes) :
    (i n : Nat) → (previo : Bytes) → (hayPrevio : Bool) → (puesto : Nat) → (salida : Bytes) →
      Option (Bool × Bytes)
  | 0, _, _, _, _, salida => some (true, salida)
  | i + 1, n, previo, hayPrevio, puesto, salida => do
    if etiqueta.length > 256 then some (false, salida)
    else
      let previo ← hmac llave (entrada previo hayPrevio etiqueta n)
      let cuantos := min LARGO (salida.length - puesto)
      vueltas llave etiqueta i (n + 1) previo true (puesto + cuantos)
        (splice salida puesto (previo.take cuantos))

/-- What `expandir` answers, and the output as it leaves it; `hmac.rs:155–196`. -/
def expandir (llave etiqueta salida : Bytes) : Option (Bool × Bytes) :=
  let bloques := (salida.length + (LARGO - 1)) / LARGO
  if bloques > 255 then some (false, salida)
  else vueltas llave etiqueta bloques 1 (zeros LARGO) false 0 salida

/-! ### The tag -/

private theorem length_digest (m : Bytes) : (Rfc2104.H m).length = LARGO := by
  unfold Rfc2104.H Fips180.digest
  simp only [List.flatMap_cons, List.flatMap_nil, List.length_append, length_beBytes,
    List.length_nil]
  rfl

theorem length_hmac (K text : Bytes) : (Rfc2104.hmac K text).length = LARGO := length_digest _

private theorem zipWith_replicate (c : UInt8) (k : Bytes) :
    List.zipWith (· ^^^ ·) (List.replicate k.length c) k = k.map (· ^^^ c) := by
  induction k with
  | nil => rfl
  | cons x k ih =>
    rw [List.length_cons, List.replicate_succ, List.zipWith_cons_cons, ih, List.map_cons,
      UInt8.xor_comm]

private theorem cierra_dos (a b : Bytes) :
    (((nuevo sha256).mete sha256 a).mete sha256 b).cierra sha256 = some (Rfc2104.H (a ++ b)) := by
  obtain ⟨e, hcerrado, -, hsalida⟩ := cierra_partes sha256_es (by decide) [a, b]
  rw [List.flatten_cons, List.flatten_singleton] at hsalida
  unfold Estado.cierra Rfc2104.H
  rw [← hsalida]
  exact congrArg (Option.map fun e ↦ e.h.salida) hcerrado

theorem splice_zeros {n : Nat} (b : Bytes) : splice (zeros n) 0 b = b ++ zeros (n - b.length) := by
  rw [splice, List.take_zero, List.nil_append, Nat.zero_add, zeros, List.drop_replicate, zeros]

private theorem length_key (K : Bytes) : (Rfc2104.key K).length = BLOQUE 32 := by
  unfold Rfc2104.key
  dsimp only
  rw [List.length_append, length_zeros]
  have hB : BLOQUE 32 = Rfc2104.B := rfl
  by_cases hlen : Rfc2104.B < K.length
  · have hH := length_digest K
    have hL : LARGO ≤ Rfc2104.B := by decide
    rw [if_pos hlen]
    omega
  · rw [if_neg hlen]
    omega

/-- **The tag is that of RFC 2104**, whatever the key and the message. -/
theorem hmac_eq (clave mensaje : Bytes) :
    hmac clave mensaje = some (Rfc2104.hmac clave mensaje) := by
  have hk : enBloque clave = some (Rfc2104.key clave) := by
    unfold enBloque Rfc2104.key
    by_cases hlen : clave.length > BLOQUE 32
    · rw [if_pos hlen, hash_eq sha256_es (by decide), Option.map_some, splice_zeros,
        if_pos (show Rfc2104.B < clave.length from hlen)]
      rfl
    · rw [if_neg hlen, splice_zeros, if_neg (show ¬Rfc2104.B < clave.length from hlen)]
      rfl
  have hpad (c : UInt8) : List.zipWith (· ^^^ ·) (List.replicate (BLOQUE 32) c)
      (Rfc2104.key clave) = (Rfc2104.key clave).map (· ^^^ c) := by
    rw [← length_key clave, zipWith_replicate]
  unfold hmac
  rw [hk]
  dsimp only [Option.bind_eq_bind, Option.bind_some]
  rw [hpad, hpad, cierra_dos]
  dsimp only [Option.bind_some]
  rw [cierra_dos]
  rfl

/-! ### The keys of a label -/

open Rfc5869

private theorem length_T_succ (prk info : Bytes) (i : Nat) : (T prk info (i + 1)).length = LARGO :=
  length_hmac _ _

private theorem blocks_succ (prk info : Bytes) (N : Nat) :
    blocks prk info (N + 1) = blocks prk info N ++ T prk info (N + 1) := by
  rw [blocks, List.range_succ, List.flatMap_append, List.flatMap_singleton]
  rfl

theorem length_blocks (prk info : Bytes) (N : Nat) : (blocks prk info N).length = LARGO * N := by
  induction N with
  | zero => rfl
  | succ N ih => rw [blocks_succ, List.length_append, ih, length_T_succ, Nat.mul_succ]

/-- A block of the array, the label and a byte after it. -/
theorem take_arreglo {a etiqueta : Bytes} {n : UInt8} (hcabe : a.length + etiqueta.length < 289) :
    ((splice (splice (zeros 289) 0 a) a.length etiqueta).set (a.length + etiqueta.length) n).take
      (a.length + etiqueta.length + 1) = a ++ etiqueta ++ [n] := by
  have hlen : (a ++ etiqueta).length = a.length + etiqueta.length := List.length_append
  have hpre : splice (splice (zeros 289) 0 a) a.length etiqueta =
      a ++ etiqueta ++ zeros (289 - (a.length + etiqueta.length)) := by
    rw [splice_zeros, splice, List.take_left, List.drop_append, List.drop_of_length_le (by omega),
      List.nil_append, Nat.add_sub_cancel_left, zeros, List.drop_replicate, zeros, Nat.sub_sub]
  obtain ⟨m, hm⟩ : ∃ m, 289 - (a.length + etiqueta.length) = m + 1 :=
    ⟨288 - (a.length + etiqueta.length), by omega⟩
  rw [hpre, hm, List.set_append_right _ _ hlen.le, hlen, Nat.sub_self, zeros,
    List.replicate_succ, List.set_cons_zero, List.take_append, List.take_of_length_le (by omega),
    hlen, Nat.add_sub_cancel_left, List.take_succ_cons, List.take_zero]

/-- **What a turn hashes**, after `m` blocks. -/
theorem entrada_eq {llave etiqueta previo : Bytes} (hcabe : etiqueta.length ≤ 256) {m : Nat}
    (hprevio : m ≠ 0 → previo = T llave etiqueta m) :
    entrada previo (decide (m ≠ 0)) etiqueta (m + 1) =
      T llave etiqueta m ++ etiqueta ++ [UInt8.ofNat (m + 1)] := by
  have hL : LARGO = 32 := rfl
  unfold entrada
  cases m with
  | zero =>
    have h := take_arreglo (a := []) (n := UInt8.ofNat (0 + 1))
      (show 0 + etiqueta.length < 289 by omega)
    rw [splice_nil] at h
    exact h
  | succ m =>
    have hlen := length_T_succ llave etiqueta m
    have h := take_arreglo (a := T llave etiqueta (m + 1)) (n := UInt8.ofNat (m + 1 + 1))
      (show _ + etiqueta.length < 289 by omega)
    rw [hlen] at h
    rw [hprevio (Nat.succ_ne_zero m), ← h]
    rfl

/-- **The loop**, after `m` blocks of the output. -/
theorem vueltas_eq (llave : Bytes) {etiqueta : Bytes} (hcabe : etiqueta.length ≤ 256) (i m : Nat)
    (previo : Bytes) {salida : Bytes} (hvueltas : i + m = (salida.length + 31) / 32)
    (hprevio : m ≠ 0 → previo = T llave etiqueta m)
    (hsalida : salida.take (min (LARGO * m) salida.length) =
      (blocks llave etiqueta m).take (min (LARGO * m) salida.length)) :
    vueltas llave etiqueta i (m + 1) previo (decide (m ≠ 0)) (min (LARGO * m) salida.length)
      salida = some (true, expand llave etiqueta salida.length) := by
  have hL : LARGO = 32 := rfl
  induction i generalizing m previo salida with
  | zero =>
    have hmin : min (LARGO * m) salida.length = salida.length := by
      rw [hL]
      omega
    rw [hmin, List.take_length] at hsalida
    rw [vueltas, expand, ← hvueltas, Nat.zero_add, ← hsalida]
  | succ i ih =>
    have hlt : LARGO * m < salida.length := by
      rw [hL]
      omega
    have hmin : min (LARGO * m) salida.length = LARGO * m := Nat.min_eq_left hlt.le
    have hT := length_T_succ llave etiqueta m
    rw [hmin, List.take_of_length_le (length_blocks ..).le] at hsalida
    have hsiguiente : LARGO * m + min LARGO (salida.length - LARGO * m) =
        min (LARGO * (m + 1)) salida.length := by
      rw [Nat.mul_succ]
      omega
    obtain ⟨c, hc⟩ : ∃ c, c = min LARGO (salida.length - LARGO * m) := ⟨_, rfl⟩
    rw [← hc] at hsiguiente
    have hpieza : ((T llave etiqueta (m + 1)).take c).length = c := by
      rw [List.length_take, hT]
      omega
    have hlen : (splice salida (LARGO * m) ((T llave etiqueta (m + 1)).take c)).length =
        salida.length := length_splice (by rw [hpieza]; omega)
    have hpuesto : (splice salida (LARGO * m) ((T llave etiqueta (m + 1)).take c)).take
        (LARGO * m + c) = (blocks llave etiqueta (m + 1)).take (LARGO * m + c) := by
      have hpre : (blocks llave etiqueta m ++ (T llave etiqueta (m + 1)).take c).length =
          LARGO * m + c := by rw [List.length_append, length_blocks, hpieza]
      rw [splice, hsalida, List.take_append_of_le_length hpre.ge, List.take_of_length_le hpre.le,
        blocks_succ, List.take_append, length_blocks, Nat.add_sub_cancel_left,
        List.take_of_length_le (l := blocks ..) (by rw [length_blocks]; omega)]
    have h := @ih (m + 1) _ (splice salida (LARGO * m) ((T llave etiqueta (m + 1)).take c))
      (by rw [hlen]; omega) (fun _ ↦ rfl) (by rw [hlen, ← hsiguiente]; exact hpuesto)
    rw [hlen, ← hsiguiente] at h
    rw [vueltas, if_neg (by omega), entrada_eq hcabe hprevio, hmac_eq, hmin]
    dsimp only [Option.bind_eq_bind, Option.bind_some]
    rw [← hc]
    exact h

private theorem expandir_larga {llave etiqueta salida : Bytes} (h : 255 * 32 < salida.length) :
    expandir llave etiqueta salida = some (false, salida) :=
  if_pos (show (salida.length + 31) / 32 > 255 by omega)

private theorem expandir_bloques {llave etiqueta salida : Bytes} (h : salida.length ≤ 255 * 32) :
    expandir llave etiqueta salida =
      vueltas llave etiqueta ((salida.length + 31) / 32) 1 (zeros LARGO) false 0 salida :=
  if_neg (show ¬(salida.length + 31) / 32 > 255 by omega)

private theorem expandir_cabe {llave etiqueta salida : Bytes} (h : salida.length ≤ 255 * 32)
    (hcabe : etiqueta.length ≤ 256) :
    expandir llave etiqueta salida = some (true, expand llave etiqueta salida.length) := by
  have hvueltas := vueltas_eq llave hcabe ((salida.length + 31) / 32) 0
    (zeros LARGO) (show _ = (salida.length + 31) / 32 from rfl) (fun hno ↦ absurd rfl hno) (by simp)
  rw [Nat.mul_zero, Nat.zero_min] at hvueltas
  exact (expandir_bloques h).trans hvueltas

private theorem expandir_etiqueta {llave etiqueta salida : Bytes} (hcabe : 256 < etiqueta.length)
    (hvacia : salida ≠ []) : expandir llave etiqueta salida = some (false, salida) := by
  rcases Nat.lt_or_ge (255 * 32) salida.length with hlarga | hcorta
  · exact expandir_larga hlarga
  · have hpos := List.length_pos_of_ne_nil hvacia
    obtain ⟨i, hi⟩ : ∃ i, (salida.length + 31) / 32 = i + 1 :=
      ⟨(salida.length + 31) / 32 - 1, by omega⟩
    rw [expandir_bloques hcorta, hi, vueltas, if_pos hcabe]

private theorem expandir_vacia (llave etiqueta : Bytes) :
    expandir llave etiqueta [] = some (true, []) := rfl

/-- What is promised of `expandir`. -/
def Promete (llave etiqueta salida : Bytes) : Prop :=
  ∃ b s, expandir llave etiqueta salida = some (b, s) ∧
    (b = false ↔ 255 * 32 < salida.length ∨ 256 < etiqueta.length) ∧
    (b = false → s = salida) ∧ (b = true → s = expand llave etiqueta salida.length)

private theorem promete_iff (llave etiqueta salida : Bytes) :
    Promete llave etiqueta salida ↔ salida ≠ [] ∨ etiqueta.length ≤ 256 := by
  constructor
  · rintro ⟨b, s, heq, hfalse, -, -⟩
    by_contra hno
    obtain ⟨hvacia, hlarga⟩ := not_or.mp hno
    rw [not_not] at hvacia
    subst hvacia
    rw [expandir_vacia] at heq
    obtain ⟨rfl, rfl⟩ := Prod.mk.inj (Option.some.inj heq)
    exact Bool.noConfusion (hfalse.mpr (.inr (by omega)))
  · intro h
    by_cases hlarga : 255 * 32 < salida.length
    · exact ⟨false, salida, expandir_larga hlarga, iff_of_true rfl (.inl hlarga), fun _ ↦ rfl,
        fun hno ↦ Bool.noConfusion hno⟩
    · by_cases hcabe : 256 < etiqueta.length
      · have hvacia : salida ≠ [] := h.resolve_right (by omega)
        exact ⟨false, salida, expandir_etiqueta hcabe hvacia, iff_of_true rfl (.inr hcabe),
          fun _ ↦ rfl, fun hno ↦ Bool.noConfusion hno⟩
      · refine ⟨true, _, expandir_cabe (by omega) (by omega), ?_, fun hno ↦ Bool.noConfusion hno,
          fun _ ↦ rfl⟩
        exact iff_of_false (fun hno ↦ Bool.noConfusion hno) (not_or.mpr ⟨hlarga, hcabe⟩)

/-- **The hashes, the tags and the keys of the crate are those of their standards**, but for the answer
to a label that does not fit where nothing is asked for. -/
theorem resumen_iff (partes : List Bytes) (clave mensaje sal secreto llave etiqueta salida : Bytes) :
    ((∃ e, (partes.foldl (fun e d ↦ e.mete sha256 d) (nuevo sha256)).cerrado sha256 = some e ∧
        e.pendientes = 0 ∧ e.h.salida = Fips180.digest Fips180.sha256 partes.flatten) ∧
      (∃ e, (partes.foldl (fun e d ↦ e.mete sha512 d) (nuevo sha512)).cerrado sha512 = some e ∧
        e.pendientes = 0 ∧ e.h.salida = Fips180.digest Fips180.sha512 partes.flatten) ∧
      hmac clave mensaje = some (Rfc2104.hmac clave mensaje) ∧
      extraer sal secreto = some (Rfc5869.extract sal secreto) ∧
      Promete llave etiqueta salida) ↔ salida ≠ [] ∨ etiqueta.length ≤ 256 := by
  rw [promete_iff]
  refine ⟨fun h ↦ h.2.2.2.2, fun h ↦ ⟨?_, ?_, hmac_eq clave mensaje, hmac_eq sal secreto, h⟩⟩
  · exact cierra_partes sha256_es (by decide) partes
  · exact cierra_partes sha512_es (by decide) partes

/-- A label of 257 bytes is not refused. -/
theorem etiqueta_no_cabe : 256 < (zeros 257).length ∧
    expandir (zeros 32) (zeros 257) [] = some (true, []) ∧ ¬Promete (zeros 32) (zeros 257) [] := by
  refine ⟨by rw [length_zeros]; decide, rfl, ?_⟩
  rw [promete_iff, not_or, length_zeros]
  exact ⟨fun hno ↦ hno rfl, by decide⟩

end Hmac

end BmoX.Cripto
