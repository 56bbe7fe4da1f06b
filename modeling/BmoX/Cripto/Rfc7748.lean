import BmoX.Base.Ladder
import BmoX.Cripto.Campo25519

/-!
# The function X25519

The function as `x25519.rs` cites it, over exact numbers modulo `2^255 - 19`: the decoding of the
scalar and of the coordinate, the ladder with its deferred exchange, the encoding. On the points of
the curve it is a multiple of the point, so that two scalars commute.

`x25519.rs` and `ed25519.rs` count on one curve, seen in two ways: Edwards25519, with its base point
of prime order, and its Montgomery coordinate, where that point is nine.
-/

/-! ### The curve -/

namespace BmoX.Cripto.Curva

open BmoX.Base BmoX.Cripto.Campo

/-- `d` of the curve, as a number (`ed25519.rs:72–75`). -/
def D : Nat := 37095705934669439343138083508754565189542113879843219016388785533085940283555

/-- The root of `-1`, as a number (`ed25519.rs:80–83`). -/
def RAIZ : Nat := 19681161376707505956807079304988542015446066515923890162744021073123829784752

/-- The coordinates of the base point (`ed25519.rs:93–96`). -/
def BASE_X : Nat := 15112221349535400772501151409588531511454012693041857206046113283949847762202

def BASE_Y : Nat := 46316835694926478169428394003475163141307993866256225615783033603165251855960

theorem cast_eq {m n : Nat} (h : m % P25519 = n % P25519) : (m : K) = n :=
  (ZMod.natCast_eq_natCast_iff' m n P25519).mpr h

private theorem cast_D : (D : K) * (121665 + 1) = -121665 := by
  have h : ((D * 121666 + 121665 : Nat) : K) = (0 : Nat) :=
    cast_eq (by norm_num [D, P25519])
  push_cast at h
  linear_combination h

private theorem cast_RAIZ : (RAIZ : K) ^ 2 = -1 := by
  have h : ((RAIZ * RAIZ + 1 : Nat) : K) = (0 : Nat) :=
    cast_eq (by norm_num [RAIZ, P25519])
  push_cast at h
  linear_combination h

theorem two_ne : (2 : K) ≠ 0 := by
  intro h
  have h2 : ((2 : Nat) : K) = 0 := h
  rw [ZMod.natCast_eq_zero_iff] at h2
  exact absurd (Nat.le_of_dvd (by decide) h2) (by norm_num [P25519])

private theorem D_no_cuadrado (t : K) : t ^ 2 ≠ D :=
  Pratt.sq_ne_of_powMod (by norm_num [P25519]) (by norm_num [P25519]) (by decide +kernel) t

/-- Edwards25519. -/
def curva : Edwards.Curve K where
  d := D
  i := RAIZ
  two_ne := two_ne
  i_sq := cast_RAIZ
  not_square := D_no_cuadrado

theorem curva_d : curva.d = (D : K) := rfl

theorem curva_i : curva.i = (RAIZ : K) := rfl

/-- The points of the curve. -/
abbrev G := Edwards.Point curva

/-- The base point. -/
def base : G where
  x := BASE_X
  y := BASE_Y
  on := by
    have h : ((BASE_Y * BASE_Y : Nat) : K) =
        (1 + D * BASE_X * BASE_X * (BASE_Y * BASE_Y) + BASE_X * BASE_X : Nat) :=
      cast_eq (by norm_num [D, BASE_X, BASE_Y, P25519])
    push_cast at h
    change -(BASE_X : K) ^ 2 + (BASE_Y : K) ^ 2 = 1 + D * (BASE_X : K) ^ 2 * (BASE_Y : K) ^ 2
    linear_combination h

/-- The base point in extended coordinates, as numbers. -/
def BASE_EXT : Edwards.Ext Nat := ⟨BASE_X, BASE_Y, 1, BASE_X * BASE_Y⟩

private theorem base_ext : BASE_EXT.IsMod base := by
  refine ⟨by norm_num [BASE_EXT, BASE_X, P25519], ?_⟩
  constructor <;> simp [BASE_EXT, Edwards.Ext.cast, base]

private theorem cast_dos_D : ((2 * D : Nat) : K) = curva.d + curva.d := by
  rw [Nat.cast_mul, Nat.cast_two, two_mul]
  rfl

/-- The base point `L` times, computed. -/
def multiplo : Edwards.Ext Nat :=
  (bitsOf ORDEN25519 253).foldl (Edwards.Ext.stepMod P25519 (2 * D) BASE_EXT) ⟨0, 1, 1, 0⟩

private theorem multiplo_neutro : multiplo.X = 0 ∧ multiplo.Y = multiplo.Z := by
  decide +kernel

private theorem orden_nsmul_base : ORDEN25519 • base = 0 := by
  have h := (base_ext.foldl cast_dos_D (bitsOf ORDEN25519 253)).is
  have hspell : spell 0 (bitsOf ORDEN25519 253) = ORDEN25519 := by
    rw [spell_bitsOf, Nat.zero_mul, Nat.zero_add]
    norm_num [ORDEN25519]
  rw [hspell] at h
  have hX : (multiplo.cast P25519).X = 0 := by
    rw [Edwards.Ext.cast, multiplo_neutro.1, Nat.cast_zero]
  have hY : (multiplo.cast P25519).Y = (multiplo.cast P25519).Z := by
    rw [Edwards.Ext.cast, multiplo_neutro.2]
  have hx := h.x.symm.trans hX
  have hy := h.y.symm.trans hY
  ext
  · exact (mul_eq_zero.mp hx).resolve_right h.ne
  · exact (mul_eq_right₀ h.ne).mp hy

/-- The order of the base point is the prime `L`. -/
theorem orden_base : addOrderOf base = ORDEN25519 := by
  apply addOrderOf_eq_prime orden_nsmul_base
  intro h
  have hy : ((BASE_Y : Nat) : K) = (1 : Nat) := by
    rw [Nat.cast_one]
    exact congrArg Edwards.Point.y h
  rw [ZMod.natCast_eq_natCast_iff'] at hy
  exact absurd hy (by norm_num [BASE_Y, P25519])

/-- The base point is nine in the Montgomery coordinate. -/
theorem u_base : Ladder.u base = 9 := by
  have hy : 10 * (BASE_Y : K) = 8 := by
    have h : ((10 * BASE_Y : Nat) : K) = (8 : Nat) :=
      cast_eq (by norm_num [BASE_Y, P25519])
    push_cast at h
    exact h
  have hne : 1 - (BASE_Y : K) ≠ 0 := by
    intro h0
    apply two_ne
    linear_combination 10 * h0 + hy
  change (1 + (BASE_Y : K)) / (1 - BASE_Y) = 9
  rw [div_eq_iff hne]
  linear_combination hy

end BmoX.Cripto.Curva

/-! ### The function X25519 -/

namespace BmoX.Cripto.Rfc7748

open BmoX.Base BmoX.Base.Ladder BmoX.Cripto.Campo BmoX.Cripto.Curva

/-- The scalar of thirty-two bytes: the three low bits and the bit 255 cleared, the bit 254 set. -/
def decodeScalar (k : B32) : Nat := 2 ^ 254 + 8 * (leNat k.toList % 2 ^ 254 / 8)

/-- The bytes of the scalar, changed in place. -/
def clamp (k : Bytes) : Bytes :=
  (k.set 0 (k.getD 0 0 &&& 248)).set 31 ((k.getD 31 0 &&& 127) ||| 64)

set_option maxRecDepth 4096 in
private theorem toNat_and_248 (b : UInt8) : (b &&& 248).toNat = b.toNat / 8 * 8 := by
  have h : ∀ n < 256, n &&& 248 = n / 8 * 8 := by decide
  exact (UInt8.toNat_and _ _).trans (h _ b.toNat_lt)

set_option maxRecDepth 4096 in
theorem toNat_and_127_or_64 (b : UInt8) : ((b &&& 127) ||| 64).toNat = b.toNat % 64 + 64 := by
  have h : ∀ n < 256, (n &&& 127) ||| 64 = n % 64 + 64 := by decide
  rw [UInt8.toNat_or, UInt8.toNat_and]
  exact h _ b.toNat_lt

/-- The clamped bytes spell the scalar. -/
theorem leNat_clamp {k : Bytes} (h : k.length = 32) :
    leNat (clamp k) = 2 ^ 254 + 8 * (leNat k % 2 ^ 254 / 8) := by
  have hlt := leNat_lt k
  have h0 := leNat_set k 0 (k.getD 0 0 &&& 248) (by omega)
  have h31 := leNat_set (k.set 0 (k.getD 0 0 &&& 248)) 31 ((k.getD 31 0 &&& 127) ||| 64)
    (by rw [List.length_set]; omega)
  have hget : (k.set 0 (k.getD 0 0 &&& 248)).getD 31 0 = k.getD 31 0 := by
    rw [List.getD_eq_getElem?_getD, List.getElem?_set_ne (by decide), ← List.getD_eq_getElem?_getD]
  rw [hget, toNat_and_127_or_64, toNat_getD_leNat] at h31
  rw [toNat_and_248, toNat_getD_leNat] at h0
  rw [clamp]
  generalize leNat k = n at *
  rw [h] at hlt
  omega

/-- The coordinate of thirty-two bytes: the bit 255 does not count. -/
def decodeU (u : B32) : K := (leNat u.toList % 2 ^ 255 : Nat)

/-- The thirty-two bytes of the number below the prime. -/
def encodeU (x : K) : Bytes := leBytes 32 x.val

/-- `(486662 - 2) / 4`. -/
def a24 : K := 121665

/-- One turn of the ladder, the exchange of the turn before still pending. -/
def turn (k : Nat) (x_1 : K) (s : State K × Bool) (t : Nat) : State K × Bool :=
  let k_t := k.testBit t
  let ⟨x_2, z_2, x_3, z_3⟩ := State.cswap (s.2 ^^ k_t) s.1
  let A := x_2 + z_2
  let AA := A ^ 2
  let B := x_2 - z_2
  let BB := B ^ 2
  let E := AA - BB
  let C := x_3 + z_3
  let D := x_3 - z_3
  let DA := D * A
  let CB := C * B
  (⟨AA * BB, E * (AA + a24 * E), (DA + CB) ^ 2, x_1 * (DA - CB) ^ 2⟩, k_t)

/-- The ladder, from the bit 254 down, and the quotient. -/
def x25519 (k : Nat) (u : K) : K :=
  let s := (List.range 255).reverse.foldl (turn k u) (⟨1, 0, u, 1⟩, false)
  let s := State.cswap s.2 s.1
  s.X₂ * s.Z₂ ^ (P25519 - 2)

private theorem cswap_turn (k : Nat) (x_1 : K) (s : State K × Bool) (t : Nat) :
    State.cswap (turn k x_1 s t).2 (turn k x_1 s t).1 =
      State.step a24 x_1 (State.cswap s.2 s.1) (k.testBit t) := by
  rw [State.step, State.cswap_cswap]
  rfl

private theorem cswap_foldl (k : Nat) (x_1 : K) (ts : List Nat) (s : State K × Bool) :
    State.cswap (ts.foldl (turn k x_1) s).2 (ts.foldl (turn k x_1) s).1 =
      (ts.map k.testBit).foldl (State.step a24 x_1) (State.cswap s.2 s.1) := by
  induction ts generalizing s with
  | nil => rfl
  | cons t ts ih => rw [List.foldl_cons, ih, List.map_cons, List.foldl_cons, cswap_turn]

/-- The power `p - 2` is the inverse, zero of zero. -/
theorem pow_eq_inv (x : K) : x ^ (P25519 - 2) = x⁻¹ := by
  have hp : P25519 - 2 + 1 = P25519 - 1 := by norm_num [P25519]
  rcases eq_or_ne x 0 with rfl | hx
  · rw [inv_zero, zero_pow (by norm_num [P25519])]
  · apply eq_inv_of_mul_eq_one_left
    rw [← pow_succ, hp, ZMod.pow_card_sub_one_eq_one hx]

private theorem x25519_eq_ladder (k : Nat) (u : K) : x25519 k u = ladder a24 u (bitsOf k 255) := by
  rw [x25519, ladder, pow_eq_inv, cswap_foldl, ← div_eq_mul_inv]
  rfl

private theorem curva_a24 : curva.d * (a24 + 1) = -a24 := cast_D

private theorem x25519_u (k : Nat) (P : G) : x25519 k (u P) = u ((k % 2 ^ 255) • P) := by
  rw [x25519_eq_ladder, ladder_eq curva_a24, spell_bitsOf, Nat.zero_mul, Nat.zero_add]

theorem x25519_comm (a b : Nat) (P : G) : x25519 a (x25519 b (u P)) = x25519 b (x25519 a (u P)) := by
  rw [x25519_u, x25519_u, x25519_u, x25519_u, nsmul_left_comm]

end BmoX.Cripto.Rfc7748
