import BmoX.Cripto.Ed25519

/-!
# The signatures of Ed25519

What `ed25519.rs` cites of RFC 8032, over the exact group: a canonical encoding, the strict check of
a signature, the clamped secret. The check of the code is the strict one for every key but those of
a `y` from `2^255 - 19` on that is of a point; the signer's signatures pass it.
-/

namespace BmoX.Cripto.Rfc8032

open BmoX.Base BmoX.Cripto.Campo BmoX.Cripto.Curva BmoX.Cripto.Escalar BmoX.Cripto.Ed25519

variable (sha512 : Bytes → B64)

/-- The strict check: canonical encodings of points of large order, and `[S]B = R + [k]A`. -/
structure Estricta (publica : B32) (mensaje : Bytes) (firma : B64) (A R : G) : Prop where
  rango : leNat (mitad firma 32).toList < ORDEN25519
  clave : leNat publica.toList = codifica A
  nonce : leNat (mitad firma 0).toList = codifica R
  clave_grande : 8 • A ≠ 0
  nonce_grande : 8 • R ≠ 0
  ecuacion : leNat (mitad firma 32).toList • base =
    R + leNat (sha512 ((mitad firma 0).toList ++ publica.toList ++ mensaje)).toList • A

/-! ### The keys with two encodings -/

private theorem codifica_iff {b : B32} {P : G} (h : Decodifica b P) :
    leNat b.toList = codifica P ↔ leNat b.toList % 2 ^ 255 < P25519 := by
  have hval := val_lt P.y
  have hP := P.y.val_lt
  have hsigno := h.signo
  have hy : P.y.val = leNat b.toList % 2 ^ 255 % P25519 := by rw [h.y, ZMod.val_natCast]
  unfold codifica
  constructor
  · intro he
    omega
  · intro hlt
    rw [Nat.mod_eq_of_lt hlt] at hy
    omega

/-- The numbers that are the `y` of no point, up to eighteen. -/
def SIN_PUNTO : List Nat := [2, 7, 8, 11, 12, 13, 17]

/-- The other `y` up to eighteen but one, each with an `x` of it. -/
def CON_PUNTO : List (Nat × Nat) := [
  (0, 19681161376707505956807079304988542015446066515923890162744021073123829784752),
  (3, 47490639360184182837601875270316946735278442122217188244898328344323804759522),
  (4, 31702771484534017269339373971739649995459835985599134064568305595915068745151),
  (5, 39662079413846548812394406357884595898465868971068617279194812783497449546402),
  (6, 44179385186637231197387423809866071544592466792969908008717492870455120005190),
  (9, 20998110467665258077629620998309994886851780706327836337918840104339545710600),
  (10, 33207867507306152740598547708713744163602291609520176848873678110386858952419),
  (14, 50846253492489715349487553736853302465683434727029469430224215734562421485833),
  (15, 55732238393510018740248637141718565550047250075628506353605146378834452627480),
  (16, 30423490184102983547751937222062317622425652989592655573890622631116622934896),
  (18, 24955915220342692964971208821014542627211739005308489835959708316178776387624)]

private theorem con_o_sin_punto : ∀ k < 19, k ∉ SIN_PUNTO → k ≠ 1 → ∃ r ∈ CON_PUNTO, r.1 = k := by
  decide

private theorem y_ne_of_sin_punto {k : Nat} (h : k ∈ SIN_PUNTO) (P : G) : P.y ≠ k := by
  have hall : ∀ k ∈ SIN_PUNTO, 1 ≤ k * k ∧
      Pratt.powMod P25519 256 ((k * k - 1) * (D * (k * k) + 1)) ((P25519 - 1) / 2) = P25519 - 1 := by
    decide +kernel
  rcases hall k h with ⟨hk, hpow⟩
  intro hy
  -- `v x` is a root of `u v`, that has none
  have hsq := Pratt.sq_ne_of_powMod (by norm_num [P25519]) (by norm_num [P25519]) hpow
    ((curva.d * P.y ^ 2 + 1) * P.x)
  apply hsq
  have hon := (eqn_iff P.x P.y).mp P.on
  rw [hy] at hon ⊢
  rw [curva_d] at hon ⊢
  push_cast [hk]
  linear_combination ((D : K) * (k : K) ^ 2 + 1) * hon

private theorem punto_de {k : Nat} (h : ∃ r ∈ CON_PUNTO, r.1 = k) : ∃ P : G, P.y = k ∧ P.x ≠ 0 := by
  have hall : ∀ r ∈ CON_PUNTO, (r.2 * r.2 * (D * (r.1 * r.1) + 1) + 1) % P25519 =
      r.1 * r.1 % P25519 ∧ r.2 % P25519 ≠ 0 := by
    decide +kernel
  rcases h with ⟨r, hr, rfl⟩
  rcases hall r hr with ⟨heq, hne⟩
  have hon : curva.Eqn (r.2 : K) (r.1 : K) := by
    rw [eqn_iff, curva_d]
    have hcast := cast_eq heq
    push_cast at hcast
    linear_combination hcast
  refine ⟨⟨r.2, r.1, hon⟩, rfl, fun h0 ↦ hne ?_⟩
  exact Nat.mod_eq_zero_of_dvd ((ZMod.natCast_eq_zero_iff _ _).mp h0)

private theorem con_signo {P : G} (h : P.x ≠ 0) {s : Nat} (hs : s < 2) :
    ∃ Q : G, Q.y = P.y ∧ Q.x.val % 2 = s := by
  rcases eq_or_ne (P.x.val % 2) s with he | hne
  · exact ⟨P, rfl, he⟩
  · have hflip := paridad_neg h
    refine ⟨-P, rfl, ?_⟩
    rw [Edwards.Point.neg_x]
    omega

/-- The key is not one more encoding of a point: its `y` is reduced, or it is of no point. -/
def Unica (b : B32) : Prop :=
  leNat b.toList % 2 ^ 255 < P25519 ∨
    leNat b.toList % 2 ^ 255 - P25519 ∈ SIN_PUNTO ∨
      leNat b.toList % 2 ^ 255 - P25519 = 1 ∧ leNat b.toList / 2 ^ 255 = 1

theorem unica_iff (b : B32) : Unica b ↔ ∀ P, Decodifica b P → leNat b.toList = codifica P := by
  have hlt := leNat_b32_lt b
  obtain ⟨y, hy⟩ : ∃ y, y = leNat b.toList % 2 ^ 255 := ⟨_, rfl⟩
  have hcast : ∀ P : G, Decodifica b P → P25519 ≤ y → P.y = (y - P25519 : Nat) := by
    intro P h hle
    rw [Nat.cast_sub hle, ZMod.natCast_self, sub_zero, hy]
    exact h.y
  rw [Unica, ← hy]
  constructor
  · intro h P hP
    rw [codifica_iff hP, ← hy]
    by_contra hge
    rw [Nat.not_lt] at hge
    have hPy := hcast P hP hge
    rcases h with h | h | ⟨h1, hs⟩
    · omega
    · exact y_ne_of_sin_punto h P hPy
    · -- of `y` one there is the neutral point alone
      rw [h1, Nat.cast_one] at hPy
      have hx0 : P.x = 0 := by
        rcases Edwards.eq_or_eq_neg_of_y_eq (Q := (0 : G)) hPy with e | e <;> simp [e]
      have hsigno := hP.signo
      rw [hx0, ZMod.val_zero] at hsigno
      omega
  · intro h
    by_contra hno
    rw [not_or, not_or, Nat.not_lt] at hno
    rcases hno with ⟨hge, hsin, huno⟩
    have hk : y - P25519 < 19 := by
      have hp : P25519 + 19 = 2 ^ 255 := by norm_num [P25519]
      omega
    have hex : ∃ P : G, P.y = (y - P25519 : Nat) ∧ P.x.val % 2 = leNat b.toList / 2 ^ 255 := by
      rcases eq_or_ne (y - P25519) 1 with h1 | h1
      · refine ⟨0, by rw [h1, Nat.cast_one]; rfl, ?_⟩
        rw [Edwards.Point.zero_x, ZMod.val_zero]
        omega
      · rcases punto_de (con_o_sin_punto _ hk hsin h1) with ⟨P, hPy, hne⟩
        rcases con_signo hne (s := leNat b.toList / 2 ^ 255) (by omega) with ⟨Q, hQy, hQ⟩
        exact ⟨Q, hQy.trans hPy, hQ⟩
    rcases hex with ⟨P, hPy, hs⟩
    have hP : Decodifica b P := by
      refine ⟨?_, hs⟩
      rw [hPy, Nat.cast_sub hge, ZMod.natCast_self, sub_zero, hy]
    have hcan := (codifica_iff hP).mp (h P hP)
    omega

/-! ### The check of the code and the strict one -/

variable {sha512}

theorem Estricta.acepta {publica : B32} {mensaje : Bytes} {firma : B64} {A R : G}
    (h : Estricta sha512 publica mensaje firma A R) : Acepta sha512 publica mensaje firma A R :=
  ⟨h.rango, Decodifica.of_codifica h.clave, h.nonce, h.clave_grande, h.nonce_grande, h.ecuacion⟩

private theorem estricta_of_acepta {publica : B32} {mensaje : Bytes} {firma : B64} {A R : G}
    (hu : Unica publica) (h : Acepta sha512 publica mensaje firma A R) :
    Estricta sha512 publica mensaje firma A R :=
  ⟨h.rango, (unica_iff publica).mp hu A h.clave, h.nonce, h.clave_grande, h.nonce_grande,
    h.ecuacion⟩

private theorem nsmul_base_inj {m n : Nat} (hm : m < ORDEN25519) (hn : n < ORDEN25519)
    (h : m • base = n • base) : m = n := by
  rw [nsmul_eq_nsmul_iff_modEq, orden_base] at h
  exact h.eq_of_lt_of_lt hm hn

private theorem toList_mitad (firma : B64) {i : Nat} (h : i ≤ 32) :
    (mitad firma i).toList = (firma.toList.drop i).take 32 := by
  apply toList_b32
  rw [List.length_take, List.length_drop, firma.length_toList]
  omega

private theorem eq_of_mitades {firma otra : B64} (h0 : mitad firma 0 = mitad otra 0)
    (h32 : mitad firma 32 = mitad otra 32) : firma = otra := by
  have hlen : ∀ f : B64, ((f.toList.drop 32).take 32) = f.toList.drop 32 := fun f ↦
    List.take_of_length_le (by rw [List.length_drop, f.length_toList])
  have e0 := congrArg Vector.toList h0
  have e32 := congrArg Vector.toList h32
  rw [toList_mitad _ (by decide), toList_mitad _ (by decide)] at e0
  rw [toList_mitad _ le_rfl, toList_mitad _ le_rfl, hlen, hlen] at e32
  rw [List.drop_zero, List.drop_zero] at e0
  apply Vector.toList_inj.mp
  rw [← List.take_append_drop 32 firma.toList, e0, e32, List.take_append_drop]

private theorem una_firma {publica : B32} {mensaje : Bytes} {firma otra : B64}
    (hR : mitad firma 0 = mitad otra 0) (h : verificar sha512 publica mensaje firma = true)
    (ho : verificar sha512 publica mensaje otra = true) : firma = otra := by
  rcases (verificar_iff _ _ _ _).mp h with ⟨A, R, h⟩
  rcases (verificar_iff _ _ _ _).mp ho with ⟨A', R', ho⟩
  obtain rfl : A = A' := h.clave.unico ho.clave
  obtain rfl : R = R' := codifica_inj (by rw [← h.nonce, hR, ho.nonce])
  have heq := h.ecuacion
  rw [hR, ← ho.ecuacion] at heq
  exact eq_of_mitades hR (b32_inj (nsmul_base_inj h.rango ho.rango heq))

variable (sha512)

/-- The check of a key is the strict one, its bytes are the only ones of its point, and one `S`. -/
structure Cumple (publica : B32) : Prop where
  acepta : ∀ mensaje firma,
    verificar sha512 publica mensaje firma = true ↔ ∃ A R, Estricta sha512 publica mensaje firma A R
  canonica : ∀ p, descomprimir publica = some p → comprimir p = publica
  una_s : ∀ mensaje firma otra, mitad firma 0 = mitad otra 0 →
    verificar sha512 publica mensaje firma = true → verificar sha512 publica mensaje otra = true →
      firma = otra

private theorem canonica_iff (b : B32) :
    (∀ p, descomprimir b = some p → comprimir p = b) ↔ Unica b := by
  rw [unica_iff]
  constructor
  · intro h P hP
    rcases hP.descomprimir with ⟨p, hp, hes⟩
    rw [← leNat_comprimir hes, h p hp]
  · intro h p hp
    rcases descomprimir_of_some hp with ⟨P, hes, hP⟩
    exact b32_inj ((leNat_comprimir hes).trans (h P hP).symm)

/-- The check is the strict one for the keys that are not one more encoding of a point, and for
no other; two of them are not of one point. -/
theorem verificar_estricta (publica : B32) :
    (Cumple sha512 publica ↔ Unica publica) ∧
      ∀ otra, Unica publica → Unica otra → ∀ p q P, descomprimir publica = some p →
        descomprimir otra = some q → p.Es P → q.Es P → publica = otra := by
  constructor
  · constructor
    · intro h
      exact (canonica_iff publica).mp h.canonica
    · intro hu
      refine ⟨fun mensaje firma ↦ ?_, (canonica_iff publica).mpr hu, fun _ _ _ ↦ una_firma⟩
      rw [verificar_iff]
      constructor
      · rintro ⟨A, R, h⟩
        exact ⟨A, R, estricta_of_acepta hu h⟩
      · rintro ⟨A, R, h⟩
        exact ⟨A, R, h.acepta⟩
  · intro otra hu ho p q P hp hq hpP hqP
    rw [← (canonica_iff publica).mpr hu p hp, ← (canonica_iff otra).mpr ho q hq]
    exact (comprimir_inj hpP hqP).mpr rfl

/-- The point of `y` three, and its encoding with `p` more. -/
def TRES : B32 := (Vector.replicate 32 0).set 0 3 cero_lt_32

def TRES_MAS_P : B32 := ((Vector.replicate 32 255).set 0 240 cero_lt_32).set 31 127 treintaYUno_lt_32

/-- Two keys of one point, both read. -/
theorem dos_claves : ∃ p q, descomprimir TRES_MAS_P = some p ∧ descomprimir TRES = some q ∧
    comprimir p = comprimir q ∧ comprimir p ≠ TRES_MAS_P := by
  rcases punto_de (con_o_sin_punto 3 (by decide) (by decide) (by decide)) with ⟨P, hPy, hne⟩
  rcases con_signo hne (s := 0) (by decide) with ⟨Q, hQy, hQ⟩
  have hy : Q.y = (3 : Nat) := hQy.trans hPy
  have hP : Decodifica TRES_MAS_P Q := by
    have hdiv : leNat TRES_MAS_P.toList / 2 ^ 255 = 0 := by decide
    refine ⟨hy.trans (cast_eq (by rw [P25519_eq]; decide)), hQ.trans hdiv.symm⟩
  have hT : Decodifica TRES Q := by
    have hdiv : leNat TRES.toList / 2 ^ 255 = 0 := by decide
    refine ⟨hy.trans (cast_eq (by rw [P25519_eq]; decide)), hQ.trans hdiv.symm⟩
  rcases hP.descomprimir with ⟨p, hp, hpQ⟩
  rcases hT.descomprimir with ⟨q, hq, hqQ⟩
  refine ⟨p, q, hp, hq, (comprimir_inj hpQ hqQ).mpr rfl, fun h ↦ ?_⟩
  have hcan := (leNat_comprimir hpQ).symm
  rw [h, eq_comm, codifica_iff hP] at hcan
  exact absurd hcan (by rw [P25519_eq]; decide)

/-! ### The signer -/

private theorem leNat_recortar (h : B64) :
    leNat (recortar h).toList = 8 * (2 ^ 251 + leNat (mitad h 0).toList % 2 ^ 254 / 8) := by
  have heq : (recortar h).toList = Rfc7748.clamp (mitad h 0).toList := by
    simp [recortar, Rfc7748.clamp, Vector.toList_set]
  rw [heq, Rfc7748.leNat_clamp (mitad h 0).length_toList]
  omega

private theorem not_dvd_ocho : ¬ORDEN25519 ∣ 8 := fun h ↦
  absurd (Nat.le_of_dvd (by decide) h) (by norm_num [ORDEN25519])

private theorem nsmul_base_grande {n : Nat} (h : ¬ORDEN25519 ∣ n) : 8 • n • base ≠ 0 := by
  rw [← mul_nsmul', Ne, ← addOrderOf_dvd_iff_nsmul_eq_zero, orden_base,
    ORDEN25519_primo.dvd_mul, not_or]
  exact ⟨not_dvd_ocho, h⟩

private theorem not_dvd_recortar (h : B64) : ¬ORDEN25519 ∣ leNat (recortar h).toList := by
  have hlt : 2 ^ 252 < ORDEN25519 := by norm_num [ORDEN25519]
  rw [leNat_recortar, ORDEN25519_primo.dvd_mul, not_or]
  refine ⟨not_dvd_ocho, fun hd ↦ ?_⟩
  have hle := Nat.le_of_dvd (Nat.add_pos_left (by decide) _) hd
  omega

private theorem mod_nsmul_base (n : Nat) : (n % ORDEN25519) • base = n • base := by
  rw [← orden_base, mod_addOrderOf_nsmul]

private theorem mitad_ofFn (r s : B32) {f : B64} (hf : f.toList = r.toList ++ s.toList) :
    mitad f 0 = r ∧ mitad f 32 = s := by
  constructor <;> apply Vector.toList_inj.mp <;> rw [toList_mitad _ (by decide), hf]
  · rw [List.drop_zero, List.take_left' r.length_toList]
  · rw [List.drop_left' r.length_toList, List.take_of_length_le s.length_toList.le]

private theorem ecuacion_firma (a r k : Nat) :
    ((k % ORDEN25519 * a + r) % ORDEN25519) • base = r • base + k • a • base := by
  have hmod : (k % ORDEN25519 * a + r) % ORDEN25519 = (k * a + r) % ORDEN25519 := by
    rw [Nat.add_mod, Nat.mod_mul_mod, ← Nat.add_mod]
  rw [hmod, mod_nsmul_base, add_nsmul, mul_nsmul', add_comm]

variable {sha512} in
private theorem acepta_firma {publica : B32} {mensaje : Bytes} {firma : B64} {a r : Nat}
    (hA : leNat publica.toList = codifica (a • base)) (ha : ¬ORDEN25519 ∣ a)
    (hR : leNat (mitad firma 0).toList = codifica (r • base)) (hr : ¬ORDEN25519 ∣ r)
    (hS : leNat (mitad firma 32).toList =
      (reto sha512 (mitad firma 0) publica mensaje % ORDEN25519 * a + r) % ORDEN25519) :
    Acepta sha512 publica mensaje firma (a • base) (r • base) where
  rango := by
    rw [hS]
    exact Nat.mod_lt _ ORDEN25519_primo.pos
  clave := Decodifica.of_codifica hA
  nonce := hR
  clave_grande := nsmul_base_grande ha
  nonce_grande := nsmul_base_grande hr
  ecuacion := by rw [hS, ecuacion_firma]

/-- A signature that is made is accepted, where its nonce is not zero. -/
theorem firmar_acepta {secreta : B32} {mensaje : Bytes}
    (hr : leNat (sha512 ((sha512 secreta.toList).toList.drop 32 ++ mensaje)).toList %
      ORDEN25519 ≠ 0) :
    ∃ publica firma A R, publica_de sha512 secreta = some publica ∧
      firmar sha512 secreta mensaje = some firma ∧ Acepta sha512 publica mensaje firma A R := by
  rcases descomprimir_BASE with ⟨pb, hpb, hb⟩
  simp only [publica_de, firmar, hpb, Option.map_some]
  have ha := not_dvd_recortar (sha512 secreta.toList)
  have hrval := leNat_reducir (sha512 ((sha512 secreta.toList).toList.drop 32 ++ mensaje))
  generalize recortar (sha512 secreta.toList) = a at *
  generalize reducir (sha512 ((sha512 secreta.toList).toList.drop 32 ++ mensaje)) = r at *
  have hrL : ¬ORDEN25519 ∣ leNat r.toList := by
    rw [hrval, Nat.dvd_mod_iff dvd_rfl]
    exact fun h ↦ hr (Nat.mod_eq_zero_of_dvd h)
  have hA := leNat_comprimir (por_escalar_es hb a.toList)
  have hR := leNat_comprimir (por_escalar_es hb r.toList)
  generalize comprimir (por_escalar a.toList pb) = publica at *
  generalize comprimir (por_escalar r.toList pb) = punto_r at *
  refine ⟨publica, _, leNat a.toList • base, leNat r.toList • base, rfl, rfl, ?_⟩
  have hk := leNat_reducir (sha512 (punto_r.toList ++ publica.toList ++ mensaje))
  generalize reducir (sha512 (punto_r.toList ++ publica.toList ++ mensaje)) = k at *
  have hs := leNat_muladd k a r
  generalize muladd k a r = s at *
  have hlen : (punto_r.toList ++ s.toList).length = 64 := by
    rw [List.length_append, punto_r.length_toList, s.length_toList]
  have hm := mitad_ofFn punto_r s (toList_ofFn_getD hlen)
  apply acepta_firma hA ha
  · rw [hm.1, hR]
  · exact hrL
  · rw [hm.1, hm.2, hs, hk, reto]

/-- Every signature made is accepted with its `S` in range, and the arithmetic of the signer modulo
`L` is exact. -/
theorem firmar_verifica :
    (∀ x : B64, leNat (reducir x).toList = leNat x.toList % ORDEN25519) ∧
      (∀ a b c : B32, leNat (muladd a b c).toList =
        (leNat a.toList * leNat b.toList + leNat c.toList) % ORDEN25519) ∧
      ∀ (secreta : B32) (mensaje : Bytes),
        leNat (sha512 ((sha512 secreta.toList).toList.drop 32 ++ mensaje)).toList %
          ORDEN25519 ≠ 0 →
        ∃ publica firma, publica_de sha512 secreta = some publica ∧
          firmar sha512 secreta mensaje = some firma ∧
          leNat (mitad firma 32).toList < leNat L.toList ∧
          verificar sha512 publica mensaje firma = true := by
  refine ⟨leNat_reducir, leNat_muladd, fun secreta mensaje hr ↦ ?_⟩
  rcases firmar_acepta sha512 hr with ⟨publica, firma, A, R, hp, hf, h⟩
  refine ⟨publica, firma, hp, hf, ?_, (verificar_iff _ _ _ _).mpr ⟨A, R, h⟩⟩
  rw [leNat_L]
  exact h.rango

/-- SHA-512 where the zero seed asks for it with a message of three bytes: the inputs, by their length
and their number, and the digests. -/
def DIGESTOS : List ((Nat × Nat) × Nat) := [
  ((32, 0),
    0xd36d0b422185497f2b67da737a8c40007c638d7c5d4b4235c8da42a6ea856a0a * 2 ^ 256 +
      0x96f1874a926079f5907a26b57079b5583e42c3d0fdbb2b7b8638a8dbc1ad4650),
  ((35, 0x30201 * 2 ^ 256 + 0xd36d0b422185497f2b67da737a8c40007c638d7c5d4b4235c8da42a6ea856a0a),
    0x161a3f199a352e03913815437eb874d9caa58dcd6296be6b4316a2e3d6397e61 * 2 ^ 256 +
      0xaa57dddb10143b175e15f9e94e1cd07d10a478e93b9dae2fe35f28df4e95b8bd),
  ((67, (0x30201 * 2 ^ 256 + 0x29da598ba148c03aa643e21d77153265730d6f2ad0a8a3622da4b6cebc276a3b) *
      2 ^ 256 + 0x367d7a61bd89ed98296322887c373b212f15a727f259242e5b5cba69b77262a),
    0x5088b614a111c15fcfd2b924dd898af6c6e97fb04075487c14a47ca2fabe17ff * 2 ^ 256 +
      0x2fdf2cdde2f9c148616b5ad7269702d89febe86b5ccdcf09aa986747c13bda5c)]

def sha512Semilla (x : Bytes) : B64 :=
  Vector.ofFn fun i : Fin 64 ↦
    (leBytes 64 ((DIGESTOS.lookup (x.length, leNat x)).getD 0)).getD i 0

theorem firmar_verifica_semilla_cero :
    ∃ publica firma, publica_de sha512Semilla (Vector.replicate 32 0) = some publica ∧
      firmar sha512Semilla (Vector.replicate 32 0) [1, 2, 3] = some firma ∧
      leNat (mitad firma 32).toList < leNat L.toList ∧
      verificar sha512Semilla publica [1, 2, 3] firma = true :=
  (firmar_verifica sha512Semilla).2.2 (Vector.replicate 32 0) [1, 2, 3] (by decide +kernel)

end BmoX.Cripto.Rfc8032
