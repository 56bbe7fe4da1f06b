import BmoX.Red.Libro

/-!
# Reading and publishing an index

An index is a 32-bit counter of which one side writes the four bytes and both read them. A read
that no carrying write overlaps gives a value the counter had; a write is felt at its first byte.
-/

namespace BmoX.Red

open BmoX.Base

/-! ### Bytes of a counter -/

theorem getElem?_leBytes {w n k : Nat} (h : k < w) :
    (leBytes w n)[k]? = some (UInt8.ofNat (n / 256 ^ k)) := by
  induction k generalizing w n with
  | zero =>
    cases w with
    | zero => omega
    | succ w => simp [leBytes]
  | succ k ih =>
    cases w with
    | zero => omega
    | succ w =>
      rw [leBytes, List.getElem?_cons_succ, ih (by omega), Nat.div_div_eq_div_mul, Nat.pow_succ']

theorem take_leBytes_succ {w n k : Nat} (h : k < w) :
    (leBytes w n).take (k + 1) = (leBytes w n).take k ++ [UInt8.ofNat (n / 256 ^ k)] := by
  rw [List.take_add_one, getElem?_leBytes h, Option.toList_some]

theorem u32De_leBytes (n : Nat) : u32De (leBytes 4 n) = UInt32.ofNat n := by
  rw [u32De, leNat_leBytes]
  apply UInt32.toNat_inj.mp
  rw [UInt32.toNat_ofNat', UInt32.toNat_ofNat']
  omega

theorem u16De_leBytes (n : Nat) : u16De (leBytes 2 n) = UInt16.ofNat n := by
  rw [u16De, leNat_leBytes]
  apply UInt16.toNat_inj.mp
  rw [UInt16.toNat_ofNat', UInt16.toNat_ofNat']
  omega

theorem u16Le_ofNat {n : Nat} (h : n < 65536) : u16Le (UInt16.ofNat n) = leBytes 2 n := by
  rw [u16Le, UInt16.toNat_ofNat', Nat.mod_eq_of_lt h]

private theorem getElem?_u32Le {n k : Nat} {v : UInt8} (h : (u32Le (UInt32.ofNat n))[k]? = some v) :
    k < 4 ∧ v = UInt8.ofNat (n / 256 ^ k) := by
  have hk : k < 4 := by
    by_contra hk
    rw [List.getElem?_eq_none (by simpa using by omega)] at h
    cases h
  refine ⟨hk, ?_⟩
  rw [u32Le, getElem?_leBytes hk, UInt32.toNat_ofNat'] at h
  rw [← Option.some.inj h]
  apply UInt8.toNat_inj.mp
  rw [UInt8.toNat_ofNat', UInt8.toNat_ofNat']
  have : k = 0 ∨ k = 1 ∨ k = 2 ∨ k = 3 := by omega
  rcases this with rfl | rfl | rfl | rfl <;> omega

private theorem ofNat_div_pow_eq {m n k : Nat} (h : m / 256 = n / 256) (hk : 0 < k) :
    UInt8.ofNat (m / 256 ^ k) = UInt8.ofNat (n / 256 ^ k) := by
  obtain ⟨k, rfl⟩ := Nat.exists_eq_succ_of_ne_zero hk.ne'
  rw [Nat.pow_succ', ← Nat.div_div_eq_div_mul, ← Nat.div_div_eq_div_mul, h]

theorem ofNat_eq_zero {n : Nat} : UInt8.ofNat n = 0 ↔ n % 256 = 0 := by
  rw [← UInt8.toNat_inj, UInt8.toNat_ofNat']
  exact Iff.rfl

/-! ### What a side is in the middle of -/

/-- The four words of the header that are indices. -/
def EsIndice (w : Nat) : Prop := Decide w ∨ w = Campo.txLeido

theorem palabra_mas {w k : Nat} (hw : EsIndice w) (hk : k < 4) : palabra (w + k) = some w := by
  have : w = 8 ∨ w = 16 ∨ w = 20 ∨ w = 12 := by
    rcases hw with (h | h | h) | h <;> simp_all
  simp only [palabra, Campo.txEscrito, Campo.rxSecuencia]
  rw [if_pos (by omega)]
  congr 1
  omega

private theorem avanza_mas {a : Option Nat} {w k : Nat} (hw : EsIndice w) (hk : k < 4) :
    avanza a (w + k) = if k = 3 then none else some w := by
  have : w = 8 ∨ w = 16 ∨ w = 20 ∨ w = 12 := by
    rcases hw with (h | h | h) | h <;> simp_all
  simp only [avanza, palabra_mas hw hk]
  congr 1
  exact propext (by omega)

theorem avanza_fuera {a : Option Nat} {off : Nat} (h : off < 8 ∨ 24 ≤ off) : avanza a off = a := by
  simp only [avanza, palabra, Campo.txEscrito, Campo.rxSecuencia]
  rw [if_neg (by omega)]

/-! ### Reading -/

section Lee

variable {r : Role memoria Mundo Libro} {i : Parte} {w : Nat} {K D : Estado → Prop} {s : Estado}

/-- A read that leaves what a side knows as it was. -/
def Tranquila (r : Role memoria Mundo Libro) (i : Parte) (K : Estado → Prop) : Prop :=
  r.Stable K ∧ ∀ s off, K s → r.guar s ((maneja i (.leer8 off) s.1).2, s.2) ∧
    K ((maneja i (.leer8 off) s.1).2, s.2)

private theorem lee_libre {n off : Nat} (hm : r.handle = maneja i) (hK : Tranquila r i K)
    (hD : ∀ s, K s → D s) (hs : K s) :
    r.Keeps D (fun bs t ↦ bs.length = n ∧ K t) (copiar off n) s := by
  refine keeps_copiar (fun _ ↦ K) (fun _ ↦ hK.1) (fun _ ↦ hD) (fun bs t _ ht _ ↦ ?_) hs
  rw [hm]
  exact ⟨_, _, _, rfl, hK.2 t _ ht⟩

theorem lee16_libre {off : Nat} (hm : r.handle = maneja i) (hK : Tranquila r i K)
    (hD : ∀ s, K s → D s) (hs : K s) : r.Keeps D (fun _ t ↦ K t) (leer16 off) s := by
  rw [leer16_eq]
  exact (lee_libre hm hK hD hs).bind fun _ _ h ↦ .ret hK.1 h.2 fun t ht ↦ ⟨hD t ht, ht⟩

theorem lee32_libre {off : Nat} (hm : r.handle = maneja i) (hK : Tranquila r i K)
    (hD : ∀ s, K s → D s) (hs : K s) : r.Keeps D (fun _ t ↦ K t) (leer32 off) s := by
  rw [leer32_eq]
  exact (lee_libre hm hK hD hs).bind fun _ _ h ↦ .ret hK.1 h.2 fun t ht ↦ ⟨hD t ht, ht⟩

/-- A counter that nobody else writes. -/
theorem lee_propia {n : Nat} (hm : r.handle = maneja i) (hK : Tranquila r i K)
    (hD : ∀ s, K s → D s) (hw : ∀ s, K s → Palabra s.1.byte w n) (hs : K s) :
    r.Keeps D (fun x t ↦ K t ∧ x = UInt32.ofNat n) (leer32 w) s := by
  rw [leer32_eq]
  refine (keeps_copiar (fun bs t ↦ K t ∧ bs = (leBytes 4 n).take bs.length)
    (fun bs t u h hk ↦ ⟨hK.1 t u h hk.1, hk.2⟩) (fun bs t h ↦ hD t h.1) ?_ ⟨hs, rfl⟩).bind ?_
  · intro bs t hl ht _
    obtain ⟨hg, hk⟩ := hK.2 t (w + bs.length) ht.1
    rw [hm]
    refine ⟨_, _, _, rfl, hg, hk, ?_⟩
    rw [List.length_append, List.length_singleton, take_leBytes_succ hl, ← ht.2,
      hw t ht.1 _ hl]
  · rintro bs t ⟨hl, hk, hbs⟩
    refine Role.Keeps.ret hK.1 hk fun u hu ↦ ⟨hD u hu, hu, ?_⟩
    rw [hl, List.take_of_length_le (by simp)] at hbs
    rw [hbs, u32De_leBytes]

/-- A counter of the other side of which only the low byte is known. -/
theorem lee_baja {c : Libro → Nat} (hm : r.handle = maneja i) (hK : Tranquila r i K)
    (hD : ∀ s, K s → D s) (hw : ∀ s, K s → s.1.byte w = UInt8.ofNat (c s.2))
    (hc : ∀ s t, K s → r.rely s t → c s.2 ≤ c t.2) (hs : K s) :
    r.Keeps D (fun x t ↦ K t ∧ ∃ n, c s.2 ≤ n ∧ n ≤ c t.2 ∧ x.toNat % 256 = n % 256)
      (leer32 w) s := by
  rw [leer32_eq]
  refine (keeps_copiar (fun bs t ↦ K t ∧ c s.2 ≤ c t.2 ∧ ∀ b l, bs = b :: l →
    ∃ n, c s.2 ≤ n ∧ n ≤ c t.2 ∧ b = UInt8.ofNat n) ?_ (fun bs t h ↦ hD t h.1) ?_
    ⟨hs, le_rfl, fun b l h ↦ by cases h⟩).bind ?_
  · rintro bs t u htu ⟨hk, hle, hb⟩
    have hcu := hc t u hk htu
    refine ⟨hK.1 t u htu hk, hle.trans hcu, fun b l h ↦ ?_⟩
    obtain ⟨n, h1, h2, h3⟩ := hb b l h
    exact ⟨n, h1, h2.trans hcu, h3⟩
  · rintro bs t hl ⟨hk, hle, hb⟩ _
    obtain ⟨hg, hk'⟩ := hK.2 t (w + bs.length) hk
    rw [hm]
    refine ⟨_, _, _, rfl, hg, hk', hle, fun b l h ↦ ?_⟩
    cases bs with
    | nil =>
      obtain ⟨rfl, -⟩ := List.cons.inj h
      exact ⟨_, hle, le_rfl, hw t hk⟩
    | cons b' l' =>
      obtain ⟨rfl, -⟩ := List.cons.inj h
      exact hb b' l' rfl
  · rintro bs t ⟨hl, hk, hle, hb⟩
    cases bs with
    | nil => cases hl
    | cons b l =>
      obtain ⟨n, h1, h2, rfl⟩ := hb b l rfl
      have hP : r.Stable fun u ↦ K u ∧ n ≤ c u.2 := fun u v huv h ↦
        ⟨hK.1 u v huv h.1, h.2.trans (hc u v h.1 huv)⟩
      refine Role.Keeps.ret hP ⟨hk, h2⟩ fun u hu ↦ ⟨hD u hu.1, hu.1, n, h1, hu.2, ?_⟩
      rw [u32De, leNat, UInt32.toNat_ofNat', UInt8.toNat_ofNat']
      omega

/-- A counter of the other side, when no write that carries meets the read: one of the values it
had in the meantime. -/
theorem lee_indice {c : Libro → Nat} (hm : r.handle = maneja i) (ha : r.allowed = Limpio i)
    (hw : Decide w) (hK : Tranquila r i K) (hD : ∀ s, K s → D s)
    (hind : ∀ s, K s → Indice s.1 i.otra w (c s.2))
    (hc : ∀ s t, K s → r.rely s t → c s.2 ≤ c t.2 ∧ t.1.leyendo i = s.1.leyendo i ∧
      (s.1.leyendo i = some w → c t.2 / 256 = c s.2 / 256)) (hs : K s) :
    r.Keeps D (fun x t ↦ K t ∧ ∃ n, c s.2 ≤ n ∧ n ≤ c t.2 ∧ x = UInt32.ofNat n)
      (leer32 w) s := by
  rw [leer32_eq]
  refine (keeps_copiar (fun bs t ↦ K t ∧ c s.2 ≤ c t.2 ∧ (bs ≠ [] → ∃ n, c s.2 ≤ n ∧ n ≤ c t.2 ∧
    bs = (leBytes 4 n).take bs.length ∧
    (bs.length < 4 → t.1.leyendo i = some w ∧ n / 256 = c t.2 / 256))) ?_
    (fun bs t h ↦ hD t h.1) ?_ ⟨hs, le_rfl, fun h ↦ absurd rfl h⟩).bind ?_
  · rintro bs t u htu ⟨hk, hle, hb⟩
    obtain ⟨hcu, hlu, hsame⟩ := hc t u hk htu
    refine ⟨hK.1 t u htu hk, hle.trans hcu, fun h ↦ ?_⟩
    obtain ⟨n, h1, h2, h3, h4⟩ := hb h
    refine ⟨n, h1, h2.trans hcu, h3, fun hl ↦ ?_⟩
    obtain ⟨hle, hn⟩ := h4 hl
    exact ⟨hlu.trans hle, hn.trans (hsame hle).symm⟩
  · rintro bs t hl ⟨hk, hle, hb⟩ hallow
    obtain ⟨hg, hk'⟩ := hK.2 t (w + bs.length) hk
    rw [hm]
    refine ⟨_, _, _, rfl, hg, hk', hle, fun _ ↦ ?_⟩
    have hley : bs.length + 1 < 4 → (maneja i (.leer8 (w + bs.length)) t.1).2.leyendo i = some w := by
      intro h
      simp only [maneja, Function.update_self]
      rw [avanza_mas (.inl hw) hl, if_neg (by omega)]
    obtain ⟨hbajo, hresto⟩ := hind t hk
    by_cases hnil : bs = []
    · subst hnil
      exact ⟨c t.2, hle, le_rfl, by simp [leBytes, hbajo], fun h ↦ ⟨hley (by simp), rfl⟩⟩
    · obtain ⟨n, h1, h2, h3, h4⟩ := hb hnil
      obtain ⟨-, hn⟩ := h4 hl
      have hpos : 0 < bs.length := List.length_pos_iff.mpr hnil
      rw [ha] at hallow
      have hpal : Palabra t.1.byte w (c t.2) := by
        rcases hresto with h | ⟨he, h0⟩
        · exact h
        · refine absurd ⟨he, ?_⟩ (hallow w (palabra_mas (.inl hw) hl) hw)
          rw [hbajo, ofNat_eq_zero.mpr h0]
      refine ⟨n, h1, h2, ?_, fun h ↦ ⟨hley (by simpa using h), hn⟩⟩
      rw [List.length_append, List.length_singleton, take_leBytes_succ hl, ← h3, hpal _ hl,
        ofNat_div_pow_eq hn hpos]
  · rintro bs t ⟨hl, hk, hle, hb⟩
    obtain ⟨n, h1, h2, h3, -⟩ := hb (by rintro rfl; cases hl)
    have hP : r.Stable fun u ↦ K u ∧ n ≤ c u.2 := fun u v huv h ↦
      ⟨hK.1 u v huv h.1, h.2.trans (hc u v h.1 huv).1⟩
    refine Role.Keeps.ret hP ⟨hk, h2⟩ fun u hu ↦ ⟨hD u hu.1, hu.1, n, h1, hu.2, ?_⟩
    rw [hl, List.take_of_length_le (by simp)] at h3
    rw [h3, u32De_leBytes]

end Lee

/-! ### Publishing -/

/-- A counter of which the first `k` bytes are already those of the next number. -/
structure Mezcla (m : Mundo) (i : Parte) (w n k : Nat) : Prop where
  nuevos : ∀ j < k, j < 4 → m.byte (w + j) = UInt8.ofNat ((n + 1) / 256 ^ j)
  viejos : ∀ j, k ≤ j → j < 4 → m.byte (w + j) = UInt8.ofNat (n / 256 ^ j)
  sitio : 0 < k → k < 4 → m.escribiendo i = some w

theorem Palabra.mezcla {m : Mundo} {i : Parte} {w n : Nat} (h : Palabra m.byte w n) :
    Mezcla m i w n 0 :=
  ⟨fun _ hj ↦ absurd hj (Nat.not_lt_zero _), fun j _ hj ↦ h j hj,
    fun h ↦ absurd h (Nat.lt_irrefl 0)⟩

theorem Mezcla.palabra {m : Mundo} {i : Parte} {w n : Nat} (h : Mezcla m i w n 4) :
    Palabra m.byte w (n + 1) :=
  fun k hk ↦ h.nuevos k hk hk

/-- From its first byte on, the new number counts. -/
theorem Mezcla.indice {m : Mundo} {i : Parte} {w n k : Nat} (h : Mezcla m i w n k) (hk : 0 < k) :
    Indice m i w (n + 1) := by
  refine ⟨by simpa using h.nuevos 0 hk (by omega), ?_⟩
  by_cases hc : (n + 1) % 256 = 0 ∧ k < 4
  · exact .inr ⟨h.sitio hk hc.2, hc.1⟩
  · refine .inl fun j hj ↦ ?_
    by_cases hjk : j < k
    · exact h.nuevos j hjk hj
    · rw [h.viejos j (by omega) hj]
      exact ofNat_div_pow_eq (by omega) (by omega)

theorem Mezcla.escribe {m : Mundo} {i : Parte} {w n k : Nat} (h : Mezcla m i w n k)
    (hw : EsIndice w) (hk : k < 4) :
    Mezcla (maneja i (.escribir8 (w + k) (UInt8.ofNat ((n + 1) / 256 ^ k))) m).2 i w n (k + 1) := by
  refine ⟨fun j hj hj4 ↦ ?_, fun j hj hj4 ↦ ?_, fun _ hk4 ↦ ?_⟩
  · simp only [maneja]
    by_cases hjk : j = k
    · rw [hjk, Function.update_self]
    · rw [Function.update_of_ne (by omega), h.nuevos j (by omega) hj4]
  · simp only [maneja]
    rw [Function.update_of_ne (by omega), h.viejos j (by omega) hj4]
  · simp only [maneja, Function.update_self]
    rw [avanza_mas hw hk, if_neg (by omega)]

theorem Mezcla.congr {m m' : Mundo} {i : Parte} {w n k : Nat} (h : Mezcla m i w n k)
    (hb : ∀ j < 4, m'.byte (w + j) = m.byte (w + j)) (he : m'.escribiendo i = m.escribiendo i) :
    Mezcla m' i w n k :=
  ⟨fun j hj hj4 ↦ (hb j hj4).trans (h.nuevos j hj hj4),
    fun j hj hj4 ↦ (hb j hj4).trans (h.viejos j hj hj4), fun h0 h4 ↦ he.trans (h.sitio h0 h4)⟩

/-- A counter is raised by one. The book changes with the first byte (`K` before, `N` after). -/
theorem publica {r : Role memoria Mundo Libro} {i : Parte} {w n : Nat} {K N D : Estado → Prop}
    {s : Estado} (f : Libro → Libro) (hm : r.handle = maneja i) (hw : EsIndice w)
    (hr : ∀ s t, r.rely s t → (∀ j < 4, t.1.byte (w + j) = s.1.byte (w + j)) ∧
      t.1.escribiendo i = s.1.escribiendo i)
    (hK : r.Stable K) (hN : r.Stable N) (hD : ∀ s, K s → D s) (hD' : ∀ s, N s → D s)
    (hpal : Palabra s.1.byte w n)
    (hprimero : ∀ s m, K s → r.allowed (.escribir8 w (UInt8.ofNat (n + 1))) s.1 →
      m = (maneja i (.escribir8 w (UInt8.ofNat (n + 1))) s.1).2 → Mezcla m i w n 1 →
      r.guar s (m, f s.2) ∧ N (m, f s.2))
    (hresto : ∀ k v s m, 0 < k → k < 4 → N s → r.allowed (.escribir8 (w + k) v) s.1 →
      m = (maneja i (.escribir8 (w + k) v) s.1).2 → Mezcla m i w n (k + 1) →
      r.guar s (m, s.2) ∧ N (m, s.2)) (hs : K s) :
    r.Keeps D (fun _ t ↦ N t ∧ Palabra t.1.byte w (n + 1))
      (escribir32 w (UInt32.ofNat (n + 1))) s := by
  refine (keeps_escribirBytes (fun k t ↦ Mezcla t.1 i w n k ∧ if k = 0 then K t else N t)
    (fun k t u htu h ↦ ?_) (fun k t h ↦ ?_) (fun k v t hv h hallow ↦ ?_)
    ⟨hpal.mezcla, by simpa using hs⟩).mono (fun _ h ↦ h) fun _ t h ↦ ?_
  · obtain ⟨hb, he⟩ := hr t u htu
    refine ⟨h.1.congr hb he, ?_⟩
    split
    · next hk => exact hK t u htu (by simpa [hk] using h.2)
    · next hk => exact hN t u htu (by simpa [hk] using h.2)
  · by_cases hk : k = 0
    · exact hD t (by simpa [hk] using h.2)
    · exact hD' t (by simpa [hk] using h.2)
  · obtain ⟨hk4, rfl⟩ := getElem?_u32Le hv
    have hmez := h.1.escribe hw hk4
    by_cases hk : k = 0
    · subst hk
      rw [Nat.pow_zero, Nat.div_one] at hallow hmez ⊢
      rw [Nat.add_zero] at hallow hmez ⊢
      obtain ⟨hg, hk'⟩ := hprimero t _ (by simpa using h.2) hallow rfl hmez
      rw [hm]
      exact ⟨_, _, rfl, hg, hmez, by simpa using hk'⟩
    · obtain ⟨hg, hk'⟩ := hresto k _ t _ (by omega) hk4 (by simpa [hk] using h.2) hallow rfl hmez
      rw [hm]
      exact ⟨_, _, rfl, hg, hmez, by simpa using hk'⟩
  · rw [length_u32Le] at h
    exact ⟨h.2, h.1.palabra⟩

end BmoX.Red
