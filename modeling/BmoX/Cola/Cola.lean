import BmoX.Base.Ring
import BmoX.Base.Runs

/-!
# The queue of one producer and one consumer

`platform/shared/bmo-cola/src/lib.rs`. The two sides share an array and two indices, and each writes
only its own. A turn is one load or one store of one of them; a value is copied word by word.
-/

namespace BmoX

open BmoX.Base

/-! ### The code -/

/-- A value of `w` words. -/
abbrev Valor (ω : Type) (w : Nat) := Fin w → ω

/-- `Cola`; `lib.rs:54–66`. -/
structure Cola (ω : Type) (w N : Nat) where
  datos : Fin N → Valor ω w
  lee : Fin N
  escribe : Fin N
  perdidos : UInt32

namespace Cola

variable {ω : Type} {w N : Nat}

/-- `nueva`; `lib.rs:76–83`. -/
def nueva [NeZero N] (vacio : Valor ω w) : Cola ω w N := ⟨fun _ ↦ vacio, 0, 0, 0⟩

/-- The place after another, `(e + 1) % N`. -/
def siguiente [NeZero N] (e : Fin N) : Fin N := Fin.ofNat N (e + 1)

/-- How many there are from one place to another; `lib.rs:113` and `122`. -/
def habia (l e : Fin N) : Nat := if l.val ≤ e.val then e.val - l.val else N - l.val + e.val

/-- Where `empujar` is, with what it knows; `lib.rs:87–100`. -/
inductive Productor (ω : Type) (w N : Nat)
  | libre
  | mira (v : Valor ω w) (e : Fin N)
  | lleno
  | copia (v : Valor ω w) (e : Fin N) (j : Nat)

/-- Where `sacar` or `vaciar` is, with what it knows; `lib.rs:103–117`. -/
inductive Consumidor (ω : Type) (w N : Nat)
  | libre
  | saca (l : Fin N)
  | copia (l : Fin N) (v : Valor ω w) (j : Nat)
  | vacia (l : Fin N)
  | tira (l e : Fin N)

/-- What the consumer gets: a value from `sacar`, or a number from `vaciar`. -/
inductive Entrega (ω : Type) (w : Nat)
  | sacado (v : Valor ω w)
  | tirados (n : Nat)

/-- The queue, where each side is, the values for which `empujar` answered `true` and how often it
answered `false`, and what the consumer got, all from the first on. -/
structure Estado (ω : Type) (w N : Nat) where
  cola : Cola ω w N
  productor : Productor ω w N
  consumidor : Consumidor ω w N
  aceptados : List (Valor ω w)
  falsos : Nat
  entregas : List (Entrega ω w)

/-- Whose turn it is: the producer, that pushes `v` if it is free; or the consumer, that calls
`vaciar` or `sacar` if it is free, with what was in the place of the result before. -/
inductive Turno (ω : Type) (w : Nat)
  | productor (v : Valor ω w)
  | consumidor (vaciar : Bool) (basura : Valor ω w)

section

variable [NeZero N]

namespace Estado

/-- Nobody has done anything. -/
def inicio (vacio : Valor ω w) : Estado ω w N := ⟨.nueva vacio, .libre, .libre, [], 0, []⟩

/-- One load or one store of `empujar`; `lib.rs:87–100`. -/
def produce (s : Estado ω w N) (v : Valor ω w) : Estado ω w N :=
  match s.productor with
  | .libre => { s with productor := .mira v s.cola.escribe }
  | .mira v e =>
    if siguiente e = s.cola.lee then { s with productor := .lleno }
    else { s with productor := .copia v e 0 }
  | .lleno =>
    { s with
      cola := { s.cola with perdidos := s.cola.perdidos + 1 }
      productor := .libre
      falsos := s.falsos + 1 }
  | .copia v e j =>
    if h : j < w then
      { s with
        cola := { s.cola with
          datos := Function.update s.cola.datos e
            (Function.update (s.cola.datos e) ⟨j, h⟩ (v ⟨j, h⟩)) }
        productor := .copia v e (j + 1) }
    else
      { s with
        cola := { s.cola with escribe := siguiente e }
        productor := .libre
        aceptados := s.aceptados ++ [v] }

/-- One load or one store of `sacar` or `vaciar`; `lib.rs:103–117`. -/
def consume (s : Estado ω w N) (vaciar : Bool) (basura : Valor ω w) : Estado ω w N :=
  match s.consumidor with
  | .libre => { s with consumidor := if vaciar then .vacia s.cola.lee else .saca s.cola.lee }
  | .saca l =>
    if l = s.cola.escribe then { s with consumidor := .libre }
    else { s with consumidor := .copia l basura 0 }
  | .copia l v j =>
    if h : j < w then
      { s with consumidor := .copia l (Function.update v ⟨j, h⟩ (s.cola.datos l ⟨j, h⟩)) (j + 1) }
    else
      { s with
        cola := { s.cola with lee := siguiente l }
        consumidor := .libre
        entregas := s.entregas ++ [.sacado v] }
  | .vacia l => { s with consumidor := .tira l s.cola.escribe }
  | .tira l e =>
    { s with
      cola := { s.cola with lee := e }
      consumidor := .libre
      entregas := s.entregas ++ [.tirados (habia l e)] }

/-- One turn. -/
def paso (s : Estado ω w N) : Turno ω w → Estado ω w N
  | .productor v => s.produce v
  | .consumidor vaciar basura => s.consume vaciar basura

end Estado

end

/-! ### Places around the array -/

private theorem habia_lt (l e : Fin N) : habia l e < N := by
  have hl := l.isLt
  have he := e.isLt
  unfold habia
  split <;> omega

@[simp] theorem habia_self (l : Fin N) : habia l l = 0 := by
  rw [habia, if_pos le_rfl, Nat.sub_self]

variable [NeZero N]

private theorem ofNat_habia (l e : Fin N) : Fin.ofNat N (l + habia l e) = e := by
  have hl := l.isLt
  have he := e.isLt
  apply Fin.ext
  rw [Fin.val_ofNat]
  unfold habia
  split
  · rw [show l.val + (e.val - l.val) = e.val by omega, Nat.mod_eq_of_lt he]
  · rw [show l.val + (N - l.val + e.val) = N + e.val by omega, Nat.add_mod_left,
      Nat.mod_eq_of_lt he]

/-- And no other distance below a whole turn leads to it. -/
theorem habia_ofNat (l : Fin N) {k : Nat} (hk : k < N) : habia l (Fin.ofNat N (l + k)) = k := by
  have hl := l.isLt
  unfold habia
  rw [Fin.val_ofNat]
  by_cases h : l.val + k < N
  · rw [Nat.mod_eq_of_lt h, if_pos (by omega)]
    omega
  · have hmod : (l.val + k) % N = l.val + k - N := by
      rw [Nat.mod_eq_sub_mod (by omega), Nat.mod_eq_of_lt (by omega)]
    rw [hmod, if_neg (by omega)]
    omega

private theorem habia_eq_zero {l e : Fin N} : habia l e = 0 ↔ l = e := by
  constructor
  · intro h
    have he := ofNat_habia l e
    rw [h, Nat.add_zero, Fin.ofNat_val_eq_self] at he
    exact he
  · rintro rfl
    exact habia_self l

theorem siguiente_eq (l e : Fin N) : siguiente e = Fin.ofNat N (l + (habia l e + 1)) := by
  have he := congrArg Fin.val (ofNat_habia l e)
  rw [Fin.val_ofNat] at he
  apply Fin.ext
  rw [siguiente, Fin.val_ofNat, Fin.val_ofNat, ← he, Nat.mod_add_mod, Nat.add_assoc]

private theorem siguiente_eq_iff {l e : Fin N} : siguiente e = l ↔ habia l e + 1 = N := by
  have hlt := habia_lt l e
  rw [siguiente_eq l e]
  constructor
  · intro h
    by_contra hne
    have h1 := habia_ofNat l (show habia l e + 1 < N by omega)
    rw [h, habia_self] at h1
    omega
  · intro h
    apply Fin.ext
    rw [h, Fin.val_ofNat, Nat.add_mod_right, Nat.mod_eq_of_lt l.isLt]

private theorem habia_desde {l e : Fin N} {m : Nat} (hm : m ≤ habia l e) :
    habia (Fin.ofNat N (l + m)) e = habia l e - m := by
  have hlt := habia_lt l e
  have he : Fin.ofNat N ((Fin.ofNat N (l + m)).val + (habia l e - m)) = e := by
    conv_rhs => rw [← ofNat_habia l e]
    apply Fin.ext
    rw [Fin.val_ofNat, Fin.val_ofNat, Fin.val_ofNat, Nat.mod_add_mod]
    congr 1
    omega
  conv_lhs => rw [← he]
  exact habia_ofNat _ (by omega)

/-! ### What is in the queue -/

/-- The places from `lee` to `escribe`, as a circular buffer. -/
def anillo (c : Cola ω w N) : Ring (Valor ω w) N :=
  ⟨c.datos, c.lee, habia c.lee c.escribe, (habia_lt _ _).le⟩

/-- What is stored, from the oldest on. -/
def contenido (c : Cola ω w N) : List (Valor ω w) := c.anillo.toList

@[simp] theorem length_contenido (c : Cola ω w N) : c.contenido.length = habia c.lee c.escribe :=
  Ring.length_toList _

private theorem slot_ne_escribe (c : Cola ω w N) {k : Nat} (hk : k < habia c.lee c.escribe) :
    c.anillo.slot k ≠ c.escribe := by
  have hlt := habia_lt c.lee c.escribe
  have hne := c.anillo.slot_ne hk (by omega)
  have hescribe : c.anillo.slot (habia c.lee c.escribe) = c.escribe := ofNat_habia _ _
  rwa [hescribe] at hne

private theorem contenido_escribe (c : Cola ω w N) (v : Valor ω w) :
    { c with datos := Function.update c.datos c.escribe v }.contenido = c.contenido :=
  Ring.toList_congr rfl rfl fun _ hk ↦ Function.update_of_ne (c.slot_ne_escribe hk) ..

private theorem contenido_publica (c : Cola ω w N) (h : habia c.lee c.escribe + 1 < N) :
    { c with escribe := siguiente c.escribe }.contenido = c.contenido ++ [c.datos c.escribe] := by
  have hcount : habia c.lee (siguiente c.escribe) = habia c.lee c.escribe + 1 := by
    rw [siguiente_eq c.lee c.escribe, habia_ofNat _ h]
  have hslot : c.anillo.slot c.anillo.count = c.escribe := ofNat_habia _ _
  have hmas : { c with escribe := siguiente c.escribe }.contenido =
      c.contenido ++ [c.datos (c.anillo.slot c.anillo.count)] := Ring.toList_succ rfl rfl hcount
  rwa [hslot] at hmas

private theorem contenido_suelta (c : Cola ω w N) {m : Nat} (hm : m ≤ habia c.lee c.escribe) :
    { c with lee := Fin.ofNat N (c.lee + m) }.contenido = c.contenido.drop m :=
  Ring.toList_drop rfl rfl (habia_desde hm)

private theorem contenido_eq_cons (c : Cola ω w N) (h : 0 < habia c.lee c.escribe) :
    c.contenido = c.datos c.lee :: { c with lee := siguiente c.lee }.contenido := by
  have hlee : c.anillo.slot 0 = c.lee := by
    rw [Ring.slot, Nat.add_zero]
    exact Fin.ofNat_val_eq_self _
  have hresto : { c with lee := siguiente c.lee }.contenido = c.contenido.drop 1 :=
    c.contenido_suelta h
  have hlen : 0 < c.contenido.length := by rwa [length_contenido]
  have hprimero : c.contenido[0] = c.datos c.lee := by
    simp only [contenido, Ring.toList, List.getElem_map, List.getElem_range, hlee]
    rfl
  rw [hresto, ← hprimero, List.getElem_cons_drop hlen, List.drop_zero]

/-! ### What holds at every turn -/

/-- What the producer knows of the queue. -/
def Productor.Sano (c : Cola ω w N) : Productor ω w N → Prop
  | .libre | .lleno => True
  | .mira _ e => e = c.escribe
  | .copia v e j => e = c.escribe ∧ habia c.lee c.escribe + 1 < N ∧
      ∀ i : Fin w, i < j → c.datos e i = v i

/-- What the consumer knows of it. -/
def Consumidor.Sano (c : Cola ω w N) : Consumidor ω w N → Prop
  | .libre => True
  | .saca l | .vacia l => l = c.lee
  | .copia l v j => l = c.lee ∧ 0 < habia c.lee c.escribe ∧
      ∀ i : Fin w, i < j → v i = c.datos l i
  | .tira l e => l = c.lee ∧ habia l e ≤ habia c.lee c.escribe

/-- What a result of the consumer says of the values that it takes out. -/
def Entrega.Casa : Entrega ω w → List (Valor ω w) → Prop
  | .sacado v, vs => vs = [v]
  | .tirados n, vs => vs.length = n

/-- The accepted values are those that went out, in the order of the results, and then those that
are stored. -/
def Estado.Cuadra (s : Estado ω w N) : Prop :=
  ∃ trozos, List.Forall₂ Entrega.Casa s.entregas trozos ∧
    s.aceptados = trozos.flatten ++ s.cola.contenido

/-- The invariant. -/
structure Estado.Sano (s : Estado ω w N) : Prop where
  cuadra : s.Cuadra
  perdidos : s.cola.perdidos = UInt32.ofNat s.falsos
  productor : s.productor.Sano s.cola
  consumidor : s.consumidor.Sano s.cola

private theorem contenido_nueva (vacio : Valor ω w) : (nueva vacio : Cola ω w N).contenido = [] :=
  List.eq_nil_of_length_eq_zero (by rw [length_contenido]; exact habia_self _)

private theorem eq_of_copiado {v u : Valor ω w} {j : Nat} (hj : ¬j < w)
    (h : ∀ i : Fin w, i < j → v i = u i) : v = u :=
  funext fun i ↦ h i (by have := i.isLt; omega)

private theorem copiado_succ {v u : Valor ω w} {j : Nat} (hj : j < w)
    (h : ∀ i : Fin w, i < j → v i = u i) (i : Fin w) (hi : i < j + 1) :
    Function.update v ⟨j, hj⟩ (u ⟨j, hj⟩) i = u i := by
  by_cases heq : i = ⟨j, hj⟩
  · rw [heq, Function.update_self]
  · rw [Function.update_of_ne heq]
    apply h
    have hne : i.val ≠ j := fun hv ↦ heq (Fin.ext hv)
    omega

namespace Estado

variable {s : Estado ω w N}

private theorem sano_inicio (vacio : Valor ω w) : (inicio vacio : Estado ω w N).Sano where
  cuadra := ⟨[], .nil, (contenido_nueva (N := N) vacio).symm⟩
  perdidos := rfl
  productor := trivial
  consumidor := trivial

/-- What the consumer knows stays true when a value is stored behind what it looks at. -/
theorem Sano.consumidor_publica (h : s.Sano) (hcabe : habia s.cola.lee s.cola.escribe + 1 < N) :
    s.consumidor.Sano { s.cola with escribe := siguiente s.cola.escribe } := by
  have hmas : habia s.cola.lee (siguiente s.cola.escribe) =
      habia s.cola.lee s.cola.escribe + 1 := by
    rw [siguiente_eq s.cola.lee s.cola.escribe, habia_ofNat _ hcabe]
  have hc := h.consumidor
  cases hcon : s.consumidor <;> rw [hcon] at hc
  case libre => trivial
  case saca l => exact hc
  case vacia l => exact hc
  case copia l v j =>
    refine ⟨hc.1, ?_, hc.2.2⟩
    change 0 < habia s.cola.lee (siguiente s.cola.escribe)
    omega
  case tira l e =>
    refine ⟨hc.1, ?_⟩
    change habia l e ≤ habia s.cola.lee (siguiente s.cola.escribe)
    exact hc.2.trans (by omega)

private theorem Sano.consumidor_escribe (h : s.Sano) (v : Valor ω w) :
    s.consumidor.Sano
      { s.cola with datos := Function.update s.cola.datos s.cola.escribe v } := by
  have hc := h.consumidor
  cases hcon : s.consumidor <;> rw [hcon] at hc
  case libre => trivial
  case saca l => exact hc
  case vacia l => exact hc
  case tira l e => exact hc
  case copia l u j =>
    have hno : l ≠ s.cola.escribe := by
      rw [hc.1]
      intro heq
      exact absurd (habia_eq_zero.mpr heq) (by have := hc.2.1; omega)
    refine ⟨hc.1, hc.2.1, ?_⟩
    change ∀ i : Fin w, i < j → u i = Function.update s.cola.datos s.cola.escribe v l i
    rw [Function.update_of_ne hno]
    exact hc.2.2

/-- A turn of the producer keeps the invariant. -/
theorem Sano.produce (h : s.Sano) (v : Valor ω w) : (s.produce v).Sano := by
  have hp := h.productor
  unfold Estado.produce
  cases hpro : s.productor <;> rw [hpro] at hp <;> dsimp only
  case libre => exact ⟨h.cuadra, h.perdidos, rfl, h.consumidor⟩
  case mira v e =>
    split
    next => exact ⟨h.cuadra, h.perdidos, trivial, h.consumidor⟩
    next hno =>
      have hlt := habia_lt s.cola.lee s.cola.escribe
      have hllena : habia s.cola.lee s.cola.escribe + 1 ≠ N := by
        rw [hp] at hno
        exact mt siguiente_eq_iff.mpr hno
      have hcabe : habia s.cola.lee s.cola.escribe + 1 < N := by omega
      exact ⟨h.cuadra, h.perdidos, ⟨hp, hcabe, fun i hi ↦ absurd hi (Nat.not_lt_zero i)⟩,
        h.consumidor⟩
  case lleno =>
    refine ⟨h.cuadra, ?_, trivial, ?_⟩
    · change s.cola.perdidos + 1 = UInt32.ofNat (s.falsos + 1)
      rw [h.perdidos, UInt32.ofNat_add]
      rfl
    · have hc := h.consumidor
      cases hcon : s.consumidor <;> rw [hcon] at hc <;> exact hc
  case copia v e j =>
    obtain ⟨rfl, hcabe, hcopia⟩ := hp
    split
    next hj =>
      refine ⟨?_, h.perdidos, ⟨rfl, hcabe, ?_⟩, h.consumidor_escribe _⟩
      · obtain ⟨trozos, hcasa, hac⟩ := h.cuadra
        exact ⟨trozos, hcasa, by rw [hac]; exact congrArg _ (contenido_escribe ..).symm⟩
      · intro i hi
        change Function.update s.cola.datos s.cola.escribe _ s.cola.escribe i = v i
        rw [Function.update_self]
        exact copiado_succ hj hcopia i hi
    next hj =>
      refine ⟨?_, h.perdidos, trivial, h.consumidor_publica hcabe⟩
      obtain ⟨trozos, hcasa, hac⟩ := h.cuadra
      refine ⟨trozos, hcasa, ?_⟩
      change s.aceptados ++ [v] = _
      rw [hac, contenido_publica _ hcabe, eq_of_copiado hj hcopia, List.append_assoc]

/-- What the producer knows stays true when there is more room. -/
theorem Sano.productor_suelta (h : s.Sano) {m : Nat} (hm : m ≤ habia s.cola.lee s.cola.escribe) :
    s.productor.Sano { s.cola with lee := Fin.ofNat N (s.cola.lee + m) } := by
  have hmenos := habia_desde hm
  have hp := h.productor
  cases hpro : s.productor <;> rw [hpro] at hp
  case libre => trivial
  case lleno => trivial
  case mira v e => exact hp
  case copia v e j =>
    refine ⟨hp.1, ?_, hp.2.2⟩
    change habia (Fin.ofNat N (s.cola.lee + m)) s.cola.escribe + 1 < N
    have hcabe := hp.2.1
    omega

/-- One more result, of what goes out with it. -/
theorem Cuadra.entrega (h : s.Cuadra) {m : Nat} (hm : m ≤ habia s.cola.lee s.cola.escribe)
    {r : Entrega ω w} (hr : r.Casa (s.cola.contenido.take m)) :
    Cuadra { s with
      cola := { s.cola with lee := Fin.ofNat N (s.cola.lee + m) }
      consumidor := .libre
      entregas := s.entregas ++ [r] } := by
  obtain ⟨trozos, hcasa, hac⟩ := h
  refine ⟨trozos ++ [s.cola.contenido.take m], ?_, ?_⟩
  · exact List.rel_append hcasa (.cons hr .nil)
  · change s.aceptados = _ ++ Cola.contenido { s.cola with lee := Fin.ofNat N (s.cola.lee + m) }
    rw [contenido_suelta _ hm, hac, List.flatten_append, List.flatten_singleton, List.append_assoc,
      List.take_append_drop]

/-- A turn of the consumer keeps the invariant. -/
theorem Sano.consume (h : s.Sano) (vaciar : Bool) (basura : Valor ω w) :
    (s.consume vaciar basura).Sano := by
  have hc := h.consumidor
  unfold Estado.consume
  cases hcon : s.consumidor <;> rw [hcon] at hc <;> dsimp only
  case libre =>
    refine ⟨h.cuadra, h.perdidos, h.productor, ?_⟩
    cases vaciar <;> exact rfl
  case saca l =>
    split
    next => exact ⟨h.cuadra, h.perdidos, h.productor, trivial⟩
    next hno =>
      rw [hc] at hno
      exact ⟨h.cuadra, h.perdidos, h.productor, hc, Nat.pos_of_ne_zero (mt habia_eq_zero.mp hno),
        fun i hi ↦ absurd hi (Nat.not_lt_zero i)⟩
  case copia l v j =>
    obtain ⟨rfl, hhay, hcopia⟩ := hc
    split
    next hj =>
      exact ⟨h.cuadra, h.perdidos, h.productor, rfl, hhay, copiado_succ hj hcopia⟩
    next hj =>
      refine ⟨h.cuadra.entrega hhay ?_, h.perdidos, h.productor_suelta hhay, trivial⟩
      have hv : v = s.cola.datos s.cola.lee := eq_of_copiado hj hcopia
      rw [Entrega.Casa, contenido_eq_cons _ hhay, hv, List.take_succ_cons, List.take_zero]
  case vacia l =>
    exact ⟨h.cuadra, h.perdidos, h.productor, hc, by rw [hc]⟩
  case tira l e =>
    obtain ⟨rfl, hm⟩ := hc
    have he := ofNat_habia s.cola.lee e
    have hcuadra := h.cuadra.entrega hm (r := .tirados (habia s.cola.lee e))
      (by rw [Entrega.Casa, List.length_take, length_contenido, Nat.min_eq_left hm])
    have hpro := h.productor_suelta hm
    rw [he] at hcuadra hpro
    exact ⟨hcuadra, h.perdidos, hpro, trivial⟩

theorem Sano.paso (h : s.Sano) (t : Turno ω w) : (s.paso t).Sano := by
  cases t with
  | productor v => exact h.produce v
  | consumidor vaciar basura => exact h.consume vaciar basura

/-- `empujar` answers `false` in a turn only after it has found the queue full, and it finds it full
only when every place but one is taken. -/
def SoloSiLlena (s : Estado ω w N) (t : Turno ω w) : Prop :=
  (s.falsos ≠ (s.paso t).falsos → s.productor = .lleno) ∧
    (s.productor ≠ .lleno → (s.paso t).productor = .lleno → s.cola.contenido.length = N - 1)

private theorem falsos_consume (s : Estado ω w N) (vaciar : Bool) (basura : Valor ω w) :
    (s.consume vaciar basura).falsos = s.falsos := by
  unfold consume
  split <;> try split
  all_goals rfl

private theorem productor_consume (s : Estado ω w N) (vaciar : Bool) (basura : Valor ω w) :
    (s.consume vaciar basura).productor = s.productor := by
  unfold consume
  split <;> try split
  all_goals rfl

private theorem Sano.soloSiLlena (h : s.Sano) (t : Turno ω w) : s.SoloSiLlena t := by
  cases t with
  | consumidor vaciar basura =>
    exact ⟨fun hne ↦ absurd (falsos_consume s vaciar basura).symm hne,
      fun hno hsi ↦ absurd ((productor_consume s vaciar basura).symm.trans hsi) hno⟩
  | productor v =>
    have hp := h.productor
    unfold SoloSiLlena Estado.paso Estado.produce
    cases hpro : s.productor <;> rw [hpro] at hp <;> dsimp only
    case libre => simp
    case lleno => simp
    case mira v e =>
      split
      next hsi =>
        have hllena := siguiente_eq_iff.mp (hp ▸ hsi)
        simp only [length_contenido]
        omega
      next => simp
    case copia v e j => split <;> simp

/-- The queue is a bounded one, first in, first out, whatever the order of the turns: the accepted
values are those taken out by `sacar` and by `vaciar`, result by result, and then those stored, of
which there are fewer than places; `false` is for a queue with one place left; and `perdidos` counts
the times, around `2 ^ 32`. -/
theorem cola_fifo (vacio : Valor ω w) (ts : List (Turno ω w)) :
    let s := runOn paso (inicio vacio : Estado ω w N) ts
    s.Cuadra ∧ s.cola.contenido.length ≤ N - 1 ∧ s.cola.perdidos.toNat = s.falsos % 2 ^ 32 ∧
      AtSteps paso (inicio vacio : Estado ω w N) SoloSiLlena ts := by
  intro s
  have hs : s.Sano := runOn_induction (sano_inicio vacio) (fun _ t hs ↦ hs.paso t) ts
  refine ⟨hs.cuadra, ?_, ?_, ?_⟩
  · have hlt := habia_lt s.cola.lee s.cola.escribe
    rw [length_contenido]
    omega
  · rw [hs.perdidos]
    exact UInt32.toNat_ofNat
  · apply atSteps_of_invariant (sano_inicio vacio) (fun _ t hs ↦ hs.paso t)
    intro s t hs
    exact hs.soloSiLlena t

/-- Two values pushed, of which the consumer takes the first with `sacar` and throws the other away
with `vaciar`. -/
theorem cola_fifo_dos :
    let ts := List.replicate 3 (.consumidor true fun _ ↦ 0) ++
      List.replicate 4 (.consumidor false fun _ ↦ 0) ++ List.replicate 8 (.productor fun _ ↦ 7)
    let s := runOn paso (inicio fun _ ↦ 0 : Estado Nat 1 4) ts
    s.Cuadra ∧ s.cola.contenido.length ≤ 3 ∧ s.cola.perdidos.toNat = s.falsos % 2 ^ 32 ∧
      AtSteps paso (inicio fun _ ↦ 0 : Estado Nat 1 4) SoloSiLlena ts :=
  cola_fifo (fun _ ↦ 0) _

private theorem runOn_llena (v : Valor ω w) (n : Nat) (hlibre : s.productor = .libre)
    (hllena : siguiente s.cola.escribe = s.cola.lee) :
    runOn paso s (List.replicate (3 * n) (.productor v)) =
      { s with
        cola := { s.cola with perdidos := s.cola.perdidos + UInt32.ofNat n }
        falsos := s.falsos + n } := by
  induction n with
  | zero => simp
  | succ n ih =>
    rw [Nat.mul_succ, Nat.add_comm, List.replicate_add, runOn_append, ih]
    simp [List.replicate, paso, produce, hlibre, hllena, UInt32.ofNat_add, UInt32.add_assoc,
      Nat.add_assoc]

/-- `perdidos` and the times `empujar` answered `false` differ after `2 ^ 32` of them. -/
theorem perdidos_vuelve :
    let s := runOn paso (inicio fun _ ↦ false : Estado Bool 1 2)
      (List.replicate (3 * 2 ^ 32 + 4) (.productor fun _ ↦ true))
    s.falsos = 2 ^ 32 ∧ s.cola.perdidos.toNat = 0 := by
  rw [List.replicate_add, runOn_append, runOn_llena]
  · exact ⟨rfl, by decide⟩
  · rfl
  · rfl

end Estado

end Cola

end BmoX
