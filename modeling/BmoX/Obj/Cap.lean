import BmoX.Base.Bits
import Mathlib.Data.List.FinRange
import Mathlib.Tactic.Common

/-!
# The capability engine

`kernel/src/ring0/obj/cap.rs`. A process names a kernel object by a 64-bit handle: tag, kind,
generation and slot index. Each process has a table of slots; a slot keeps only its last
generation.
-/

namespace BmoX.Obj.Cap

open BmoX.Base

/-- `MAX_PROCS`; `cap.rs:34`. -/
abbrev maxProcs : Nat := 16

/-- `SLOTS_PER_PROC`; `cap.rs:35`. -/
abbrev slotsPerProc : Nat := 64

instance : NeZero maxProcs := ⟨by decide⟩

instance : NeZero slotsPerProc := ⟨by decide⟩

/-- `KIND_CHANNEL`; `cap.rs:81`. -/
def kindChannel : UInt8 := 0x60

/-- `KIND_ENDPOINT`; `cap.rs:83`. -/
def kindEndpoint : UInt8 := 0x70

/-- `KIND_REPLY`; `cap.rs:85`. -/
def kindReply : UInt8 := 0x71

/-- `HANDLE_KIND_MASK`, which the source checks against every kind at compile time;
`cap.rs:171–187` and `258`. -/
def handleKindMask : UInt8 := 0x7F

/-- `RIGHT_READ`; `cap.rs:191`. -/
def rightRead : UInt64 := 1

/-- `RIGHT_WRITE`; `cap.rs:192`. -/
def rightWrite : UInt64 := (1 : UInt64) <<< 1

/-- `RIGHT_WAIT`; `cap.rs:193`. -/
def rightWait : UInt64 := (1 : UInt64) <<< 6

/-- `ERROR_INVALID_HANDLE`; `cap.rs:196`. -/
def errorInvalidHandle : UInt32 := 2

/-- `ERROR_PERMISSION_DENIED`; `cap.rs:197`. -/
def errorPermissionDenied : UInt32 := 3

/-- `FLAG_NEEDS_CAP`; `cap.rs:200`. -/
def flagNeedsCap : UInt32 := (1 : UInt32) <<< 4

/-- One slot of a process table; `cap.rs:203–214`. -/
structure CapSlot where
  kind : UInt8
  live : Bool
  generation : UInt16
  rights : UInt64
  object : UInt64
  deriving DecidableEq

/-- `CapSlot::FREE`; `cap.rs:217`. -/
def CapSlot.free : CapSlot := ⟨0, false, 0, 0, 0⟩

/-- A slot given back: the generation stays; `cap.rs:364–368`. -/
def CapSlot.soltar (s : CapSlot) : CapSlot := ⟨0, false, s.generation, 0, 0⟩

/-- A resolved capability; `cap.rs:222–226`. -/
structure Resolved where
  kind : UInt8
  rights : UInt64
  object : UInt64
  deriving DecidableEq

/-- The tables of all processes; `cap.rs:228–230`. -/
abbrev Tablas := Fin maxProcs → Fin slotsPerProc → CapSlot

/-- `TABLES` at start; `cap.rs:233–235`. -/
def inicial : Tablas := fun _ _ ↦ .free

/-- Write one slot. -/
def Tablas.poner (t : Tablas) (p : Fin maxProcs) (i : Fin slotsPerProc) (s : CapSlot) : Tablas :=
  Function.update t p (Function.update (t p) i s)

/-! ### Handles -/

/-- `kind_tag`; `cap.rs:263–268`. -/
def kindTag (kind : UInt8) : UInt64 := if kind = kindChannel then 1 else 0

/-- `cap.rs:270–275`. -/
def encode (kind : UInt8) (generation : UInt16) (index : UInt64) : UInt64 :=
  kindTag kind <<< 63 ||| (kind.toUInt64 &&& 0x7F) <<< 56 |||
    (generation.toUInt64 &&& 0xFFFF) <<< 40 ||| (index &&& 0x000000FFFFFFFFFF)

/-- The kind field of a handle; `cap.rs:307`. -/
def kindDe (handle : UInt64) : UInt8 := ((handle >>> 56) &&& 0x7F).toUInt8

/-- The generation field of a handle; `cap.rs:308` and `353`. -/
def generationDe (handle : UInt64) : UInt16 := ((handle >>> 40) &&& 0xFFFF).toUInt16

/-- The index field of a handle; `cap.rs:309` and `354`. -/
def indexDe (handle : UInt64) : Nat := (handle &&& 0x000000FFFFFFFFFF).toNat

/-! ### Operations -/

/-- The first slot not in use; `cap.rs:286`. -/
def primeraLibre (t : Fin slotsPerProc → CapSlot) : Option (Fin slotsPerProc) :=
  (List.finRange slotsPerProc).find? fun i ↦ !(t i).live

/-- The next generation of a slot, skipping zero; `cap.rs:289–292`. -/
def siguiente (g : UInt16) : UInt16 := if g + 1 = 0 then 1 else g + 1

theorem siguiente_ne_zero (g : UInt16) : siguiente g ≠ 0 := by
  rw [siguiente]
  split
  · decide
  · next h => exact h

/-- Grant a capability to `pid`; `cap.rs:279–295`. -/
def grant (t : Tablas) (pid : UInt32) (kind : UInt8) (rights object : UInt64) :
    Option UInt64 × Tablas :=
  if h : pid.toNat < maxProcs then
    let p : Fin maxProcs := ⟨pid.toNat, h⟩
    match primeraLibre (t p) with
    | none => (none, t)
    | some index =>
      let generation := siguiente (t p index).generation
      (some (encode kind generation (UInt64.ofNat index)),
        t.poner p index ⟨kind, true, generation, rights, object⟩)
  else (none, t)

/-- Resolve a handle of `pid`, requiring rights; `cap.rs:302–326`. -/
def resolve (t : Tablas) (pid : UInt32) (handle requiredRights : UInt64) :
    Except (UInt32 × UInt32) Resolved :=
  if hp : pid.toNat < maxProcs then
    if hi : indexDe handle < slotsPerProc ∧ generationDe handle ≠ 0 then
      let slot := t ⟨pid.toNat, hp⟩ ⟨indexDe handle, hi.1⟩
      if slot.live = false ∨ slot.generation ≠ generationDe handle ∨ slot.kind ≠ kindDe handle ∨
          kindTag (kindDe handle) ≠ handle >>> 63 then
        .error (errorInvalidHandle, 0)
      else if slot.rights &&& requiredRights ≠ requiredRights then
        .error (errorPermissionDenied, flagNeedsCap)
      else .ok ⟨slot.kind, slot.rights, slot.object⟩
    else .error (errorInvalidHandle, 0)
  else .error (errorInvalidHandle, 0)

/-- Revoke a capability; `cap.rs:348–370`. -/
def revoke (t : Tablas) (pid : UInt32) (handle : UInt64) : Bool × Tablas :=
  if hp : pid.toNat < maxProcs then
    if hi : indexDe handle < slotsPerProc ∧ generationDe handle ≠ 0 then
      let p : Fin maxProcs := ⟨pid.toNat, hp⟩
      let i : Fin slotsPerProc := ⟨indexDe handle, hi.1⟩
      let slot := t p i
      if slot.live = false ∨ slot.generation ≠ generationDe handle then (false, t)
      else (true, t.poner p i slot.soltar)
    else (false, t)
  else (false, t)

/-- Drop every capability of `pid`; `cap.rs:500–512`. -/
def revokeAllSlots (t : Tablas) (pid : UInt32) : Tablas :=
  if h : pid.toNat < maxProcs then
    let p : Fin maxProcs := ⟨pid.toNat, h⟩
    Function.update t p fun i ↦ (t p i).soltar
  else t

/-! ### The fields of a handle -/

private theorem encode_toNat {kind : UInt8} (hk : kind ≤ handleKindMask) (g : UInt16)
    {i : UInt64} (hi : i.toNat < 2 ^ 40) :
    (encode kind g i).toNat =
      (kindTag kind).toNat * 2 ^ 63 + (kind.toNat * 2 ^ 56 + (g.toNat * 2 ^ 40 + i.toNat)) := by
  have hk : kind.toNat ≤ 127 := hk
  have htag : (kindTag kind).toNat < 2 := by
    rw [kindTag]
    split <;> decide
  have hg := g.toNat_lt
  have hkind : (kind.toUInt64 &&& 0x7F).toNat = kind.toNat := by
    rw [toNat_and_mask (w := 7) _ rfl, UInt8.toNat_toUInt64, Nat.mod_eq_of_lt (by omega)]
  have hgen : (g.toUInt64 &&& 0xFFFF).toNat = g.toNat := by
    rw [toNat_and_mask (w := 16) _ rfl, UInt16.toNat_toUInt64, Nat.mod_eq_of_lt (by omega)]
  have hidx : (i &&& 0x000000FFFFFFFFFF).toNat = i.toNat := by
    rw [toNat_and_mask (w := 40) _ rfl, Nat.mod_eq_of_lt hi]
  rw [encode, UInt64.or_assoc, UInt64.or_assoc]
  have h1 : ((g.toUInt64 &&& 0xFFFF) <<< 40 ||| (i &&& 0x000000FFFFFFFFFF)).toNat =
      g.toNat * 2 ^ 40 + i.toNat := by
    rw [toNat_shiftLeft_or (by decide) (by rw [hgen]; simp; omega) (by rw [hidx]; exact hi), hgen,
      hidx]
    rfl
  have h2 : ((kind.toUInt64 &&& 0x7F) <<< 56 ||| ((g.toUInt64 &&& 0xFFFF) <<< 40 |||
      (i &&& 0x000000FFFFFFFFFF))).toNat = kind.toNat * 2 ^ 56 + (g.toNat * 2 ^ 40 + i.toNat) := by
    rw [toNat_shiftLeft_or (by decide) (by rw [hkind]; simp; omega) (by rw [h1]; simp; omega),
      hkind, h1]
    rfl
  rw [toNat_shiftLeft_or (by decide) (by simp; omega) (by rw [h2]; simp; omega), h2]
  rfl

private theorem kindDe_toNat (h : UInt64) : (kindDe h).toNat = h.toNat / 2 ^ 56 % 2 ^ 7 := by
  rw [kindDe, UInt64.toNat_toUInt8, toNat_and_mask (w := 7) _ rfl, toNat_shiftRight _ (by decide)]
  exact Nat.mod_eq_of_lt ((Nat.mod_lt _ (by decide)).trans (by decide))

private theorem kindDe_le (h : UInt64) : kindDe h ≤ handleKindMask := by
  rw [UInt8.le_iff_toNat_le, kindDe_toNat]
  exact Nat.le_of_lt_succ (Nat.mod_lt _ (by decide))

private theorem generationDe_toNat (h : UInt64) :
    (generationDe h).toNat = h.toNat / 2 ^ 40 % 2 ^ 16 := by
  rw [generationDe, UInt64.toNat_toUInt16, toNat_and_mask (w := 16) _ rfl,
    toNat_shiftRight _ (by decide)]
  exact Nat.mod_eq_of_lt (Nat.mod_lt _ (by decide))

private theorem indexDe_eq (h : UInt64) : indexDe h = h.toNat % 2 ^ 40 :=
  toNat_and_mask _ rfl

private theorem indice_toNat (i : Fin slotsPerProc) : (UInt64.ofNat i).toNat = i := by
  have hi : (i : Nat) < 64 := i.isLt
  rw [UInt64.toNat_ofNat', Nat.mod_eq_of_lt (by omega)]

private theorem kindTag_lt (kind : UInt8) : (kindTag kind).toNat < 2 := by
  rw [kindTag]
  split <;> decide

/-- Taking a handle apart gives back what it was made of. -/
theorem campos_encode {kind : UInt8} (hk : kind ≤ handleKindMask) (g : UInt16)
    (i : Fin slotsPerProc) :
    kindDe (encode kind g (UInt64.ofNat i)) = kind ∧
    generationDe (encode kind g (UInt64.ofNat i)) = g ∧
    indexDe (encode kind g (UInt64.ofNat i)) = i ∧
    encode kind g (UInt64.ofNat i) >>> 63 = kindTag kind := by
  have hi : (i : Nat) < 64 := i.isLt
  have hg := g.toNat_lt
  have hk' : kind.toNat ≤ 127 := hk
  have ht := kindTag_lt kind
  have h := encode_toNat hk g (i := UInt64.ofNat i) (by rw [indice_toNat]; omega)
  rw [indice_toNat] at h
  refine ⟨?_, ?_, ?_, ?_⟩
  · rw [← UInt8.toNat_inj, kindDe_toNat, h]
    omega
  · rw [← UInt16.toNat_inj, generationDe_toNat, h]
    omega
  · rw [indexDe_eq, h]
    omega
  · rw [← UInt64.toNat_inj, toNat_shiftRight _ (by decide), h]
    simp only [UInt64.reduceToNat]
    omega

private theorem encode_campos {h : UInt64} (ht : kindTag (kindDe h) = h >>> 63) :
    encode (kindDe h) (generationDe h) (UInt64.ofNat (indexDe h)) = h := by
  have hlt := h.toNat_lt
  have hidx : (UInt64.ofNat (indexDe h)).toNat = h.toNat % 2 ^ 40 := by
    rw [UInt64.toNat_ofNat', indexDe_eq, Nat.mod_eq_of_lt (by omega)]
  have htag : (kindTag (kindDe h)).toNat = h.toNat / 2 ^ 63 := by
    rw [ht, toNat_shiftRight _ (by decide)]
    rfl
  rw [← UInt64.toNat_inj, encode_toNat (kindDe_le h) _ (by rw [hidx]; omega), htag, kindDe_toNat,
    generationDe_toNat, hidx]
  omega

/-! ### What each operation does -/

/-- The table a process number selects. -/
def indicePid (pid : UInt32) : Option (Fin maxProcs) :=
  if h : pid.toNat < maxProcs then some ⟨pid.toNat, h⟩ else none

/-- Two process numbers that select one table are equal. -/
theorem indicePid_inj {pid pid' : UInt32} {p : Fin maxProcs} (h : indicePid pid = some p)
    (h' : indicePid pid' = some p) : pid = pid' := by
  simp only [indicePid, Option.dite_none_right_eq_some, Option.some.injEq] at h h'
  obtain ⟨_, h⟩ := h
  obtain ⟨_, h'⟩ := h'
  exact UInt32.toNat_inj.mp (Fin.mk.inj (h.trans h'.symm))

/-- The other tables and slots stay as they were. -/
theorem poner_apply (t : Tablas) (p q : Fin maxProcs) (i j : Fin slotsPerProc) (s : CapSlot) :
    t.poner p i s q j = if q = p ∧ j = i then s else t q j := by
  by_cases hq : q = p
  · subst hq
    by_cases hj : j = i
    · rw [if_pos ⟨rfl, hj⟩, hj, Tablas.poner, Function.update_self, Function.update_self]
    · rw [if_neg fun h ↦ hj h.2, Tablas.poner, Function.update_self, Function.update_of_ne hj]
  · rw [if_neg fun h ↦ hq h.1, Tablas.poner, Function.update_of_ne hq]

/-- What `resolve` answers: the slot the handle names, whole. -/
theorem resolve_eq_ok {t : Tablas} {pid : UInt32} {h r : UInt64} {res : Resolved} :
    resolve t pid h r = .ok res ↔ ∃ p i, indicePid pid = some p ∧ (t p i).live = true ∧
      (t p i).kind ≤ handleKindMask ∧ (t p i).generation ≠ 0 ∧
      h = encode (t p i).kind (t p i).generation (UInt64.ofNat i) ∧
      (t p i).rights &&& r = r ∧ res = ⟨(t p i).kind, (t p i).rights, (t p i).object⟩ := by
  simp only [resolve]
  constructor
  · intro hres
    split at hres
    · next hp =>
      split at hres
      · next hi =>
        split at hres
        · cases hres
        · next hs =>
          simp only [not_or, not_not] at hs
          obtain ⟨hl, hg, hk, ht⟩ := hs
          split at hres
          · cases hres
          · next hr =>
            cases hres
            refine ⟨_, ⟨indexDe h, hi.1⟩, dif_pos hp, by simpa using hl, ?_, ?_, ?_, not_not.mp hr, rfl⟩
            · rw [hk]
              exact kindDe_le h
            · rw [hg]
              exact hi.2
            · rw [hk, hg]
              exact (encode_campos ht).symm
      · cases hres
    · cases hres
  · rintro ⟨p, i, hp, hl, hk, hg, rfl, hr, rfl⟩
    simp only [indicePid, Option.dite_none_right_eq_some, Option.some.injEq] at hp
    obtain ⟨hp, rfl⟩ := hp
    obtain ⟨hkind, hgen, hidx, htag⟩ := campos_encode hk (t ⟨pid.toNat, hp⟩ i).generation i
    have hi : indexDe (encode (t ⟨pid.toNat, hp⟩ i).kind (t ⟨pid.toNat, hp⟩ i).generation
        (UInt64.ofNat i)) < slotsPerProc := by
      rw [hidx]
      exact i.isLt
    have he : (⟨_, hi⟩ : Fin slotsPerProc) = i := Fin.ext hidx
    rw [dif_pos hp, dif_pos ⟨hi, by rw [hgen]; exact hg⟩, he, hkind, hgen, htag]
    rw [if_neg (by simp [hl]), if_neg (not_not.mpr hr)]

/-- What a grant does, when it succeeds. -/
theorem grant_eq_some {t t' : Tablas} {pid : UInt32} {kind : UInt8} {rights object h : UInt64}
    (hg : grant t pid kind rights object = (some h, t')) :
    ∃ p i, indicePid pid = some p ∧ primeraLibre (t p) = some i ∧
      h = encode kind (siguiente (t p i).generation) (UInt64.ofNat i) ∧
      t' = t.poner p i ⟨kind, true, siguiente (t p i).generation, rights, object⟩ := by
  simp only [grant] at hg
  split at hg
  · next hp =>
    split at hg
    · cases hg
    · next i hi =>
      cases hg
      exact ⟨⟨pid.toNat, hp⟩, i, dif_pos hp, hi, rfl, rfl⟩
  · cases hg

/-- A grant that fails changes nothing. -/
theorem grant_eq_none {t t' : Tablas} {pid : UInt32} {kind : UInt8} {rights object : UInt64}
    (hg : grant t pid kind rights object = (none, t')) : t' = t := by
  simp only [grant] at hg
  split at hg
  · split at hg
    · cases hg
      rfl
    · cases hg
  · cases hg
    rfl

theorem live_primeraLibre {t : Fin slotsPerProc → CapSlot} {i : Fin slotsPerProc}
    (h : primeraLibre t = some i) : (t i).live = false := by
  have := List.find?_some h
  simpa using this

/-- What a revocation does, when it succeeds. -/
theorem revoke_eq_true {t t' : Tablas} {pid : UInt32} {h : UInt64}
    (hr : revoke t pid h = (true, t')) :
    ∃ p i, indicePid pid = some p ∧ (t p i).live = true ∧
      (t p i).generation = generationDe h ∧ indexDe h = i ∧ t' = t.poner p i (t p i).soltar := by
  simp only [revoke] at hr
  split at hr
  · next hp =>
    split at hr
    · next hi =>
      split at hr
      · cases hr
      · next hs =>
        cases hr
        obtain ⟨hl, hg⟩ := not_or.mp hs
        exact ⟨_, ⟨indexDe h, hi.1⟩, dif_pos hp, by simpa using hl, not_not.mp hg, rfl, rfl⟩
    · cases hr
  · cases hr

/-- A live slot is revoked by its handle, whatever the kind the handle says. -/
theorem revoke_encode {t : Tablas} {pid : UInt32} {p : Fin maxProcs} {i : Fin slotsPerProc}
    {kind : UInt8} (hp : indicePid pid = some p) (hk : kind ≤ handleKindMask)
    (hl : (t p i).live = true) (hg : (t p i).generation ≠ 0) :
    revoke t pid (encode kind (t p i).generation (UInt64.ofNat i)) =
      (true, t.poner p i (t p i).soltar) := by
  simp only [indicePid, Option.dite_none_right_eq_some, Option.some.injEq] at hp
  obtain ⟨hp, rfl⟩ := hp
  obtain ⟨-, hgen, hidx, -⟩ := campos_encode hk (t ⟨pid.toNat, hp⟩ i).generation i
  have hi : indexDe (encode kind (t ⟨pid.toNat, hp⟩ i).generation (UInt64.ofNat i)) <
      slotsPerProc := by
    rw [hidx]
    exact i.isLt
  have he : (⟨_, hi⟩ : Fin slotsPerProc) = i := Fin.ext hidx
  rw [revoke, dif_pos hp, dif_pos ⟨hi, by rw [hgen]; exact hg⟩, he, hgen]
  exact if_neg (by simp [hl])

/-- A revocation that fails changes nothing. -/
theorem revoke_eq_false {t t' : Tablas} {pid : UInt32} {h : UInt64}
    (hr : revoke t pid h = (false, t')) : t' = t := by
  simp only [revoke] at hr
  split at hr
  · split at hr
    · split at hr
      · cases hr
        rfl
      · cases hr
    · cases hr
      rfl
  · cases hr
    rfl

/-- What dropping every capability of a process does. -/
theorem revokeAllSlots_apply (t : Tablas) (pid : UInt32) (q : Fin maxProcs)
    (j : Fin slotsPerProc) :
    revokeAllSlots t pid q j = if indicePid pid = some q then (t q j).soltar else t q j := by
  simp only [revokeAllSlots, indicePid]
  split
  · next hp =>
    by_cases hq : q = ⟨pid.toNat, hp⟩
    · subst hq
      rw [if_pos rfl, Function.update_self]
    · rw [if_neg fun h ↦ hq (Option.some.inj h).symm, Function.update_of_ne hq]
  · rfl

end BmoX.Obj.Cap
