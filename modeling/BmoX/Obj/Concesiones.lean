import BmoX.Obj.Cap
import Mathlib.Data.List.Pairwise

/-!
# Capability handles over whole runs

Runs of `grant`, `revoke` and `revoke_all_slots` of `kernel/src/ring0/obj/cap.rs`, with a
ledger beside the tables: every grant ever made and the ones not revoked since. A slot keeps
16 bits of generation, so a run keeps old handles dead only while no generation wraps; and
`revoke` looks at slot and generation alone, so a run keeps the others alive only while no
value that was never granted is given to it in the place of a handle.
-/

namespace BmoX.Obj.Cap

open BmoX.Base

/-- A grant that was made: to whom, under which handle, of what. -/
structure Concesion where
  pid : UInt32
  handle : UInt64
  kind : UInt8
  rights : UInt64
  object : UInt64
  deriving DecidableEq

/-- A call to the engine that changes its tables. -/
inductive Orden
  | grant (pid : UInt32) (kind : UInt8) (rights object : UInt64)
  | revoke (pid : UInt32) (handle : UInt64)
  | revokeAll (pid : UInt32)

/-- The tables, with every grant made so far and the ones not revoked since, newest first. -/
structure Traza where
  tablas : Tablas
  dadas : List Concesion
  vigentes : List Concesion

namespace Traza

/-- Before any call. -/
def inicial : Traza := ⟨Cap.inicial, [], []⟩

/-- One call. A revocation takes from the ledger the handle it was given, whatever it answers. -/
def paso (s : Traza) : Orden → Traza
  | .grant pid kind rights object =>
    match Cap.grant s.tablas pid kind rights object with
    | (some h, t) =>
      ⟨t, ⟨pid, h, kind, rights, object⟩ :: s.dadas, ⟨pid, h, kind, rights, object⟩ :: s.vigentes⟩
    | (none, t) => { s with tablas := t }
  | .revoke pid handle =>
    ⟨(Cap.revoke s.tablas pid handle).2, s.dadas,
      s.vigentes.filter fun c ↦ ¬ (c.pid = pid ∧ c.handle = handle)⟩
  | .revokeAll pid =>
    ⟨revokeAllSlots s.tablas pid, s.dadas, s.vigentes.filter fun c ↦ c.pid ≠ pid⟩

end Traza

/-- The states a run of calls reaches, every call meeting `C` where it is made. -/
inductive Recorrido (C : Tablas → Orden → Prop) : Traza → Prop
  | inicial : Recorrido C .inicial
  | paso {s : Traza} (o : Orden) (h : Recorrido C s) (hc : C s.tablas o) : Recorrido C (s.paso o)

/-- A kind that fits its field, as the source checks of every kind at compile time, granted in
a slot whose generation does not wrap; a revocation that, where it names a live slot in its
generation, names it by its whole handle, kind and tag too. -/
def EnRegla (t : Tablas) : Orden → Prop
  | .grant pid kind _ _ => kind ≤ handleKindMask ∧
      ∀ p i, indicePid pid = some p → primeraLibre (t p) = some i → (t p i).generation ≠ 0xFFFF
  | .revoke pid handle => ∀ p i, indicePid pid = some p → indexDe handle = (i : Fin slotsPerProc) →
      (t p i).live = true → (t p i).generation = generationDe handle →
      handle = encode (t p i).kind (generationDe handle) (UInt64.ofNat i)
  | .revokeAll _ => True

/-- What the tables and the ledger say of each other. -/
structure Inv (t : Tablas) (dadas vigentes : List Concesion) : Prop where
  viva : ∀ p i, (t p i).live = true →
    (t p i).kind ≤ handleKindMask ∧ (t p i).generation ≠ 0 ∧
    ∃ c ∈ vigentes, indicePid c.pid = some p ∧
      c.handle = encode (t p i).kind (t p i).generation (UInt64.ofNat i) ∧
      c.kind = (t p i).kind ∧ c.rights = (t p i).rights ∧
      c.object = (t p i).object
  vigente : ∀ c ∈ vigentes, ∃ p i, indicePid c.pid = some p ∧ c.kind ≤ handleKindMask ∧
    t p i = ⟨c.kind, true, generationDe c.handle, c.rights, c.object⟩ ∧
    c.handle = encode c.kind (generationDe c.handle) (UInt64.ofNat i)
  dada : ∀ c ∈ dadas, ∃ p i, indicePid c.pid = some p ∧ indexDe c.handle = (i : Fin slotsPerProc) ∧
    generationDe c.handle ≠ 0 ∧ generationDe c.handle ≤ (t p i).generation
  sub : vigentes.Sublist dadas
  unicas : dadas.Pairwise fun c c' ↦ c.pid = c'.pid → c.handle ≠ c'.handle

private theorem inv_inicial : Inv Cap.inicial [] [] where
  viva p i h := by cases h
  vigente c h := by cases h
  dada c h := by cases h
  sub := .slnil
  unicas := .nil

/-! ### One call -/

private theorem siguiente_of_ne {g : UInt16} (h : g ≠ 0xFFFF) :
    (siguiente g).toNat = g.toNat + 1 := by
  have hg := g.toNat_lt
  have hne : g.toNat ≠ 65535 := fun h' ↦ h (UInt16.toNat_inj.mp h')
  have hadd : (g + 1).toNat = g.toNat + 1 := by
    rw [UInt16.toNat_add, UInt16.toNat_one, Nat.mod_eq_of_lt (by omega)]
  rw [siguiente, if_neg, hadd]
  intro h0
  rw [h0] at hadd
  cases hadd

private theorem inv_grant {s : Traza} {pid : UInt32} {kind : UInt8} {rights object h : UInt64}
    {t : Tablas} (hs : Inv s.tablas s.dadas s.vigentes)
    (hc : EnRegla s.tablas (.grant pid kind rights object))
    (hg : Cap.grant s.tablas pid kind rights object = (some h, t)) :
    Inv t (⟨pid, h, kind, rights, object⟩ :: s.dadas)
      (⟨pid, h, kind, rights, object⟩ :: s.vigentes) := by
  obtain ⟨p, i, hp, hlibre, rfl, rfl⟩ := grant_eq_some hg
  obtain ⟨hkind, hvuelta⟩ := hc
  have hsig := siguiente_of_ne (hvuelta p i hp hlibre)
  have hmuerta := live_primeraLibre hlibre
  obtain ⟨-, hgen, hidx, -⟩ := campos_encode hkind (siguiente (s.tablas p i).generation) i
  have hne : siguiente (s.tablas p i).generation ≠ 0 := by
    intro h0
    rw [h0] at hsig
    cases hsig
  refine ⟨?_, ?_, ?_, hs.sub.cons_cons _, List.pairwise_cons.mpr ⟨?_, hs.unicas⟩⟩
  · intro q j hl
    simp only [poner_apply] at hl ⊢
    split at hl
    · next hqj =>
      obtain ⟨rfl, rfl⟩ := hqj
      simp only [and_self, if_true]
      exact ⟨hkind, hne, _, List.mem_cons_self, hp, rfl, rfl, rfl, rfl⟩
    · next hqj =>
      simp only [if_neg hqj]
      obtain ⟨hk, hg0, c, hc, hrest⟩ := hs.viva q j hl
      exact ⟨hk, hg0, c, List.mem_cons_of_mem _ hc, hrest⟩
  · intro c hc
    rcases List.mem_cons.mp hc with rfl | hc
    · refine ⟨p, i, hp, hkind, ?_, ?_⟩
      · rw [poner_apply, if_pos ⟨rfl, rfl⟩, hgen]
      · rw [hgen]
    · obtain ⟨q, j, hq, hk, hslot, hh⟩ := hs.vigente c hc
      refine ⟨q, j, hq, hk, ?_, hh⟩
      rw [poner_apply, if_neg, hslot]
      rintro ⟨rfl, rfl⟩
      rw [hslot] at hmuerta
      cases hmuerta
  · intro c hc
    rcases List.mem_cons.mp hc with rfl | hc
    · refine ⟨p, i, hp, hidx, by rw [hgen]; exact hne, ?_⟩
      rw [hgen, poner_apply, if_pos ⟨rfl, rfl⟩]
      exact UInt16.le_refl _
    · obtain ⟨q, j, hq, hj, hg0, hle⟩ := hs.dada c hc
      refine ⟨q, j, hq, hj, hg0, ?_⟩
      rw [poner_apply]
      split
      · next hqj =>
        obtain ⟨rfl, rfl⟩ := hqj
        rw [UInt16.le_iff_toNat_le] at hle ⊢
        simp only
        omega
      · exact hle
  · intro c hc hpid hh
    -- an old grant of this slot has a generation the slot had already reached
    obtain ⟨q, j, hq, hj, -, hle⟩ := hs.dada c hc
    simp only at hpid hh
    rw [← hpid, hp] at hq
    cases hq
    rw [← hh, hidx] at hj
    cases Fin.ext hj
    rw [← hh, hgen, UInt16.le_iff_toNat_le] at hle
    omega

private theorem inv_revoke {s : Traza} {pid : UInt32} {handle : UInt64} {t : Tablas}
    (hs : Inv s.tablas s.dadas s.vigentes) (hc : EnRegla s.tablas (.revoke pid handle))
    (hr : Cap.revoke s.tablas pid handle = (true, t)) :
    Inv t s.dadas (s.vigentes.filter fun c ↦ ¬ (c.pid = pid ∧ c.handle = handle)) := by
  obtain ⟨p, i, hp, hl, hgen, hidx, rfl⟩ := revoke_eq_true hr
  have hentero := hc p i hp hidx hl hgen
  refine ⟨?_, ?_, ?_, List.filter_sublist.trans hs.sub, hs.unicas⟩
  · intro q j hlq
    simp only [poner_apply] at hlq ⊢
    split at hlq
    · cases hlq
    · next hqj =>
      simp only [if_neg hqj]
      obtain ⟨hk, hg0, c, hc, hcp, hch, hrest⟩ := hs.viva q j hlq
      refine ⟨hk, hg0, c, List.mem_filter.mpr ⟨hc, ?_⟩, hcp, hch, hrest⟩
      rw [decide_eq_true_eq]
      rintro ⟨rfl, rfl⟩
      rw [hp] at hcp
      cases hcp
      rw [hch, (campos_encode hk _ j).2.2.1] at hidx
      exact hqj ⟨rfl, Fin.ext hidx⟩
  · intro c hc
    obtain ⟨hc, hno⟩ := List.mem_filter.mp hc
    obtain ⟨q, j, hq, hk, hslot, hh⟩ := hs.vigente c hc
    refine ⟨q, j, hq, hk, ?_, hh⟩
    rw [poner_apply, if_neg, hslot]
    rintro ⟨rfl, rfl⟩
    -- the slot revoked is that of `c`, so the handle given is the one of `c`
    rw [hslot] at hgen hentero
    rw [decide_eq_true_eq] at hno
    refine hno ⟨indicePid_inj hq hp, ?_⟩
    rw [hh, hentero, ← hgen]
  · intro c hc
    obtain ⟨q, j, hq, hj, hg0, hle⟩ := hs.dada c hc
    refine ⟨q, j, hq, hj, hg0, ?_⟩
    rw [poner_apply]
    split
    · next hqj =>
      obtain ⟨rfl, rfl⟩ := hqj
      exact hle
    · exact hle

private theorem vigentes_of_revoke_false {s : Traza} {pid : UInt32} {handle : UInt64} {t : Tablas}
    (hs : Inv s.tablas s.dadas s.vigentes) (hr : Cap.revoke s.tablas pid handle = (false, t)) :
    s.vigentes.filter (fun c ↦ ¬ (c.pid = pid ∧ c.handle = handle)) = s.vigentes := by
  rw [List.filter_eq_self]
  intro c hc
  rw [decide_eq_true_eq]
  rintro ⟨rfl, rfl⟩
  obtain ⟨p, i, hp, hk, hslot, hh⟩ := hs.vigente c hc
  obtain ⟨-, -, -, -, hg0, -⟩ := hs.dada c (hs.sub.subset hc)
  have hgen : (s.tablas p i).generation = generationDe c.handle := by rw [hslot]
  have hrevoke := revoke_encode (t := s.tablas) hp hk (by rw [hslot]) (by rw [hgen]; exact hg0)
  rw [hgen, ← hh, hr] at hrevoke
  cases hrevoke

private theorem inv_revokeAll {s : Traza} (hs : Inv s.tablas s.dadas s.vigentes)
    (pid : UInt32) :
    Inv (revokeAllSlots s.tablas pid) s.dadas (s.vigentes.filter fun c ↦ c.pid ≠ pid) := by
  refine ⟨?_, ?_, ?_, List.filter_sublist.trans hs.sub, hs.unicas⟩
  · intro q j hlq
    simp only [revokeAllSlots_apply] at hlq ⊢
    split at hlq
    · cases hlq
    · next hq =>
      simp only [if_neg hq]
      obtain ⟨hk, hg0, c, hc, hcp, hrest⟩ := hs.viva q j hlq
      refine ⟨hk, hg0, c, List.mem_filter.mpr ⟨hc, ?_⟩, hcp, hrest⟩
      rw [decide_eq_true_eq]
      rintro rfl
      exact hq hcp
  · intro c hc
    obtain ⟨hc, hno⟩ := List.mem_filter.mp hc
    obtain ⟨q, j, hq, hk, hslot, hh⟩ := hs.vigente c hc
    refine ⟨q, j, hq, hk, ?_, hh⟩
    rw [decide_eq_true_eq] at hno
    rw [revokeAllSlots_apply, if_neg fun h ↦ hno (indicePid_inj hq h), hslot]
  · intro c hc
    obtain ⟨q, j, hq, hj, hg0, hle⟩ := hs.dada c hc
    refine ⟨q, j, hq, hj, hg0, ?_⟩
    rw [revokeAllSlots_apply]
    split
    · exact hle
    · exact hle

/-- Tables and ledger in step. -/
def Traza.EnOrden (s : Traza) : Prop := Inv s.tablas s.dadas s.vigentes

/-- A call by the rules keeps tables and ledger in step. -/
theorem Traza.EnOrden.paso {s : Traza} {o : Orden} (hs : s.EnOrden) (hc : EnRegla s.tablas o) :
    (s.paso o).EnOrden := by
  cases o with
  | grant pid kind rights object =>
    simp only [Traza.paso]
    split
    · next h t hg => exact inv_grant hs hc hg
    · next t hg =>
      rw [grant_eq_none hg]
      exact hs
  | revoke pid handle =>
    rw [Traza.EnOrden, Traza.paso]
    rcases hr : Cap.revoke s.tablas pid handle with ⟨_ | _, t⟩
    · rw [vigentes_of_revoke_false hs hr, revoke_eq_false hr]
      exact hs
    · exact inv_revoke hs hc hr
  | revokeAll pid => exact inv_revokeAll hs pid

theorem Recorrido.enOrden {s : Traza} (h : Recorrido EnRegla s) : s.EnOrden := by
  induction h with
  | inicial => exact inv_inicial
  | paso o _ hc ih => exact ih.paso hc

/-! ### Whole runs -/

/-- In a run by the rules a handle resolves exactly while a grant of it to that process
stands, as that grant, and for the rights of that grant; no two standing grants share a handle,
and no revoked one resolves again. -/
theorem handles_nunca_caducos {s : Traza} (hrun : Recorrido EnRegla s) :
    (∀ pid h r res, resolve s.tablas pid h r = .ok res ↔
      ∃ c ∈ s.vigentes, c.pid = pid ∧ c.handle = h ∧ c.rights &&& r = r ∧
        res = ⟨c.kind, c.rights, c.object⟩) ∧
    (s.vigentes.Pairwise fun c c' ↦ c.pid = c'.pid → c.handle ≠ c'.handle) ∧
    (∀ c ∈ s.dadas, c ∉ s.vigentes → ∀ r res, resolve s.tablas c.pid c.handle r ≠ .ok res) := by
  have hs := hrun.enOrden
  have hres : ∀ pid h r res, resolve s.tablas pid h r = .ok res ↔
      ∃ c ∈ s.vigentes, c.pid = pid ∧ c.handle = h ∧ c.rights &&& r = r ∧
        res = ⟨c.kind, c.rights, c.object⟩ := by
    intro pid h r res
    rw [resolve_eq_ok]
    constructor
    · rintro ⟨p, i, hp, hl, -, -, rfl, hr, rfl⟩
      obtain ⟨-, -, c, hc, hcp, hch, hck, hcr, hco⟩ := hs.viva p i hl
      exact ⟨c, hc, indicePid_inj hcp hp, hch, by rw [hcr]; exact hr, by rw [hck, hcr, hco]⟩
    · rintro ⟨c, hc, rfl, rfl, hr, rfl⟩
      obtain ⟨p, i, hp, hk, hslot, hh⟩ := hs.vigente c hc
      obtain ⟨-, -, -, -, hg0, -⟩ := hs.dada c (hs.sub.subset hc)
      refine ⟨p, i, hp, ?_⟩
      rw [hslot]
      exact ⟨rfl, hk, hg0, hh, hr, rfl⟩
  refine ⟨hres, hs.unicas.sublist hs.sub, ?_⟩
  intro c hc hno r res hok
  obtain ⟨c', hc', hpid, hh, -⟩ := (hres _ _ _ _).mp hok
  have hsim : Std.Symm fun c c' : Concesion ↦ c.pid = c'.pid → c.handle ≠ c'.handle :=
    ⟨fun x y hxy hp hh ↦ hxy hp.symm hh.symm⟩
  have hne : c' ≠ c := fun h ↦ hno (h ▸ hc')
  exact hs.unicas.forall (hs.sub.subset hc') hc hne hpid hh

/-- A channel granted and taken back, and a reply granted after it in the same slot. -/
def reuso : Traza :=
  ((Traza.inicial.paso (.grant 0 kindChannel 3 5)).paso (.revoke 0 (encode kindChannel 1 0))).paso
    (.grant 0 kindReply 2 7)

private theorem recorrido_reuso : Recorrido EnRegla reuso := by
  have hgrant : EnRegla Cap.inicial (.grant 0 kindChannel 3 5) :=
    ⟨by decide, fun p i _ _ h ↦ absurd (show (0 : UInt16) = 0xFFFF from h) (by decide)⟩
  refine .paso _ (.paso _ (.paso _ .inicial hgrant) ?_) ⟨by decide, ?_⟩
  · rintro p i hp hi - -
    cases hp
    have h0 : (0 : Fin slotsPerProc) = i := Fin.ext hi
    cases h0
    decide
  · intro p i hp hi
    cases hp
    cases hi
    decide

/-- In a slot given back and granted again the new handle resolves as it was granted, and the
old one no more. -/
theorem hueco_reusado :
    resolve reuso.tablas 0 (encode kindReply 2 0) 2 = .ok ⟨kindReply, 2, 7⟩ ∧
    ∀ r res, resolve reuso.tablas 0 (encode kindChannel 1 0) r ≠ .ok res := by
  obtain ⟨hresuelve, -, hmuerto⟩ := handles_nunca_caducos recorrido_reuso
  constructor
  · exact (hresuelve _ _ _ _).mpr ⟨⟨0, encode kindReply 2 0, kindReply, 2, 7⟩, by decide, rfl, rfl,
      by decide, rfl⟩
  · exact hmuerto ⟨0, encode kindChannel 1 0, kindChannel, 3, 5⟩ (by decide) (by decide)

/-- Grants of kinds that fit their field, as the source checks of all of them. -/
def KindCabe (_ : Tablas) : Orden → Prop
  | .grant _ kind _ _ => kind ≤ handleKindMask
  | _ => True

/-- Tables with nothing but an old generation in the first slot. -/
def sola (g : UInt16) : Tablas := inicial.poner 0 0 ⟨0, false, g, 0, 0⟩

private theorem grant_sola (g : UInt16) (o : UInt64) :
    grant (sola g) 0 kindReply 2 o =
      (some (encode kindReply (siguiente g) 0), inicial.poner 0 0 ⟨kindReply, true, siguiente g, 2, o⟩) := by
  have hp : (sola g).poner 0 0 ⟨kindReply, true, siguiente g, 2, o⟩ =
      inicial.poner 0 0 ⟨kindReply, true, siguiente g, 2, o⟩ := by
    rw [sola, Tablas.poner, Tablas.poner, Tablas.poner, Function.update_idem,
      Function.update_self, Function.update_idem]
  rw [← hp]
  rfl

private theorem reply_cabe : kindReply ≤ handleKindMask := by decide

private theorem revoke_una (g : UInt16) (hg : g ≠ 0) (o : UInt64) :
    revoke (inicial.poner 0 0 ⟨kindReply, true, g, 2, o⟩) 0 (encode kindReply g 0) = (true, sola g) := by
  have h := @revoke_encode (inicial.poner 0 0 ⟨kindReply, true, g, 2, o⟩) 0 0 0 kindReply rfl (by decide)
  rw [poner_apply, if_pos ⟨rfl, rfl⟩] at h
  refine (h rfl hg).trans ?_
  rw [sola, Tablas.poner, Tablas.poner, Tablas.poner, Function.update_idem, Function.update_self,
    Function.update_idem]
  rfl

/-- Grant the first slot of the first process and take it back. -/
private def vuelta (s : Traza) (g : UInt16) : Traza :=
  (s.paso (.grant 0 kindReply 2 7)).paso (.revoke 0 (encode kindReply (siguiente g) 0))

private theorem vuelta_eq {s : Traza} {g : UInt16} (ht : s.tablas = sola g)
    (hv : s.vigentes = []) :
    vuelta s g = ⟨sola (siguiente g), ⟨0, encode kindReply (siguiente g) 0, kindReply, 2, 7⟩ :: s.dadas, []⟩ := by
  have hg : s.paso (.grant 0 kindReply 2 7) = ⟨inicial.poner 0 0 ⟨kindReply, true, siguiente g, 2, 7⟩,
      ⟨0, encode kindReply (siguiente g) 0, kindReply, 2, 7⟩ :: s.dadas,
      [⟨0, encode kindReply (siguiente g) 0, kindReply, 2, 7⟩]⟩ := by
    rw [Traza.paso, ht, grant_sola, hv]
  rw [vuelta, hg, Traza.paso, revoke_una _ (siguiente_ne_zero g)]
  simp

/-- After `n` grants taken back, the first slot is in its `n`-th generation and the first
handle is among those given. -/
private theorem tras_vueltas (n : Nat) (hn : n < 65536) :
    ∃ s, Recorrido KindCabe s ∧ s.tablas = sola (UInt16.ofNat n) ∧ s.vigentes = [] ∧
      (0 < n → ⟨0, encode kindReply 1 0, kindReply, 2, 7⟩ ∈ s.dadas) := by
  induction n with
  | zero =>
    refine ⟨.inicial, .inicial, ?_, rfl, fun h ↦ absurd h (by decide)⟩
    exact (Function.update_eq_self_iff.mpr (Function.update_eq_self_iff.mpr rfl)).symm
  | succ n ih =>
    obtain ⟨s, hs, ht, hv, hd⟩ := ih (by omega)
    have hsig : siguiente (UInt16.ofNat n) = UInt16.ofNat (n + 1) := by
      have hne : UInt16.ofNat n ≠ 0xFFFF := by
        rw [ne_eq, ← UInt16.toNat_inj, UInt16.toNat_ofNat', Nat.mod_eq_of_lt (by omega)]
        exact Nat.ne_of_lt (by simp; omega)
      rw [← UInt16.toNat_inj, siguiente_of_ne hne, UInt16.toNat_ofNat', UInt16.toNat_ofNat',
        Nat.mod_eq_of_lt (by omega), Nat.mod_eq_of_lt (by omega)]
    have hvuelta := vuelta_eq ht hv
    rw [hsig] at hvuelta
    refine ⟨vuelta s (UInt16.ofNat n), (hs.paso (.grant 0 kindReply 2 7) reply_cabe).paso _ trivial, ?_, ?_, fun _ ↦ ?_⟩
    · rw [hvuelta]
    · rw [hvuelta]
    · rw [hvuelta]
      cases n with
      | zero => exact List.mem_cons_self
      | succ n => exact List.mem_cons_of_mem _ (hd (Nat.succ_pos n))

/-- A handle taken back resolves again, to another object, once its slot has been reused
65535 times. -/
theorem handle_revocado_vuelve :
    ¬ ∀ s, Recorrido KindCabe s → ∀ c ∈ s.dadas, c ∉ s.vigentes →
      ∀ r res, resolve s.tablas c.pid c.handle r ≠ .ok res := by
  intro h
  obtain ⟨s, hs, ht, hv, hd⟩ := tras_vueltas 65535 (by decide)
  have hg : s.paso (.grant 0 kindReply 2 9) = ⟨inicial.poner 0 0 ⟨kindReply, true, 1, 2, 9⟩,
      ⟨0, encode kindReply 1 0, kindReply, 2, 9⟩ :: s.dadas, [⟨0, encode kindReply 1 0, kindReply, 2, 9⟩]⟩ := by
    rw [Traza.paso, ht, grant_sola, hv]
    rfl
  have hno := h _ (hs.paso (.grant 0 kindReply 2 9) reply_cabe) ⟨0, encode kindReply 1 0, kindReply, 2, 7⟩
    (by rw [hg]; exact List.mem_cons_of_mem _ (hd (by decide))) (by rw [hg]; simp) 2 ⟨kindReply, 2, 9⟩
  rw [hg] at hno
  have hslot : inicial.poner 0 0 ⟨kindReply, true, 1, 2, 9⟩ 0 0 = ⟨kindReply, true, 1, 2, 9⟩ := by
    rw [poner_apply, if_pos ⟨rfl, rfl⟩]
  refine hno (resolve_eq_ok.mpr ⟨0, 0, rfl, ?_⟩)
  simp only [hslot]
  decide

/-- A handle never given to `revoke` stops resolving, once a value that differs from it in its
kind alone is. -/
theorem handle_vigente_cae :
    ¬ ∀ s, Recorrido KindCabe s → ∀ c ∈ s.vigentes,
      ∃ res, resolve s.tablas c.pid c.handle c.rights = .ok res := by
  intro h
  have hrun : Recorrido KindCabe ((Traza.inicial.paso (.grant 0 kindChannel 3 5)).paso
      (.revoke 0 (encode kindReply 1 0))) :=
    .paso _ (.paso _ .inicial (show kindChannel ≤ handleKindMask by decide)) trivial
  obtain ⟨res, hres⟩ := h _ hrun ⟨0, encode kindChannel 1 0, kindChannel, 3, 5⟩ (by decide)
  obtain ⟨p, i, hp, hl, -⟩ := resolve_eq_ok.mp hres
  cases hp
  have hmuertas : ∀ i, (((Traza.inicial.paso (.grant 0 kindChannel 3 5)).paso
      (.revoke 0 (encode kindReply 1 0))).tablas 0 i).live = false := by decide
  exact Bool.false_ne_true ((hmuertas i).symm.trans hl)

end BmoX.Obj.Cap
