import BmoX.Mm.Fisica

/-!
# No frame is handed out twice

What the allocator of `kernel/src/ring0/mm/phys/roja.rs` keeps true over whole runs: the count of
free frames, which frames are out, and which ones the boot reserved. One bit cannot tell a frame
that is out from one that was reserved, so what `free_frame` is called with matters.
-/

namespace BmoX.Mm

open BmoX.Base

/-! ### Requests -/

/-- The frames of `n` pages from `phys` on. -/
def tramo (phys : UInt64) (n : Nat) : List (Fin marcos) :=
  (List.range' (phys / page).toNat n).map (Fin.ofNat marcos)

/-- The allocator with the frames that are out. -/
structure Reparto where
  fisica : Fisica
  entregados : List (Fin marcos)

/-- The requests to the allocator. -/
inductive Peticion
  | allocFrame
  | allocFramesContig (count : UInt64)
  | freeFrame (phys : UInt64)

namespace Reparto

/-- After the boot nothing is out. -/
def inicial (a : Arranque) : Reparto := ⟨a.init .inicial, []⟩

/-- One request: what comes back is out, and what is freed no longer is. -/
def paso (s : Reparto) : Peticion → Reparto
  | .allocFrame =>
    let r := s.fisica.allocFrame
    ⟨r.2, (r.1.elim [] fun phys ↦ tramo phys 1) ++ s.entregados⟩
  | .allocFramesContig count =>
    let r := s.fisica.allocFramesContig count
    ⟨r.2, (r.1.elim [] fun phys ↦ tramo phys count.toNat) ++ s.entregados⟩
  | .freeFrame phys =>
    ⟨s.fisica.freeFrame phys, (indice phys).elim s.entregados fun f ↦ s.entregados.erase f⟩

end Reparto

/-- A run of `n` free frames; it has at least one. -/
def Fisica.Racha (s : Fisica) (n : Nat) : Prop :=
  0 < n ∧ ∃ b, b + n ≤ marcos ∧ ∀ f, b ≤ f → f < b + n → s.bitmap.get f = false

/-- The frame lies whole in a usable entry of the boot map. -/
def Arranque.Ram (a : Arranque) (f : Fin marcos) : Prop :=
  ∃ e ∈ a.memoryMap, e.kind = 1 ∧ e.base.toNat ≤ f * 4096 ∧
    (f + 1) * 4096 ≤ e.base.toNat + e.size.toNat

/-- The range has a byte of the frame. -/
def Pisa (r : UInt64 × UInt64) (f : Fin marcos) : Prop :=
  ∃ x, r.1.toNat ≤ x ∧ x < r.1.toNat + r.2.toNat ∧ x / 4096 = f

/-- What must not be handed out: what is not memory, and what the boot has a use for (low memory,
the kernel image with the bitmap in it, and the rest of `reservas`). -/
def Arranque.Vedado (a : Arranque) (f : Fin marcos) : Prop :=
  ¬ a.Ram f ∨ ∃ r ∈ a.reservas, Pisa r f

/-- The bit of the frame is set when `init` ends. -/
def Arranque.Reservado (a : Arranque) (f : Fin marcos) : Prop :=
  (a.init .inicial).bitmap.get f = true

/-- No usable entry starts in the last page of the address space, and no reserved range that starts
in the physmap runs past the end of it. -/
structure Arranque.Sano (a : Arranque) : Prop where
  usables : ∀ e ∈ a.memoryMap, e.kind = 1 → e.base.toNat + 4095 < 2 ^ 64
  reservas : ∀ r ∈ a.reservas, r.1 < maxPhys → r.1.toNat + r.2.toNat + 4095 < 2 ^ 64

/-- No reserved frame is freed. -/
def Reparto.Limpia (a : Arranque) (_ : Reparto) : Peticion → Prop
  | .freeFrame phys => ∀ f, indice phys = some f → ¬ a.Reservado f
  | _ => True

/-- What the state is to say: the count is right, the frames that are out are all different, and
none of them was reserved by the boot. -/
structure Reparto.Exacto (a : Arranque) (s : Reparto) : Prop where
  freeFrames : s.fisica.freeFrames.toNat = s.fisica.bitmap.zeros
  distintos : s.entregados.Nodup
  reservados : ∀ f ∈ s.entregados, ¬ a.Reservado f
  vedados : ∀ f ∈ s.entregados, ¬ a.Vedado f

/-- What a request is to do: nothing is refused that there is, and what is not out is not freed. -/
def Reparto.Cumple (s : Reparto) : Peticion → Prop
  | .allocFrame => s.fisica.allocFrame.1 = none → ∀ f < marcos, s.fisica.bitmap.get f = true
  | .allocFramesContig count =>
    (s.fisica.allocFramesContig count).1 = none → ¬ s.fisica.Racha count.toNat
  | .freeFrame phys => (∀ f, indice phys = some f → f ∉ s.entregados) →
    s.fisica.freeFrame phys = s.fisica

/-- The runs after a boot in which every request satisfies `C`. -/
inductive Reparte (a : Arranque) (C : Reparto → Peticion → Prop) : Reparto → Prop
  | inicial : Reparte a C (.inicial a)
  | paso {s : Reparto} (o : Peticion) (h : Reparte a C s) (hc : C s o) : Reparte a C (s.paso o)

/-! ### Addresses -/

private theorem toNat_marco {f : Nat} (hf : f < marcos) : (marco f).toNat = f * 4096 := by
  have hm : marcos = 4194304 := rfl
  have hpage : page.toNat = 4096 := rfl
  rw [marco, UInt64.toNat_mul, UInt64.toNat_ofNat', hpage, Nat.mod_eq_of_lt (by omega),
    Nat.mod_eq_of_lt (by omega)]

private theorem toNat_div_page (phys : UInt64) : (phys / page).toNat = phys.toNat / 4096 :=
  UInt64.toNat_div ..

private theorem toNat_alinea (a : UInt64) : (alinea a).toNat = a.toNat / 4096 * 4096 :=
  toNat_and_not_mask a (w := 12) rfl

private theorem mem_tramo {f n : Nat} (hf : f + n ≤ marcos) (hn : 0 < n) (g : Fin marcos) :
    g ∈ tramo (marco f) n ↔ f ≤ g ∧ g < f + n := by
  have hm : marcos = 4194304 := rfl
  rw [tramo, toNat_div_page, toNat_marco (by omega), Nat.mul_div_cancel f (by decide),
    List.mem_map]
  constructor
  · rintro ⟨k, hk, rfl⟩
    rw [List.mem_range'_1] at hk
    rw [Fin.val_ofNat, Nat.mod_eq_of_lt (by omega)]
    exact hk
  · intro hg
    refine ⟨g, List.mem_range'_1.mpr hg, ?_⟩
    exact Fin.ext (Nat.mod_eq_of_lt g.isLt)

private theorem nodup_tramo {f n : Nat} (hf : f + n ≤ marcos) (hn : 0 < n) :
    (tramo (marco f) n).Nodup := by
  have hm : marcos = 4194304 := rfl
  rw [tramo, toNat_div_page, toNat_marco (by omega), Nat.mul_div_cancel f (by decide)]
  refine (List.nodup_map_iff_inj_on List.nodup_range').mpr fun x hx y hy hxy ↦ ?_
  rw [List.mem_range'_1] at hx hy
  have hval := Fin.val_eq_of_eq hxy
  rw [Fin.val_ofNat, Fin.val_ofNat, Nat.mod_eq_of_lt (by omega),
    Nat.mod_eq_of_lt (by omega)] at hval
  exact hval

/-! ### One bit -/

namespace Fisica

/-- The count of free frames is right. -/
def Cuenta (s : Fisica) : Prop := s.freeFrames.toNat = s.bitmap.zeros

private theorem zeros_le (bm : Bitmap frameSlots) : bm.zeros ≤ marcos := by
  have h := count_le (p := fun b ↦ b = false) fun f : Fin (frameSlots * 64) ↦ bm.get f
  rw [Fintype.card_fin] at h
  exact h

private theorem cuenta_set {s s' : Fisica} (hs : s.Cuenta) {f : Nat} (hf : f < marcos)
    (h : s.bitmap.get f = false) (hbm : s'.bitmap = s.bitmap.set f)
    (hfree : s'.freeFrames = s.freeFrames - 1) : s'.Cuenta := by
  have hz := s.bitmap.zeros_set hf h
  have h1 : (1 : UInt64).toNat = 1 := rfl
  rw [Cuenta] at hs ⊢
  rw [hfree, hbm, UInt64.toNat_sub_of_le _ _ (UInt64.le_iff_toNat_le.mpr (by omega)), h1]
  omega

private theorem cuenta_clear {s s' : Fisica} (hs : s.Cuenta) {f : Nat} (hf : f < marcos)
    (h : s.bitmap.get f = true) (hbm : s'.bitmap = s.bitmap.clear f)
    (hfree : s'.freeFrames = s.freeFrames + 1) : s'.Cuenta := by
  have hz := s.bitmap.zeros_clear hf h
  have h1 : (1 : UInt64).toNat = 1 := rfl
  have hm : marcos = 4194304 := rfl
  have hle := zeros_le s.bitmap
  rw [Cuenta] at hs ⊢
  rw [hfree, hbm, UInt64.toNat_add, h1, Nat.mod_eq_of_lt (by omega)]
  omega

private theorem reserveMarco_spec {s : Fisica} (hs : s.Cuenta) {f : Nat} (hf : f < marcos) :
    (s.reserveMarco f).Cuenta ∧
      ∀ g < marcos, (s.reserveMarco f).bitmap.get g = (s.bitmap.get g || decide (f = g)) := by
  rw [reserveMarco]
  split
  · next h =>
    exact ⟨cuenta_set hs hf ((Bitmap.and_bitMask_word _ _).mp h) rfl rfl,
      fun g hg ↦ Bitmap.get_set _ hf hg⟩
  · next h =>
    rw [Bitmap.and_bitMask_word, Bool.not_eq_false] at h
    refine ⟨hs, fun g _ ↦ ?_⟩
    by_cases hfg : f = g
    · rw [← hfg, h, Bool.true_or]
    · rw [decide_eq_false hfg, Bool.or_false]

/-- A frame that becomes usable is free, and is counted. -/
theorem usaMarco_spec {s : Fisica} (hs : s.Cuenta) {f : Nat} (hf : f < marcos) :
    (s.usaMarco f).Cuenta ∧
      ∀ g < marcos, (s.usaMarco f).bitmap.get g = (s.bitmap.get g && !decide (f = g)) := by
  rw [usaMarco]
  split
  · next h =>
    rw [ne_eq, Bitmap.and_bitMask_word, Bool.not_eq_false] at h
    exact ⟨cuenta_clear hs hf h rfl rfl, fun g hg ↦ Bitmap.get_clear _ hf hg⟩
  · next h =>
    rw [ne_eq, not_not, Bitmap.and_bitMask_word] at h
    refine ⟨hs, fun g _ ↦ ?_⟩
    by_cases hfg : f = g
    · rw [← hfg, h, Bool.false_and]
    · rw [decide_eq_false hfg, Bool.not_false, Bool.and_true]

/-! ### Ranges -/

private theorem foldl_reserveMarco {s : Fisica} (hs : s.Cuenta) {l : List Nat}
    (hl : ∀ f ∈ l, f < marcos) :
    (l.foldl reserveMarco s).Cuenta ∧
      ∀ g < marcos, (l.foldl reserveMarco s).bitmap.get g = (s.bitmap.get g || decide (g ∈ l)) := by
  induction l generalizing s with
  | nil =>
    refine ⟨hs, fun g _ ↦ ?_⟩
    rw [decide_eq_false List.not_mem_nil, Bool.or_false]
    rfl
  | cons f l ih =>
    obtain ⟨hf, hl⟩ := List.forall_mem_cons.mp hl
    obtain ⟨hc, hget⟩ := reserveMarco_spec hs hf
    obtain ⟨hc', hget'⟩ := ih hc hl
    refine ⟨hc', fun g hg ↦ ?_⟩
    rw [List.foldl_cons, hget' g hg, hget g hg, Bool.or_assoc]
    simp only [List.mem_cons, Bool.decide_or, eq_comm]

private theorem foldl_usaMarco {s : Fisica} (hs : s.Cuenta) {l : List Nat}
    (hl : ∀ f ∈ l, f < marcos) :
    (l.foldl usaMarco s).Cuenta ∧
      ∀ g < marcos, (l.foldl usaMarco s).bitmap.get g = (s.bitmap.get g && !decide (g ∈ l)) := by
  induction l generalizing s with
  | nil =>
    refine ⟨hs, fun g _ ↦ ?_⟩
    rw [decide_eq_false List.not_mem_nil, Bool.not_false, Bool.and_true]
    rfl
  | cons f l ih =>
    obtain ⟨hf, hl⟩ := List.forall_mem_cons.mp hl
    obtain ⟨hc, hget⟩ := usaMarco_spec hs hf
    obtain ⟨hc', hget'⟩ := ih hc hl
    refine ⟨hc', fun g hg ↦ ?_⟩
    rw [List.foldl_cons, hget' g hg, hget g hg, Bool.and_assoc]
    simp only [List.mem_cons, Bool.decide_or, Bool.not_or, eq_comm]

private theorem toNat_recorta (x : UInt64) :
    ((if x > maxPhys then maxPhys else x) / page).toNat = min (x.toNat / 4096) 4194304 := by
  have hmax : maxPhys.toNat = 17179869184 := rfl
  rw [toNat_div_page]
  split
  · next hx =>
    have hlt := UInt64.lt_iff_toNat_lt.mp hx
    omega
  · next hx =>
    have hle := UInt64.le_iff_toNat_le.mp (UInt64.not_lt.mp hx)
    omega

private theorem reserveRange_spec {s : Fisica} (hs : s.Cuenta) (base size : UInt64) :
    (s.reserveRange base size).Cuenta ∧
      (∀ g < marcos, s.bitmap.get g = true → (s.reserveRange base size).bitmap.get g = true) ∧
      ((base < maxPhys → base.toNat + size.toNat + 4095 < 2 ^ 64) → ∀ g : Fin marcos,
        Pisa (base, size) g → (s.reserveRange base size).bitmap.get g = true) := by
  have hm : marcos = 4194304 := rfl
  have hmax : maxPhys.toNat = 17179869184 := rfl
  have hpage : page.toNat = 4096 := rfl
  have h1 : (1 : UInt64).toNat = 1 := rfl
  rw [reserveRange]
  split
  · next h =>
    refine ⟨hs, fun _ _ hg ↦ hg, fun _ g hp ↦ ?_⟩
    obtain ⟨x, hle, hlt, hx⟩ := hp
    have hg : (g : Nat) < 4194304 := g.isLt
    rcases h with h | h
    · have hz := congrArg UInt64.toNat h
      have h0 : (0 : UInt64).toNat = 0 := rfl
      dsimp only at hle hlt
      omega
    · have hge := UInt64.le_iff_toNat_le.mp h
      dsimp only at hle
      omega
  · next h =>
    simp only [not_or, ge_iff_le, UInt64.not_le] at h
    have hlt := UInt64.lt_iff_toNat_lt.mp h.2
    obtain ⟨hc, hget⟩ := @foldl_reserveMarco s hs (List.range' (alinea base / page).toNat
      (((if alinea (base + size + page - 1) > maxPhys then maxPhys
        else alinea (base + size + page - 1)) / page).toNat - (alinea base / page).toNat))
      fun f hf ↦ by
        rw [List.mem_range'_1, toNat_recorta] at hf
        omega
    refine ⟨hc, fun g hg hb ↦ ?_, fun hno g hp ↦ ?_⟩
    · rw [hget g hg, hb, Bool.true_or]
    · obtain ⟨x, hle, hlt', hx⟩ := hp
      have hg : (g : Nat) < 4194304 := g.isLt
      have hsum := hno h.2
      have hend : (base + size + page - 1).toNat = base.toNat + size.toNat + 4095 := by
        rw [UInt64.toNat_sub, UInt64.toNat_add, UInt64.toNat_add, hpage, h1]
        omega
      rw [hget g g.isLt, decide_eq_true, Bool.or_true]
      rw [List.mem_range'_1, toNat_recorta, toNat_div_page, toNat_alinea, toNat_alinea, hend]
      dsimp only at hle hlt'
      omega

private theorem usaEntrada_spec {s : Fisica} (hs : s.Cuenta) (e : MemoryEntry) :
    (s.usaEntrada e).Cuenta ∧
      ((e.kind = 1 → e.base.toNat + 4095 < 2 ^ 64) → ∀ g : Fin marcos,
        (s.usaEntrada e).bitmap.get g = false → s.bitmap.get g = true →
          e.kind = 1 ∧ e.base.toNat ≤ g * 4096 ∧ (g + 1) * 4096 ≤ e.base.toNat + e.size.toNat) := by
  have hpage : page.toNat = 4096 := rfl
  have h1 : (1 : UInt64).toNat = 1 := rfl
  rw [usaEntrada]
  split
  · exact ⟨hs, fun _ g hf ht ↦ absurd (hf.symm.trans ht) Bool.false_ne_true⟩
  · next h =>
    dsimp only
    split
    · exact ⟨hs, fun _ g hf ht ↦ absurd (hf.symm.trans ht) Bool.false_ne_true⟩
    · rw [not_or, ne_eq, not_not] at h
      obtain ⟨hc, hget⟩ := @foldl_usaMarco s hs (List.range' (alinea (e.base + page - 1) / page).toNat
        (((if alinea (e.base + e.size) > maxPhys then maxPhys else alinea (e.base + e.size))
          / page).toNat - (alinea (e.base + page - 1) / page).toNat))
        fun f hf ↦ by
          have hm : marcos = 4194304 := rfl
          rw [List.mem_range'_1, toNat_recorta] at hf
          omega
      refine ⟨hc, fun hno g hf ht ↦ ?_⟩
      have hsum := hno h.1
      have hini : (e.base + page - 1).toNat = e.base.toNat + 4095 := by
        rw [UInt64.toNat_sub, UInt64.toNat_add, hpage, h1]
        omega
      have hend : (e.base + e.size).toNat ≤ e.base.toNat + e.size.toNat := by
        rw [UInt64.toNat_add]
        exact Nat.mod_le _ _
      rw [hget g g.isLt, ht, Bool.true_and, Bool.not_eq_false', decide_eq_true_eq,
        List.mem_range'_1, toNat_recorta, toNat_div_page, toNat_alinea, toNat_alinea, hini] at hf
      exact ⟨h.1, by omega, by omega⟩

end Fisica

/-! ### The boot -/

namespace Arranque

private theorem foldl_usaEntrada {a : Arranque} (l : List MemoryEntry) {s : Fisica}
    (hs : s.Cuenta) :
    (l.foldl Fisica.usaEntrada s).Cuenta ∧
      ((∀ e ∈ l, e.kind = 1 → e.base.toNat + 4095 < 2 ^ 64) → (∀ e ∈ l, e ∈ a.memoryMap) →
        (∀ g : Fin marcos, s.bitmap.get g = false → a.Ram g) →
        ∀ g : Fin marcos, (l.foldl Fisica.usaEntrada s).bitmap.get g = false → a.Ram g) := by
  induction l generalizing s with
  | nil => exact ⟨hs, fun _ _ h ↦ h⟩
  | cons e l ih =>
    obtain ⟨hc, hram⟩ := Fisica.usaEntrada_spec hs e
    obtain ⟨hc', hram'⟩ := ih hc
    refine ⟨hc', fun hno hmem h ↦ hram' (fun e he ↦ hno e (.tail _ he))
      (fun e he ↦ hmem e (.tail _ he)) fun g hg ↦ ?_⟩
    cases hb : s.bitmap.get g with
    | false => exact h g hb
    | true => exact ⟨e, hmem e (.head _), hram (hno e (.head _)) g hg hb⟩

private theorem foldl_reserveRange (l : List (UInt64 × UInt64)) {s : Fisica} (hs : s.Cuenta) :
    (l.foldl (fun s r ↦ s.reserveRange r.1 r.2) s).Cuenta ∧
      (∀ g < marcos, s.bitmap.get g = true →
        (l.foldl (fun s r ↦ s.reserveRange r.1 r.2) s).bitmap.get g = true) ∧
      ((∀ r ∈ l, r.1 < maxPhys → r.1.toNat + r.2.toNat + 4095 < 2 ^ 64) →
        ∀ r ∈ l, ∀ g : Fin marcos, Pisa r g →
          (l.foldl (fun s r ↦ s.reserveRange r.1 r.2) s).bitmap.get g = true) := by
  induction l generalizing s with
  | nil => exact ⟨hs, fun _ _ h ↦ h, fun _ _ h ↦ absurd h List.not_mem_nil⟩
  | cons r l ih =>
    obtain ⟨hc, hmono, hpisa⟩ := Fisica.reserveRange_spec hs r.1 r.2
    obtain ⟨hc', hmono', hpisa'⟩ := ih hc
    refine ⟨hc', fun g hg h ↦ hmono' g hg (hmono g hg h), fun hno r' hr' g hg ↦ ?_⟩
    rcases List.mem_cons.mp hr' with rfl | hr'
    · exact hmono' g g.isLt (hpisa (hno r' (.head _)) g hg)
    · exact hpisa' (fun r hr ↦ hno r (.tail _ hr)) r' hr' g hg

theorem get_full {f : Nat} :
    Bitmap.get (fun _ ↦ ~~~0 : Bitmap frameSlots) f = true :=
  (eq_full _).mp rfl _ (Nat.mod_lt f (by decide))

private theorem cuenta_init (a : Arranque) (t : Titulares) : (a.init t).Cuenta := by
  refine (foldl_reserveRange _ (foldl_usaEntrada (a := a) _ ?_).1).1
  exact ((Bitmap.zeros_eq_zero _).mpr fun _ _ ↦ get_full).symm

private theorem reservado_of_vedado {a : Arranque} (ha : a.Sano) {f : Fin marcos} (h : a.Vedado f) :
    a.Reservado f := by
  obtain ⟨hc, hram⟩ := @foldl_usaEntrada a a.memoryMap
    { bitmap := fun _ ↦ ~~~0, totalFrames := 0, freeFrames := 0, hint := 0, titulares := .inicial }
    ((Bitmap.zeros_eq_zero _).mpr fun _ _ ↦ get_full).symm
  obtain ⟨-, hmono, hpisa⟩ := foldl_reserveRange a.reservas hc
  rcases h with h | ⟨r, hr, h⟩
  · refine hmono f f.isLt ?_
    rw [← Bool.not_eq_false]
    exact fun hb ↦ h (hram ha.usables (fun e he ↦ he)
      (fun g hg ↦ absurd (get_full.symm.trans hg) Bool.false_ne_true.symm) f hb)
  · exact hpisa ha.reservas r hr f h

end Arranque

/-! ### The searches -/

namespace Fisica

private theorem buscaPalabra_spec (bm : Bitmap frameSlots) (n : Nat) (i : Fin frameSlots) :
    match buscaPalabra bm n i with
    | some j => bm j ≠ ~~~0
    | none => ∀ k < n, bm (i + Fin.ofNat frameSlots k) = ~~~0 := by
  induction n generalizing i with
  | zero => exact fun k hk ↦ absurd hk (Nat.not_lt_zero k)
  | succ n ih =>
    rw [buscaPalabra]
    by_cases h : bm i ≠ ~~~0
    · rw [if_pos h]
      exact h
    · rw [if_neg h]
      have hrec := ih (i + 1)
      split at hrec
      · exact hrec
      · intro k hk
        cases k with
        | zero =>
          rw [show i + Fin.ofNat frameSlots 0 = i from Fin.add_zero i]
          exact not_not.mp h
        | succ k =>
          have hadd : i + Fin.ofNat frameSlots (k + 1) = i + 1 + Fin.ofNat frameSlots k := by
            rw [Fin.ext_iff]
            show ((i : Nat) + (k + 1) % 65536) % 65536 =
              (((i : Nat) + 1 % 65536) % 65536 + k % 65536) % 65536
            omega
          rw [hadd]
          exact hrec k (by omega)

private theorem full_of_buscaPalabra {bm : Bitmap frameSlots} {i : Fin frameSlots}
    (h : buscaPalabra bm frameSlots i = none) (f : Nat) (hf : f < marcos) : bm.get f = true := by
  have hspec := buscaPalabra_spec bm frameSlots i
  rw [h] at hspec
  have hm : marcos = frameSlots * 64 := rfl
  have hw : i + Fin.ofNat frameSlots ((f / 64 + (frameSlots - i)) % frameSlots) =
      Bitmap.word f := by
    have hi : (i : Nat) < 65536 := i.isLt
    have hf' : f < 4194304 := hf
    rw [Fin.ext_iff, Bitmap.val_word hf]
    show ((i : Nat) + (f / 64 + (65536 - i)) % 65536 % 65536) % 65536 = f / 64
    omega
  have hword := hspec _ (Nat.mod_lt (f / 64 + (frameSlots - i)) (by decide))
  rw [hw] at hword
  refine (bm.word_full _).mp hword f ?_
  rw [Bitmap.val_word (by omega)]

/-- What `alloc_frame` does where the count is right. -/
theorem allocFrame_cases {s : Fisica} (hs : s.Cuenta) :
    (s.allocFrame = (none, s) ∧ ∀ f < marcos, s.bitmap.get f = true) ∨
    ∃ f hint, f < marcos ∧ s.bitmap.get f = false ∧
      s.allocFrame = (some (marco f), { s with
        bitmap := s.bitmap.set f
        freeFrames := s.freeFrames - 1
        hint := hint
        titulares := s.titulares.marcar (marco f) .anonimo }) := by
  rw [allocFrame]
  split
  · next h =>
    have hz := congrArg UInt64.toNat h
    rw [hs] at hz
    exact .inl ⟨rfl, (Bitmap.zeros_eq_zero _).mp hz⟩
  · next h =>
    cases hb : buscaPalabra s.bitmap frameSlots (Fin.ofNat frameSlots s.hint) with
    | none =>
      have hfull := full_of_buscaPalabra hb
      have hz := (Bitmap.zeros_eq_zero s.bitmap).mpr hfull
      rw [← hs] at hz
      exact absurd (UInt64.toNat_inj.mp hz) h
    | some i =>
      have hspec := buscaPalabra_spec s.bitmap frameSlots (Fin.ofNat frameSlots s.hint)
      rw [hb] at hspec
      obtain ⟨hlt, hbit⟩ := trailingZeros_not hspec
      have hi := i.isLt
      have hf : (i : Nat) * 64 + trailingZeros (~~~s.bitmap i) < frameSlots * 64 := by omega
      have hw : Bitmap.word ((i : Nat) * 64 + trailingZeros (~~~s.bitmap i)) = i := by
        rw [Fin.ext_iff, Bitmap.val_word hf]
        omega
      have hmod : ((i : Nat) * 64 + trailingZeros (~~~s.bitmap i)) % 64 =
          trailingZeros (~~~s.bitmap i) := by omega
      refine .inr ⟨(i : Nat) * 64 + trailingZeros (~~~s.bitmap i), i, hf, ?_, ?_⟩
      · rw [Bitmap.get, hw, hmod]
        exact hbit
      · rw [Bitmap.set, hw, hmod]

/-- The run that is open in the scan of `alloc_frames_contig`: its frames are free, it is shorter
than what is asked for, and no run that starts before it is long enough. -/
private structure Abierta (bm : Bitmap frameSlots) (count frame run start : Nat) : Prop where
  corta : run < count
  inicio : run ≠ 0 → start + run = frame ∧ frame ≤ marcos
  libres : ∀ f, frame - run ≤ f → f < frame → bm.get f = false
  antes : ∀ b, b + run < frame → b + count ≤ marcos →
    ∃ f, b ≤ f ∧ f < b + count ∧ bm.get f = true

/-- What the scan answers: a free run, or that there is none. -/
private def Hallado (bm : Bitmap frameSlots) (count : Nat) : Option Nat → Prop
  | some b => b + count ≤ marcos ∧ ∀ f, b ≤ f → f < b + count → bm.get f = false
  | none => ∀ b, b + count ≤ marcos → ∃ f, b ≤ f ∧ f < b + count ∧ bm.get f = true

private theorem Abierta.fin {bm : Bitmap frameSlots} {count frame run start : Nat}
    (h : Abierta bm count frame run start) (hf : marcos ≤ frame) : Hallado bm count none := by
  intro b hb
  have hc := h.corta
  exact h.antes b (by omega) hb

private theorem Abierta.llena {bm : Bitmap frameSlots} {count frame run start k : Nat}
    (h : Abierta bm count frame run start) (hk : 0 < k)
    (hfull : ∀ f, frame ≤ f → f < frame + k → bm.get f = true) :
    Abierta bm count (frame + k) 0 start where
  corta := by
    have hc := h.corta
    omega
  inicio h0 := absurd rfl h0
  libres f hf hf' := by omega
  antes b hb hb' := by
    by_cases hbr : b + run < frame
    · exact h.antes b hbr hb'
    · by_cases hbf : b < frame
      · have hc := h.corta
        exact ⟨frame, by omega, by omega, hfull frame (le_refl _) (by omega)⟩
      · have hc := h.corta
        exact ⟨b, le_refl _, by omega, hfull b (by omega) (by omega)⟩

private theorem Abierta.libre {bm : Bitmap frameSlots} {count frame run start : Nat}
    (h : Abierta bm count frame run start) (hf : frame < marcos) (hfree : bm.get frame = false)
    (hc : run + 1 < count) :
    Abierta bm count (frame + 1) (run + 1) (if run = 0 then frame else start) where
  corta := hc
  inicio _ := by
    by_cases hr : run = 0
    · rw [if_pos hr]
      omega
    · rw [if_neg hr]
      have := h.inicio hr
      omega
  libres f hf hf' := by
    by_cases hff : f = frame
    · rw [hff]
      exact hfree
    · exact h.libres f (by omega) (by omega)
  antes b hb := h.antes b (by omega)

private theorem Abierta.hallado {bm : Bitmap frameSlots} {count frame run start : Nat}
    (h : Abierta bm count frame run start) (hf : frame < marcos) (hfree : bm.get frame = false)
    (hc : run + 1 = count) : Hallado bm count (some (if run = 0 then frame else start)) := by
  have hini : (if run = 0 then frame else start) + count = frame + 1 := by
    by_cases hr : run = 0
    · rw [if_pos hr]
      omega
    · rw [if_neg hr]
      have := h.inicio hr
      omega
  refine ⟨by omega, fun f hle hlt ↦ ?_⟩
  by_cases hff : f = frame
  · rw [hff]
    exact hfree
  · exact h.libres f (by omega) (by omega)

private theorem buscaTramo_spec {bm : Bitmap frameSlots} {count : UInt64} (n frame : Nat)
    {start : Nat} {run : UInt64} (hn : marcos ≤ frame + n)
    (h : Abierta bm count.toNat frame run.toNat start) :
    Hallado bm count.toNat (buscaTramo bm count n frame run start) := by
  have h1 : (1 : UInt64).toNat = 1 := rfl
  induction n generalizing frame start run with
  | zero => exact h.fin hn
  | succ n ih =>
    rw [buscaTramo]
    by_cases hlt : frame < frameSlots * 64
    · rw [if_pos hlt]
      by_cases hskip : run = 0 ∧ frame % 64 = 0 ∧ bm (Bitmap.word frame) = ~~~0
      · rw [if_pos hskip]
        obtain ⟨rfl, hmod, hw⟩ := hskip
        have hfull := (bm.word_full _).mp hw
        rw [Bitmap.val_word hlt] at hfull
        exact ih (frame + 64) (by omega)
          (h.llena (by decide) fun f hf hf' ↦ hfull f (by omega))
      · rw [if_neg hskip]
        by_cases hfree : bm (Bitmap.word frame) &&& bitMask (frame % 64) = 0
        · rw [if_pos hfree]
          rw [Bitmap.and_bitMask_word] at hfree
          have hcorta := h.corta
          have hcount := count.toNat_lt
          have hsucc : (run + 1).toNat = run.toNat + 1 := by
            rw [UInt64.toNat_add, h1, Nat.mod_eq_of_lt (by omega)]
          have hini : (if run = 0 then frame else start) =
              if run.toNat = 0 then frame else start := by
            simp only [← UInt64.toNat_inj, UInt64.toNat_zero]
          dsimp only
          rw [hini]
          by_cases hlast : run + 1 = count
          · rw [if_pos hlast]
            exact h.hallado hlt hfree (by rw [← hsucc, hlast])
          · rw [if_neg hlast]
            have hcorta' : run.toNat + 1 ≠ count.toNat := fun heq ↦
              hlast (UInt64.toNat_inj.mp (hsucc.trans heq))
            have hnext := h.libre hlt hfree (by omega)
            rw [← hsucc] at hnext
            exact ih (frame + 1) (by omega) hnext
        · rw [if_neg hfree]
          rw [Bitmap.and_bitMask_word, Bool.not_eq_false] at hfree
          refine ih (frame + 1) (by omega) (h.llena (by decide) fun f hf hf' ↦ ?_)
          rw [show f = frame by omega]
          exact hfree
    · rw [if_neg hlt]
      exact h.fin (Nat.le_of_not_lt hlt)

/-- What `alloc_frames_contig` does where the count is right. -/
theorem allocFramesContig_cases {s : Fisica} (hs : s.Cuenta) (count : UInt64) :
    (s.allocFramesContig count = (none, s) ∧ ¬ s.Racha count.toNat) ∨
    ∃ start, 0 < count.toNat ∧ start + count.toNat ≤ marcos ∧
      (∀ f, start ≤ f → f < start + count.toNat → s.bitmap.get f = false) ∧
      s.allocFramesContig count = (some (marco start), { s with
        bitmap := (List.range' start count.toNat).foldl Bitmap.set s.bitmap
        freeFrames := s.freeFrames - count
        hint := start / 64
        titulares := (List.range' start count.toNat).foldl
          (fun t f ↦ t.marcar (marco f) .anonimo) s.titulares }) := by
  rw [allocFramesContig]
  split
  · next h =>
    rw [h]
    exact .inl ⟨rfl, fun hr ↦ Nat.lt_irrefl 0 hr.1⟩
  · next h =>
    have hpos : 0 < count.toNat := Nat.pos_of_ne_zero fun h0 ↦ h (UInt64.toNat_inj.mp h0)
    split
    · next hlt =>
      refine .inl ⟨rfl, ?_⟩
      rintro ⟨-, b, hb, hfree⟩
      have hle := s.bitmap.le_zeros hb hfree
      have hlt' := UInt64.lt_iff_toNat_lt.mp hlt
      rw [hs] at hlt'
      omega
    · have hspec := @buscaTramo_spec s.bitmap count (frameSlots * 64) 0 0 0 (Nat.le_add_left ..)
        ⟨hpos, fun h0 ↦ absurd rfl h0, fun f _ hf ↦ absurd hf (Nat.not_lt_zero f),
          fun b hb ↦ absurd hb (Nat.not_lt_zero _)⟩
      split
      · next start hb =>
        rw [hb] at hspec
        exact .inr ⟨start, hpos, hspec.1, hspec.2, rfl⟩
      · next hb =>
        rw [hb] at hspec
        refine .inl ⟨rfl, ?_⟩
        rintro ⟨-, b, hb, hfree⟩
        obtain ⟨f, hf, hf', hset⟩ := hspec b hb
        exact absurd ((hfree f hf hf').symm.trans hset) Bool.false_ne_true

private theorem freeFrame_cases (s : Fisica) (phys : UInt64) :
    (s.freeFrame phys = s ∧ ∀ f, indice phys = some f → s.bitmap.get f = false) ∨
    ∃ f : Fin marcos, indice phys = some f ∧ s.bitmap.get f = true ∧
      s.freeFrame phys = { s with
        bitmap := s.bitmap.clear f
        freeFrames := s.freeFrames + 1
        titulares := s.titulares.marcar phys .nadie } := by
  rw [freeFrame, indice]
  by_cases h : phys % page ≠ 0 ∨ phys ≥ maxPhys
  · rw [if_pos h, if_pos (show phys % page ≠ 0 ∨ phys ≥ physmapSize from h)]
    exact .inl ⟨rfl, fun _ hf ↦ absurd hf (Option.some_ne_none _).symm⟩
  · rw [if_neg h, if_neg (show ¬ (phys % page ≠ 0 ∨ phys ≥ physmapSize) from h)]
    have hlt := UInt64.lt_iff_toNat_lt.mp (UInt64.not_le.mp (not_or.mp h).2)
    have hmax : maxPhys.toNat = 17179869184 := rfl
    have hval : (Fin.ofNat marcos (phys / page).toNat : Nat) = (phys / page).toNat := by
      have hm : marcos = 4194304 := rfl
      rw [toNat_div_page]
      exact Nat.mod_eq_of_lt (by omega)
    dsimp only
    by_cases hb : s.bitmap.get (phys / page).toNat = true
    · rw [if_pos (by rw [ne_eq, Bitmap.and_bitMask_word, hb]; decide)]
      exact .inr ⟨_, rfl, by rw [hval]; exact hb, by rw [hval]⟩
    · rw [Bool.not_eq_true] at hb
      rw [if_neg (by rw [ne_eq, Bitmap.and_bitMask_word, not_not]; exact hb)]
      refine .inl ⟨rfl, fun f hf ↦ ?_⟩
      rw [← Option.some.inj hf, hval]
      exact hb

private theorem foldl_set (bm : Bitmap frameSlots) {b n : Nat} (hb : b + n ≤ marcos)
    (hfree : ∀ f, b ≤ f → f < b + n → bm.get f = false) :
    ((List.range' b n).foldl Bitmap.set bm).zeros + n = bm.zeros ∧
      ∀ g < marcos, ((List.range' b n).foldl Bitmap.set bm).get g =
        (bm.get g || decide (b ≤ g ∧ g < b + n)) := by
  induction n with
  | zero =>
    rw [List.range'_zero, List.foldl_nil]
    refine ⟨Nat.add_zero _, fun g _ ↦ ?_⟩
    rw [decide_eq_false (by omega), Bool.or_false]
  | succ n ih =>
    obtain ⟨hz, hget⟩ := ih (by omega) fun f hf hf' ↦ hfree f hf (by omega)
    have hlt : b + n < marcos := by omega
    have hno : ((List.range' b n).foldl Bitmap.set bm).get (b + n) = false := by
      rw [hget _ hlt, hfree _ (by omega) (by omega), Bool.false_or, decide_eq_false (by omega)]
    have hset := Bitmap.zeros_set _ hlt hno
    rw [List.range'_concat, Nat.one_mul, List.foldl_append, List.foldl_cons, List.foldl_nil]
    refine ⟨by omega, fun g hg ↦ ?_⟩
    rw [Bitmap.get_set _ hlt hg, hget g hg, Bool.or_assoc, ← Bool.decide_or]
    congr 1
    rw [decide_eq_decide]
    omega

/-! ### Frames with a label -/

/-- The frame `f` was taken, for `q`. -/
structure Pedido (s t : Fisica) (f : Fin marcos) (q : Titular) : Prop where
  libre : s.bitmap.get f = false
  cuenta : t.Cuenta
  bits : ∀ g : Fin marcos, t.bitmap.get g = (s.bitmap.get g || decide (f = g))
  suyo : t.titulares.titularDe (direccion f) = q
  ajenos : ∀ x, indice x ≠ some f → t.titulares.titularDe x = s.titulares.titularDe x

/-- The frame `f` was given back. -/
structure Devuelto (s t : Fisica) (f : Fin marcos) : Prop where
  cuenta : t.Cuenta
  bits : ∀ g : Fin marcos, t.bitmap.get g = (s.bitmap.get g && !decide (f = g))
  ajenos : ∀ x, indice x ≠ some f → t.titulares.titularDe x = s.titulares.titularDe x

private theorem marco_eq_direccion {f : Nat} (hf : f < marcos) : marco f = direccion ⟨f, hf⟩ :=
  UInt64.toNat_inj.mp ((toNat_marco hf).trans (toNat_direccion ⟨f, hf⟩).symm)

/-- What `alloc_frame_de` does where the count is right. -/
theorem allocFrameDe_cases {s : Fisica} (hs : s.Cuenta) (q : Titular) :
    (s.allocFrameDe q = (none, s) ∧ ∀ f < marcos, s.bitmap.get f = true) ∨
    ∃ f t, s.allocFrameDe q = (some (direccion f), t) ∧ Pedido s t f q := by
  rw [allocFrameDe]
  rcases allocFrame_cases hs with ⟨heq, hfull⟩ | ⟨f, hint, hf, hfree, heq⟩
  · rw [heq]
    exact .inl ⟨rfl, hfull⟩
  · rw [heq, marco_eq_direccion hf]
    refine .inr ⟨⟨f, hf⟩, _, rfl, hfree, cuenta_set hs hf hfree rfl rfl, fun g ↦ ?_,
      Titulares.titularDe_marcar _ (indice_direccion _) q, fun x hx ↦ ?_⟩
    · rw [Bitmap.get_set _ hf g.isLt]
      congr 1
      rw [decide_eq_decide, Fin.ext_iff]
    · rw [← indice_direccion] at hx
      rw [Titulares.titularDe_marcar_of_ne _ hx, Titulares.titularDe_marcar_of_ne _ hx]

/-- A frame whose bit is set comes back. -/
theorem devuelto_freeFrame {s : Fisica} (hs : s.Cuenta) {phys : UInt64} {f : Fin marcos}
    (hf : indice phys = some f) (hbit : s.bitmap.get f = true) :
    Devuelto s (s.freeFrame phys) f := by
  rcases s.freeFrame_cases phys with ⟨-, hno⟩ | ⟨g, hg, -, heq⟩
  · exact absurd ((hno f hf).symm.trans hbit) Bool.false_ne_true
  · obtain rfl : g = f := Option.some.inj (hg.symm.trans hf)
    rw [heq]
    refine ⟨cuenta_clear hs g.isLt hbit rfl rfl, fun x ↦ ?_, fun x hx ↦ ?_⟩
    · rw [Bitmap.get_clear _ g.isLt x.isLt]
      congr 2
      rw [decide_eq_decide, Fin.ext_iff]
    · rw [← hf] at hx
      exact Titulares.titularDe_marcar_of_ne _ hx _

/-- Who asked for a table may give it back. -/
theorem freeFrameDe_tabla {s : Fisica} {phys : UInt64}
    (h : s.titulares.titularDe phys = .tabla) :
    s.freeFrameDe phys .tabla = (true, s.freeFrame phys) := by
  have hp : s.titulares.puedeSoltar phys .tabla = true := by
    rw [Titulares.puedeSoltar, h]
    rfl
  rw [freeFrameDe, if_pos hp]

end Fisica

/-! ### The invariant -/

/-- The bits that are set are those of the frames reserved by the boot and of the frames that are
out, and these are all different. -/
structure Repartido (a : Arranque) (s : Reparto) : Prop where
  cuenta : s.fisica.Cuenta
  bit : ∀ f : Fin marcos, s.fisica.bitmap.get f = true ↔ a.Reservado f ∨ f ∈ s.entregados
  ajenos : ∀ f ∈ s.entregados, ¬ a.Reservado f
  nodup : s.entregados.Nodup

namespace Repartido

variable {a : Arranque} {s : Reparto}

private theorem inicial (a : Arranque) : Repartido a (.inicial a) where
  cuenta := a.cuenta_init _
  bit f := by
    refine ⟨fun h ↦ .inl h, ?_⟩
    rintro (h | h)
    · exact h
    · cases h
  ajenos _ h := by cases h
  nodup := List.nodup_nil

private theorem entrega (hs : Repartido a s) {b n : Nat} (hn : 0 < n) (hb : b + n ≤ marcos)
    (hfree : ∀ f, b ≤ f → f < b + n → s.fisica.bitmap.get f = false) {t : Fisica}
    (hc : t.Cuenta) (hbit : ∀ g < marcos, t.bitmap.get g =
      (s.fisica.bitmap.get g || decide (b ≤ g ∧ g < b + n))) :
    Repartido a ⟨t, tramo (marco b) n ++ s.entregados⟩ where
  cuenta := hc
  bit f := by
    rw [hbit f f.isLt, Bool.or_eq_true, hs.bit, decide_eq_true_eq, List.mem_append,
      mem_tramo hb hn, or_assoc, or_comm (a := f ∈ s.entregados)]
  ajenos f hf := by
    rcases List.mem_append.mp hf with hf | hf
    · rw [mem_tramo hb hn] at hf
      intro hr
      have hset := (hs.bit f).mpr (.inl hr)
      exact absurd ((hfree f hf.1 hf.2).symm.trans hset) Bool.false_ne_true
    · exact hs.ajenos f hf
  nodup := by
    refine List.Nodup.append (nodup_tramo hb hn) hs.nodup fun f hf hf' ↦ ?_
    rw [mem_tramo hb hn] at hf
    have hset := (hs.bit f).mpr (.inr hf')
    exact absurd ((hfree f hf.1 hf.2).symm.trans hset) Bool.false_ne_true

private theorem freeFrame_fuera (hs : Repartido a s) {phys : UInt64}
    (hr : ∀ f, indice phys = some f → ¬ a.Reservado f)
    (h : ∀ f, indice phys = some f → f ∉ s.entregados) : s.fisica.freeFrame phys = s.fisica := by
  rcases s.fisica.freeFrame_cases phys with ⟨heq, -⟩ | ⟨f, hf, hbit, -⟩
  · exact heq
  · rcases (hs.bit f).mp hbit with hb | hb
    · exact absurd hb (hr f hf)
    · exact absurd hb (h f hf)

/-- One request keeps the invariant. -/
theorem paso (hs : Repartido a s) {o : Peticion} (hl : s.Limpia a o) : Repartido a (s.paso o) := by
  cases o with
  | allocFrame =>
    simp only [Reparto.paso]
    rcases Fisica.allocFrame_cases hs.cuenta with ⟨heq, -⟩ | ⟨f, hint, hf, hfree, heq⟩
    · rw [heq]
      exact hs
    · rw [heq]
      refine hs.entrega Nat.one_pos hf (fun g hg hg' ↦ ?_)
        (Fisica.cuenta_set hs.cuenta hf hfree rfl rfl) fun g hg ↦ ?_
      · rw [show g = f by omega]
        exact hfree
      · rw [Bitmap.get_set _ hf hg]
        congr 1
        rw [decide_eq_decide]
        omega
  | allocFramesContig count =>
    simp only [Reparto.paso]
    rcases Fisica.allocFramesContig_cases hs.cuenta count with ⟨heq, -⟩ |
      ⟨b, hpos, hb, hfree, heq⟩
    · rw [heq]
      exact hs
    · rw [heq]
      obtain ⟨hz, hget⟩ := Fisica.foldl_set _ hb hfree
      refine hs.entrega hpos hb hfree ?_ hget
      have hc := hs.cuenta
      rw [Fisica.Cuenta] at hc ⊢
      rw [UInt64.toNat_sub_of_le _ _ (UInt64.le_iff_toNat_le.mpr (by omega))]
      dsimp only
      omega
  | freeFrame phys =>
    simp only [Reparto.paso]
    rcases s.fisica.freeFrame_cases phys with ⟨heq, hno⟩ | ⟨f, hf, hbit, heq⟩
    · rw [heq]
      cases hi : indice phys with
      | none => exact hs
      | some f =>
        have hout : f ∉ s.entregados := by
          intro h
          exact absurd ((hno f hi).symm.trans ((hs.bit f).mpr (.inr h))) Bool.false_ne_true
        rw [Option.elim_some, List.erase_of_not_mem hout]
        exact hs
    · rw [heq, hf, Option.elim_some]
      refine ⟨Fisica.cuenta_clear hs.cuenta f.isLt hbit rfl rfl, fun g ↦ ?_,
        fun g hg ↦ hs.ajenos g (List.mem_of_mem_erase hg), hs.nodup.erase f⟩
      rw [Bitmap.get_clear _ f.isLt g.isLt, Bool.and_eq_true, hs.bit, hs.nodup.mem_erase_iff]
      by_cases hfg : f = g
      · subst hfg
        have hno := hl f hf
        simp [hno]
      · have hval : (f : Nat) ≠ g := Fin.val_ne_of_ne hfg
        simp [hval, Ne.symm hfg]

private theorem cumple (hs : Repartido a s) {o : Peticion} (hl : s.Limpia a o) : s.Cumple o := by
  cases o with
  | allocFrame =>
    rcases Fisica.allocFrame_cases hs.cuenta with ⟨-, hfull⟩ | ⟨f, hint, -, -, heq⟩
    · exact fun _ ↦ hfull
    · intro h
      rw [heq] at h
      cases h
  | allocFramesContig count =>
    rcases Fisica.allocFramesContig_cases hs.cuenta count with ⟨-, hno⟩ | ⟨b, -, -, -, heq⟩
    · exact fun _ ↦ hno
    · intro h
      rw [heq] at h
      cases h
  | freeFrame phys => exact hs.freeFrame_fuera hl

end Repartido

/-! ### The theorem -/

theorem Reparte.repartido {a : Arranque} {s : Reparto}
    (h : Reparte a (Reparto.Limpia a) s) : Repartido a s := by
  induction h with
  | inicial => exact Repartido.inicial a
  | paso o _ hc ih => exact ih.paso hc

/-- After a boot whose ranges do not wrap, where no reserved frame is freed: the count is right, no
frame is out twice, none that the boot reserved is out, and requests are met as they should. -/
theorem exacto_of_reparte (a : Arranque) (ha : a.Sano) (s : Reparto)
    (h : Reparte a (Reparto.Limpia a) s) :
    s.Exacto a ∧ ∀ o, s.Limpia a o → s.Cumple o := by
  have hs := h.repartido
  refine ⟨⟨hs.cuenta, hs.nodup, hs.ajenos, fun f hf hv ↦ ?_⟩, fun o ho ↦ hs.cumple ho⟩
  exact hs.ajenos f hf (a.reservado_of_vedado ha hv)

/-- A machine with a gigabyte of memory from the first megabyte on. -/
def Arranque.giga : Arranque where
  memoryMap := [⟨0x100000, 0x40000000, 1⟩]
  stages := [(0x200000, 0x8000)]
  ctx := 0x300000
  ctxBytes := 4096
  fbAddr := 0xC0000000
  fbStride := 1920
  fbHeight := 1080
  ring3PayloadPhys := 0x8000000
  ring3PayloadSize := 0x100000
  ring3WorkspacePhys := 0
  ring3WorkspaceSize := 0
  bssEnd := 0x712345

private theorem Arranque.sano_giga : Arranque.giga.Sano where
  usables e he _ := by
    rw [List.mem_singleton.mp he]
    decide
  reservas r hr := by
    have hall : giga.reservas.all (fun r ↦
        decide (r.1 < maxPhys → r.1.toNat + r.2.toNat + 4095 < 2 ^ 64)) = true := by
      decide
    exact of_decide_eq_true (List.all_eq_true.mp hall r hr)

private theorem Fisica.get_reserveRanges {g : Nat} (hg : g < marcos) {l : List (UInt64 × UInt64)}
    {s : Fisica} (hs : s.Cuenta) (hl : ∀ r ∈ l, g < r.1.toNat / 4096 ∨
      (r.1 + r.2 + page - 1).toNat / 4096 ≤ g) :
    (l.foldl (fun s r ↦ s.reserveRange r.1 r.2) s).bitmap.get g = s.bitmap.get g := by
  have hm : marcos = 4194304 := rfl
  induction l generalizing s with
  | nil => rfl
  | cons r l ih =>
    obtain ⟨hr, hl⟩ := List.forall_mem_cons.mp hl
    rw [List.foldl_cons, ih (reserveRange_spec hs r.1 r.2).1 hl, reserveRange]
    split
    · rfl
    · rw [(foldl_reserveMarco hs fun f hf ↦ ?_).2 g hg, decide_eq_false, Bool.or_false]
      · rw [List.mem_range'_1, toNat_recorta, toNat_div_page, toNat_alinea, toNat_alinea]
        omega
      · rw [List.mem_range'_1, toNat_recorta] at hf
        omega

private theorem Arranque.libre_init {a : Arranque} {e : MemoryEntry} (hmapa : a.memoryMap = [e])
    (hkind : ¬ (e.kind ≠ 1 ∨ e.size = 0)) (hbase : ¬ alinea (e.base + page - 1) ≥ maxPhys) {g : Nat}
    (hg : g < marcos) (hlo : (e.base + page - 1).toNat / 4096 ≤ g)
    (hhi : g < (e.base + e.size).toNat / 4096)
    (hl : ∀ r ∈ a.reservas, g < r.1.toNat / 4096 ∨ (r.1 + r.2 + page - 1).toNat / 4096 ≤ g)
    (t : Titulares) : (a.init t).bitmap.get g = false := by
  have hm : marcos = 4194304 := rfl
  have hc : Fisica.Cuenta
      { bitmap := fun _ ↦ ~~~0, totalFrames := 0, freeFrames := 0, hint := 0, titulares := t } :=
    ((Bitmap.zeros_eq_zero _).mpr fun _ _ ↦ get_full).symm
  rw [init, Fisica.get_reserveRanges hg (foldl_usaEntrada (a := a) _ hc).1 hl, hmapa,
    List.foldl_cons, List.foldl_nil, Fisica.usaEntrada, if_neg hkind]
  dsimp only
  rw [if_neg hbase, (Fisica.foldl_usaMarco hc fun f hf ↦ ?_).2 g hg, decide_eq_true,
    Bool.not_true, Bool.and_false]
  · rw [List.mem_range'_1, Fisica.toNat_recorta, toNat_div_page, toNat_alinea, toNat_alinea]
    omega
  · rw [List.mem_range'_1, Fisica.toNat_recorta] at hf
    omega

private theorem Arranque.libre_giga :
    (Arranque.giga.init .inicial).bitmap.get 131072 = false := by
  have hall : giga.reservas.all (fun r ↦ decide (131072 < r.1.toNat / 4096 ∨
      (r.1 + r.2 + page - 1).toNat / 4096 ≤ 131072)) = true := by
    decide
  exact libre_init rfl (by decide) (by decide) (by decide) (by decide) (by decide)
    (fun r hr ↦ of_decide_eq_true (List.all_eq_true.mp hall r hr)) _

/-- A frame goes out, and three more, and the first one comes back. -/
theorem exacto_of_reparte_giga :
    ∃ phys, (Reparto.inicial .giga).fisica.allocFrame.1 = some phys ∧
      ((((Reparto.inicial .giga).paso .allocFrame).paso (.allocFramesContig 3)).paso
        (.freeFrame phys)).Exacto .giga ∧
      ((((Reparto.inicial .giga).paso .allocFrame).paso (.allocFramesContig 3)).paso
        (.freeFrame phys)).Cumple (.allocFramesContig 2) := by
  have hprimero : Reparte .giga (Reparto.Limpia .giga) ((Reparto.inicial .giga).paso .allocFrame) :=
    .paso _ .inicial trivial
  rcases Fisica.allocFrame_cases (Arranque.giga.cuenta_init .inicial) with ⟨-, hfull⟩ | ⟨f, hint, hf, -, heq⟩
  · have hlibre := Arranque.libre_giga
    rw [hfull _ (by decide)] at hlibre
    cases hlibre
  · refine ⟨marco f, by rw [Reparto.inicial, heq], ?_⟩
    have hdado : ⟨f, hf⟩ ∈ ((Reparto.inicial .giga).paso .allocFrame).entregados := by
      rw [Reparto.paso, Reparto.inicial, heq]
      exact List.mem_append_left _ ((mem_tramo (n := 1) hf Nat.one_pos _).mpr ⟨Nat.le_refl f, Nat.lt_succ_self f⟩)
    have hsuyo := (exacto_of_reparte .giga Arranque.sano_giga _ hprimero).1.reservados _ hdado
    obtain ⟨hexacto, hcumple⟩ := exacto_of_reparte .giga Arranque.sano_giga _
      (.paso (.freeFrame (marco f)) (.paso (.allocFramesContig 3) hprimero trivial) fun g hg ↦ by
        rw [Fisica.marco_eq_direccion hf, indice_direccion] at hg
        rwa [← Option.some.inj hg])
    exact ⟨hexacto, hcumple _ trivial⟩

private theorem Fisica.freeFrame_ne {s : Fisica} {phys : UInt64} {f : Fin marcos}
    (hf : indice phys = some f) (hbit : s.bitmap.get f = true) : s.freeFrame phys ≠ s := by
  rcases s.freeFrame_cases phys with ⟨-, hno⟩ | ⟨g, -, -, heq⟩
  · exact absurd ((hno f hf).symm.trans hbit) Bool.false_ne_true
  · intro h
    have hfree := congrArg Fisica.freeFrames (heq.symm.trans h)
    have hnat := congrArg UInt64.toNat hfree
    dsimp only at hnat
    rw [UInt64.toNat_add, UInt64.toNat_one] at hnat
    omega

/-- Freeing the first frame of low memory, which was never handed out, makes it free. -/
theorem not_exacto_giga :
    ¬ ∀ a : Arranque, a.Sano → ∀ s, Reparte a (fun _ _ ↦ True) s →
      s.Exacto a ∧ ∀ o, s.Cumple o := by
  intro h
  have hbit : (Reparto.inicial .giga).fisica.bitmap.get (0 : Fin marcos) = true :=
    Arranque.reservado_of_vedado Arranque.sano_giga (.inr
      ⟨(0, 0x100000), List.mem_cons_self, 0, Nat.le_refl 0, by decide, rfl⟩)
  have hcumple := (h .giga Arranque.sano_giga _ .inicial).2 (.freeFrame (direccion 0))
    fun f _ ↦ List.not_mem_nil
  exact Fisica.freeFrame_ne (indice_direccion 0) hbit hcumple

end BmoX.Mm
