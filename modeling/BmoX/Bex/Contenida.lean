import BmoX.Bex.Lugar
import BmoX.Mm.Espacios

/-!
# An image in its area

Whether the sections of an image that was admitted stay in the area of the user's image, apart from
each other, and whether the process starts in its code.
-/

namespace BmoX.Bex

open BmoX.Base BmoX.Mm

/-! ### The plan of an accepted file -/

/-- The plan maps the sections that are memory of the program. -/
theorem sections_apunta (ss : List Seccion) (plan : BexLoadPlan) :
    (ss.foldl .apunta plan).sections =
      plan.sections ++ (ss.filter fun s ↦ seCarga s.kind).map Seccion.mapa ∧
    (ss.foldl .apunta plan).entryOffset = plan.entryOffset := by
  induction ss generalizing plan with
  | nil => exact ⟨(List.append_nil _).symm, rfl⟩
  | cons s ss ih =>
    obtain ⟨h1, h2⟩ := ih (plan.apunta s)
    rw [List.foldl_cons, h1, h2, List.filter_cons]
    unfold BexLoadPlan.apunta
    split
    · next hk =>
      have hn : seCarga s.kind = false := by
        rw [hk]
        rfl
      rw [hn]
      exact ⟨rfl, rfl⟩
    · split
      · next hk =>
        have hn : seCarga s.kind = false := by
          rw [hk]
          rfl
        rw [hn]
        exact ⟨rfl, rfl⟩
      · split
        · next hk =>
          have hn : seCarga s.kind = false := by
            rw [hk]
            rfl
          rw [hn]
          exact ⟨rfl, rfl⟩
        · split
          · next hn =>
            rw [hn]
            exact ⟨rfl, rfl⟩
          · next hn =>
            rw [Bool.not_eq_false] at hn
            rw [hn, if_pos rfl, List.map_cons, List.append_assoc]
            exact ⟨rfl, rfl⟩

private theorem codigo_vistas {ss : List Seccion} (h : (vistas ss).hayCodigo = true) :
    ∃ s ∈ ss, s.kind = code ∧ (vistas ss).tamCodigo = s.memSize := by
  have hgen : ∀ (ss : List Seccion) (v : Vistas), (ss.foldl .ve v).hayCodigo = true →
      (v.hayCodigo = true ∧ (ss.foldl .ve v).tamCodigo = v.tamCodigo) ∨
        ∃ s ∈ ss, s.kind = code ∧ (ss.foldl .ve v).tamCodigo = s.memSize := by
    intro ss
    induction ss with
    | nil => exact fun v h ↦ .inl ⟨h, rfl⟩
    | cons s ss ih =>
      intro v h
      rw [List.foldl_cons] at h ⊢
      rcases ih (v.ve s) h with ⟨h1, h2⟩ | ⟨t, ht, h3⟩
      · by_cases hk : s.kind = code
        · exact .inr ⟨s, List.mem_cons_self, hk, h2.trans (if_pos hk)⟩
        · have h1' : (v.hayCodigo || decide (s.kind = code)) = true := h1
          rw [decide_eq_false hk, Bool.or_false] at h1'
          exact .inl ⟨h1', h2.trans (if_neg hk)⟩
      · exact .inr ⟨t, List.mem_cons_of_mem _ ht, h3⟩
  rcases hgen ss _ h with ⟨h1, -⟩ | h
  · cases h1
  · exact h

/-- What holds of the plan of an accepted file. -/
structure BexLoadPlan.Vale (plan : BexLoadPlan) : Prop where
  alignment : ∀ s ∈ plan.sections, esPotencia s.alignment = true
  memSize : ∀ s ∈ plan.sections, s.fileSize ≤ s.memSize
  code : ∀ s ∈ plan.sections, s.kind = code → s.memSize ≠ 0
  entry : ∃ s ∈ plan.sections, s.kind = Bex.code ∧ plan.entryOffset < s.memSize

private theorem vale_inspect {p : Bytes} {tam : UInt64} {plan : BexLoadPlan}
    (h : inspect p tam = .ok plan) : plan.Vale := by
  unfold inspect at h
  cases hr : revisar p tam with
  | error f =>
    rw [hr] at h
    cases h
  | ok rev =>
    rw [hr] at h
    obtain ⟨c, -, -, rfl, hp⟩ := revisar_eq_ok.mp hr
    obtain rfl := Except.ok.inj h
    obtain ⟨h1, h2⟩ := sections_apunta (c.revisada p).secciones
      { entryOffset := (c.revisada p).entryOffset }
    have hmem : ∀ s, s ∈ ((c.revisada p).secciones.foldl BexLoadPlan.apunta
        { entryOffset := (c.revisada p).entryOffset }).sections ↔
          ∃ t ∈ (c.revisada p).secciones, seCarga t.kind = true ∧ t.mapa = s := by
      intro s
      rw [h1, List.nil_append, List.mem_map]
      simp only [List.mem_filter, and_assoc]
    have hcode : ∀ s : Seccion, s.kind = code → seCarga s.kind = true := by
      intro s hk
      rw [hk]
      rfl
    refine ⟨fun s hs ↦ ?_, fun s hs ↦ ?_, fun s hs hk h0 ↦ ?_, ?_⟩
    · obtain ⟨t, ht, -, rfl⟩ := (hmem s).mp hs
      exact (hp.bien t ht).alignment
    · obtain ⟨t, ht, -, rfl⟩ := (hmem s).mp hs
      exact (hp.bien t ht).memSize
    · obtain ⟨t, ht, -, rfl⟩ := (hmem s).mp hs
      have hk' : t.kind = code := hk
      refine (hp.bien t ht).fileSize (by rw [hk']; decide) ?_
      have hle := UInt64.le_iff_toNat_le.mp (hp.bien t ht).memSize
      rw [show t.memSize = 0 from h0] at hle
      exact UInt64.toNat_inj.mp (Nat.le_zero.mp hle)
    · obtain ⟨t, ht, hk, hm⟩ := codigo_vistas hp.codigo
      refine ⟨t.mapa, (hmem _).mpr ⟨t, ht, hcode t hk, rfl⟩, hk, ?_⟩
      have he := hp.entry
      rw [hm] at he
      rw [h2]
      exact he

/-! ### The order of the file -/

namespace BexLoadPlan

variable (plan : BexLoadPlan)

/-- A section of code. -/
def esDeCodigo (i : Nat) : Bool := plan.sections[i]?.any (·.kind = code)

/-- The section of code that comes last in the file. -/
def ultimaDeCodigo : Option Nat := (plan.orden.filter plan.esDeCodigo).getLast?

theorem mem_baja (i : Nat) (l : List Nat) (k : Nat) : k ∈ plan.baja i l ↔ k = i ∨ k ∈ l := by
  induction l with
  | nil => exact List.mem_cons
  | cons j l ih =>
    unfold baja
    split
    · rw [List.mem_cons, ih, List.mem_cons]
      exact or_left_comm
    · exact List.mem_cons

private theorem mem_orden (k : Nat) : k ∈ plan.orden ↔ k < plan.sections.length := by
  have hgen : ∀ (l acc : List Nat), k ∈ l.foldl (fun antes i ↦ plan.baja i antes) acc ↔
      k ∈ l ∨ k ∈ acc := by
    intro l
    induction l with
    | nil => exact fun acc ↦ ⟨.inr, fun h ↦ h.resolve_left List.not_mem_nil⟩
    | cons i l ih =>
      intro acc
      rw [List.foldl_cons, ih, mem_baja, List.mem_cons]
      exact or_left_comm.trans or_assoc.symm
  rw [orden, List.mem_reverse, hgen, List.mem_range]
  exact ⟨fun h ↦ h.resolve_right List.not_mem_nil, .inl⟩

end BexLoadPlan

/-! ### Where the process starts -/

section entry

variable {env : Entorno} {plan : BexLoadPlan} {firmas : Option Firmas} {relocs : Bytes}
  {aspace : UInt64}

private theorem entryVa_aterrizaSeccion {o o' : Obra} {i : Nat}
    (h : aterrizaSeccion env plan firmas relocs aspace o i = some o') :
    o'.entryVa = if plan.esDeCodigo i then plan.vaDe i + plan.entryOffset else o.entryVa := by
  unfold aterrizaSeccion at h
  simp only [Option.bind_eq_bind, Option.bind_eq_some_iff] at h
  obtain ⟨s, hs, c, -, -, -, cerrado, -, ho⟩ := h
  obtain rfl := Option.some.inj ho
  have hes : plan.esDeCodigo i = decide (s.kind = code) := by
    unfold BexLoadPlan.esDeCodigo
    rw [hs]
    rfl
  rw [hes]
  unfold Obra.anota
  by_cases hk : s.kind = code
  · rw [decide_eq_true hk, if_pos rfl]
    exact if_pos hk
  · rw [decide_eq_false hk, if_neg Bool.false_ne_true]
    exact if_neg hk

private theorem entryVa_foldlM {l : List Nat} {o o' : Obra}
    (h : l.foldlM (aterrizaSeccion env plan firmas relocs aspace) o = some o') :
    o'.entryVa = (l.filter plan.esDeCodigo).getLast?.elim o.entryVa
      fun i ↦ plan.vaDe i + plan.entryOffset := by
  induction l generalizing o with
  | nil =>
    obtain rfl := Option.some.inj h
    rfl
  | cons i l ih =>
    rw [List.foldlM_cons, Option.bind_eq_bind, Option.bind_eq_some_iff] at h
    obtain ⟨o₁, h1, h2⟩ := h
    rw [ih h2, entryVa_aterrizaSeccion h1, List.filter_cons]
    cases hi : plan.esDeCodigo i with
    | false => rfl
    | true =>
      rw [if_pos rfl, if_pos rfl, List.getLast?_cons]
      cases (l.filter plan.esDeCodigo).getLast? <;> rfl

end entry

/-- What an admission went through. -/
theorem admite_spec {env : Entorno} {m : Maquina} {prologo : Bytes} {tam : UInt64} {a : Admitido}
    (h : admitPayloadDesde env m prologo tam = some a) : inspect prologo tam = .ok a.plan ∧
      ∃ vmm firmas m', logrado m.vmm.newAddressSpace = some (a.aspace, vmm) ∧
        abreFirmas env a.plan = some firmas ∧
        segundoPase env a.plan a.aspace firmas ⟨vmm, m.datos⟩ = some (a.obra, m') ∧
        ∃ m'' m₃, (List.range userStackPages).foldlM (ponPila a.aspace) m' = some m'' ∧
          (List.range maxChannelPages).foldlM (ponCanal env a.aspace) m'' = some m₃ ∧
          ponPilaDeKernel m₃ = some (a.kstackBase, a.maquina) := by
  unfold admitPayloadDesde at h
  simp only [Option.bind_eq_bind, Option.bind_eq_some_iff, Prod.exists] at h
  obtain ⟨plan, hplan, aspace, vmm, hv, firmas, hf, -, -, obra, m', hs, m'', h1, m₃, h2, kb, m₄, h3,
    tid, -, ha⟩ := h
  obtain rfl := Option.some.inj ha
  refine ⟨?_, vmm, firmas, m', hv, hf, hs, m'', m₃, h1, h2, h3⟩
  cases hi : inspect prologo tam with
  | error f =>
    rw [hi] at hplan
    cases hplan
  | ok p =>
    rw [hi] at hplan
    obtain rfl := Option.some.inj hplan
    rfl

private theorem segundoPase_spec {env : Entorno} {plan : BexLoadPlan} {aspace : UInt64}
    {firmas : Option Firmas} {m m' : Maquina} {o : Obra}
    (h : segundoPase env plan aspace firmas m = some (o, m')) :
    ∃ relocs marcos sinFirma fisica,
      traeRelocs env plan firmas m.vmm.fisica = some (relocs, marcos, sinFirma, fisica) ∧
      plan.orden.foldlM (aterrizaSeccion env plan firmas relocs aspace)
        { maquina := ⟨{ m.vmm with fisica }, m.datos⟩, sinFirma } = some o ∧
      o.aplicadas = cuantasRelocs plan.relocsFileSize ∧
      m' = ⟨{ o.maquina.vmm with fisica := sueltaRelocs o.maquina.vmm.fisica marcos },
        o.maquina.datos⟩ := by
  unfold segundoPase at h
  simp only [Option.bind_eq_bind, Option.bind_eq_some_iff, Prod.exists] at h
  obtain ⟨relocs, marcos, sinFirma, fisica, hr, o', ho, _, hg, _, -, hx⟩ := h
  obtain ⟨rfl, rfl⟩ := Prod.mk.inj (Option.some.inj hx)
  have hg' : o'.aplicadas = cuantasRelocs plan.relocsFileSize := by
    unfold guard at hg
    split at hg
    · next h => exact h
    · cases hg
  exact ⟨relocs, marcos, sinFirma, fisica, hr, ho, hg', rfl⟩

/-! ### The area of the image -/

/-- The areas of a process that are not of its image, each with its first address and its size: the
stack, the channel, the memory it asks for and what it is lent. -/
def zonas : List (Nat × Nat) :=
  [(userStackBottom.toNat, userStackSize.toNat), (channelVaBase.toNat, 16 * 4096),
    (memoriaVaBase.toNat, 4 * 67108864), (0x100000000, 16 * 67108864)]

/-- An address of a section. -/
def BexLoadPlan.Tiene (plan : BexLoadPlan) (i x : Nat) : Prop :=
  ∃ s, plan.sections[i]? = some s ∧ (plan.vaDe i).toNat ≤ x ∧
    x < (plan.vaDe i).toNat + s.memSize.toNat

/-- The image stays in its area: its sections do not wrap, nor share an address, nor reach another
area, and the process starts in a page that was mapped from a section of code. -/
structure Contenida (plan : BexLoadPlan) (entryVa : UInt64) : Prop where
  noVuelve : ∀ i s, plan.sections[i]? = some s →
    (plan.vaDe i).toNat + s.memSize.toNat ≤ 2 ^ 64
  disjuntas : ∀ i j x, i ≠ j → plan.Tiene i x → ¬plan.Tiene j x
  fuera : ∀ i x, plan.Tiene i x → ∀ z ∈ zonas, ¬(z.1 ≤ x ∧ x < z.1 + z.2)
  entra : ∃ i s, plan.sections[i]? = some s ∧ s.kind = code ∧ ∃ p < s.paginas.toNat,
    (plan.vaDe i + UInt64.ofNat p * page).toNat ≤ entryVa.toNat ∧
      entryVa.toNat < (plan.vaDe i + UInt64.ofNat p * page).toNat + 4096

/-- The entry point, counted from the section of code that comes last in the file, is in the pages
of a section of code. -/
def BexLoadPlan.EntraEnCodigo (plan : BexLoadPlan) : Prop :=
  ∃ k, plan.ultimaDeCodigo = some k ∧ ∃ i s, plan.sections[i]? = some s ∧ s.kind = code ∧
    plan.lugar i ≤ plan.lugar k + plan.entryOffset.toNat ∧
      plan.lugar k + plan.entryOffset.toNat < plan.lugar i + alza 4096 s.memSize.toNat

namespace BexLoadPlan

variable {plan : BexLoadPlan}

private theorem colocada (hv : plan.Vale) :
    (Caben userImageBase.toNat plan.sections ∧
      ∀ i < plan.sections.length, (plan.vaDe i).toNat = plan.lugar i ∧ plan.lugar i ≤ techo) ∨
    Pisa userImageBase plan.sections := by
  rcases @colocar_cases _ hv.alignment userImageBase (by decide) (by decide) with
    ⟨h1, h2, h3⟩ | h
  · refine .inl ⟨h1, fun i hi ↦ ?_⟩
    have hi' : i < (lugares userImageBase.toNat plan.sections).length := by rwa [length_lugares]
    unfold vaDe lugar
    have hmap : ((colocar userImageBase plan.sections).getD i 0).toNat =
        ((colocar userImageBase plan.sections).map UInt64.toNat).getD i 0 :=
      (List.getD_map _ 0 UInt64.toNat).symm
    rw [hmap, h2, List.getD_eq_getElem _ _ hi']
    exact ⟨rfl, h3 _ (List.getElem_mem _)⟩
  · exact .inr h

private theorem lugar_sigue (hv : plan.Vale) {i j : Nat} {s : BexMapping} (hij : i < j)
    (hi : plan.sections[i]? = some s) (hj : j < plan.sections.length) :
    plan.lugar i + alza 4096 s.memSize.toNat ≤ plan.lugar j :=
  lugares_sigue hv.alignment hij hi hj

/-- A page of a section that fits. -/
theorem toNat_pagina (hc : Caben userImageBase.toNat plan.sections) {i : Nat} {s : BexMapping}
    (hi : plan.sections[i]? = some s) (hva : (plan.vaDe i).toNat = plan.lugar i)
    {p : Nat} (hp : p < s.paginas.toNat) :
    s.paginas.toNat * 4096 = alza 4096 s.memSize.toNat ∧
      plan.lugar i + alza 4096 s.memSize.toNat ≤ techo + 4096 ∧
      (plan.vaDe i + UInt64.ofNat p * page).toNat = plan.lugar i + p * 4096 := by
  have htecho : techo = 2147418112 := rfl
  have hm : s.memSize ≠ 0 := by
    intro h0
    unfold BexMapping.paginas at hp
    rw [h0] at hp
    cases hp
  have hfit := hc i s hi hm
  change plan.lugar i + s.memSize.toNat ≤ techo at hfit
  have hpag := toNat_paginas (s := s) (by omega)
  have hle : alza 4096 s.memSize.toNat < s.memSize.toNat + 4096 := by
    unfold alza
    omega
  have hpg : page.toNat = 4096 := rfl
  refine ⟨hpag, by omega, ?_⟩
  rw [UInt64.toNat_add, UInt64.toNat_mul, hva, hpg, UInt64.toNat_ofNat', Nat.mod_eq_of_lt (a := p)
    (by omega), Nat.mod_eq_of_lt (a := p * 4096) (by omega), Nat.mod_eq_of_lt (by omega)]

end BexLoadPlan

/-- An image that was admitted stays in its area exactly when its sections, one after the other on
pages of their own from the base of the image on, end below the stack, and the entry point is in
code when it is counted from the section of code that comes last in the file. -/
theorem contenida_iff (env : Entorno) (m : Maquina) (prologo : Bytes) (tam : UInt64)
    (plan : BexLoadPlan) (hp : inspect prologo tam = .ok plan) (a : Admitido)
    (ha : admitPayloadDesde env m prologo tam = some a) :
    Contenida plan a.obra.entryVa ↔
      Caben userImageBase.toNat plan.sections ∧ plan.EntraEnCodigo := by
  obtain ⟨hi, vmm, firmas, m', -, -, hs, -⟩ := admite_spec ha
  obtain rfl := Except.ok.inj (hi.symm.trans hp)
  obtain ⟨relocs, marcos, sinFirma, fisica, -, ho, -, -⟩ := segundoPase_spec hs
  have hva := vale_inspect hp
  have hentry := entryVa_foldlM ho
  have htecho : techo = 2147418112 := rfl
  rcases BexLoadPlan.colocada hva with ⟨hc, hcol⟩ | ⟨i, s, hi, hm, hv, hle, hlt⟩
  · -- the code that comes last in the file
    have hlt : ∀ i s, a.plan.sections[i]? = some s → i < a.plan.sections.length := by
      intro i s hi
      exact (List.getElem?_eq_some_iff.mp hi).1
    obtain ⟨k, hk, hkc⟩ : ∃ k, a.plan.ultimaDeCodigo = some k ∧ k < a.plan.sections.length := by
      obtain ⟨s, hs, hsk, -⟩ := hva.entry
      obtain ⟨i, hi, rfl⟩ := List.getElem_of_mem hs
      have hmem : i ∈ a.plan.orden.filter a.plan.esDeCodigo := by
        refine List.mem_filter.mpr ⟨(a.plan.mem_orden i).mpr hi, ?_⟩
        unfold BexLoadPlan.esDeCodigo
        rw [List.getElem?_eq_getElem hi]
        exact decide_eq_true hsk
      have hne : a.plan.orden.filter a.plan.esDeCodigo ≠ [] := List.ne_nil_of_mem hmem
      refine ⟨_, List.getLast?_eq_getLast_of_ne_nil hne, ?_⟩
      exact (a.plan.mem_orden _).mp (List.mem_filter.mp (List.getLast_mem hne)).1
    have hoff : a.plan.entryOffset.toNat < techo := by
      obtain ⟨s, hs, hsk, he⟩ := hva.entry
      obtain ⟨i, hi, rfl⟩ := List.getElem_of_mem hs
      have := hc i _ (List.getElem?_eq_getElem hi) (hva.code _ hs hsk)
      have := UInt64.lt_iff_toNat_lt.mp he
      omega
    have hev : a.obra.entryVa.toNat = a.plan.lugar k + a.plan.entryOffset.toNat := by
      have hlast : (a.plan.orden.filter a.plan.esDeCodigo).getLast? = some k := hk
      rw [hentry, hlast]
      change (a.plan.vaDe k + a.plan.entryOffset).toNat = _
      obtain ⟨h1, h2⟩ := hcol k hkc
      rw [UInt64.toNat_add, h1, Nat.mod_eq_of_lt (by omega)]
    have hiff : (∃ i s, a.plan.sections[i]? = some s ∧ s.kind = code ∧ ∃ p < s.paginas.toNat,
        (a.plan.vaDe i + UInt64.ofNat p * page).toNat ≤ a.obra.entryVa.toNat ∧
          a.obra.entryVa.toNat < (a.plan.vaDe i + UInt64.ofNat p * page).toNat + 4096) ↔
        a.plan.EntraEnCodigo := by
      constructor
      · rintro ⟨i, s, hi, hk', p, hp, h1, h2⟩
        obtain ⟨h3, -, h4⟩ := BexLoadPlan.toNat_pagina hc hi (hcol i (hlt i s hi)).1 hp
        rw [h4, hev] at h1 h2
        refine ⟨k, hk, i, s, hi, hk', by omega, ?_⟩
        have : (p + 1) * 4096 ≤ s.paginas.toNat * 4096 := Nat.mul_le_mul_right _ hp
        omega
      · rintro ⟨k', hk', i, s, hi, hic, h1, h2⟩
        obtain rfl := Option.some.inj (hk.symm.trans hk')
        have hpag := toNat_paginas (s := s) (by
          have := hc i s hi (hva.code s (List.mem_of_getElem? hi) hic)
          omega)
        have hp : (a.plan.lugar k + a.plan.entryOffset.toNat - a.plan.lugar i) / 4096 <
            s.paginas.toNat := by
          rw [Nat.div_lt_iff_lt_mul (by decide), hpag]
          omega
        obtain ⟨-, -, h4⟩ := BexLoadPlan.toNat_pagina hc hi (hcol i (hlt i s hi)).1 hp
        refine ⟨i, s, hi, hic, _, hp, ?_, ?_⟩
        · rw [h4, hev]
          omega
        · rw [h4, hev]
          omega
    refine ⟨fun h ↦ ⟨hc, hiff.mp h.entra⟩, fun h ↦ ⟨fun i s hi ↦ ?_, ?_, ?_, hiff.mpr h.2⟩⟩
    · obtain ⟨h1, h2⟩ := hcol i (hlt i s hi)
      by_cases h0 : s.memSize = 0
      · rw [h0, h1]
        have : (0 : UInt64).toNat = 0 := rfl
        omega
      · have := hc i s hi h0
        change a.plan.lugar i + s.memSize.toNat ≤ techo at this
        omega
    · rintro i j x hij ⟨s, hi, hx1, hx2⟩ ⟨t, hj, hx3, hx4⟩
      rw [(hcol i (hlt i s hi)).1] at hx1 hx2
      rw [(hcol j (hlt j t hj)).1] at hx3 hx4
      have hs' := le_alza (by decide : 0 < 4096) s.memSize.toNat
      have ht' := le_alza (by decide : 0 < 4096) t.memSize.toNat
      rcases Nat.lt_or_gt_of_ne hij with h | h
      · have := BexLoadPlan.lugar_sigue hva h hi (hlt j t hj)
        omega
      · have := BexLoadPlan.lugar_sigue hva h hj (hlt i s hi)
        omega
    · rintro i x ⟨s, hi, hx1, hx2⟩ z hz ⟨hz1, -⟩
      rw [(hcol i (hlt i s hi)).1] at hx1 hx2
      have h0 : s.memSize ≠ 0 := by
        intro h0
        rw [h0] at hx2
        exact absurd (Nat.lt_of_le_of_lt hx1 hx2) (Nat.lt_irrefl _)
      have hfit := hc i s hi h0
      change a.plan.lugar i + s.memSize.toNat ≤ techo at hfit
      have hbase : ∀ z ∈ zonas, techo ≤ z.1 := by decide
      have := hbase z hz
      omega
  · -- a section runs over the bottom of the stack
    have hfuera : ¬Contenida a.plan a.obra.entryVa := by
      intro h
      have htiene : a.plan.Tiene i techo := ⟨s, hi, hv ▸ hle, hv ▸ hlt⟩
      exact h.fuera i techo htiene (userStackBottom.toNat, userStackSize.toNat)
        List.mem_cons_self ⟨Nat.le_refl _, by decide⟩
    refine ⟨fun h ↦ absurd h hfuera, fun h ↦ ?_⟩
    have := h.1 i s hi hm
    omega

/-! ### An image of one byte of code -/

/-- An entry of the table of sections. -/
def bytesDeSeccion (s : Seccion) : Bytes :=
  [s.kind, 0, 0, 0] ++ u32Le s.flags ++ u64Le s.fileOffset ++ u64Le s.fileSize ++ u64Le s.memSize ++
    zeros 8 ++ u16Le s.alignment ++ zeros 6

/-- A header that passes, for a table after it. -/
def bytesDeCabecera (entryOffset : UInt64) (cuantas totalSize : UInt32) : Bytes :=
  u32Le magic ++ u16Le versionMayor ++ zeros 2 ++ u32Le flagEjecutable ++ [archX8664, endianLe] ++
    zeros 2 ++ [abiMayor, abiMenor] ++ zeros 6 ++ u64Le entryOffset ++ u64Le 48 ++ u32Le cuantas ++
    u32Le totalSize

/-- A `ret`, and `mem` bytes of zeros. -/
def unRet (mem : UInt64) : Bytes :=
  bytesDeCabecera 0 2 145 ++ bytesDeSeccion ⟨0, code, seccionFlagExec, 144, 1, 1, 8⟩ ++
    bytesDeSeccion ⟨1, bss, 0, 0, 0, mem, 8⟩ ++ [0xC3]

def planDeUnRet (mem : UInt64) : BexLoadPlan where
  entryOffset := 0
  sections := [⟨code, seccionFlagExec, 144, 1, 1, 8, 0⟩, ⟨bss, 0, 0, 0, mem, 8, 1⟩]

/-- A machine with 64 frames, from the first megabyte on. -/
def maquinaChica : Maquina where
  vmm := { Vmm.mini with
    fisica :=
      { bitmap := fun i ↦ if i = 4 then 0 else ~~~0
        totalFrames := 0
        freeFrames := 64
        hint := 4
        titulares := .inicial } }
  datos _ _ := 0

/-- An image in memory, without signature nor requirements, and room for its task. -/
def entornoDe (imagen : Bytes) : Entorno where
  origen := .enMemoria imagen
  autoria _ _ := false
  juicio _ _ := true
  pagePhys i := 0x10000 + UInt64.ofNat i * page
  spawnUser := some 1

private theorem eq_ok_of_toOption {ε α : Type} {x : Except ε α} {a : α} (h : x.toOption = some a) :
    x = .ok a := by
  cases x with
  | error e => cases h
  | ok b => exact congrArg _ (Option.some.inj h)

/-- With two pages of zeros the image stays in its area. -/
theorem contenida_unRet :
    ∃ a, admitPayloadDesde (entornoDe (unRet 8192)) maquinaChica (unRet 8192) 145 = some a ∧
      Contenida (planDeUnRet 8192) a.obra.entryVa := by
  have hp : inspect (unRet 8192) 145 = .ok (planDeUnRet 8192) :=
    eq_ok_of_toOption (by decide +kernel)
  have ha : (admitPayloadDesde (entornoDe (unRet 8192)) maquinaChica (unRet 8192) 145).isSome =
      true := by decide +kernel
  obtain ⟨a, ha⟩ := Option.isSome_iff_exists.mp ha
  refine ⟨a, ha, (contenida_iff _ _ _ _ _ hp a ha).mpr ⟨fun i s hi _ ↦ ?_, 0, by decide, 0,
    ⟨code, seccionFlagExec, 144, 1, 1, 8, 0⟩, rfl, rfl, by decide, by decide⟩⟩
  match i, hi with
  | 0, hi =>
    obtain rfl := Option.some.inj hi
    decide
  | 1, hi =>
    obtain rfl := Option.some.inj hi
    decide
  | _ + 2, hi => cases hi

/-- With 2⁶⁴ − 1 bytes of zeros it is admitted, no page of them is mapped, and they wrap. -/
theorem admitida_sin_sitio :
    ∃ a, admitPayloadDesde (entornoDe (unRet 0xFFFFFFFFFFFFFFFF)) maquinaChica
        (unRet 0xFFFFFFFFFFFFFFFF) 145 = some a ∧
      inspect (unRet 0xFFFFFFFFFFFFFFFF) 145 = .ok (planDeUnRet 0xFFFFFFFFFFFFFFFF) ∧
      ¬Contenida (planDeUnRet 0xFFFFFFFFFFFFFFFF) a.obra.entryVa := by
  have ha : (admitPayloadDesde (entornoDe (unRet 0xFFFFFFFFFFFFFFFF)) maquinaChica
      (unRet 0xFFFFFFFFFFFFFFFF) 145).isSome = true := by decide +kernel
  obtain ⟨a, ha⟩ := Option.isSome_iff_exists.mp ha
  refine ⟨a, ha, eq_ok_of_toOption (by decide +kernel), fun h ↦ ?_⟩
  exact absurd (h.noVuelve 1 _ rfl) (by decide)

end BmoX.Bex
