import BmoX.Inti.Emision

/-!
# What an instruction writes

Besides the place of its own temporal, the code of an instruction writes registers of work, those that
a call does not keep, and those of its row of the table. None of them is given to a temporal.
-/

namespace BmoX.Inti

/-- Code that writes no other general register. -/
def Solo (rs : List Nat) (code : List Ins) : Prop := ∀ ins ∈ code, ∀ x ∈ ins.escribe, x ∈ rs

section

variable {rs rs' : List Nat} {code code' : List Ins}

@[simp] theorem solo_nil : Solo rs [] := fun _ hins ↦ absurd hins List.not_mem_nil

@[simp] theorem solo_cons {ins : Ins} :
    Solo rs (ins :: code) ↔ (∀ x ∈ ins.escribe, x ∈ rs) ∧ Solo rs code :=
  List.forall_mem_cons

theorem Solo.mono (h : Solo rs code) (hrs : rs ⊆ rs') : Solo rs' code :=
  fun ins hins x hx ↦ hrs (h ins hins x hx)

theorem Solo.append (h : Solo rs code) (h' : Solo rs code') : Solo rs (code ++ code') := by
  intro ins hins
  rcases List.mem_append.mp hins with hins | hins
  · exact h ins hins
  · exact h' ins hins

theorem Solo.flatMap {α : Type} {as : List α} {g : α → List Ins} (h : ∀ a ∈ as, Solo rs (g a)) :
    Solo rs (as.flatMap g) := by
  intro ins hins
  obtain ⟨a, ha, hins⟩ := List.mem_flatMap.mp hins
  exact h a ha ins hins

end

variable {marco : Marco} {taller : Taller}

attribute [local simp] Ins.escribe

/-- A value is brought to its register only. -/
theorem solo_carga (marco : Marco) (reg : Nat) (v : Valor) : Solo [reg] (carga marco reg v) := by
  intro ins hins x hx
  unfold carga at hins
  split at hins
  case h_8 t =>
    split at hins
    · split at hins
      · rw [List.mem_singleton] at hins
        subst hins
        exact hx
      · cases hins
    · rw [List.mem_singleton] at hins
      subst hins
      exact hx
  all_goals
    rw [List.mem_singleton] at hins
    subst hins
    exact hx

private theorem solo_carga_mem {rs : List Nat} {reg : Nat} (hreg : reg ∈ rs) (v : Valor) :
    Solo rs (carga marco reg v) :=
  (solo_carga marco reg v).mono (by simpa using hreg)

theorem solo_binaria (op : Op) (sinSigno : Bool) : Solo [0, 1, 2] (binaria op sinSigno) := by
  cases op <;> cases sinSigno <;> simp [binaria, Ins.escribe, IZQ, DER]

private theorem solo_flotante (op : Op) : Solo [0, 1, 2] (flotante op) := by
  cases op <;> simp [flotante, comparaFlotantes, Ins.escribe, IZQ, DER]

theorem solo_noCero (sobre : Valor) (codigo : Nat) : Solo [0, 1, 2] (noCero marco sobre codigo) :=
  .append (solo_carga_mem (by decide) _) (by simp [Ins.escribe])

private theorem solo_comprueba (que : Comprobacion) (sinSigno : Bool) (sobre : Valor)
    (contra : Option Valor) : Solo [0, 1, 2] (comprueba marco que sinSigno sobre contra) := by
  unfold comprueba
  cases que with
  | desborde => simp [Ins.escribe]
  | entreCero => exact solo_noCero _ _
  | indice => exact solo_noCero _ _
  | conversion bytes =>
    unfold reglaDoce
    refine .append (.append (solo_carga_mem (by decide) _) (by simp [Ins.escribe, IZQ, DER])) ?_
    split
    · simp
    · simp [Ins.escribe, DER]
  | cociente =>
    cases contra with
    | none => simp
    | some divisor =>
      exact .append (.append (.append (solo_carga_mem (by decide) _) (by simp [Ins.escribe]))
        (solo_carga_mem (by decide) _)) (by simp [Ins.escribe])

/-- The registers that the code of an instruction may write, but the place of what it defines. -/
def trabajo (taller : Taller) : Instr → List Nat
  | .llama _ _ _ => 4 :: pisaLlamada
  | .metal _ nombre _ =>
    [0, 1, 2] ++ (taller.fila nombre).elim [] fun fila ↦ fila.pisa ++ silicio fila.nombre
  | _ => [0, 1, 2]

/-- An instruction of the code of another: it writes registers of work, or stores what it defines. -/
def Conocida (taller : Taller) (marco : Marco) (i : Instr) (ins : Ins) : Prop :=
  (∀ x ∈ ins.escribe, x ∈ trabajo taller i) ∨
    ∃ d reg, i.define = some d ∧ ins ∈ guardaTemporal marco reg d

theorem conocida_of_solo {i : Instr} {code : List Ins} (h : Solo (trabajo taller i) code) {ins : Ins}
    (hins : ins ∈ code) : Conocida taller marco i ins :=
  .inl (h ins hins)

/-- A body, and what is defined to its place. -/
theorem conocida_append {i : Instr} {code : List Ins} (h : Solo (trabajo taller i) code) {reg : Nat}
    {ins : Ins} (hins : ins ∈ code ++ i.define.toList.flatMap (guardaTemporal marco reg)) :
    Conocida taller marco i ins := by
  rcases List.mem_append.mp hins with hins | hins
  · exact .inl (h ins hins)
  · obtain ⟨d, hd, hins⟩ := List.mem_flatMap.mp hins
    exact .inr ⟨d, reg, Option.mem_toList.mp hd, hins⟩

theorem conocida_guarda {i : Instr} {d : Temporal} (hd : i.define = some d) {code : List Ins}
    {reg : Nat} (h : Solo (trabajo taller i) code) {ins : Ins}
    (hins : ins ∈ code ++ guardaTemporal marco reg d) : Conocida taller marco i ins := by
  rcases List.mem_append.mp hins with hins | hins
  · exact .inl (h ins hins)
  · exact .inr ⟨d, reg, hd, hins⟩

theorem solo_argumentosMetal {rs : List Nat} (h0 : 0 ∈ rs) (h2 : 2 ∈ rs) (args : List String)
    (as : List Valor) (h : ∀ r ∈ args.filterMap registroLlamado, r ∈ rs) :
    Solo rs (argumentosMetal marco args as).1 := by
  induction args generalizing as with
  | nil =>
    rw [argumentosMetal]
    · simp
    · simp
  | cons arg args ih =>
    have hargs : ∀ r ∈ args.filterMap registroLlamado, r ∈ rs := by
      intro r hr
      obtain ⟨a, ha, hreg⟩ := List.mem_filterMap.mp hr
      exact h r (List.mem_filterMap.mpr ⟨a, List.mem_cons_of_mem _ ha, hreg⟩)
    cases as with
    | nil =>
      rw [argumentosMetal]
      · simp
      · simp
    | cons a as =>
      rw [argumentosMetal]
      split
      · refine .append (.append (solo_carga_mem h0 _) ?_) (ih as hargs)
        simp [Ins.escribe, h2]
      · split
        · refine .append (.append (solo_carga_mem h0 _) ?_) (ih as hargs)
          simp [Ins.escribe]
        · split
          next r hr =>
            have hmem : r ∈ rs := h r (List.mem_filterMap.mpr ⟨arg, List.mem_cons_self, hr⟩)
            exact .append (solo_carga_mem hmem _) (ih as hargs)
          next => simp

private theorem solo_recogeDe (returns : Option String) : Solo [0, 1, 2] (recogeDe returns) := by
  unfold recogeDe
  split
  · split_ifs
    · simp [Ins.escribe, IZQ]
    · simp [Ins.escribe, IZQ]
    · simp [Ins.escribe, IZQ]
    · split
      · simp [Ins.escribe, IZQ]
      · simp
  · simp [Ins.escribe, IZQ]

theorem conocida_metal {nombre : String} {argumentos : List Valor} {destino : Option Temporal}
    {ins : Ins} (hins : ins ∈ metal taller marco nombre argumentos destino) :
    Conocida taller marco (.metal destino nombre argumentos) ins := by
  unfold metal at hins
  cases hfila : taller.fila nombre with
  | none =>
    rw [hfila] at hins
    cases hins
  | some fila =>
    rw [hfila] at hins
    have htrabajo : trabajo taller (.metal destino nombre argumentos) =
        [0, 1, 2] ++ (fila.pisa ++ silicio fila.nombre) := by
      simp [trabajo, hfila]
    have hargs : Solo (trabajo taller (.metal destino nombre argumentos))
        (argumentosMetal marco fila.args argumentos).1 := by
      rw [htrabajo]
      refine solo_argumentosMetal (by simp) (by simp) _ _ fun r hr ↦ ?_
      simp only [Fila.pisa, List.mem_append]
      exact .inr (.inl (.inl hr))
    dsimp only at hins
    split at hins
    · cases hins
    · split at hins
      · have hcuerpo : Solo (trabajo taller (.metal destino nombre argumentos))
            ((argumentosMetal marco fila.args argumentos).1 ++
              Ins.crudo fila.nombre fila.bytes :: recogeDe fila.returns) := by
          refine hargs.append ?_
          rw [← List.singleton_append, htrabajo]
          refine .append ?_ ((solo_recogeDe _).mono (List.subset_append_left ..))
          intro i hi x hx
          rw [List.mem_singleton] at hi
          subst hi
          exact List.mem_append_right _ (List.mem_append_right _ hx)
        exact @conocida_append marco taller _ _ hcuerpo _ _ hins
      · exact conocida_of_solo hargs hins

/-- The registers of the tables of this machine: those of work are none that is given out, and those
that are kept in a call are none that a call or the door writes. -/
structure Taller.Bien (taller : Taller) : Prop where
  trabajo : ∀ r ∈ taller.temporales ++ taller.preservados, r ∉ [0, 1, 4] ∧ r < 16
  preservados : ∀ r ∈ taller.preservados, r ∉ pisaLlamada
  puerta : ∀ r ∈ taller.puerta.numero :: taller.puerta.codigo :: taller.puerta.valor ::
    taller.puerta.argumentos, r ∈ pisaLlamada
  distintos : (taller.temporales ++ taller.preservados).Nodup

private theorem solo_cargas {regs : List Nat} (argumentos : List Valor)
    (hregs : ∀ r ∈ regs, r ∈ pisaLlamada) :
    Solo (4 :: pisaLlamada) ((regs.zip argumentos).flatMap fun (r, a) ↦ carga marco r a) := by
  apply Solo.flatMap
  rintro ⟨r, a⟩ hra
  exact solo_carga_mem (List.mem_cons_of_mem _ (hregs r (List.of_mem_zip hra).1)) a

private theorem conocida_llamada {destino : Option Temporal} {que : Valor}
    {argumentos : List Valor} {ins : Ins} {quien : List Ins} (hquien : Solo (4 :: pisaLlamada) quien)
    (hins : ins ∈ (argumentos.drop 6).reverse.flatMap (fun a ↦ carga marco 0 a ++ [Ins.push 0]) ++
      (ARGUMENTOS.zip argumentos).flatMap (fun (r, a) ↦ carga marco r a) ++ quien ++
      (if argumentos.length > 6 then [.retira ((argumentos.length - 6) * 8)] else []) ++
      destino.toList.flatMap (guardaTemporal marco IZQ)) :
    Conocida taller marco (.llama destino que argumentos) ins := by
  have htrabajo : trabajo taller (.llama destino que argumentos) = 4 :: pisaLlamada := rfl
  refine @conocida_append marco taller _ _ ?_ _ _ hins
  rw [htrabajo]
  refine .append (.append (.append ?_ (solo_cargas argumentos (by decide))) hquien) ?_
  · apply Solo.flatMap
    intro a _
    exact .append (solo_carga_mem (by decide) a) (by simp [Ins.escribe])
  · split
    · simp [Ins.escribe]
    · simp

private theorem conocida_llama (htaller : taller.Bien) {destino : Option Temporal} {que : Valor}
    {argumentos : List Valor} {ins : Ins} (hins : ins ∈ llama taller marco destino que argumentos) :
    Conocida taller marco (.llama destino que argumentos) ins := by
  have htrabajo : trabajo taller (.llama destino que argumentos) = 4 :: pisaLlamada := rfl
  have hcall {n : String} : Solo (4 :: pisaLlamada) [.call n] :=
    solo_cons.mpr ⟨fun x hx ↦ List.mem_cons_of_mem _ hx, solo_nil⟩
  unfold llama at hins
  dsimp only at hins
  split at hins
  next n =>
    split at hins
    · unfold llamaPuerta at hins
      dsimp only at hins
      rcases List.mem_append.mp hins with hins | hins
      · refine .inl ?_
        rw [htrabajo]
        refine Solo.append (solo_cargas argumentos fun r hr ↦ htaller.puerta r (by simp [hr])) ?_ ins hins
        have hnumero := htaller.puerta taller.puerta.numero (by simp)
        simp [Ins.escribe, hnumero]
        decide
      · obtain ⟨d, hd, hins⟩ := List.mem_flatMap.mp hins
        rcases List.mem_append.mp hins with hins | hins
        · refine .inl fun x hx ↦ ?_
          split at hins
          · rw [List.mem_singleton] at hins
            subst hins
            rw [List.mem_singleton.mp hx, htrabajo]
            apply List.mem_cons_of_mem
            apply htaller.puerta
            unfold Puerta.recogida
            split <;> simp
          · cases hins
        · exact .inr ⟨d, _, Option.mem_toList.mp hd, hins⟩
    · exact conocida_llamada hcall hins
  next hno =>
    refine conocida_llamada ?_ hins
    split
    · exact hcall
    · exact solo_nil

/-- **What the code of an instruction writes**: registers of work, and what it defines. -/
theorem conocida_emitir (htaller : taller.Bien) {i : Instr} (hi : ∀ v, i ≠ .devuelve v) {ins : Ins}
    (hins : ins ∈ emitir taller marco i) : Conocida taller marco i ins := by
  have hizq (v : Valor) : Solo [0, 1, 2] (carga marco IZQ v) := solo_carga_mem (by decide) v
  have hder (v : Valor) : Solo [0, 1, 2] (carga marco DER v) := solo_carga_mem (by decide) v
  cases i with
  | etiqueta e => cases hins
  | mueve destino origen =>
    exact conocida_guarda (i := .mueve destino origen) rfl (hizq origen) hins
  | guarda destino valor =>
    exact conocida_of_solo (i := .guarda destino valor)
      (.append (hizq valor) (by simp [Ins.escribe])) hins
  | binaria destino op clase sinSigno izquierda derecha =>
    refine conocida_guarda (i := .binaria destino op clase sinSigno izquierda derecha) rfl
      (.append (.append (hizq izquierda)
        (hder derecha)) ?_) hins
    cases clase with
    | entero => exact solo_binaria op sinSigno
    | flotante => exact solo_flotante op
  | convierte destino valor desde hacia =>
    refine conocida_guarda (i := .convierte destino valor desde hacia) rfl
      (.append (hizq valor) ?_) hins
    cases desde <;> cases hacia <;> simp [Ins.escribe, IZQ, trabajo]
  | unaria destino op clase valor =>
    refine conocida_guarda (i := .unaria destino op clase valor) rfl
      (.append (hizq valor) ?_) hins
    cases op <;> cases clase <;> simp [Ins.escribe, IZQ, trabajo]
  | comprueba que sinSigno sobre contra =>
    exact conocida_of_solo (i := .comprueba que sinSigno sobre contra)
      (solo_comprueba que sinSigno sobre contra) hins
  | devuelve v => exact absurd rfl (hi v)
  | salta e =>
    have hsolo : Solo (trabajo taller (.salta e)) [.saltaAlFinal e] := by simp [Ins.escribe]
    exact conocida_of_solo hsolo hins
  | saltaSi cond cierto falso =>
    exact conocida_of_solo (i := .saltaSi cond cierto falso)
      (.append (hizq cond) (by simp [Ins.escribe])) hins
  | llama destino que argumentos => exact conocida_llama htaller hins
  | lee destino direccion ancho =>
    refine conocida_guarda (i := .lee destino direccion ancho) rfl
      (.append (hizq direccion) ?_) hins
    split <;> simp [Ins.escribe, IZQ, trabajo]
  | direccion destino congelado =>
    have hsolo : Solo (trabajo taller (.direccion destino congelado)) [.movImm IZQ 0] := by
      simp [Ins.escribe, IZQ, trabajo]
    exact conocida_guarda rfl hsolo hins
  | direccionDeLocal destino l =>
    have hsolo : Solo (trabajo taller (.direccionDeLocal destino l))
        [.lea IZQ (marco.deLocal l)] := by
      simp [Ins.escribe, IZQ, trabajo]
    exact conocida_guarda rfl hsolo hins
  | montonDeLaTarea destino =>
    have hsolo : Solo (trabajo taller (.montonDeLaTarea destino))
        [.movImm IZQ 0, .leeEn 8 IZQ IZQ] := by
      simp [Ins.escribe, IZQ, trabajo]
    exact conocida_guarda rfl hsolo hins
  | escribe direccion valor ancho =>
    refine conocida_of_solo (i := .escribe direccion valor ancho) (.append ?_ ?_) hins
    · split
      · simp [Ins.escribe, IZQ, DER, trabajo]
      · split
        · exact .append (hizq direccion) (hder valor)
        · exact .append (hder valor) (hizq direccion)
    · split
      · simp [Ins.escribe]
      · simp
  | metal destino nombre argumentos => exact conocida_metal hins

/-! ### The registers that are given out -/

/-- A row that says what its instruction writes, of what is given out; `metal.rs:178–189`. -/
def Taller.Dice (taller : Taller) (fila : Fila) : Prop :=
  ∀ x ∈ silicio fila.nombre, x ∈ taller.temporales ++ taller.preservados →
    x ∈ [0, 1, 2] ∨ x ∈ fila.pisa

instance (fila : Fila) : Decidable (taller.Dice fila) := inferInstanceAs (Decidable (∀ _ ∈ _, _))

variable {f : FuncionIr}

/-- The registers that a function may give to its temporals. -/
def repartibles (f : FuncionIr) (taller : Taller) : List Nat :=
  pool f (taller.temporales.filter (· ∉ registrosQuePisa f taller))
    (taller.preservados.filter (· ∉ registrosQuePisa f taller))

theorem repartibles_sublist (f : FuncionIr) (taller : Taller) :
    (repartibles f taller).Sublist (taller.temporales ++ taller.preservados) := by
  unfold repartibles pool
  split
  · exact List.filter_sublist.trans (List.sublist_append_right ..)
  · exact List.filter_sublist.append List.filter_sublist

private theorem notMem_pisa_of_repartible {r : Nat} (hr : r ∈ repartibles f taller) :
    r ∉ registrosQuePisa f taller := by
  unfold repartibles pool at hr
  split at hr
  · simpa using (List.mem_filter.mp hr).2
  · rcases List.mem_append.mp hr with hr | hr
    · simpa using (List.mem_filter.mp hr).2
    · simpa using (List.mem_filter.mp hr).2

/-- **A register that is given out is written by no instruction of the function**, but for storing
what is defined. -/
theorem notMem_trabajo (htaller : taller.Bien) {r : Nat} (hr : r ∈ repartibles f taller) {i : Instr}
    (hi : i ∈ f.instrucciones)
    (hdice : ∀ d n as fila, i = .metal d n as → taller.fila n = some fila → taller.Dice fila) :
    r ∉ trabajo taller i := by
  have hpisa := notMem_pisa_of_repartible hr
  have hdado := (repartibles_sublist f taller).subset hr
  obtain ⟨h04, h16⟩ := htaller.trabajo r hdado
  have h2 : r ≠ 2 ∧ ∀ n fila, n ∈ metales f → taller.fila n = some fila → r ∉ fila.pisa := by
    unfold registrosQuePisa at hpisa
    split_ifs at hpisa
    · exact absurd (List.mem_range.mpr h16) hpisa
    · rw [List.mem_cons, not_or] at hpisa
      refine ⟨hpisa.1, fun n fila hn hfila hmem ↦ hpisa.2 ?_⟩
      rw [List.mem_flatMap]
      exact ⟨fila, List.mem_filterMap.mpr ⟨n, hn, hfila⟩, hmem⟩
    · exact absurd (List.mem_range.mpr h16) hpisa
  have h012 : r ∉ [0, 1, 2] := by
    simp only [List.mem_cons, List.not_mem_nil, or_false, not_or] at h04 ⊢
    exact ⟨h04.1, h04.2.1, h2.1⟩
  cases i with
  | llama d que as =>
    have hllama : llamaAlguien f = true := List.any_eq_true.mpr ⟨_, hi, rfl⟩
    unfold repartibles pool at hr
    rw [if_pos hllama] at hr
    have hno := htaller.preservados r (List.mem_filter.mp hr).1
    change r ∉ 4 :: pisaLlamada
    rw [List.mem_cons, not_or]
    refine ⟨fun h4 ↦ h04 ?_, hno⟩
    simp [h4]
  | metal d n as =>
    have hn : n ∈ metales f := List.mem_filterMap.mpr ⟨_, hi, rfl⟩
    change r ∉ [0, 1, 2] ++ (taller.fila n).elim [] fun fila ↦ fila.pisa ++ silicio fila.nombre
    cases hfila : taller.fila n with
    | none => simpa using h012
    | some fila =>
      have hno := h2.2 n fila hn hfila
      rw [Option.elim_some, List.mem_append, List.mem_append]
      rintro (hr | hr | hr)
      · exact h012 hr
      · exact hno hr
      · rcases hdice d n as fila rfl hfila r hr hdado with hr | hr
        · exact h012 hr
        · exact hno hr
  | _ => exact h012

end BmoX.Inti
