import BmoX.Base.X86
import Mathlib.Logic.Relation

/-!
# Code with loops and calls to the kernel

The same machine, for code whose jumps lead to any label of it, and with an instruction that asks
the kernel for something. What the kernel shows is listed. The rules for code without loops are
those of `run`, piece by piece.
-/

namespace BmoX.Base.X86

variable {L ε : Type}

/-- An instruction of the machine, or a call to the kernel. -/
inductive Op (L : Type)
  | instr (i : Instr L)
  | syscall

/-- The code that is left, the machine, and what the kernel has shown. -/
structure Conf (L ε : Type) where
  rest : List (Op L)
  machine : Machine
  out : List ε

/-- The label that an instruction is. -/
def Op.mark : Op L → Option L
  | .instr (.label l) => some l
  | _ => none

/-- The labels of a code. -/
def labels (code : List (Op L)) : List L := code.filterMap Op.mark

@[simp] theorem labels_append (is js : List (Op L)) :
    labels (is ++ js) = labels is ++ labels js :=
  List.filterMap_append

theorem mem_labels {l : L} {is : List (Op L)} : l ∈ labels is ↔ .instr (.label l) ∈ is := by
  rw [labels, List.mem_filterMap]
  constructor
  · rintro ⟨⟨⟨⟩⟩ | _, hi, hl⟩
    case instr.label => exact Option.some.inj hl ▸ hi
    all_goals cases hl
  · exact fun h ↦ ⟨_, h, rfl⟩

variable [DecidableEq L]

/-- The code after a label. -/
def after (l : L) : List (Op L) → Option (List (Op L))
  | [] => none
  | i :: is => if i.mark = some l then some is else after l is

/-- One instruction of a code, with what the kernel does at a call. -/
def next (sys : Machine → Machine × List ε) (code : List (Op L)) (c : Conf L ε) :
    Option (Conf L ε) :=
  match c.rest with
  | [] => none
  | .syscall :: is => some ⟨is, (sys c.machine).1, c.out ++ (sys c.machine).2⟩
  | .instr i :: is =>
    match step i c.machine with
    | .next m => some ⟨is, m, c.out⟩
    | .jump l m => (after l code).map fun js ↦ ⟨js, m, c.out⟩
    | .fault => none

/-- Some instructions later. -/
def Reaches (sys : Machine → Machine × List ε) (code : List (Op L)) : Conf L ε → Conf L ε → Prop :=
  Relation.ReflTransGen fun c c' ↦ next sys code c = some c'

/-- The code, from its start, comes to its end, and leaves the machine so and that shown. -/
def Ends (sys : Machine → Machine × List ε) (code : List (Op L)) (m m' : Machine) (out : List ε) :
    Prop :=
  Reaches sys code ⟨code, m, []⟩ ⟨[], m', out⟩

variable {sys : Machine → Machine × List ε} {code : List (Op L)} {c c' c'' : Conf L ε}

theorem Reaches.refl : Reaches sys code c c := Relation.ReflTransGen.refl

theorem Reaches.trans (h : Reaches sys code c c') (h' : Reaches sys code c' c'') :
    Reaches sys code c c'' :=
  Relation.ReflTransGen.trans h h'

theorem Reaches.step (h : next sys code c = some c') (h' : Reaches sys code c' c'') :
    Reaches sys code c c'' :=
  .head h h'

/-- A code comes to one end. -/
theorem Ends.unique {m m1 m2 : Machine} {out1 out2 : List ε} (h1 : Ends sys code m m1 out1)
    (h2 : Ends sys code m m2 out2) : m1 = m2 ∧ out1 = out2 := by
  have huno : Relator.RightUnique fun c c' : Conf L ε ↦ next sys code c = some c' :=
    fun c d e hd he ↦ Option.some.inj (hd.symm.trans he)
  have hfin {m m' : Machine} {out out' : List ε}
      (h : Relation.ReflTransGen (fun c c' : Conf L ε ↦ next sys code c = some c')
        ⟨[], m, out⟩ ⟨[], m', out'⟩) : m = m' ∧ out = out' := by
    rcases h.cases_head with heq | ⟨c, hc, -⟩
    · cases heq
      exact ⟨rfl, rfl⟩
    · cases hc
  rcases Relation.ReflTransGen.total_of_right_unique huno h1 h2 with h | h
  · exact hfin h
  · obtain ⟨hm, hout⟩ := hfin h
    exact ⟨hm.symm, hout.symm⟩

theorem mark_instr {i : Instr L} {l : L} : (Op.instr i).mark = some l ↔ i.is l = true := by
  cases i <;> simp [Instr.is, Op.mark]

/-- The code after a label that is not before. -/
theorem after_append {l : L} {pre : List (Op L)} (h : l ∉ labels pre) (is : List (Op L)) :
    after l (pre ++ .instr (.label l) :: is) = some is := by
  induction pre with
  | nil => exact if_pos rfl
  | cons i pre ih =>
    have hno : i.mark ≠ some l := fun hi ↦ h (List.mem_filterMap.mpr ⟨i, List.mem_cons_self, hi⟩)
    have hpre : l ∉ labels pre := fun hl ↦
      h (mem_labels.mpr (List.mem_cons_of_mem _ (mem_labels.mp hl)))
    rw [List.cons_append, after, if_neg hno]
    exact ih hpre

/-- The place of a label of a code without two of the same. -/
theorem after_of_nodup (hcode : (labels code).Nodup) {l : L} {pre post : List (Op L)}
    (h : code = pre ++ (.instr (.label l) :: post)) : after l code = some post := by
  have hpre : l ∉ labels pre := by
    rw [h, labels_append] at hcode
    intro hmem
    exact (List.disjoint_of_nodup_append hcode) hmem List.mem_cons_self
  rw [h]
  exact after_append hpre _

/-- A label of a code has a place in it. -/
theorem after_of_mem {l : L} (h : l ∈ labels code) : ∃ js, after l code = some js := by
  induction code with
  | nil => cases h
  | cons i is ih =>
    rw [after]
    split
    next => exact ⟨is, rfl⟩
    next hi =>
      obtain ⟨j, hj, hl⟩ := List.mem_filterMap.mp h
      rcases List.mem_cons.mp hj with rfl | hj
      · exact absurd hl hi
      · exact ih (List.mem_filterMap.mpr ⟨j, hj, hl⟩)

/-- Where a piece of code starts: at its first instruction, or after a label. -/
def entry (code rest : List (Op L)) : Option L → Option (List (Op L))
  | none => some rest
  | some l => after l code

/-- Where a piece of code leads: to what comes after it, or to a label. -/
def exit (code rest : List (Op L)) : Outcome L → Option (List (Op L) × Machine)
  | .next m => some (rest, m)
  | .jump l m => (after l code).map (·, m)
  | .fault => none

/-- What a search for a label comes to has a place where it begins. -/
theorem entry_of_exit {is : List (Instr L)} {pre post js' : List (Op L)}
    (h : code = pre ++ (is.map Op.instr ++ post)) {l : L} {m m' : Machine}
    (hexit : exit code post (run is (some l) m) = some (js', m')) :
    ∃ js, after l code = some js := by
  by_cases hmem : .label l ∈ is
  · apply after_of_mem
    rw [mem_labels, h]
    simp [hmem]
  · have hskip : run is (some l) m = .jump l m := by
      apply run_skip
      intro i hi
      rw [← Bool.not_eq_true, ← mark_instr]
      rcases i
      case label l' =>
        rintro heq
        cases heq
        exact hmem hi
      all_goals exact nofun
    rw [hskip, exit, Option.map_eq_some_iff] at hexit
    obtain ⟨js, hjs, -⟩ := hexit
    exact ⟨js, hjs⟩

/-- A piece without loops does what `run` says. -/
theorem reaches_run (hcode : (labels code).Nodup) {is : List (Instr L)}
    {pre post js js' : List (Op L)} (h : code = pre ++ (is.map Op.instr ++ post)) {t : Option L}
    {m m' : Machine} {out : List ε} (hentry : entry code (is.map Op.instr ++ post) t = some js)
    (hexit : exit code post (run is t m) = some (js', m')) :
    Reaches sys code ⟨js, m, out⟩ ⟨js', m', out⟩ := by
  induction is generalizing pre t m js with
  | nil =>
    cases t with
    | none =>
      cases hentry
      cases hexit
      exact .refl
    | some l =>
      rw [run, exit, show after l code = some js from hentry] at hexit
      cases hexit
      exact .refl
  | cons i is ih =>
    have hmas : code = (pre ++ [Op.instr i]) ++ (is.map Op.instr ++ post) := by
      rw [h, List.append_assoc]
      rfl
    cases t with
    | none =>
      cases hentry
      rw [run] at hexit
      cases hstep : X86.step i m with
      | next m1 =>
        rw [hstep] at hexit
        refine .step ?_ (ih hmas rfl hexit)
        simp only [List.map_cons, List.cons_append, next, hstep]
      | fault =>
        rw [hstep] at hexit
        cases hexit
      | jump l m1 =>
        rw [hstep] at hexit
        obtain ⟨js1, hjs1⟩ := entry_of_exit hmas hexit
        refine .step ?_ (ih hmas (t := some l) hjs1 hexit)
        simp only [List.map_cons, List.cons_append, next, hstep, hjs1, Option.map_some]
    | some l =>
      rw [run] at hexit
      split at hexit
      next hi =>
        obtain rfl : i = .label l := by
          cases i <;> simp_all [Instr.is]
        rw [entry, after_of_nodup hcode h] at hentry
        cases hentry
        exact ih hmas rfl hexit
      next => exact ih hmas (t := some l) hentry hexit

variable {is : List (Instr L)} {pre post : List (Op L)} {m m' : Machine} {out : List ε} {l : L}

/-- The label that an instruction may jump to. -/
def target : Instr L → Option L
  | .jmp l => some l
  | .jcc _ l => some l
  | _ => none

omit [DecidableEq L] in
theorem target_of_step {i : Instr L} (h : X86.step i m = .jump l m') : target i = some l := by
  cases i <;> simp only [X86.step] at h <;> try cases h
  case pop => split at h <;> cases h
  case idiv => split at h <;> cases h
  case div => split at h <;> cases h
  case jmp => rfl
  case jcc =>
    split at h
    · cases h
    · split at h
      · cases h
        rfl
      · cases h

/-- A code jumps out of itself to a label of its jumps. -/
theorem mem_targets_of_jump {t : Option L} (h : run is t m = .jump l m') :
    t = some l ∨ l ∈ is.filterMap target := by
  induction is generalizing t m with
  | nil =>
    cases t with
    | none => cases h
    | some l' =>
      rw [run] at h
      cases h
      exact .inl rfl
  | cons i is ih =>
    have hmas {l' : L} (hl : l' ∈ is.filterMap target) : l' ∈ (i :: is).filterMap target := by
      rw [List.mem_filterMap] at hl ⊢
      obtain ⟨j, hj, htarget⟩ := hl
      exact ⟨j, List.mem_cons_of_mem _ hj, htarget⟩
    cases t with
    | none =>
      rw [run] at h
      right
      cases hstep : X86.step i m with
      | next m1 =>
        rw [hstep] at h
        rcases ih h with hno | hl
        · cases hno
        · exact hmas hl
      | fault =>
        rw [hstep] at h
        cases h
      | jump l1 m1 =>
        rw [hstep] at h
        rcases ih h with hl | hl
        · cases hl
          exact List.mem_filterMap.mpr ⟨i, List.mem_cons_self, target_of_step hstep⟩
        · exact hmas hl
    | some l' =>
      rw [run] at h
      split at h
      · rcases ih h with hno | hl
        · cases hno
        · exact .inr (hmas hl)
      · rcases ih h with hl | hl
        · exact .inl hl
        · exact .inr (hmas hl)

theorem reaches_next (hcode : (labels code).Nodup) (h : code = pre ++ (is.map Op.instr ++ post))
    (hrun : run is none m = .next m') :
    Reaches sys code ⟨is.map Op.instr ++ post, m, out⟩ ⟨post, m', out⟩ :=
  reaches_run hcode h (t := none) rfl (by rw [hrun, exit])

theorem reaches_jump (hcode : (labels code).Nodup) (h : code = pre ++ (is.map Op.instr ++ post))
    (hrun : run is none m = .jump l m') {js : List (Op L)} (hl : after l code = some js) :
    Reaches sys code ⟨is.map Op.instr ++ post, m, out⟩ ⟨js, m', out⟩ :=
  reaches_run hcode h (t := none) rfl (by rw [hrun, exit, hl, Option.map_some])

/-- A piece that jumps back to its start while it goes on, and leads somewhere when it is done: what
holds at its start each time comes nearer to its end. -/
theorem reaches_loop (hcode : (labels code).Nodup)
    (h : code = pre ++ (.instr (.label l) :: (is.map Op.instr ++ post))) {J : Nat → Machine → Prop}
    {Q : List (Op L) → Machine → Prop}
    (hstep : ∀ k m, J k m → (∃ k' < k, ∃ m', run is none m = .jump l m' ∧ J k' m') ∨
      ∃ js m', exit code post (run is none m) = some (js, m') ∧ Q js m')
    {k : Nat} (hJ : J k m) :
    ∃ js m', Reaches sys code ⟨is.map Op.instr ++ post, m, out⟩ ⟨js, m', out⟩ ∧ Q js m' := by
  have h' : code = (pre ++ [Op.instr (.label l)]) ++ (is.map Op.instr ++ post) := by
    rw [h, List.append_assoc]
    rfl
  induction k using Nat.strong_induction_on generalizing m with
  | h k ih =>
    rcases hstep k m hJ with ⟨k', hk, m1, hrun, hJ'⟩ | ⟨js, m', he, hQ⟩
    · obtain ⟨js, m', hreach, hQ⟩ := ih k' hk hJ'
      exact ⟨js, m', (reaches_jump hcode h' hrun (after_of_nodup hcode h)).trans hreach, hQ⟩
    · exact ⟨js, m', reaches_run hcode h' (t := none) rfl he, hQ⟩

theorem reaches_label :
    Reaches sys code ⟨.instr (.label l) :: post, m, out⟩ ⟨post, m, out⟩ :=
  .step rfl .refl

theorem reaches_jmp {js : List (Op L)} (h : after l code = some js) :
    Reaches sys code ⟨.instr (.jmp l) :: post, m, out⟩ ⟨js, m, out⟩ := by
  refine .step ?_ .refl
  simp only [next, X86.step, h, Option.map_some]

theorem reaches_syscall :
    Reaches sys code ⟨.syscall :: post, m, out⟩ ⟨post, (sys m).1, out ++ (sys m).2⟩ :=
  .step rfl .refl

/-! ### Code whose jumps are all ahead -/

/-- One instruction of a code that does not jump back. -/
def ahead (sys : Machine → Machine × List ε) (c : Conf L ε) : Option (Conf L ε) :=
  match c.rest with
  | [] => none
  | .syscall :: is => some ⟨is, (sys c.machine).1, c.out ++ (sys c.machine).2⟩
  | .instr i :: is =>
    match step i c.machine with
    | .next m => some ⟨is, m, c.out⟩
    | .jump l m => (after l is).map fun js ↦ ⟨js, m, c.out⟩
    | .fault => none

/-- Some instructions later. -/
def Leads (sys : Machine → Machine × List ε) : Conf L ε → Conf L ε → Prop :=
  Relation.ReflTransGen fun c c' ↦ ahead sys c = some c'

theorem Leads.refl : Leads sys c c := Relation.ReflTransGen.refl

theorem Leads.trans (h : Leads sys c c') (h' : Leads sys c' c'') : Leads sys c c'' :=
  Relation.ReflTransGen.trans h h'

theorem Leads.step (h : ahead sys c = some c') (h' : Leads sys c' c'') : Leads sys c c'' :=
  .head h h'

/-- Labels that a piece does not have are after it. -/
theorem after_append_of_notMem {is js : List (Op L)} (h : l ∉ labels is) :
    after l (is ++ js) = after l js := by
  induction is with
  | nil => rfl
  | cons i is ih =>
    have hi : i.mark ≠ some l := fun hi ↦
      h (List.mem_filterMap.mpr ⟨i, List.mem_cons_self, hi⟩)
    have his : l ∉ labels is := fun hl ↦
      h (mem_labels.mpr (List.mem_cons_of_mem _ (mem_labels.mp hl)))
    rw [List.cons_append, after, if_neg hi, ih his]

/-- What a search for a label comes to has the label ahead. -/
theorem after_of_exit {is : List (Instr L)} {post js' : List (Op L)} {m m' : Machine} {l : L}
    (hexit : exit post post (run is (some l) m) = some (js', m')) :
    ∃ js, after l (is.map Op.instr ++ post) = some js := by
  by_cases hmem : l ∈ labels (is.map Op.instr)
  · apply after_of_mem
    rw [labels_append]
    exact List.mem_append_left _ hmem
  · have hskip : run is (some l) m = .jump l m := by
      apply run_skip
      intro i hi
      rw [← Bool.not_eq_true, ← mark_instr]
      intro hmark
      exact hmem (List.mem_filterMap.mpr ⟨_, List.mem_map_of_mem hi, hmark⟩)
    rw [hskip, exit, Option.map_eq_some_iff] at hexit
    obtain ⟨js, hjs, -⟩ := hexit
    exact ⟨js, (after_append_of_notMem hmem).trans hjs⟩

/-- A piece of instructions does what `run` says. -/
theorem leads_run {t : Option L} {is : List (Instr L)} {post js js' : List (Op L)} {m m' : Machine}
    {out : List ε} (hentry : entry (is.map Op.instr ++ post) (is.map Op.instr ++ post) t = some js)
    (hexit : exit post post (run is t m) = some (js', m')) :
    Leads sys ⟨js, m, out⟩ ⟨js', m', out⟩ := by
  induction is generalizing t m js with
  | nil =>
    cases t with
    | none =>
      cases hentry
      cases hexit
      exact .refl
    | some l =>
      rw [run, exit, show after l post = some js from hentry] at hexit
      cases hexit
      exact .refl
  | cons i is ih =>
    cases t with
    | none =>
      cases hentry
      rw [run] at hexit
      cases hstep : X86.step i m with
      | next m1 =>
        rw [hstep] at hexit
        refine .step ?_ (ih (t := none) rfl hexit)
        simp only [List.map_cons, List.cons_append, ahead, hstep]
      | fault =>
        rw [hstep] at hexit
        cases hexit
      | jump l m1 =>
        rw [hstep] at hexit
        obtain ⟨js1, hjs1⟩ := after_of_exit hexit
        refine .step ?_ (ih (t := some l) hjs1 hexit)
        simp only [List.map_cons, List.cons_append, ahead, hstep, hjs1, Option.map_some]
    | some l =>
      rw [run] at hexit
      split at hexit
      next hi =>
        rw [entry, List.map_cons, List.cons_append, after, if_pos (mark_instr.mpr hi)] at hentry
        cases hentry
        exact ih (t := none) rfl hexit
      next hi =>
        rw [entry, List.map_cons, List.cons_append, after,
          if_neg (fun h ↦ hi (mark_instr.mp h))] at hentry
        exact ih (t := some l) hentry hexit

theorem leads_jump {is : List (Instr L)} {js : List (Op L)} {out : List ε}
    (hrun : run is none m = .jump l m') (hl : after l post = some js) :
    Leads sys ⟨is.map Op.instr ++ post, m, out⟩ ⟨js, m', out⟩ :=
  leads_run (t := none) rfl (by rw [hrun, exit, hl, Option.map_some])

end BmoX.Base.X86
