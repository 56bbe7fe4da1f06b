import BmoX.Base.Runs
import BmoX.Base.Slots
import BmoX.Pila.Ether
import Mathlib.Data.Vector.Basic

/-!
# The ARP cache

`platform/shared/bmo-pila/src/arp.rs:95–200`. Nothing is learned that was not asked: the cache
against all that was asked of it and told to it. Times are in milliseconds and given by the
caller.
-/

namespace BmoX.Pila.Arp

open BmoX.Base

/-! ### The code -/

/-- `FILAS`; `arp.rs:27`. -/
abbrev filas : Nat := 16

instance : NeZero filas := ⟨by decide⟩

/-- `PREGUNTAS`; `arp.rs:28`. -/
abbrev preguntas : Nat := 4

/-- How long a learned address lives, `VIDA_MS`; `arp.rs:30`. -/
abbrev vidaMs : Nat := 60000

/-- How long an answer is waited for, `ESPERA_MS`; `arp.rs:32`. -/
abbrev esperaMs : Nat := 3000

/-- How often the same question is asked, `REINTENTO_MS`; `arp.rs:34`. -/
abbrev reintentoMs : Nat := 1000

/-- `Fila`; `arp.rs:95–101`. -/
structure Fila where
  ip : Ip
  mac : Mac
  visto : Nat
  usada : Bool
  deriving DecidableEq

/-- `Pregunta`; `arp.rs:103–108`. -/
structure Pregunta where
  ip : Ip
  enviada : Nat
  usada : Bool
  deriving DecidableEq

/-- `Cache`; `arp.rs:110–113`. -/
structure Cache where
  filas : Fin filas → Fila
  preguntas : Fin preguntas → Pregunta

namespace Cache

/-- `arp.rs:122–127`. -/
def nueva : Cache where
  filas := fun _ ↦ ⟨Arr.pad 4 [], Arr.pad 6 [], 0, false⟩
  preguntas := fun _ ↦ ⟨Arr.pad 4 [], 0, false⟩

/-- `buscar`; `arp.rs:130–135`. -/
def buscar (c : Cache) (ip : Ip) (ahora : Nat) : Option Mac :=
  ((List.finRange Arp.filas).find? fun i ↦ (c.filas i).usada && (c.filas i).ip == ip &&
    decide (ahora - (c.filas i).visto < vidaMs)).map fun i ↦ (c.filas i).mac

/-- The question that is open for an address; `arp.rs:141`. -/
def pregunta? (c : Cache) (ip : Ip) : Option (Fin Arp.preguntas) :=
  (List.finRange Arp.preguntas).find? fun i ↦ (c.preguntas i).usada && (c.preguntas i).ip == ip

/-- Room for a question: nothing there, or nobody waits for it; `arp.rs:148–152`. -/
def hueco? (c : Cache) (ahora : Nat) : Option (Fin Arp.preguntas) :=
  (List.finRange Arp.preguntas).find? fun i ↦
    !(c.preguntas i).usada || decide (esperaMs ≤ ahora - (c.preguntas i).enviada)

/-- A question put in its place. -/
def conPregunta (c : Cache) (i : Fin Arp.preguntas) (p : Pregunta) : Cache :=
  { c with preguntas := Function.update c.preguntas i p }

/-- `preguntar`: is the question to be sent now? `arp.rs:140–156`. -/
def preguntar (c : Cache) (ip : Ip) (ahora : Nat) : Cache × Except Rechazo Bool :=
  match c.pregunta? ip with
  | some i =>
    if reintentoMs ≤ ahora - (c.preguntas i).enviada then
      (c.conPregunta i { c.preguntas i with enviada := ahora }, .ok true)
    else (c, .ok false)
  | none =>
    match c.hueco? ahora with
    | none => (c, .error .lleno)
    | some i => (c.conPregunta i ⟨ip, ahora, true⟩, .ok true)

/-- `esperada`; `arp.rs:158–162`. -/
def esperada (c : Cache) (ip : Ip) (ahora : Nat) : Bool :=
  (List.finRange Arp.preguntas).any fun i ↦ (c.preguntas i).usada && (c.preguntas i).ip == ip &&
    decide (ahora - (c.preguntas i).enviada < esperaMs)

/-- `contestada`; `arp.rs:164–168`. -/
def contestada (c : Cache) (ip : Ip) : Cache :=
  { c with preguntas := fun i ↦
      if (c.preguntas i).ip = ip then { c.preguntas i with usada := false } else c.preguntas i }

/-- The row of an address; `arp.rs:173`. -/
def fila? (c : Cache) (ip : Ip) : Option (Fin Arp.filas) :=
  (List.finRange Arp.filas).find? fun i ↦ (c.filas i).usada && (c.filas i).ip == ip

/-- The oldest row, the first of them; `arp.rs:186–192`. -/
def masVieja (c : Cache) : Fin Arp.filas :=
  (List.finRange Arp.filas).foldl
    (fun viejo i ↦ if (c.filas i).visto < (c.filas viejo).visto then i else viejo) 0

/-- Where a new row goes; `arp.rs:184–194`. -/
def sitio (c : Cache) : Fin Arp.filas :=
  match (List.finRange Arp.filas).find? fun i ↦ !(c.filas i).usada with
  | some i => i
  | none => c.masVieja

/-- A row put in its place. -/
def conFila (c : Cache) (i : Fin Arp.filas) (f : Fila) : Cache :=
  { c with filas := Function.update c.filas i f }

/-- `aprender`; `arp.rs:171–199`. -/
def aprender (c : Cache) (ip : Ip) (mac : Mac) (ahora : Nat) : Cache × Except Rechazo Unit :=
  let esperada := c.esperada ip ahora
  match c.fila? ip with
  | some i =>
    if (c.filas i).mac ≠ mac ∧ esperada = false then (c, .error .direccion)
    else ((c.conFila i { c.filas i with mac, visto := ahora }).contestada ip, .ok ())
  | none =>
    if esperada = false then (c, .error .noEsParaMi)
    else ((c.conFila c.sitio ⟨ip, mac, ahora, true⟩).contestada ip, .ok ())

end Cache

/-! ### Runs -/

/-- What can be asked of the cache. -/
inductive Llamada
  | buscar (ip : Ip)
  | preguntar (ip : Ip)
  | aprender (ip : Ip) (mac : Mac)
  deriving DecidableEq

/-- What was asked and what was answered. -/
inductive Suceso
  | busca (ip : Ip) (r : Option Mac)
  | pregunta (ip : Ip) (r : Except Rechazo Bool)
  | aprende (ip : Ip) (mac : Mac) (r : Except Rechazo Unit)

/-- All that happened and when, the last first. -/
abbrev Historia := List (Nat × Suceso)

/-- One call. -/
def Cache.hace (c : Cache) (ahora : Nat) : Llamada → Cache × Suceso
  | .buscar ip => (c, .busca ip (c.buscar ip ahora))
  | .preguntar ip => ((c.preguntar ip ahora).1, .pregunta ip (c.preguntar ip ahora).2)
  | .aprender ip mac => ((c.aprender ip mac ahora).1, .aprende ip mac (c.aprender ip mac ahora).2)

/-- The calls of a run and their times, the last first; time does not go back. -/
structure Carrera where
  llamadas : List (Nat × Llamada)
  orden : llamadas.Pairwise fun a b ↦ b.1 ≤ a.1

/-- One call, and its place in the history. -/
def paso (s : Cache × Historia) (e : Nat × Llamada) : Cache × Historia :=
  ((s.1.hace e.1 e.2).1, (e.1, (s.1.hace e.1 e.2).2) :: s.2)

/-- Where some calls lead. -/
def corre (ls : List (Nat × Llamada)) : Cache × Historia := runOn paso (.nueva, []) ls

/-- At every step of a run. -/
def EnCadaPaso (P : Cache → Historia → Nat → Llamada → Prop) (ls : List (Nat × Llamada)) : Prop :=
  AtSteps paso (.nueva, []) (fun s e ↦ P s.1 s.2 e.1 e.2) ls

/-- The question for `ip` was sent. -/
def Suceso.pide (ip : Ip) : Suceso → Bool
  | .pregunta ip' (.ok true) => ip' == ip
  | _ => false

/-- The question for `ip` was answered. -/
def Suceso.contesta (ip : Ip) : Suceso → Bool
  | .aprende ip' _ (.ok ()) => ip' == ip
  | _ => false

/-- When the question for `ip` was last sent, and whether it was answered since. -/
def ultima (ip : Ip) : Historia → Option (Nat × Bool)
  | [] => none
  | (t, s) :: h =>
    if s.pide ip then some (t, false)
    else if s.contesta ip then (ultima ip h).map fun u ↦ (u.1, true)
    else ultima ip h

/-- The address stored for `ip`. -/
def Cache.guardada (c : Cache) (ip : Ip) : Option Mac := (c.fila? ip).map fun i ↦ (c.filas i).mac

/-! ### What has to hold -/

/-- No address has two rows. -/
def Cache.SinDobles (c : Cache) : Prop := UniqueKeys (·.usada = true) Fila.ip c.filas

/-- The question for `ip` is open: sent less than `ESPERA_MS` ago and not answered. -/
def Abierta (h : Historia) (ahora : Nat) (ip : Ip) : Prop :=
  ∃ t, ultima ip h = some (t, false) ∧ ahora < t + esperaMs

/-- No address has two questions. -/
def Cache.SinRepetidas (c : Cache) : Prop := UniqueKeys (·.usada = true) Pregunta.ip c.preguntas

/-- What a call answers was learned, and what it stores was asked. -/
structure Veraz (c : Cache) (h : Historia) (ahora : Nat) (l : Llamada) : Prop where
  busca : ∀ ip mac, l = .buscar ip → c.buscar ip ahora = some mac →
    ∃ t, (t, Suceso.aprende ip mac (.ok ())) ∈ h ∧ ahora < t + vidaMs
  guarda : ∀ ip mac, (c.hace ahora l).1.guardada ip = some mac → c.guardada ip ≠ some mac →
    l = .aprender ip mac ∧ Abierta h ahora ip

/-- A question is sent once in `REINTENTO_MS`. -/
def Espaciada (c : Cache) (h : Historia) (ahora : Nat) (l : Llamada) : Prop :=
  ∀ ip, l = .preguntar ip → (c.preguntar ip ahora).2 = .ok true →
    ∀ t, (t, Suceso.pregunta ip (.ok true)) ∈ h → t + reintentoMs ≤ ahora

/-- A question asked again soon after its answer, with room for it. -/
def Repetida (c : Cache) (h : Historia) (ahora : Nat) (l : Llamada) : Prop :=
  ∃ ip t, l = .preguntar ip ∧ ultima ip h = some (t, true) ∧ ahora < t + reintentoMs ∧
    (c.hueco? ahora).isSome = true

/-! ### What each call does -/

namespace Cache

variable {c : Cache} {ip : Ip} {mac : Mac} {ahora : Nat}

theorem fila?_eq_none : c.fila? ip = none ↔ ∀ i, (c.filas i).usada = true → (c.filas i).ip ≠ ip := by
  simp [fila?, List.find?_eq_none]

private theorem fila?_eq_some {i : Fin Arp.filas} (h : c.fila? ip = some i) :
    (c.filas i).usada = true ∧ (c.filas i).ip = ip := by
  simpa using List.find?_some h

private theorem pregunta?_eq_none :
    c.pregunta? ip = none ↔ ∀ i, (c.preguntas i).usada = true → (c.preguntas i).ip ≠ ip := by
  simp [pregunta?, List.find?_eq_none]

private theorem pregunta?_eq_some {i : Fin Arp.preguntas} (h : c.pregunta? ip = some i) :
    (c.preguntas i).usada = true ∧ (c.preguntas i).ip = ip := by
  simpa using List.find?_some h

private theorem esperada_iff : c.esperada ip ahora = true ↔ ∃ i, (c.preguntas i).usada = true ∧
    (c.preguntas i).ip = ip ∧ ahora < (c.preguntas i).enviada + esperaMs := by
  simp only [esperada, List.any_eq_true, List.mem_finRange, true_and, Bool.and_eq_true, beq_iff_eq,
    decide_eq_true_eq, and_assoc]
  refine exists_congr fun i ↦ and_congr_right fun _ ↦ and_congr_right fun _ ↦ ?_
  simp only [esperaMs]
  omega

/-- A question sent takes the place it had, or one where nobody waits. -/
def Pide (c : Cache) (ip : Ip) (ahora : Nat) (i : Fin Arp.preguntas) : Prop :=
  (c.preguntas i).usada = true ∧ (c.preguntas i).ip = ip ∧
      reintentoMs ≤ ahora - (c.preguntas i).enviada ∨
    (∀ j, (c.preguntas j).usada = true → (c.preguntas j).ip ≠ ip) ∧
      ((c.preguntas i).usada = true → esperaMs ≤ ahora - (c.preguntas i).enviada)

private theorem preguntar_cases (c : Cache) (ip : Ip) (ahora : Nat) :
    (∃ i, c.preguntar ip ahora = (c.conPregunta i ⟨ip, ahora, true⟩, .ok true) ∧ c.Pide ip ahora i) ∨
      (c.preguntar ip ahora).1 = c ∧ (c.preguntar ip ahora).2 ≠ .ok true := by
  rw [preguntar]
  cases hp : c.pregunta? ip with
  | some i =>
    obtain ⟨hu, hip⟩ := pregunta?_eq_some hp
    dsimp only
    split
    · next hr => exact .inl ⟨i, by rw [← hip, ← hu], .inl ⟨hu, hip, hr⟩⟩
    · exact .inr ⟨rfl, nofun⟩
  | none =>
    dsimp only
    cases hh : c.hueco? ahora with
    | none => exact .inr ⟨rfl, nofun⟩
    | some i =>
      refine .inl ⟨i, rfl, .inr ⟨pregunta?_eq_none.mp hp, fun hu ↦ ?_⟩⟩
      have hi := List.find?_some hh
      simpa [hu] using hi

/-- A row learned takes the place it had, or one that is expected. -/
def Apunta (c : Cache) (ip : Ip) (mac : Mac) (ahora : Nat) (i : Fin Arp.filas) : Prop :=
  (c.filas i).usada = true ∧ (c.filas i).ip = ip ∧
      ((c.filas i).mac = mac ∨ c.esperada ip ahora = true) ∨
    (∀ j, (c.filas j).usada = true → (c.filas j).ip ≠ ip) ∧ c.esperada ip ahora = true

private theorem aprender_cases (c : Cache) (ip : Ip) (mac : Mac) (ahora : Nat) :
    (∃ i, c.aprender ip mac ahora =
        ((c.conFila i ⟨ip, mac, ahora, true⟩).contestada ip, .ok ()) ∧ c.Apunta ip mac ahora i) ∨
      (c.aprender ip mac ahora).1 = c ∧ (c.aprender ip mac ahora).2 ≠ .ok () := by
  rw [aprender]
  cases hf : c.fila? ip with
  | some i =>
    obtain ⟨hu, hip⟩ := fila?_eq_some hf
    dsimp only
    split
    · exact .inr ⟨rfl, nofun⟩
    · next hno =>
      refine .inl ⟨i, by rw [← hip, ← hu], .inl ⟨hu, hip, ?_⟩⟩
      cases he : c.esperada ip ahora with
      | true => exact .inr rfl
      | false => exact .inl (not_not.mp fun hm ↦ hno ⟨hm, he⟩)
  | none =>
    dsimp only
    split
    · exact .inr ⟨rfl, nofun⟩
    · next he => exact .inl ⟨c.sitio, rfl, .inr ⟨fila?_eq_none.mp hf, by simpa using he⟩⟩

end Cache

/-! ### What the history says -/

section Historia

variable {ip ip' : Ip} {t t' ahora : Nat} {b : Bool} {s : Suceso} {h : Historia}

private theorem pide_iff : s.pide ip = true ↔ s = .pregunta ip (.ok true) := by
  cases s with
  | busca | aprende => simp [Suceso.pide]
  | pregunta ip' r => cases r with
    | error e => simp [Suceso.pide]
    | ok b => cases b <;> simp [Suceso.pide]

private theorem contesta_iff : s.contesta ip = true ↔ ∃ mac, s = .aprende ip mac (.ok ()) := by
  cases s with
  | busca | pregunta => simp [Suceso.contesta]
  | aprende ip' mac r => cases r <;> simp [Suceso.contesta]

private theorem ultima_cons_otro (hp : s.pide ip = false) (hc : s.contesta ip = false) :
    ultima ip ((t, s) :: h) = ultima ip h := by
  rw [ultima, hp, hc]
  rfl

theorem ultima_cons_pide : ultima ip ((t, .pregunta ip (.ok true)) :: h) = some (t, false) :=
  if_pos (pide_iff.mpr rfl)

private theorem ultima_cons_contesta {mac : Mac} :
    ultima ip ((t, .aprende ip mac (.ok ())) :: h) = (ultima ip h).map fun u ↦ (u.1, true) := by
  rw [ultima, contesta_iff.mpr ⟨mac, rfl⟩]
  rfl

private theorem mem_of_ultima (hu : ultima ip h = some (t, b)) :
    (t, Suceso.pregunta ip (.ok true)) ∈ h := by
  induction h generalizing b with
  | nil => cases hu
  | cons e h ih =>
    obtain ⟨t', s⟩ := e
    rw [ultima] at hu
    split at hu
    · next hp =>
      cases hu
      rw [pide_iff.mp hp]
      exact List.mem_cons_self
    · split at hu
      · obtain ⟨⟨t₀, b₀⟩, hu₀, heq⟩ := Option.map_eq_some_iff.mp hu
        cases heq
        exact List.mem_cons_of_mem _ (ih hu₀)
      · exact List.mem_cons_of_mem _ (ih hu)

private theorem le_ultima (hord : h.Pairwise fun a b ↦ b.1 ≤ a.1)
    (hm : (t, Suceso.pregunta ip (.ok true)) ∈ h) :
    ∃ t' b, ultima ip h = some (t', b) ∧ t ≤ t' := by
  induction h with
  | nil => cases hm
  | cons e h ih =>
    obtain ⟨t', s⟩ := e
    obtain ⟨hle, hord⟩ := List.pairwise_cons.mp hord
    rw [ultima]
    split
    · next hp =>
      refine ⟨t', false, rfl, ?_⟩
      rcases List.mem_cons.mp hm with heq | hm
      · cases heq
        exact Nat.le_refl _
      · exact hle _ hm
    · next hp =>
      have hm := (List.mem_cons.mp hm).resolve_left fun heq ↦ hp (by cases heq; exact pide_iff.mpr rfl)
      obtain ⟨t₁, b, hu, hle₁⟩ := ih hord hm
      split
      · exact ⟨t₁, true, by rw [hu]; rfl, hle₁⟩
      · exact ⟨t₁, b, hu, hle₁⟩

end Historia

/-! ### What a run keeps -/

/-- The tables against the history: rows were learned, questions were sent, and a question sent and
not answered is still there or nobody waits for it. -/
structure Sana (c : Cache) (h : Historia) : Prop where
  filas : ∀ i, (c.filas i).usada = true →
    ((c.filas i).visto, Suceso.aprende (c.filas i).ip (c.filas i).mac (.ok ())) ∈ h
  unicas : c.SinDobles
  distintas : c.SinRepetidas
  preguntas : ∀ i, (c.preguntas i).usada = true →
    ultima (c.preguntas i).ip h = some ((c.preguntas i).enviada, false)
  abiertas : ∀ ip t, ultima ip h = some (t, false) →
    (∃ i, (c.preguntas i).usada = true ∧ (c.preguntas i).ip = ip) ∨ ∃ e ∈ h, t + esperaMs ≤ e.1

private theorem sana_nueva : Sana .nueva [] where
  filas _ h := by cases h
  unicas _ _ h := by cases h
  distintas _ _ h := by cases h
  preguntas _ h := by cases h
  abiertas _ _ h := by cases h

namespace Sana

variable {c : Cache} {h : Historia} {ip : Ip} {mac : Mac} {ahora : Nat} {s : Suceso}

/-- An event that changes nothing. -/
theorem igual (hs : Sana c h) (hp : ∀ ip, s.pide ip = false) (hc : ∀ ip, s.contesta ip = false) :
    Sana c ((ahora, s) :: h) where
  filas i hu := List.mem_cons_of_mem _ (hs.filas i hu)
  unicas := hs.unicas
  distintas := hs.distintas
  preguntas i hu := by
    rw [ultima_cons_otro (hp _) (hc _)]
    exact hs.preguntas i hu
  abiertas ip t hu := by
    rw [ultima_cons_otro (hp _) (hc _)] at hu
    refine (hs.abiertas ip t hu).imp_right ?_
    rintro ⟨e, he, hle⟩
    exact ⟨e, List.mem_cons_of_mem _ he, hle⟩

private theorem ip_ne_of_pide {i j : Fin Arp.preguntas} (hs : Sana c h) (hi : c.Pide ip ahora i)
    (hij : j ≠ i) (hj : (c.preguntas j).usada = true) : (c.preguntas j).ip ≠ ip := by
  rcases hi with ⟨hu, rfl, -⟩ | ⟨hno, -⟩
  · exact hs.distintas.ne hu hj hij
  · exact hno j hj

/-- A question sent. -/
theorem pide {i : Fin Arp.preguntas} (hs : Sana c h) (hi : c.Pide ip ahora i) :
    Sana (c.conPregunta i ⟨ip, ahora, true⟩) ((ahora, .pregunta ip (.ok true)) :: h) where
  filas j hu := List.mem_cons_of_mem _ (hs.filas j hu)
  unicas := hs.unicas
  distintas := hs.distintas.update fun _ hj hu ↦ hs.ip_ne_of_pide hi hj hu
  preguntas j hu := by
    rcases eq_or_ne j i with rfl | hji
    · simp [Cache.conPregunta, ultima_cons_pide]
    · have hfila : (c.conPregunta i ⟨ip, ahora, true⟩).preguntas j = c.preguntas j :=
        Function.update_of_ne hji ..
      rw [hfila] at hu ⊢
      have hne := hs.ip_ne_of_pide hi hji hu
      rw [ultima_cons_otro (by simpa [Suceso.pide] using Ne.symm hne) rfl]
      exact hs.preguntas j hu
  abiertas ip' t hu := by
    by_cases hip : ip = ip'
    · subst hip
      exact .inl ⟨i, by simp [Cache.conPregunta]⟩
    rw [ultima_cons_otro (by simpa [Suceso.pide] using hip) rfl] at hu
    rcases hs.abiertas ip' t hu with ⟨j, hj, hjip⟩ | ⟨e, he, hle⟩
    swap
    · exact .inr ⟨e, List.mem_cons_of_mem _ he, hle⟩
    rcases eq_or_ne j i with rfl | hji
    · -- its place was taken: nobody waited for it any more
      rcases hi with ⟨-, hjip', -⟩ | ⟨-, hvieja⟩
      · exact absurd (hjip'.symm.trans hjip) hip
      · have henv := hs.preguntas j hj
        rw [hjip, hu] at henv
        have htime := hvieja hj
        cases henv
        refine .inr ⟨_, List.mem_cons_self, ?_⟩
        simp only [esperaMs] at htime ⊢
        omega
    · refine .inl ⟨j, ?_⟩
      have hfila : (c.conPregunta i ⟨ip, ahora, true⟩).preguntas j = c.preguntas j :=
        Function.update_of_ne hji ..
      rw [hfila]
      exact ⟨hj, hjip⟩

private theorem usada_contestada (c : Cache) (ip : Ip) (j : Fin Arp.preguntas) :
    ((c.contestada ip).preguntas j).usada = true ↔
      (c.preguntas j).usada = true ∧ (c.preguntas j).ip ≠ ip := by
  rw [Cache.contestada]
  dsimp only
  split
  · next h => simp [h]
  · next h => simp [h]

private theorem preguntas_contestada {c : Cache} {ip : Ip} {j : Fin Arp.preguntas}
    (h : (c.preguntas j).ip ≠ ip) : (c.contestada ip).preguntas j = c.preguntas j := if_neg h

private theorem filas_conFila_contestada {c : Cache} {ip : Ip} {i : Fin Arp.filas} {f : Fila} :
    ((c.conFila i f).contestada ip).filas = Function.update c.filas i f := rfl

/-- An answer learned. -/
theorem apunta {i : Fin Arp.filas} (hs : Sana c h) (hi : c.Apunta ip mac ahora i) :
    Sana ((c.conFila i ⟨ip, mac, ahora, true⟩).contestada ip)
      ((ahora, .aprende ip mac (.ok ())) :: h) where
  filas j hu := by
    rw [filas_conFila_contestada] at hu ⊢
    rcases eq_or_ne j i with rfl | hji
    · rw [Function.update_self]
      exact List.mem_cons_self
    · rw [Function.update_of_ne hji] at hu ⊢
      exact List.mem_cons_of_mem _ (hs.filas j hu)
  unicas := by
    refine hs.unicas.update fun j hj hu ↦ ?_
    rcases hi with ⟨hui, rfl, -⟩ | ⟨hno, -⟩
    · exact hs.unicas.ne hui hu hj
    · exact hno j hu
  distintas := by
    refine hs.distintas.mono fun j hj ↦ ?_
    obtain ⟨hu, hne⟩ := (usada_contestada _ _ _).mp hj
    exact ⟨hu, congrArg Pregunta.ip (preguntas_contestada hne)⟩
  preguntas j hu := by
    obtain ⟨hu, hne⟩ := (usada_contestada _ _ _).mp hu
    rw [preguntas_contestada hne, ultima_cons_otro rfl (by simpa [Suceso.contesta] using Ne.symm hne)]
    exact hs.preguntas j hu
  abiertas ip' t hu := by
    by_cases hip : ip = ip'
    · subst hip
      rw [ultima_cons_contesta] at hu
      obtain ⟨u, -, hu⟩ := Option.map_eq_some_iff.mp hu
      cases hu
    rw [ultima_cons_otro rfl (by simpa [Suceso.contesta] using hip)] at hu
    rcases hs.abiertas ip' t hu with ⟨j, hj, rfl⟩ | ⟨e, he, hle⟩
    · refine .inl ⟨j, (usada_contestada _ _ _).mpr ⟨hj, Ne.symm hip⟩, ?_⟩
      exact congrArg Pregunta.ip (preguntas_contestada (Ne.symm hip))
    · exact .inr ⟨e, List.mem_cons_of_mem _ he, hle⟩

/-- Every call keeps the tables in agreement with the history. -/
theorem hace (hs : Sana c h) (ahora : Nat) (l : Llamada) :
    Sana (c.hace ahora l).1 ((ahora, (c.hace ahora l).2) :: h) := by
  cases l with
  | buscar ip => exact hs.igual (fun _ ↦ rfl) fun _ ↦ rfl
  | preguntar ip =>
    rw [Cache.hace]
    rcases c.preguntar_cases ip ahora with ⟨i, heq, hi⟩ | ⟨heq, hno⟩
    · rw [heq]
      exact hs.pide hi
    · rw [heq]
      refine hs.igual (fun ip' ↦ ?_) fun _ ↦ rfl
      refine Bool.eq_false_iff.mpr fun hp ↦ hno ?_
      have := pide_iff.mp hp
      injection this
  | aprender ip mac =>
    rw [Cache.hace]
    rcases c.aprender_cases ip mac ahora with ⟨i, heq, hi⟩ | ⟨heq, hno⟩
    · rw [heq]
      exact hs.apunta hi
    · rw [heq]
      refine hs.igual (fun _ ↦ rfl) fun ip' ↦ ?_
      refine Bool.eq_false_iff.mpr fun hc ↦ hno ?_
      obtain ⟨mac', hmac⟩ := contesta_iff.mp hc
      injection hmac

/-- At most `PREGUNTAS` questions are open. -/
theorem abiertas_le (hs : Sana c h) (ht : ∀ e ∈ h, e.1 ≤ ahora) {ips : List Ip} (hn : ips.Nodup)
    (hips : ∀ ip ∈ ips, Abierta h ahora ip) : ips.length ≤ Arp.preguntas := by
  have hcard := length_keys_le (·.usada = true) Pregunta.ip c.preguntas hn fun ip hip ↦ by
      obtain ⟨t, hu, hlt⟩ := hips ip hip
      refine (hs.abiertas ip t hu).resolve_right ?_
      rintro ⟨e, he, hle⟩
      have := ht e he
      omega
  rwa [Fintype.card_fin] at hcard

private theorem guardada_iff (hs : c.SinDobles) :
    c.guardada ip = some mac ↔ ∃ i, (c.filas i).usada = true ∧ (c.filas i).ip = ip ∧
      (c.filas i).mac = mac := by
  rw [Cache.guardada, Option.map_eq_some_iff]
  constructor
  · rintro ⟨i, hi, rfl⟩
    obtain ⟨hu, hip⟩ := Cache.fila?_eq_some hi
    exact ⟨i, hu, hip, rfl⟩
  · rintro ⟨i, hu, hip, rfl⟩
    cases hf : c.fila? ip with
    | none => exact absurd hip (Cache.fila?_eq_none.mp hf i hu)
    | some j =>
      obtain ⟨hu', hip'⟩ := Cache.fila?_eq_some hf
      exact ⟨j, rfl, by rw [hs j i hu' hu (hip'.trans hip.symm)]⟩

/-- What is found was learned less than `VIDA_MS` before. -/
theorem busca (hs : Sana c h) (hb : c.buscar ip ahora = some mac) :
    ∃ t, (t, Suceso.aprende ip mac (.ok ())) ∈ h ∧ ahora < t + vidaMs := by
  obtain ⟨i, hi, rfl⟩ := Option.map_eq_some_iff.mp hb
  have hfila := List.find?_some hi
  simp only [Bool.and_eq_true, beq_iff_eq, decide_eq_true_eq] at hfila
  obtain ⟨⟨hu, rfl⟩, hvida⟩ := hfila
  refine ⟨_, hs.filas i hu, ?_⟩
  simp only [vidaMs] at hvida ⊢
  omega

private theorem abierta_de_esperada (hs : Sana c h) (he : c.esperada ip ahora = true) :
    Abierta h ahora ip := by
  obtain ⟨i, hu, rfl, hlt⟩ := Cache.esperada_iff.mp he
  exact ⟨_, hs.preguntas i hu, hlt⟩

/-- An address is first stored, or changed, only as the answer to an open question. -/
theorem guarda (hs : Sana c h) {l : Llamada} (hnueva : (c.hace ahora l).1.guardada ip = some mac)
    (hvieja : c.guardada ip ≠ some mac) : l = .aprender ip mac ∧ Abierta h ahora ip := by
  have hunicas := (hs.hace ahora l).unicas
  rw [guardada_iff hunicas] at hnueva
  rw [Ne, guardada_iff hs.unicas] at hvieja
  obtain ⟨j, hu, hip, hmac⟩ := hnueva
  cases l with
  | buscar ip' => exact absurd ⟨j, hu, hip, hmac⟩ hvieja
  | preguntar ip' =>
    rw [Cache.hace] at hu hip hmac
    rcases c.preguntar_cases ip' ahora with ⟨i, heq, -⟩ | ⟨heq, -⟩ <;> rw [heq] at hu hip hmac <;>
      exact absurd ⟨j, hu, hip, hmac⟩ hvieja
  | aprender ip' mac' =>
    rw [Cache.hace] at hu hip hmac
    rcases c.aprender_cases ip' mac' ahora with ⟨i, heq, hi⟩ | ⟨heq, -⟩
    swap
    · rw [heq] at hu hip hmac
      exact absurd ⟨j, hu, hip, hmac⟩ hvieja
    rw [heq, filas_conFila_contestada] at hu hip hmac
    rcases eq_or_ne j i with rfl | hji
    swap
    · rw [Function.update_of_ne hji] at hu hip hmac
      exact absurd ⟨j, hu, hip, hmac⟩ hvieja
    rw [Function.update_self] at hip hmac
    cases hip
    cases hmac
    refine ⟨rfl, hs.abierta_de_esperada ?_⟩
    rcases hi with ⟨hui, hipi, hm | he⟩ | ⟨-, he⟩
    · exact absurd ⟨j, hui, hipi, hm⟩ hvieja
    · exact he
    · exact he

/-- A question is sent again too soon only after its answer. -/
theorem espaciada_iff (hs : Sana c h) (hord : h.Pairwise fun a b ↦ b.1 ≤ a.1)
    (ht : ∀ e ∈ h, e.1 ≤ ahora) (l : Llamada) : Espaciada c h ahora l ↔ ¬Repetida c h ahora l := by
  constructor
  · rintro hesp ⟨ip, t, rfl, hu, hlt, hhueco⟩
    have hno : c.pregunta? ip = none := by
      refine Cache.pregunta?_eq_none.mpr fun i hi hip ↦ ?_
      have hi := hs.preguntas i hi
      rw [hip, hu] at hi
      cases hi
    obtain ⟨i, hi⟩ := Option.isSome_iff_exists.mp hhueco
    have hok : (c.preguntar ip ahora).2 = .ok true := by
      rw [Cache.preguntar, hno]
      dsimp only
      rw [hi]
    have hle := hesp ip rfl hok t (mem_of_ultima hu)
    omega
  · rintro hno ip rfl hok t hm
    obtain ⟨t', b, hu, hle⟩ := le_ultima hord hm
    suffices t' + reintentoMs ≤ ahora by omega
    rcases c.preguntar_cases ip ahora with ⟨i, -, hi⟩ | ⟨-, hfalla⟩
    swap
    · exact absurd hok hfalla
    rcases hi with ⟨hui, rfl, hr⟩ | ⟨hotra, hvieja⟩
    · have henv := hs.preguntas i hui
      rw [hu] at henv
      cases henv
      simp only [reintentoMs] at hr ⊢
      omega
    · cases b with
      | false =>
        -- unanswered and not in the table: nobody waits for it any more
        rcases hs.abiertas ip t' hu with ⟨j, hj, hip⟩ | ⟨e, he, hesp⟩
        · exact absurd hip (hotra j hj)
        · have := ht e he
          simp only [esperaMs, reintentoMs] at hesp ⊢
          omega
      | true =>
        have hhueco : (c.hueco? ahora).isSome = true := by
          refine List.find?_isSome.mpr ⟨i, List.mem_finRange i, ?_⟩
          cases hui : (c.preguntas i).usada with
          | false => rfl
          | true => simpa using hvieja hui
        by_contra hlt
        exact hno ⟨ip, t', rfl, hu, Nat.not_le.mp hlt, hhueco⟩

end Sana

/-! ### Runs -/

variable {ls : List (Nat × Llamada)}

private theorem tiempos_corre (ls : List (Nat × Llamada)) :
    (corre ls).2.map Prod.fst = ls.map Prod.fst := by
  induction ls with
  | nil => rfl
  | cons e ls ih =>
    rw [corre, runOn_cons, paso, List.map_cons, List.map_cons]
    exact congrArg _ ih

private theorem orden_corre (h : ls.Pairwise fun a b ↦ b.1 ≤ a.1) :
    (corre ls).2.Pairwise fun a b ↦ b.1 ≤ a.1 := by
  rw [← List.pairwise_map (R := fun a b ↦ b ≤ a)] at h ⊢
  rwa [tiempos_corre]

theorem tiempos_le {t : Nat} (h : ∀ e ∈ ls, e.1 ≤ t) : ∀ e ∈ (corre ls).2, e.1 ≤ t := by
  intro e he
  have hmem : e.1 ∈ ls.map Prod.fst := tiempos_corre ls ▸ List.mem_map_of_mem he
  obtain ⟨e', he', heq⟩ := List.mem_map.mp hmem
  exact heq ▸ h e' he'

theorem sana_corre (ls : List (Nat × Llamada)) : Sana (corre ls).1 (corre ls).2 :=
  runOn_induction (J := fun s : Cache × Historia ↦ Sana s.1 s.2) sana_nueva
    (fun _ e hs ↦ hs.hace e.1 e.2) ls

/-- What is true of a step from where a run can be is true at every step. -/
theorem enCadaPaso_of {P : Cache → Historia → Nat → Llamada → Prop}
    (hP : ∀ c h t l, Sana c h → (h.Pairwise fun a b ↦ b.1 ≤ a.1) → (∀ e ∈ h, e.1 ≤ t) → P c h t l)
    (ho : ls.Pairwise fun a b ↦ b.1 ≤ a.1) : EnCadaPaso P ls := by
  refine atSteps_iff.mpr fun e pre hpre ↦ ?_
  obtain ⟨hle, ho⟩ := List.pairwise_cons.mp (ho.sublist hpre.sublist)
  exact hP _ _ _ _ (sana_corre pre) (orden_corre ho) (tiempos_le hle)

end BmoX.Pila.Arp
