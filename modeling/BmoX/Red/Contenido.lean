import BmoX.Red.Buzon

/-!
# Whatever the process writes

The calls of `platform/shared/bmo-puerta-red/src/buzon.rs` over a mailbox whose every read answers
any byte, as it does when somebody else writes in it at any moment.
-/

namespace BmoX.Red

open BmoX.Base

/-- Surroundings in which a read may answer anything. -/
def cualquiera : Prog.Env memoria Unit := fun _ _ _ _ ↦ True

/-- A byte of the mailbox, and of a slot only its length and the longest frame. -/
def Dentro (off : Nat) : Prop :=
  off < bytes ∧ (cabecera ≤ off → (off - cabecera) % casilla < 2 + tramaMaxima)

/-- Reads and writes of such bytes only. -/
def Cuidadoso : Op → Unit → Prop
  | .leer8 off, _ => Dentro off
  | .escribir8 off _, _ => Dentro off

section

variable {α : Type} {Q : α → Unit → Prop}

private theorem safe_copiar {off n : Nat} {Q : Bytes → Unit → Prop} (h : ∀ k < n, Dentro (off + k))
    (hQ : ∀ bs : Bytes, bs.length = n → Q bs ()) :
    Prog.Safe cualquiera Cuidadoso Q (copiar off n) () := by
  induction n generalizing off Q with
  | zero => exact hQ [] rfl
  | succ n ih =>
    refine Prog.safe_bind.mpr
      ⟨h 0 n.succ_pos, fun b _ _ ↦ Prog.safe_bind.mpr (ih (fun k hk ↦ ?_) fun bs hbs ↦ ?_)⟩
    · rw [Nat.add_right_comm]
      exact h (k + 1) (Nat.succ_lt_succ hk)
    · exact hQ (b :: bs) (congrArg Nat.succ hbs)

private theorem safe_escribirBytes {off : Nat} {b : Bytes} {Q : Unit → Unit → Prop}
    (h : ∀ k < b.length, Dentro (off + k)) (hQ : Q () ()) :
    Prog.Safe cualquiera Cuidadoso Q (escribirBytes off b) () := by
  induction b generalizing off with
  | nil => exact hQ
  | cons v b ih =>
    refine ⟨h 0 (Nat.succ_pos _), fun _ _ _ ↦ ih fun k hk ↦ ?_⟩
    rw [Nat.add_right_comm]
    exact h (k + 1) (Nat.succ_lt_succ hk)

private theorem dentro_cabecera {off : Nat} (h : off < cabecera) : Dentro off := by
  refine ⟨?_, fun h' ↦ by omega⟩
  simp only [bytes, cabecera, casillas, casilla] at *
  omega

theorem dentro_casillaTx {i k : Nat} (h : k < 2 + tramaMaxima) : Dentro (casillaTx i + k) := by
  simp only [Dentro, casillaTx, bytes, cabecera, casillas, casilla, tramaMaxima] at *
  omega

theorem dentro_casillaRx {i k : Nat} (h : k < 2 + tramaMaxima) : Dentro (casillaRx i + k) := by
  simp only [Dentro, casillaRx, bytes, cabecera, casillas, casilla, tramaMaxima] at *
  omega

private theorem safe_leer16 {off : Nat} {Q : UInt16 → Unit → Prop} (h : ∀ k < 2, Dentro (off + k))
    (hQ : ∀ x, Q x ()) : Prog.Safe cualquiera Cuidadoso Q (leer16 off) () := by
  rw [leer16_eq]
  exact Prog.safe_bind.mpr (safe_copiar h fun _ _ ↦ hQ _)

private theorem safe_leer32 {off : Nat} {Q : UInt32 → Unit → Prop} (h : off + 4 ≤ cabecera)
    (hQ : ∀ x, Q x ()) : Prog.Safe cualquiera Cuidadoso Q (leer32 off) () := by
  rw [leer32_eq]
  exact Prog.safe_bind.mpr
    (safe_copiar (fun _ _ ↦ dentro_cabecera (by omega)) fun _ _ ↦ hQ _)

theorem safe_escribir32 {off : Nat} {x : UInt32} {Q : Unit → Unit → Prop} (h : off + 4 ≤ cabecera)
    (hQ : Q () ()) : Prog.Safe cualquiera Cuidadoso Q (escribir32 off x) () :=
  safe_escribirBytes (fun k hk ↦ dentro_cabecera (by rw [length_u32Le] at hk; omega)) hQ

end

/-- What a call that fills a buffer may do to it. -/
def Rellena (dst lleno : Bytes) : Prop :=
  lleno.length = dst.length ∧ ∃ n ≤ tramaMaxima, lleno.drop n = dst.drop n

private theorem rellena_self (dst : Bytes) : Rellena dst dst := ⟨rfl, 0, Nat.zero_le _, rfl⟩

theorem rellena_copia {dst copia : Bytes} {n : Nat} (hc : copia.length = n) (hn : n ≤ tramaMaxima)
    (hd : n ≤ dst.length) : Rellena dst (copia ++ dst.drop n) := by
  refine ⟨by rw [List.length_append, List.length_drop]; omega, n, hn, ?_⟩
  rw [List.drop_append, List.drop_of_length_le (Nat.le_of_eq hc), List.nil_append, hc, Nat.sub_self,
    List.drop_zero]

/-- What a `sacar` may have done: it fills at most the longest frame of its buffer and moves at
most its own index, by one. -/
structure TrasSacar (l : Lado) (dst : Bytes) (r : Except Mal (Option Nat) × Lado × Bytes) :
    Prop where
  rellena : Rellena dst r.2.2
  txLeido : r.2.1.txLeido = l.txLeido ∨ r.2.1.txLeido = l.txLeido + 1
  rxEscrito : r.2.1.rxEscrito = l.rxEscrito
  rxSeq : r.2.1.rxSeq = l.rxSeq
  largo : ∀ n, r.1 = .ok (some n) → n ≤ tramaMaxima ∧ n ≤ dst.length

/-- What a `meter` may have done: a frame it took was not too long, and it moves at most its own
index, by one. -/
structure TrasMeter (l : Lado) (trama : Bytes) (r : Except Mal Bool × Lado) : Prop where
  txLeido : r.2.txLeido = l.txLeido
  rxEscrito : r.2.rxEscrito = l.rxEscrito ∨ r.2.rxEscrito = l.rxEscrito + 1
  largo : r.1 = .ok true → trama.length ≤ tramaMaxima

/-- What a `recibir` may have done. -/
structure TrasRecibir (dst : Bytes) (r : Option Nat × Bytes) : Prop where
  rellena : Rellena dst r.2
  largo : ∀ n, r.1 = some n → n ≤ tramaMaxima ∧ n ≤ dst.length

/-- Whatever the reads answer, the calls touch only the mailbox, and of a slot only its length and
the longest frame. -/
structure Contenido (tam : Nat) : Prop where
  sacar : ∀ l dst, Prog.Safe cualquiera Cuidadoso (fun r _ ↦ TrasSacar l dst r) (l.sacar tam dst) ()
  meter : ∀ l trama,
    Prog.Safe cualquiera Cuidadoso (fun r _ ↦ TrasMeter l trama r) (l.meter tam trama) ()
  enviar : ∀ trama, Prog.Safe cualquiera Cuidadoso
    (fun r _ ↦ r = .ok () → trama.length ≤ tramaMaxima) (Cliente.enviar tam trama) ()
  recibir : ∀ dst,
    Prog.Safe cualquiera Cuidadoso (fun r _ ↦ TrasRecibir dst r) (Cliente.recibir tam dst) ()

private theorem sacar_contenida (tam : Nat) (l : Lado) (dst : Bytes) :
    Prog.Safe cualquiera Cuidadoso (fun r _ ↦ TrasSacar l dst r) (l.sacar tam dst) () := by
  have hdst := rellena_self dst
  rw [Lado.sacar]
  split
  · exact ⟨hdst, .inl rfl, rfl, rfl, fun n h ↦ by cases h⟩
  refine Prog.safe_bind.mpr (safe_leer32 (by decide) fun escrito ↦ ?_)
  simp only
  split
  · exact ⟨hdst, .inl rfl, rfl, rfl, fun n h ↦ by cases h⟩
  split
  · exact ⟨hdst, .inl rfl, rfl, rfl, fun n h ↦ by cases h⟩
  refine Prog.safe_bind.mpr (safe_leer16 (fun k hk ↦ dentro_casillaTx (by omega)) fun largo ↦ ?_)
  refine Prog.safe_bind.mpr (safe_escribir32 (by decide) ?_)
  split
  · exact ⟨hdst, .inr rfl, rfl, rfl, fun n h ↦ by cases h⟩
  next hlargo =>
  have hmax : largo.toNat ≤ tramaMaxima := by omega
  have hcabe : largo.toNat ≤ dst.length := by omega
  refine Prog.safe_bind.mpr (safe_copiar (fun k hk ↦ ?_) fun copia hcopia ↦ ?_)
  · rw [Nat.add_assoc]
    exact dentro_casillaTx (by omega)
  · refine ⟨rellena_copia hcopia hmax hcabe, .inr rfl, rfl, rfl, fun n h ↦ ?_⟩
    cases h
    exact ⟨hmax, hcabe⟩

private theorem meter_contenida (tam : Nat) (l : Lado) (trama : Bytes) :
    Prog.Safe cualquiera Cuidadoso (fun r _ ↦ TrasMeter l trama r) (l.meter tam trama) () := by
  rw [Lado.meter]
  split
  · exact ⟨rfl, .inl rfl, fun h ↦ by cases h⟩
  refine Prog.safe_bind.mpr (safe_leer32 (by decide) fun leido ↦ ?_)
  simp only
  split
  · exact ⟨rfl, .inl rfl, fun h ↦ by cases h⟩
  split
  · exact Prog.safe_bind.mpr (safe_escribir32 (by decide) ⟨rfl, .inl rfl, fun h ↦ by cases h⟩)
  next hcabe =>
  have hmax : trama.length ≤ tramaMaxima := by omega
  refine Prog.safe_bind.mpr (safe_escribirBytes (fun k hk ↦ ?_) ?_)
  · rw [length_u16Le] at hk
    exact dentro_casillaRx (by omega)
  refine Prog.safe_bind.mpr (safe_escribirBytes (fun k hk ↦ ?_) ?_)
  · rw [Nat.add_assoc]
    exact dentro_casillaRx (by omega)
  refine Prog.safe_bind.mpr (safe_escribir32 (by decide) ?_)
  refine Prog.safe_bind.mpr (safe_escribirBytes (fun k hk ↦ dentro_cabecera ?_) ?_)
  · rw [length_u64Le] at hk
    simp only [Campo.rxSecuencia, cabecera]
    omega
  · exact ⟨rfl, .inr rfl, fun _ ↦ hmax⟩

private theorem vivo_contenida (tam : Nat) {Q : Bool → Unit → Prop} (hQ : ∀ b, Q b ()) :
    Prog.Safe cualquiera Cuidadoso Q (Cliente.vivo tam) () := by
  rw [Cliente.vivo]
  split
  · exact hQ _
  refine Prog.safe_bind.mpr (safe_leer32 (by decide) fun x ↦ ?_)
  split
  · exact hQ _
  refine Prog.safe_bind.mpr (safe_leer16 (fun k hk ↦ dentro_cabecera ?_) fun y ↦ ?_)
  · simp only [Campo.casillas, cabecera]
    omega
  split
  · exact hQ _
  exact Prog.safe_bind.mpr (safe_leer32 (by decide) fun z ↦ hQ _)

private theorem enviar_contenida (tam : Nat) (trama : Bytes) :
    Prog.Safe cualquiera Cuidadoso (fun r _ ↦ r = .ok () → trama.length ≤ tramaMaxima)
      (Cliente.enviar tam trama) () := by
  rw [Cliente.enviar]
  refine Prog.safe_bind.mpr (vivo_contenida tam fun b ↦ ?_)
  split
  · exact fun h ↦ by cases h
  split
  · exact fun h ↦ by cases h
  next hlargo =>
  refine Prog.safe_bind.mpr (safe_leer32 (by decide) fun escrito ↦ ?_)
  refine Prog.safe_bind.mpr (safe_leer32 (by decide) fun leido ↦ ?_)
  split
  · exact fun h ↦ by cases h
  refine Prog.safe_bind.mpr (safe_escribirBytes (fun k hk ↦ ?_) ?_)
  · rw [length_u16Le] at hk
    exact dentro_casillaTx (by omega)
  refine Prog.safe_bind.mpr (safe_escribirBytes (fun k hk ↦ ?_) ?_)
  · rw [Nat.add_assoc]
    exact dentro_casillaTx (by omega)
  exact Prog.safe_bind.mpr (safe_escribir32 (by decide) fun _ ↦ by omega)

private theorem recibir_contenida (tam : Nat) (dst : Bytes) :
    Prog.Safe cualquiera Cuidadoso (fun r _ ↦ TrasRecibir dst r) (Cliente.recibir tam dst) () := by
  have hdst := rellena_self dst
  rw [Cliente.recibir]
  split
  · exact ⟨hdst, fun n h ↦ by cases h⟩
  refine Prog.safe_bind.mpr (safe_leer32 (by decide) fun x ↦ ?_)
  split
  · exact ⟨hdst, fun n h ↦ by cases h⟩
  refine Prog.safe_bind.mpr (safe_leer32 (by decide) fun escrito ↦ ?_)
  refine Prog.safe_bind.mpr (safe_leer32 (by decide) fun leido ↦ ?_)
  split
  · exact ⟨hdst, fun n h ↦ by cases h⟩
  refine Prog.safe_bind.mpr (safe_leer16 (fun k hk ↦ dentro_casillaRx (by omega)) fun largo ↦ ?_)
  have hmax : min (min largo.toNat tramaMaxima) dst.length ≤ tramaMaxima :=
    (Nat.min_le_left ..).trans (Nat.min_le_right ..)
  have hcabe : min (min largo.toNat tramaMaxima) dst.length ≤ dst.length := Nat.min_le_right ..
  refine Prog.safe_bind.mpr (safe_copiar (fun k hk ↦ ?_) fun copia hcopia ↦ ?_)
  · rw [Nat.add_assoc]
    exact dentro_casillaRx (by omega)
  refine Prog.safe_bind.mpr (safe_escribir32 (by decide) ?_)
  refine ⟨rellena_copia hcopia hmax hcabe, fun n h ↦ ?_⟩
  cases h
  exact ⟨hmax, hcabe⟩

theorem contenido (tam : Nat) : Contenido tam :=
  ⟨sacar_contenida tam, meter_contenida tam, enviar_contenida tam, recibir_contenida tam⟩

end BmoX.Red
