import Mathlib.Logic.Function.Basic
import SoftwarePrototypes.Interaction.Programs
import SoftwarePrototypes.Interaction.Runs

/-! # Threads that share a state

Each thread runs a program whose calls act on the shared state, and is given another program once
it has returned. An outline says what each thread relies on and what holds at its calls. When no
step breaks what the other threads rely on, the outline holds along every interleaving.
-/

namespace Interaction.Threads

open Prog Runs

variable {ι κ σ : Type} {E : ι → Type} {A : (i : ι) → E i → Type} {R : ι → Type}

/-- A choice fixes what is left open at a step. -/
structure System (A : (i : ι) → E i → Type) (R : ι → Type) (κ σ : Type) where
  perform (i : ι) (e : E i) (choice : κ) (s : σ) : Option (A i e × σ)
  again (i : ι) (value : R i) (choice : κ) (s : σ) : Option (Prog (E i) (A i) (R i) × σ)
  surroundings (choice : κ) (s : σ) : Option σ

structure Config (A : (i : ι) → E i → Type) (R : ι → Type) (σ : Type) where
  shared : σ
  code : (i : ι) → Prog (E i) (A i) (R i)

inductive Label (ι κ : Type) where
  | call (i : ι) (choice : κ)
  | again (i : ι) (choice : κ)
  | surroundings (choice : κ)

/-- `guard` restricts the runs that are looked at to those whose calls meet it. -/
structure Outline (A : (i : ι) → E i → Type) (R : ι → Type) (σ : Type) where
  rely (i : ι) : σ → σ → Prop
  guard (i : ι) : E i → σ → Prop
  safe (i : ι) : E i → σ → Prop
  post (i : ι) : R i → σ → Prop

variable {S : System A R κ σ} {O : Outline A R σ}

def Outline.sem (O : Outline A R σ) (S : System A R κ σ) (i : ι) : Sem (E i) (A i) σ :=
  fun e s answer s' => O.guard i e s ∧ ∃ choice, S.perform i e choice s = some (answer, s')

abbrev Outline.Follows (O : Outline A R σ) (S : System A R κ σ) (i : ι)
    (p : Prog (E i) (A i) (R i)) (s : σ) : Prop :=
  Always (O.rely i) (O.sem S i) (O.safe i) (O.post i) p s

def Outline.Holds (O : Outline A R σ) (S : System A R κ σ) (C : Config A R σ) : Prop :=
  ∀ i, O.Follows S i (C.code i) C.shared

/-- No step breaks what another thread relies on, and each new program follows the outline. -/
structure Outline.Sound (O : Outline A R σ) (S : System A R κ σ) : Prop where
  refl : ∀ i s, O.rely i s s
  trans : ∀ i s s' s'', O.rely i s s' → O.rely i s' s'' → O.rely i s s''
  call : ∀ i e choice s answer s', O.safe i e s → O.guard i e s →
    S.perform i e choice s = some (answer, s') → ∀ j, j ≠ i → O.rely j s s'
  again : ∀ i value choice s p s', O.post i value s →
    S.again i value choice s = some (p, s') → O.Follows S i p s' ∧ ∀ j, j ≠ i → O.rely j s s'
  surroundings : ∀ choice s s', S.surroundings choice s = some s' → ∀ j, O.rely j s s'

/-- `P` holds of the call that a step makes, in the state it is made in. -/
def AtCall (P : (i : ι) → E i → σ → Prop) (C : Config A R σ) : Label ι κ → Prop
  | .call i _ => ∀ e ∈ (C.code i).head, P i e C.shared
  | .again _ _ => True
  | .surroundings _ => True

instance AtCall.decidable (P : (i : ι) → E i → σ → Prop) [∀ i e s, Decidable (P i e s)]
    (C : Config A R σ) : ∀ label : Label ι κ, Decidable (AtCall P C label)
  | .call i _ => inferInstanceAs (Decidable (∀ e ∈ (C.code i).head, P i e C.shared))
  | .again _ _ => inferInstanceAs (Decidable True)
  | .surroundings _ => inferInstanceAs (Decidable True)

theorem atCall_of_forall {P : (i : ι) → E i → σ → Prop} (h : ∀ i e s, P i e s)
    (C : Config A R σ) (label : Label ι κ) : AtCall P C label := by
  cases label with
  | call i choice => exact fun e _ => h i e C.shared
  | again i choice => trivial
  | surroundings choice => trivial

theorem AtCall.mono {P Q : (i : ι) → E i → σ → Prop} (h : ∀ i e s, P i e s → Q i e s)
    {C : Config A R σ} {label : Label ι κ} (hCall : AtCall P C label) : AtCall Q C label := by
  cases label with
  | call i choice => exact fun e hHead => h i e C.shared (hCall e hHead)
  | again i choice => trivial
  | surroundings choice => trivial

theorem atCall_iff {P Q : (i : ι) → E i → σ → Prop} {C : Config A R σ} {label : Label ι κ}
    (h : AtCall (fun i e s => P i e s ↔ Q i e s) C label) :
    AtCall P C label ↔ AtCall Q C label := by
  cases label with
  | call i choice => exact forall₂_congr h
  | again i choice => exact Iff.rfl
  | surroundings choice => exact Iff.rfl

variable {C C' : Config A R σ} {label : Label ι κ} {labels : List (Label ι κ)}

theorem Outline.Sound.safe_call (hSound : O.Sound S) (hHolds : O.Holds S C) :
    AtCall O.safe C label := by
  cases label with
  | call i choice =>
    intro e hHead
    obtain ⟨next, hCode⟩ := exists_call_of_head hHead
    have hHere := hHolds i
    rw [hCode] at hHere
    exact hHere.safe_call (hSound.refl i)
  | again i choice => trivial
  | surroundings choice => trivial

variable [DecidableEq ι]

def step (S : System A R κ σ) (C : Config A R σ) : Label ι κ → Option (Config A R σ)
  | .call i choice =>
    match C.code i with
    | .ret _ => none
    | .call e next => (S.perform i e choice C.shared).map fun r =>
        ⟨r.2, Function.update C.code i (next r.1)⟩
  | .again i choice =>
    match C.code i with
    | .ret value => (S.again i value choice C.shared).map fun r =>
        ⟨r.2, Function.update C.code i r.1⟩
    | .call _ _ => none
  | .surroundings choice => (S.surroundings choice C.shared).map fun s => ⟨s, C.code⟩

/-- What a step does, by its label. -/
theorem step_cases (h : step S C label = some C') :
    (∃ i choice e next answer, label = .call i choice ∧ C.code i = .call e next ∧
      S.perform i e choice C.shared = some (answer, C'.shared) ∧
      C' = ⟨C'.shared, Function.update C.code i (next answer)⟩) ∨
    (∃ i choice value p, label = .again i choice ∧ C.code i = .ret value ∧
      S.again i value choice C.shared = some (p, C'.shared) ∧
      C' = ⟨C'.shared, Function.update C.code i p⟩) ∨
    ∃ choice, label = .surroundings choice ∧
      S.surroundings choice C.shared = some C'.shared ∧ C' = ⟨C'.shared, C.code⟩ := by
  cases label with
  | call i choice =>
    simp only [step] at h
    split at h
    case h_1 => cases h
    case h_2 e next hCode =>
      obtain ⟨⟨answer, s⟩, hPerform, rfl⟩ := Option.map_eq_some_iff.mp h
      exact .inl ⟨i, choice, e, next, answer, rfl, hCode, hPerform, rfl⟩
  | again i choice =>
    simp only [step] at h
    split at h
    case h_2 => cases h
    case h_1 value hCode =>
      obtain ⟨⟨p, s⟩, hAgain, rfl⟩ := Option.map_eq_some_iff.mp h
      exact .inr (.inl ⟨i, choice, value, p, rfl, hCode, hAgain, rfl⟩)
  | surroundings choice =>
    obtain ⟨s, hMoved, rfl⟩ := Option.map_eq_some_iff.mp h
    exact .inr (.inr ⟨choice, rfl, hMoved, rfl⟩)

theorem Outline.Sound.holds_update (hSound : O.Sound S) (hHolds : O.Holds S C) {s : σ} {i : ι}
    {p : Prog (E i) (A i) (R i)} (hFollows : O.Follows S i p s)
    (hOthers : ∀ j, j ≠ i → O.rely j C.shared s) : O.Holds S ⟨s, Function.update C.code i p⟩ := by
  intro j
  rcases eq_or_ne j i with rfl | hOther
  · simpa using hFollows
  · simpa [Function.update_of_ne hOther] using
      (hHolds j).moved (hSound.trans j) (hOthers j hOther)

theorem Outline.Sound.step (hSound : O.Sound S) (hHolds : O.Holds S C)
    (hGuard : AtCall O.guard C label) (hStep : step S C label = some C') : O.Holds S C' := by
  have hSafe : AtCall O.safe C label := hSound.safe_call hHolds
  obtain ⟨i, choice, e, next, answer, rfl, hCode, hPerform, hNext⟩ |
    ⟨i, choice, value, p, rfl, hCode, hAgain, hNext⟩ | ⟨choice, rfl, hMoved, hNext⟩ :=
    step_cases hStep
  · have hHere := hHolds i
    rw [hCode] at hHere
    have hMeets := hGuard e (by rw [hCode]; rfl)
    rw [hNext]
    apply hSound.holds_update hHolds
    · exact hHere.answered (hSound.refl i) ⟨hMeets, choice, hPerform⟩
    · exact hSound.call i e choice _ answer _ (hSafe e (by rw [hCode]; rfl)) hMeets hPerform
  · have hHere := hHolds i
    rw [hCode] at hHere
    have hPost := hHere C.shared (hSound.refl i C.shared)
    obtain ⟨hFollows, hOthers⟩ := hSound.again i value choice _ p _ hPost hAgain
    rw [hNext]
    exact hSound.holds_update hHolds hFollows hOthers
  · rw [hNext]
    exact fun j => (hHolds j).moved (hSound.trans j) (hSound.surroundings choice _ _ hMoved j)

/-- The rule for interleavings: a run whose calls meet the guard is safe at every call. -/
theorem Outline.Sound.along (hSound : O.Sound S) (hHolds : O.Holds S C)
    (hGuard : Along (Threads.step S) (AtCall O.guard) C labels) :
    Along (Threads.step S) (AtCall O.safe) C labels := by
  apply Along.of_invariant (I := O.Holds S) (P := AtCall O.guard) _ _ hHolds hGuard
  · exact fun _ _ _ hHere hMeets hStep => hSound.step hHere hMeets hStep
  · exact fun _ _ hHere _ => hSound.safe_call hHere

/-- Where the outline makes a property of the calls equivalent to the guard, the runs that have the
property are those that meet the guard. -/
theorem Outline.Sound.along_iff (hSound : O.Sound S) (hHolds : O.Holds S C)
    {P : (i : ι) → E i → σ → Prop} (hIff : ∀ i e s, O.safe i e s → (P i e s ↔ O.guard i e s)) :
    Along (Threads.step S) (AtCall P) C labels ↔
      Along (Threads.step S) (AtCall O.guard) C labels := by
  induction labels generalizing C with
  | nil => exact Iff.rfl
  | cons label labels ih =>
    have hHere : AtCall P C label ↔ AtCall O.guard C label :=
      atCall_iff ((hSound.safe_call hHolds).mono hIff)
    constructor
    · rintro ⟨hFirst, hRest⟩
      refine ⟨hHere.mp hFirst, fun next hNext => ?_⟩
      exact (ih (hSound.step hHolds (hHere.mp hFirst) hNext)).mp (hRest next hNext)
    · rintro ⟨hFirst, hRest⟩
      refine ⟨hHere.mpr hFirst, fun next hNext => ?_⟩
      exact (ih (hSound.step hHolds hFirst hNext)).mpr (hRest next hNext)

/-- The rule where no guard is needed. -/
theorem Outline.Sound.always (hSound : O.Sound S) (hHolds : O.Holds S C)
    (hOpen : ∀ i e s, O.guard i e s) : Along (Threads.step S) (AtCall O.safe) C labels :=
  hSound.along hHolds
    ((Along.trivial C labels).mono fun C label _ => atCall_of_forall hOpen C label)

theorem Outline.Sound.run (hSound : O.Sound S) (hHolds : O.Holds S C)
    (hGuard : Along (Threads.step S) (AtCall O.guard) C labels)
    (hRun : run (Threads.step S) C labels = some C') : O.Holds S C' := by
  apply run_invariant (I := O.Holds S) (P := AtCall O.guard) _ hHolds hGuard hRun
  exact fun _ _ _ hHere hMeets hStep => hSound.step hHere hMeets hStep

theorem Outline.Sound.always_run (hSound : O.Sound S) (hHolds : O.Holds S C)
    (hOpen : ∀ i e s, O.guard i e s) (hRun : Runs.run (Threads.step S) C labels = some C') :
    O.Holds S C' :=
  hSound.run hHolds
    ((Along.trivial C labels).mono fun C label _ => atCall_of_forall hOpen C label) hRun

end Interaction.Threads
