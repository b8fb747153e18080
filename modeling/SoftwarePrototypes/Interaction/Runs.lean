import Mathlib.Data.List.Basic
import Mathlib.Data.Option.Basic

/-! # Runs of a step function under a schedule

A label fixes every choice of one step, so a list of labels is a schedule and its run can be
computed. What single steps keep is lifted to whole runs once, here, for runs whose steps all
meet a guard.
-/

namespace Interaction.Runs

variable {σ ℓ : Type*}

def run (step : σ → ℓ → Option σ) : σ → List ℓ → Option σ
  | s, [] => some s
  | s, label :: labels => (step s label).bind fun next => run step next labels

/-- `P` holds at every step of the run, of the state before the step and its label. -/
def Along (step : σ → ℓ → Option σ) (P : σ → ℓ → Prop) : σ → List ℓ → Prop
  | _, [] => True
  | s, label :: labels => P s label ∧ ∀ next ∈ step s label, Along step P next labels

instance Along.decidable (step : σ → ℓ → Option σ) (P : σ → ℓ → Prop)
    [∀ s label, Decidable (P s label)] : ∀ s labels, Decidable (Along step P s labels)
  | _, [] => inferInstanceAs (Decidable True)
  | s, label :: labels =>
    have : ∀ next, Decidable (Along step P next labels) :=
      fun next => Along.decidable step P next labels
    inferInstanceAs (Decidable (P s label ∧ ∀ next ∈ step s label, Along step P next labels))

variable {step : σ → ℓ → Option σ} {I : σ → Prop} {P Q : σ → ℓ → Prop}

/-- An invariant kept by the guarded steps holds where a guarded run ends. -/
theorem run_invariant
    (hKeep : ∀ s label next, I s → P s label → step s label = some next → I next) :
    ∀ {s : σ} {labels : List ℓ} {final : σ}, I s → Along step P s labels →
      run step s labels = some final → I final := by
  intro s labels
  induction labels generalizing s with
  | nil =>
    intro final hInit _ hRun
    cases hRun
    exact hInit
  | cons label labels ih =>
    intro final hInit hAlong hRun
    obtain ⟨next, hNext, hRest⟩ := Option.bind_eq_some_iff.mp hRun
    exact ih (hKeep s label next hInit hAlong.1 hNext) (hAlong.2 next hNext) hRest

/-- What an invariant and the guard give at one step holds along every guarded run. -/
theorem Along.of_invariant
    (hKeep : ∀ s label next, I s → P s label → step s label = some next → I next)
    (hYield : ∀ s label, I s → P s label → Q s label) :
    ∀ {s : σ} {labels : List ℓ}, I s → Along step P s labels → Along step Q s labels := by
  intro s labels
  induction labels generalizing s with
  | nil => exact fun _ _ => trivial
  | cons label labels ih =>
    intro hInit hAlong
    refine ⟨hYield s label hInit hAlong.1, ?_⟩
    intro next hNext
    exact ih (hKeep s label next hInit hAlong.1 hNext) (hAlong.2 next hNext)

theorem Along.mono (hMono : ∀ s label, P s label → Q s label) {s : σ} {labels : List ℓ}
    (h : Along step P s labels) : Along step Q s labels := by
  induction labels generalizing s with
  | nil => exact True.intro
  | cons label labels ih => exact ⟨hMono s label h.1, fun next hNext => ih (h.2 next hNext)⟩

/-- What holds of both or of neither at each step holds along both or neither of the whole. -/
theorem Along.congr {s : σ} {labels : List ℓ}
    (h : Along step (fun s label => P s label ↔ Q s label) s labels) :
    Along step P s labels ↔ Along step Q s labels := by
  induction labels generalizing s with
  | nil => exact Iff.rfl
  | cons label labels ih =>
    exact and_congr h.1 (forall₂_congr fun next hNext => ih (h.2 next hNext))

theorem Along.and {s : σ} {labels : List ℓ} (hP : Along step P s labels)
    (hQ : Along step Q s labels) : Along step (fun s label => P s label ∧ Q s label) s labels := by
  induction labels generalizing s with
  | nil => exact True.intro
  | cons label labels ih =>
    exact ⟨⟨hP.1, hQ.1⟩, fun next hNext => ih (hP.2 next hNext) (hQ.2 next hNext)⟩

theorem Along.trivial (s : σ) (labels : List ℓ) : Along step (fun _ _ => True) s labels := by
  induction labels generalizing s with
  | nil => exact True.intro
  | cons label labels ih => exact ⟨True.intro, fun next _ => ih next⟩

theorem Along.of_labels {Q : ℓ → Prop} {labels : List ℓ} (h : ∀ label ∈ labels, Q label) (s : σ) :
    Along step (fun _ label => Q label) s labels := by
  induction labels generalizing s with
  | nil => exact True.intro
  | cons label labels ih =>
    obtain ⟨hHead, hRest⟩ := List.forall_mem_cons.mp h
    exact ⟨hHead, fun next _ => ih hRest next⟩

/-- A machine whose guarded steps each lower a measure makes no more of them. -/
theorem run_bounded {I : Nat → σ → Prop}
    (hLower : ∀ n s label next, I n s → P s label → step s label = some next → ∃ m < n, I m next) :
    ∀ {n s labels final}, I n s → Along step P s labels → run step s labels = some final →
      ∃ m, I m final ∧ m + labels.length ≤ n := by
  intro n s labels
  induction labels generalizing n s with
  | nil =>
    intro final hHere _ hRun
    cases hRun
    exact ⟨n, hHere, Nat.le_refl n⟩
  | cons label labels ih =>
    intro final hHere hAlong hRun
    obtain ⟨next, hNext, hRest⟩ := Option.bind_eq_some_iff.mp hRun
    obtain ⟨m, hLess, hThere⟩ := hLower n s label next hHere hAlong.1 hNext
    obtain ⟨m', hFinal, hLength⟩ := ih hThere (hAlong.2 next hNext) hRest
    refine ⟨m', hFinal, ?_⟩
    rw [List.length_cons]
    omega

/-! ### Simulation -/

section Simulation

variable {τ κ : Type*} {step' : τ → κ → Option τ}

theorem run_append (s : σ) (labels labels' : List ℓ) :
    run step s (labels ++ labels') =
      (run step s labels).bind fun next => run step next labels' := by
  induction labels generalizing s with
  | nil => rfl
  | cons label labels ih =>
    change (step s label).bind _ = ((step s label).bind _).bind _
    rw [Option.bind_assoc]
    exact congrArg ((step s label).bind ·) (funext ih)

/-- A machine each of whose guarded steps is matched by a run of another is matched along whole
guarded runs. Steps that are matched by none use up a budget, which each step of the other machine
fills up by `cost`. -/
theorem run_matched {R : Nat → σ → τ → Prop} {allowed : κ → Prop} {cost : Nat}
    (hMatch : ∀ n s t label next, R n s t → P s label → step s label = some next →
      ∃ labels' t' n', (∀ label' ∈ labels', allowed label') ∧ run step' t labels' = some t' ∧
        R n' next t' ∧ n' + 1 ≤ n + cost * labels'.length) :
    ∀ {n s t labels final}, R n s t → Along step P s labels → run step s labels = some final →
      ∃ labels' t' n', (∀ label' ∈ labels', allowed label') ∧ run step' t labels' = some t' ∧
        R n' final t' ∧ n' + labels.length ≤ n + cost * labels'.length := by
  intro n s t labels
  induction labels generalizing n s t with
  | nil =>
    intro final hRelated _ hRun
    cases hRun
    exact ⟨[], t, n, fun _ hMem => absurd hMem List.not_mem_nil, rfl, hRelated, Nat.le_refl _⟩
  | cons label labels ih =>
    intro final hRelated hAlong hRun
    obtain ⟨next, hNext, hRest⟩ := Option.bind_eq_some_iff.mp hRun
    obtain ⟨first, t₁, n₁, hFirst, hRunFirst, hRelated₁, hBudget₁⟩ :=
      hMatch n s t label next hRelated hAlong.1 hNext
    obtain ⟨later, t₂, n₂, hLater, hRunLater, hRelated₂, hBudget₂⟩ :=
      ih hRelated₁ (hAlong.2 next hNext) hRest
    refine ⟨first ++ later, t₂, n₂, ?_, ?_, hRelated₂, ?_⟩
    · intro label' hMem
      exact (List.mem_append.mp hMem).elim (hFirst label') (hLater label')
    · rw [run_append, hRunFirst]
      exact hRunLater
    · rw [List.length_append, Nat.mul_add, List.length_cons]
      omega

end Simulation

end Interaction.Runs
