import SoftwarePrototypes.Interaction.Traces

/-! # Runs of a program

`Reaches` leads from a program and a state of its surroundings to what is left of it after some
of its calls. What `Always` says holds wherever a run has come to.
-/

namespace Interaction.Prog

variable {E : Type} {A : E → Type} {α σ : Type}

inductive Reaches (sem : Sem E A σ) : Prog E A α → σ → Prog E A α → σ → Prop where
  | refl (p : Prog E A α) (s : σ) : Reaches sem p s p s
  | call {e : E} {next : A e → Prog E A α} {s s' s'' : σ} {answer : A e} {p : Prog E A α}
      (hAnswer : sem e s answer s') (hRest : Reaches sem (next answer) s' p s'') :
      Reaches sem (.call e next) s p s''

/-- Surroundings that answer as `allowed` says and keep notes of the calls. -/
def notes (allowed : (e : E) → A e → Prop) (record : (e : E) → A e → σ → σ) : Sem E A σ :=
  fun e s answer s' => allowed e answer ∧ s' = record e answer s

variable {rely : σ → σ → Prop} {sem : Sem E A σ} {safe : E → σ → Prop} {post : α → σ → Prop}
  {p : Prog E A α} {s s' : σ}

/-- A program that makes only safe calls satisfies what its traces that return leave behind. -/
theorem Always.of_returns {allowed : (e : E) → A e → Prop} {record : (e : E) → A e → σ → σ}
    {calls : E → Prop} (hSafe : ∀ e s, calls e → safe e s) (hOnly : Only calls p)
    (hPost : ∀ L value, Returns p L value →
      post value (L.foldl (fun s event => record event.1 event.2 s) s)) :
    Always (· = ·) (notes allowed record) safe post p s := by
  induction p generalizing s with
  | ret value =>
    rintro _ rfl
    exact hPost [] value (.refl _)
  | call e next ih =>
    rintro _ rfl
    refine ⟨hSafe e s hOnly.1, ?_⟩
    rintro answer _ ⟨_, rfl⟩
    refine ih answer (hOnly.2 answer) fun L value hRun => ?_
    exact hPost (⟨e, answer⟩ :: L) value (.call hRun)

theorem Always.reaches (hRefl : ∀ s, rely s s) {p' : Prog E A α}
    (h : Always rely sem safe post p s) (hRun : Reaches sem p s p' s') :
    Always rely sem safe post p' s' := by
  induction hRun with
  | refl p s => exact h
  | call hAnswer _ ih => exact ih (h.answered hRefl hAnswer)

theorem Always.at_call (hRefl : ∀ s, rely s s) {e : E} {next : A e → Prog E A α}
    (h : Always rely sem safe post p s) (hRun : Reaches sem p s (.call e next) s') : safe e s' :=
  (h.reaches hRefl hRun).safe_call hRefl

theorem Always.at_return (hRefl : ∀ s, rely s s) {value : α}
    (h : Always rely sem safe post p s) (hRun : Reaches sem p s (.ret value) s') : post value s' :=
  h.reaches hRefl hRun s' (hRefl s')

def follow (choose : (e : E) → σ → Option (A e × σ)) : Nat → Prog E A α → σ → Prog E A α × σ
  | 0, p, s => (p, s)
  | _ + 1, .ret value, s => (.ret value, s)
  | n + 1, .call e next, s =>
    match choose e s with
    | none => (.call e next, s)
    | some (answer, s') => follow choose n (next answer) s'

theorem reaches_follow {choose : (e : E) → σ → Option (A e × σ)}
    (hChoose : ∀ e s answer s', choose e s = some (answer, s') → sem e s answer s') (n : Nat)
    (p : Prog E A α) (s : σ) :
    Reaches sem p s (follow choose n p s).1 (follow choose n p s).2 := by
  induction n generalizing p s with
  | zero => exact .refl p s
  | succ n ih =>
    cases p with
    | ret value => exact .refl _ s
    | call e next =>
      simp only [follow]
      split
      · exact .refl _ s
      · rename_i answer s' hAnswer
        exact .call (hChoose e s answer s' hAnswer) (ih (next answer) s')

end Interaction.Prog
