import SoftwarePrototypes.Interaction.Programs

/-! # Traces of a program

A trace lists the calls made with their answers. `Steps` leads from a program along a trace to
what is left of it, and is taken apart here along the program.
-/

namespace Interaction.Prog

variable {E : Type} {A : E → Type} {α β : Type}

inductive Steps : Prog E A α → List (Sigma A) → Prog E A α → Prop where
  | refl (p : Prog E A α) : Steps p [] p
  | call {e : E} {next : A e → Prog E A α} {answer : A e} {L : List (Sigma A)} {q : Prog E A α}
      (hRest : Steps (next answer) L q) : Steps (.call e next) (⟨e, answer⟩ :: L) q

abbrev Returns (p : Prog E A α) (L : List (Sigma A)) (value : α) : Prop := Steps p L (.ret value)

variable {p q : Prog E A α} {L M : List (Sigma A)}

theorem Steps.append {r : Prog E A α} (hFirst : Steps p L q) (hRest : Steps q M r) :
    Steps p (L ++ M) r := by
  induction hFirst with
  | refl p => exact hRest
  | call _ ih => exact .call (ih hRest)

theorem Steps.bind {rest : α → Prog E A β} (h : Steps p L q) :
    Steps (p >>= rest) L (q >>= rest) := by
  induction h with
  | refl p => exact .refl (p >>= rest)
  | call _ ih => exact .call ih

theorem Returns.bind {rest : α → Prog E A β} {value : α} {r : Prog E A β}
    (hFirst : Returns p L value) (hRest : Steps (rest value) M r) :
    Steps (p >>= rest) (L ++ M) r :=
  Steps.append (Steps.bind hFirst) hRest

/-- A trace leaves no choice: after its first part has returned, a sequence is in its second. -/
theorem Returns.rest {value : α} {rest : α → Prog E A β} {r : Prog E A β}
    (hFirst : Returns p L value) (h : Steps (p >>= rest) (L ++ M) r) : Steps (rest value) M r := by
  induction L generalizing p with
  | nil =>
    cases hFirst
    exact h
  | cons event L ih =>
    cases hFirst with
    | call hNext =>
      cases h with
      | call hLater => exact ih hNext hLater

theorem Steps.head {event : Sigma A} (h : Steps p (event :: L) q) : p.head = some event.1 := by
  cases h
  rfl

/-! ### Taking a trace apart -/

theorem steps_ret {value : α} : Steps (.ret value) L q ↔ L = [] ∧ q = .ret value := by
  constructor
  · rintro ⟨⟩
    exact ⟨rfl, rfl⟩
  · rintro ⟨rfl, rfl⟩
    exact .refl _

theorem returns_ret {value u : α} :
    Returns (.ret value : Prog E A α) L u ↔ L = [] ∧ u = value := by
  rw [Returns, steps_ret, Prog.ret.injEq]

theorem returns_call {e : E} {next : A e → Prog E A α} {value : α} :
    Returns (.call e next) L value ↔
      ∃ answer M, L = ⟨e, answer⟩ :: M ∧ Returns (next answer) M value := by
  constructor
  · rintro ⟨⟩
    exact ⟨_, _, rfl, ‹_›⟩
  · rintro ⟨answer, M, rfl, hRest⟩
    exact .call hRest

theorem returns_ask {e : E} {answer : A e} :
    Returns (ask e) L answer ↔ L = [⟨e, answer⟩] := by
  rw [ask, returns_call]
  constructor
  · rintro ⟨answer', M, rfl, hRest⟩
    obtain ⟨rfl, rfl⟩ := returns_ret.mp hRest
    rfl
  · rintro rfl
    exact ⟨answer, [], rfl, .refl _⟩

/-- A trace of a sequence stays in its first part or goes through to the second. -/
theorem steps_bind {rest : α → Prog E A β} {r : Prog E A β} (h : Steps (p >>= rest) L r) :
    (∃ q, Steps p L q ∧ r = q >>= rest) ∨
      ∃ value M N, L = M ++ N ∧ Returns p M value ∧ Steps (rest value) N r := by
  induction p generalizing L with
  | ret value => exact .inr ⟨value, [], L, rfl, .refl _, h⟩
  | call e next ih =>
    cases h with
    | refl => exact .inl ⟨.call e next, .refl _, rfl⟩
    | call hRest =>
      obtain ⟨q, hFirst, hEq⟩ | ⟨value, M, N, rfl, hFirst, hSecond⟩ := ih _ hRest
      · exact .inl ⟨q, .call hFirst, hEq⟩
      · exact .inr ⟨value, _ :: M, N, rfl, .call hFirst, hSecond⟩

theorem returns_bind {rest : α → Prog E A β} {u : β} (h : Returns (p >>= rest) L u) :
    ∃ value M N, L = M ++ N ∧ Returns p M value ∧ Returns (rest value) N u := by
  obtain ⟨q, hFirst, hEq⟩ | hThrough := steps_bind h
  · cases q with
    | ret value =>
      rw [ret_bind] at hEq
      exact ⟨value, L, [], (List.append_nil L).symm, hFirst, hEq ▸ .refl _⟩
    | call e next => cases hEq
  · exact hThrough

theorem returns_ask_bind {e : E} {rest : A e → Prog E A β} {u : β}
    (h : Returns (ask e >>= rest) L u) :
    ∃ answer M, L = ⟨e, answer⟩ :: M ∧ Returns (rest answer) M u := returns_call.mp h

theorem steps_ask_cons {e : E} {answer : A e} {rest : A e → Prog E A α}
    (h : Steps (ask e >>= rest) (⟨e, answer⟩ :: L) q) : Steps (rest answer) L q := by
  cases h with
  | call hRest => exact hRest

/-- At a call, a sequence is at a call of its first part or has gone through to its second. -/
theorem calls_bind {rest : α → Prog E A β} {e : E} {next : A e → Prog E A β}
    (h : Steps (p >>= rest) L (.call e next)) :
    (∃ next', Steps p L (.call e next')) ∨
      ∃ value M N, L = M ++ N ∧ Returns p M value ∧ Steps (rest value) N (.call e next) := by
  obtain ⟨q, hFirst, hEq⟩ | hThrough := steps_bind h
  · cases q with
    | ret value =>
      exact .inr ⟨value, L, [], (List.append_nil L).symm, hFirst, hEq ▸ .refl _⟩
    | call e' next' =>
      cases hEq
      exact .inl ⟨next', hFirst⟩
  · exact .inr hThrough

theorem Steps.split {event : Sigma A} (h : Steps p (L ++ event :: M) q) :
    ∃ next, Steps p L (.call event.1 next) ∧ Steps (next event.2) M q := by
  induction L generalizing p with
  | nil =>
    cases h with
    | call hRest => exact ⟨_, .refl _, hRest⟩
  | cons first L ih =>
    cases h with
    | call hRest =>
      obtain ⟨next, hFirst, hSecond⟩ := ih hRest
      exact ⟨next, .call hFirst, hSecond⟩

theorem Only.steps {allowed : E → Prop} (hOnly : Only allowed p) (h : Steps p L q) :
    (∀ event ∈ L, allowed event.1) ∧ Only allowed q := by
  induction h with
  | refl p => exact ⟨nofun, hOnly⟩
  | call _ ih =>
    obtain ⟨hCalls, hLeft⟩ := ih (hOnly.2 _)
    exact ⟨List.forall_mem_cons.mpr ⟨hOnly.1, hCalls⟩, hLeft⟩

/-- What follows is reached with the values returned alone. -/
theorem Only.bind_returns {allowed : E → Prop} {rest : α → Prog E A β} (h : Only allowed p)
    (hRest : ∀ L value, Returns p L value → Only allowed (rest value)) :
    Only allowed (p >>= rest) := by
  induction p with
  | ret value => exact hRest [] value (.refl _)
  | call e next ih =>
    exact ⟨h.1, fun answer => ih answer (h.2 answer) fun _ value hRun =>
      hRest _ value (.call hRun)⟩

theorem Only.at_call {allowed : E → Prop} (hOnly : Only allowed p) {e : E}
    {next : A e → Prog E A α} (h : Steps p L (.call e next)) : allowed e :=
  (hOnly.steps h).2.1

/-! ### The trace of a run on surroundings that answer by a function -/

section Exec

variable {σ : Type} {perform : (e : E) → σ → A e × σ}

def trace (perform : (e : E) → σ → A e × σ) : Prog E A α → σ → List (Sigma A)
  | .ret _, _ => []
  | .call e next, s =>
    ⟨e, (perform e s).1⟩ :: trace perform (next (perform e s).1) (perform e s).2

@[simp] theorem trace_ret (value : α) (s : σ) :
    trace perform (.ret value : Prog E A α) s = [] := rfl

@[simp] theorem trace_ask_bind (e : E) (rest : A e → Prog E A α) (s : σ) :
    trace perform (ask e >>= rest) s =
      ⟨e, (perform e s).1⟩ :: trace perform (rest (perform e s).1) (perform e s).2 := rfl

theorem returns_trace (p : Prog E A α) (s : σ) :
    Returns p (trace perform p s) (exec perform p s).1 := by
  induction p generalizing s with
  | ret value => exact .refl _
  | call e next ih => exact .call (ih (perform e s).1 (perform e s).2)

theorem trace_bind (p : Prog E A α) (rest : α → Prog E A β) (s : σ) :
    trace perform (p >>= rest) s = trace perform p s ++
      trace perform (rest (exec perform p s).1) (exec perform p s).2 := by
  induction p generalizing s with
  | ret value => rfl
  | call e next ih => exact congrArg (List.cons _) (ih (perform e s).1 (perform e s).2)

end Exec

/-! ### Following one trace -/

/-- Run a program on given answers, up to a call that has none. -/
def play (answer : (e : E) → Option (A e)) : Nat → Prog E A α → List (Sigma A) × Prog E A α
  | 0, p => ([], p)
  | _ + 1, .ret value => ([], .ret value)
  | n + 1, .call e next =>
    match answer e with
    | none => ([], .call e next)
    | some a => (⟨e, a⟩ :: (play answer n (next a)).1, (play answer n (next a)).2)

theorem steps_play (answer : (e : E) → Option (A e)) (n : Nat) (p : Prog E A α) :
    Steps p (play answer n p).1 (play answer n p).2 := by
  induction n generalizing p with
  | zero => exact .refl p
  | succ n ih =>
    cases p with
    | ret value => exact .refl _
    | call e next =>
      simp only [play]
      split
      · exact .refl _
      · exact .call (ih _)

theorem returns_play {answer : (e : E) → Option (A e)} {n : Nat} {p : Prog E A α} {value : α}
    (h : (play answer n p).2.returned = some value) : Returns p (play answer n p).1 value := by
  rw [Returns, ← eq_ret_of_returned h]
  exact steps_play answer n p

theorem play_answers {answer : (e : E) → Option (A e)} (n : Nat) (p : Prog E A α) :
    ∀ event ∈ (play answer n p).1, answer event.1 = some event.2 := by
  induction n generalizing p with
  | zero => exact nofun
  | succ n ih =>
    cases p with
    | ret value => exact nofun
    | call e next =>
      simp only [play]
      split
      · exact nofun
      · rename_i a hAnswer
        exact List.forall_mem_cons.mpr ⟨hAnswer, ih (next a)⟩

end Interaction.Prog
