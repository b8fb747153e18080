import Mathlib.Logic.Function.Iterate
import SoftwarePrototypes.Interaction.Programs

/-! # Threads that repeat a program

The body of a loop is a program that ends with where to go next; a body that returns its own
argument at once has left the loop. What every round keeps holds at every call of the thread, and
a measure that every round lowers brings the thread to its end.
-/

namespace Interaction.Prog

variable {E : Type} {A : E → Type} {ν σ : Type}

/-- Start the next round as soon as one has ended. -/
def settle (body : ν → Prog E A ν) : Prog E A ν → Prog E A ν
  | .ret next => body next
  | .call e rest => .call e rest

theorem Always.settle {rely : σ → σ → Prop} {sem : Sem E A σ} {safe : E → σ → Prop}
    {J : ν → σ → Prop} {body : ν → Prog E A ν} (hRefl : ∀ s, rely s s)
    (hBody : ∀ next s, J next s → Always rely sem safe J (body next) s)
    {p : Prog E A ν} {s : σ} (h : Always rely sem safe J p s) :
    Always rely sem safe J (settle body p) s := by
  cases p with
  | ret next => exact hBody next s (h s (hRefl s))
  | call e rest => exact h

def rounds (body : ν → Prog E A ν) : Nat → ν → Prog E A ν
  | 0, next => .ret next
  | n + 1, next => body next >>= rounds body n

theorem only_rounds {allowed : E → Prop} {body : ν → Prog E A ν}
    (h : ∀ next, Only allowed (body next)) (n : Nat) (next : ν) :
    Only allowed (rounds body n next) := by
  induction n generalizing next with
  | zero => trivial
  | succ n ih => exact Only.bind (h next) ih

/-! ### A thread by itself -/

variable (perform : (e : E) → σ → A e × σ) (body : ν → Prog E A ν)

/-- One call of the thread, and the next round if this one is over. -/
def advance : Prog E A ν × σ → Prog E A ν × σ
  | (.ret next, s) => (.ret next, s)
  | (.call e rest, s) => (settle body (rest (perform e s).1), (perform e s).2)

def performs : Sem E A σ := fun e s answer s' => answer = (perform e s).1 ∧ s' = (perform e s).2

variable {perform body}

theorem always_advance {rely : σ → σ → Prop} {safe : E → σ → Prop} {J : ν → σ → Prop}
    (hRefl : ∀ s, rely s s)
    (hBody : ∀ next s, J next s → Always rely (performs perform) safe J (body next) s)
    {p : Prog E A ν} {s : σ} (h : Always rely (performs perform) safe J p s) (n : Nat) :
    Always rely (performs perform) safe J ((advance perform body)^[n] (p, s)).1
      ((advance perform body)^[n] (p, s)).2 := by
  induction n generalizing p s with
  | zero => exact h
  | succ n ih =>
    rw [Function.iterate_succ_apply]
    apply ih
    cases p with
    | ret next => exact h
    | call e rest => exact (h.answered hRefl ⟨rfl, rfl⟩).settle hRefl hBody

theorem advance_round (body : ν → Prog E A ν) {rely : σ → σ → Prop} {safe : E → σ → Prop}
    {post : ν → σ → Prop} (hRefl : ∀ s, rely s s) {p : Prog E A ν} {s : σ}
    (h : Always rely (performs perform) safe post p s) :
    ∃ n next s', (advance perform body)^[n] (settle body p, s) = (body next, s') ∧
      post next s' := by
  induction p generalizing s with
  | ret next => exact ⟨0, next, s, rfl, h s (hRefl s)⟩
  | call e rest ih =>
    obtain ⟨n, next, s', hRun, hPost⟩ := ih (perform e s).1 (h.answered hRefl ⟨rfl, rfl⟩)
    exact ⟨n + 1, next, s', by rw [Function.iterate_succ_apply]; exact hRun, hPost⟩

/-- A thread whose rounds each lower a measure leaves its loop. -/
theorem advance_terminates {rely : σ → σ → Prop} {safe : E → σ → Prop} {J : Nat → ν → σ → Prop}
    (hRefl : ∀ s, rely s s)
    (hBody : ∀ m next s, J (m + 1) next s → Always rely (performs perform) safe
      (fun next' s' => ∃ m' ≤ m, J m' next' s') (body next) s)
    (hCall : ∀ next, settle body (body next) = body next)
    {m : Nat} {next : ν} {s : σ} (h : J m next s) :
    ∃ n next' s', (advance perform body)^[n] (body next, s) = (body next', s') ∧ J 0 next' s' := by
  induction m using Nat.strongRecOn generalizing next s with
  | ind m ih =>
    cases m with
    | zero => exact ⟨0, next, s, rfl, h⟩
    | succ m =>
      obtain ⟨n₁, next₁, s₁, hRun₁, m₁, hLower, h₁⟩ :=
        advance_round body hRefl (hBody m next s h)
      obtain ⟨n₂, next₂, s₂, hRun₂, h₂⟩ := ih m₁ (Nat.lt_succ_of_le hLower) h₁
      refine ⟨n₂ + n₁, next₂, s₂, ?_, h₂⟩
      rw [hCall next] at hRun₁
      rw [Function.iterate_add_apply, hRun₁, hRun₂]

/-! ### A thread among others -/

/-- A thread that makes at most `n` more calls, however it is interfered with: `J` is lowered by
each of its rounds, none of which makes more than `most` calls, and is down at the end. -/
def Ranked (rely : σ → σ → Prop) (sem : Sem E A σ) (safe : E → σ → Prop) (J : Nat → ν → σ → Prop)
    (body : ν → Prog E A ν) (most : Nat) (p : Prog E A ν) (s : σ) (n : Nat) : Prop :=
  (∃ next, J 0 next s ∧ p = body next) ∨ ∃ m k, p.head ≠ none ∧
    Always rely sem safe (fun next s' => ∃ m' ≤ m, J m' next s') p s ∧
    p.Within k ∧ m * (most + 1) + k ≤ n

/-- What the rounds of a body have to do for that. -/
structure Lowers (rely : σ → σ → Prop) (sem : Sem E A σ) (safe : E → σ → Prop)
    (J : Nat → ν → σ → Prop) (body : ν → Prog E A ν) (most : Nat) : Prop where
  refl : ∀ s, rely s s
  trans : ∀ s s' s'', rely s s' → rely s' s'' → rely s s''
  round : ∀ m next s, J (m + 1) next s → (body next).head ≠ none ∧
    Always rely sem safe (fun next' s' => ∃ m' ≤ m, J m' next' s') (body next) s
  left : ∀ next s, J 0 next s → (body next).head = none
  stable : ∀ next s s', J 0 next s → rely s s' → J 0 next s'
  within : ∀ next, (body next).Within most

section Lowers

variable {rely : σ → σ → Prop} {sem : Sem E A σ} {safe : E → σ → Prop} {J : Nat → ν → σ → Prop}
  {body : ν → Prog E A ν} {most n : Nat}

theorem Lowers.moved (hLowers : Lowers rely sem safe J body most) {p : Prog E A ν} {s s' : σ}
    (hMove : rely s s') (h : Ranked rely sem safe J body most p s n) :
    Ranked rely sem safe J body most p s' n := by
  rcases h with ⟨next, hMeasure, hCode⟩ | ⟨m, k, hHead, hAlways, hWithin, hCalls⟩
  · exact .inl ⟨next, hLowers.stable next s s' hMeasure hMove, hCode⟩
  · exact .inr ⟨m, k, hHead, hAlways.moved hLowers.trans hMove, hWithin, hCalls⟩

theorem Lowers.ranked (hLowers : Lowers rely sem safe J body most) {m : Nat} {next : ν} {s : σ}
    (h : J m next s) : Ranked rely sem safe J body most (body next) s (m * (most + 1)) := by
  cases m with
  | zero => exact .inl ⟨next, h, rfl⟩
  | succ m =>
    obtain ⟨hHead, hAlways⟩ := hLowers.round m next s h
    refine .inr ⟨m, most, hHead, hAlways, hLowers.within next, ?_⟩
    rw [Nat.succ_mul]
    omega

/-- Each call of the thread is one less to make. -/
theorem Lowers.answered (hLowers : Lowers rely sem safe J body most) {e : E}
    {rest : A e → Prog E A ν} {s s' : σ} {answer : A e} (hSem : sem e s answer s')
    (h : Ranked rely sem safe J body most (.call e rest) s n) :
    ∃ n' < n, Ranked rely sem safe J body most (settle body (rest answer)) s' n' := by
  rcases h with ⟨next, hMeasure, hCode⟩ | ⟨m, k, -, hAlways, ⟨hCall, hWithin⟩, hCalls⟩
  · have hLeft := hLowers.left next s hMeasure
    rw [← hCode] at hLeft
    cases hLeft
  have hNext := hAlways.answered hLowers.refl hSem
  have hWithin := hWithin answer
  cases hCode : rest answer with
  | ret next =>
    rw [hCode] at hNext
    obtain ⟨m', hLower, hMeasure⟩ := hNext s' (hLowers.refl s')
    have hRounds : m' * (most + 1) ≤ m * (most + 1) := Nat.mul_le_mul_right _ hLower
    exact ⟨m' * (most + 1), by omega, hLowers.ranked hMeasure⟩
  | call e' rest' =>
    rw [hCode] at hNext hWithin
    refine ⟨m * (most + 1) + (k - 1), by omega, .inr ⟨m, k - 1, ?_, hNext, hWithin, Nat.le_refl _⟩⟩
    exact Option.some_ne_none e'

theorem Ranked.left {p : Prog E A ν} {s : σ} (h : Ranked rely sem safe J body most p s n)
    (hHead : p.head = none) : ∃ next, J 0 next s ∧ p = body next := by
  rcases h with hLeft | ⟨_, _, hSome, _⟩
  · exact hLeft
  · exact absurd hHead hSome

end Lowers

end Interaction.Prog
