import Mathlib.Logic.Relation

/-! # Programs that call on their surroundings

A program is a tree: it returns, or it makes a call and goes on with the answer. `Always` says
what holds at each call and at the return whatever the surroundings answer and however they
interfere in between; its rules follow the shape of the program.
-/

namespace Interaction

inductive Prog (E : Type) (A : E → Type) (α : Type) where
  | ret (value : α)
  | call (e : E) (next : A e → Prog E A α)

namespace Prog

variable {E : Type} {A : E → Type} {α β σ : Type}

def bind : Prog E A α → (α → Prog E A β) → Prog E A β
  | .ret value, rest => rest value
  | .call e next, rest => .call e fun answer => (next answer).bind rest

instance : Monad (Prog E A) where
  pure := .ret
  bind := .bind

@[simp] theorem pure_eq (value : α) : (pure value : Prog E A α) = .ret value := rfl

@[simp] theorem ret_bind (value : α) (rest : α → Prog E A β) :
    (Prog.ret value : Prog E A α) >>= rest = rest value := rfl

@[simp] theorem call_bind (e : E) (next : A e → Prog E A α) (rest : α → Prog E A β) :
    Prog.call e next >>= rest = .call e fun answer => next answer >>= rest := rfl

theorem bind_assoc {γ : Type} (p : Prog E A α) (rest : α → Prog E A β) (last : β → Prog E A γ) :
    p >>= rest >>= last = p >>= fun value => rest value >>= last := by
  induction p with
  | ret value => rfl
  | call e next ih => exact congrArg (Prog.call e) (funext ih)

theorem bind_ret (p : Prog E A α) : p >>= .ret = p := by
  induction p with
  | ret value => rfl
  | call e next ih => exact congrArg (Prog.call e) (funext ih)

def ask (e : E) : Prog E A (A e) := .call e .ret

/-- The call a program makes next; none once it has returned. -/
def head : Prog E A α → Option E
  | .ret _ => none
  | .call e _ => some e

theorem exists_call_of_head {p : Prog E A α} {e : E} (h : p.head = some e) :
    ∃ next, p = .call e next := by
  cases p with
  | ret value => cases h
  | call e' next =>
    cases h
    exact ⟨next, rfl⟩

def returned : Prog E A α → Option α
  | .ret value => some value
  | .call _ _ => none

theorem eq_ret_of_returned {p : Prog E A α} {value : α} (h : p.returned = some value) :
    p = .ret value := by
  cases p with
  | ret value' =>
    cases h
    rfl
  | call e next => cases h

/-- How the surroundings may answer a call and change their state. -/
abbrev Sem (E : Type) (A : E → Type) (σ : Type) : Type := (e : E) → σ → A e → σ → Prop

/-- At every call `safe` holds of the call and the state it is made in, and at the return
`post` holds, with the state moved by `rely` at any point in between. -/
def Always (rely : σ → σ → Prop) (sem : Sem E A σ) (safe : E → σ → Prop) (post : α → σ → Prop) :
    Prog E A α → σ → Prop
  | .ret value, s => ∀ s', rely s s' → post value s'
  | .call e next, s => ∀ s', rely s s' → safe e s' ∧
      ∀ answer s'', sem e s' answer s'' → Always rely sem safe post (next answer) s''

variable {rely : σ → σ → Prop} {sem : Sem E A σ} {safe safe' : E → σ → Prop}
  {post post' : α → σ → Prop}

theorem Always.moved (hTrans : ∀ s s' s'', rely s s' → rely s' s'' → rely s s'')
    {p : Prog E A α} {s s' : σ} (hMove : rely s s') (h : Always rely sem safe post p s) :
    Always rely sem safe post p s' := by
  cases p with
  | ret value => exact fun s'' hRest => h s'' (hTrans s s' s'' hMove hRest)
  | call e next => exact fun s'' hRest => h s'' (hTrans s s' s'' hMove hRest)

theorem Always.answered (hRefl : ∀ s, rely s s) {e : E} {next : A e → Prog E A α} {s s' : σ}
    {answer : A e} (hSem : sem e s answer s')
    (h : Always rely sem safe post (.call e next) s) :
    Always rely sem safe post (next answer) s' :=
  (h s (hRefl s)).2 answer s' hSem

theorem Always.safe_call (hRefl : ∀ s, rely s s) {e : E} {next : A e → Prog E A α} {s : σ}
    (h : Always rely sem safe post (.call e next) s) : safe e s := (h s (hRefl s)).1

theorem Always.mono (hSafe : ∀ e s, safe e s → safe' e s)
    (hPost : ∀ value s, post value s → post' value s) {p : Prog E A α} {s : σ}
    (h : Always rely sem safe post p s) : Always rely sem safe' post' p s := by
  induction p generalizing s with
  | ret value => exact fun s' hMove => hPost value s' (h s' hMove)
  | call e next ih =>
    intro s' hMove
    refine ⟨hSafe e s' (h s' hMove).1, ?_⟩
    intro answer s'' hSem
    exact ih answer ((h s' hMove).2 answer s'' hSem)

theorem Always.of_forall (hSafe : ∀ e s, safe e s) (hPost : ∀ value s, post value s)
    (p : Prog E A α) (s : σ) : Always rely sem safe post p s := by
  induction p generalizing s with
  | ret value => exact fun s' _ => hPost value s'
  | call e next ih => exact fun s' _ => ⟨hSafe e s', fun answer s'' _ => ih answer s''⟩

theorem Always.restrict {rely' : σ → σ → Prop} {sem' : Sem E A σ}
    (hRely : ∀ s s', rely' s s' → rely s s')
    (hSem : ∀ e s answer s', safe e s → sem' e s answer s' → sem e s answer s')
    {p : Prog E A α} {s : σ} (h : Always rely sem safe post p s) :
    Always rely' sem' safe post p s := by
  induction p generalizing s with
  | ret value => exact fun s' hMove => h s' (hRely s s' hMove)
  | call e next ih =>
    intro s' hMove
    obtain ⟨hHere, hNext⟩ := h s' (hRely s s' hMove)
    refine ⟨hHere, fun answer s'' hAnswer => ih answer ?_⟩
    exact hNext answer s'' (hSem _ _ _ _ hHere hAnswer)

/-- The sequencing rule: the first part ends where the second can start. -/
theorem Always.bind (hRefl : ∀ s, rely s s) {p : Prog E A α} {rest : α → Prog E A β}
    {last : β → σ → Prop} {s : σ}
    (h : Always rely sem safe (fun value s' => Always rely sem safe last (rest value) s') p s) :
    Always rely sem safe last (p >>= rest) s := by
  induction p generalizing s with
  | ret value => exact h s (hRefl s)
  | call e next ih =>
    intro s' hMove
    refine ⟨(h s' hMove).1, ?_⟩
    intro answer s'' hSem
    exact ih answer ((h s' hMove).2 answer s'' hSem)

theorem Always.ask_bind {e : E} {rest : A e → Prog E A β} {last : β → σ → Prop} {s : σ}
    (h : ∀ s', rely s s' → safe e s' ∧
      ∀ answer s'', sem e s' answer s'' → Always rely sem safe last (rest answer) s'') :
    Always rely sem safe last (ask e >>= rest) s := h

theorem Always.ask {e : E} {last : A e → σ → Prop} {s : σ}
    (h : ∀ s', rely s s' → safe e s' ∧
      ∀ answer s'', sem e s' answer s'' → ∀ s₃, rely s'' s₃ → last answer s₃) :
    Always rely sem safe last (ask e) s := h

/-- The rule for a loop over a list: `I` speaks of the elements done so far. -/
theorem Always.forM_split (hRefl : ∀ s, rely s s) {ι : Type} {I : List ι → σ → Prop}
    (hStable : ∀ done s s', I done s → rely s s' → I done s') {body : ι → Prog E A Unit}
    {l : List ι} (hRound : ∀ done i rest s, l = done ++ i :: rest → I done s →
      Always rely sem safe (fun _ s' => I (done ++ [i]) s') (body i) s) {s : σ} (hInit : I [] s) :
    Always rely sem safe (fun _ s' => I l s') (l.forM body) s := by
  suffices h : ∀ rest done s, l = done ++ rest → I done s →
      Always rely sem safe (fun _ s' => I l s') (rest.forM body) s from h l [] s rfl hInit
  intro rest
  induction rest with
  | nil =>
    intro done s hList hHere s' hMove
    rw [List.append_nil] at hList
    rw [hList]
    exact hStable done s s' hHere hMove
  | cons i rest ih =>
    intro done s hList hHere
    have hCons : (i :: rest).forM body = body i >>= fun _ => rest.forM body := rfl
    rw [hCons]
    apply Always.bind hRefl
    apply (hRound done i rest s hList hHere).mono (fun _ _ => id)
    exact fun _ s' hNext => ih (done ++ [i]) s' (hList.trans (List.append_cons done i rest)) hNext

theorem Always.forM (hRefl : ∀ s, rely s s) {ι : Type} {I : List ι → σ → Prop}
    (hStable : ∀ done s s', I done s → rely s s' → I done s') {body : ι → Prog E A Unit}
    (hRound : ∀ done i s, I done s →
      Always rely sem safe (fun _ s' => I (done ++ [i]) s') (body i) s)
    (l : List ι) {done : List ι} {s : σ} (hInit : I done s) :
    Always rely sem safe (fun _ s' => I (done ++ l) s') (l.forM body) s := by
  apply Always.forM_split hRefl (I := fun l => I (done ++ l))
  · exact fun l => hStable (done ++ l)
  · intro l i _ s _ hHere
    rw [← List.append_assoc]
    exact hRound (done ++ l) i s hHere
  · rw [List.append_nil]
    exact hInit

/-- Every call the program can make satisfies `allowed`. -/
def Only (allowed : E → Prop) : Prog E A α → Prop
  | .ret _ => True
  | .call e next => allowed e ∧ ∀ answer, Only allowed (next answer)

@[simp] theorem only_ret {allowed : E → Prop} (value : α) :
    Only allowed (.ret value : Prog E A α) := trivial

@[simp] theorem only_ask {allowed : E → Prop} (e : E) :
    Only allowed (ask e : Prog E A (A e)) ↔ allowed e := and_iff_left fun _ => trivial

@[simp] theorem only_ask_bind {allowed : E → Prop} (e : E) (rest : A e → Prog E A α) :
    Only allowed (ask e >>= rest) ↔ allowed e ∧ ∀ answer, Only allowed (rest answer) := Iff.rfl

theorem only_ite {allowed : E → Prop} {c : Prop} [Decidable c] {p q : Prog E A α}
    (hThen : c → Only allowed p) (hElse : ¬ c → Only allowed q) :
    Only allowed (if c then p else q) := by
  split
  · exact hThen ‹c›
  · exact hElse ‹¬ c›

theorem Only.mono {allowed allowed' : E → Prop} (h : ∀ e, allowed e → allowed' e)
    {p : Prog E A α} (hOnly : Only allowed p) : Only allowed' p := by
  induction p with
  | ret value => trivial
  | call e next ih => exact ⟨h e hOnly.1, fun answer => ih answer (hOnly.2 answer)⟩

theorem Only.bind {allowed : E → Prop} {p : Prog E A α} {rest : α → Prog E A β}
    (h : Only allowed p) (hRest : ∀ value, Only allowed (rest value)) :
    Only allowed (p >>= rest) := by
  induction p with
  | ret value => exact hRest value
  | call e next ih => exact ⟨h.1, fun answer => ih answer (h.2 answer)⟩

theorem Only.forM {allowed : E → Prop} {ι : Type} {body : ι → Prog E A Unit} {l : List ι}
    (h : ∀ i ∈ l, Only allowed (body i)) : Only allowed (l.forM body) := by
  induction l with
  | nil => trivial
  | cons i l ih =>
    have hCons : (i :: l).forM body = body i >>= fun _ => l.forM body := rfl
    rw [hCons]
    exact Only.bind (h i List.mem_cons_self) fun _ => ih fun j hj => h j (List.mem_cons_of_mem i hj)

/-- The program makes at most `n` calls. -/
def Within : Prog E A α → Nat → Prop
  | .ret _, _ => True
  | .call _ next, n => 0 < n ∧ ∀ answer, (next answer).Within (n - 1)

theorem Within.mono {p : Prog E A α} {n m : Nat} (h : p.Within n) (hLe : n ≤ m) : p.Within m := by
  induction p generalizing n m with
  | ret value => trivial
  | call e next ih =>
    have hRest : n - 1 ≤ m - 1 := Nat.sub_le_sub_right hLe 1
    exact ⟨Nat.lt_of_lt_of_le h.1 hLe, fun answer => ih answer (h.2 answer) hRest⟩

theorem within_ask (e : E) : (ask e : Prog E A (A e)).Within 1 := ⟨Nat.one_pos, fun _ => trivial⟩

theorem within_ask_bind {e : E} {rest : A e → Prog E A α} {n : Nat}
    (h : ∀ answer, (rest answer).Within n) : (ask e >>= rest).Within (n + 1) :=
  ⟨Nat.succ_pos n, h⟩

theorem within_ite {c : Prop} [Decidable c] {p q : Prog E A α} {n : Nat} (hThen : p.Within n)
    (hElse : q.Within n) : (if c then p else q).Within n := by
  split
  · exact hThen
  · exact hElse

theorem Within.bind {p : Prog E A α} {rest : α → Prog E A β} {n m : Nat} (h : p.Within n)
    (hRest : ∀ value, (rest value).Within m) : (p >>= rest).Within (n + m) := by
  induction p generalizing n with
  | ret value => exact (hRest value).mono (Nat.le_add_left m n)
  | call e next ih =>
    refine ⟨Nat.add_pos_left h.1 m, fun answer => ?_⟩
    rw [Nat.sub_add_comm h.1]
    exact ih answer (h.2 answer)

theorem Within.forM {ι : Type} {body : ι → Prog E A Unit} {n : Nat} (h : ∀ i, (body i).Within n)
    (l : List ι) : (l.forM body).Within (l.length * n) := by
  induction l with
  | nil => trivial
  | cons i l ih =>
    have hCons : (i :: l).forM body = body i >>= fun _ => l.forM body := rfl
    rw [hCons, List.length_cons, Nat.succ_mul, Nat.add_comm]
    exact (h i).bind fun _ => ih

/-- An invariant kept by the surroundings and by every allowed call holds throughout. -/
theorem Always.of_invariant {I : σ → Prop} {allowed : E → Prop}
    (hRely : ∀ s s', I s → rely s s' → I s')
    (hSem : ∀ e s answer s', allowed e → I s → sem e s answer s' → I s')
    (hSafe : ∀ e s, allowed e → I s → safe e s)
    {p : Prog E A α} (hOnly : Only allowed p) {s : σ} (hInit : I s) :
    Always rely sem safe (fun _ s' => I s') p s := by
  induction p generalizing s with
  | ret value => exact fun s' hMove => hRely s s' hInit hMove
  | call e next ih =>
    intro s' hMove
    have hHere := hRely s s' hInit hMove
    refine ⟨hSafe e s' hOnly.1 hHere, ?_⟩
    intro answer s'' hAnswer
    exact ih answer (hOnly.2 answer) (hSem e s' answer s'' hOnly.1 hHere hAnswer)

/-! ### Surroundings that answer by a function -/

def exec (perform : (e : E) → σ → A e × σ) : Prog E A α → σ → α × σ
  | .ret value, s => (value, s)
  | .call e next, s => exec perform (next (perform e s).1) (perform e s).2

variable {perform : (e : E) → σ → A e × σ}

@[simp] theorem exec_ret (value : α) (s : σ) :
    exec perform (.ret value : Prog E A α) s = (value, s) := rfl

@[simp] theorem exec_ask (e : E) (s : σ) : exec perform (Prog.ask e) s = perform e s := rfl

@[simp] theorem exec_ask_bind (e : E) (rest : A e → Prog E A α) (s : σ) :
    exec perform (Prog.ask e >>= rest) s = exec perform (rest (perform e s).1) (perform e s).2 :=
  rfl

theorem exec_ite {c : Prop} [Decidable c] (p q : Prog E A α) (s : σ) :
    exec perform (if c then p else q) s = if c then exec perform p s else exec perform q s := by
  split <;> rfl

theorem exec_bind (p : Prog E A α) (rest : α → Prog E A β) (s : σ) :
    exec perform (p >>= rest) s =
      exec perform (rest (exec perform p s).1) (exec perform p s).2 := by
  induction p generalizing s with
  | ret value => rfl
  | call e next ih => exact ih (perform e s).1 (perform e s).2

/-- What always holds at the return holds where surroundings that answer by a function lead. -/
theorem Always.exec {rely : σ → σ → Prop} {sem : Sem E A σ} {safe : E → σ → Prop}
    {post : α → σ → Prop} (hRefl : ∀ s, rely s s)
    (hPerform : ∀ e s, sem e s (perform e s).1 (perform e s).2) {p : Prog E A α} {s : σ}
    (h : Always rely sem safe post p s) : post (exec perform p s).1 (exec perform p s).2 := by
  induction p generalizing s with
  | ret value => exact h s (hRefl s)
  | call e next ih => exact ih _ (h.answered hRefl (hPerform e s))

/-- What each round of a loop does to a measure of the state, the loop does for the whole list. -/
theorem exec_forM {ι : Type} (I : σ → Prop) (measure : σ → List β) (effect : ι → List β)
    {body : ι → Prog E A Unit} {l : List ι}
    (hRound : ∀ i ∈ l, ∀ s, I s → I (exec perform (body i) s).2 ∧
      measure (exec perform (body i) s).2 = measure s ++ effect i) {s : σ} (hInit : I s) :
    I (exec perform (l.forM body) s).2 ∧
      measure (exec perform (l.forM body) s).2 = measure s ++ l.flatMap effect := by
  induction l generalizing s with
  | nil => exact ⟨hInit, by simp⟩
  | cons i l ih =>
    obtain ⟨hKept, hEffect⟩ := hRound i List.mem_cons_self s hInit
    have hRest := ih (fun j hj => hRound j (List.mem_cons_of_mem i hj)) hKept
    have hCons : (i :: l).forM body = body i >>= fun _ => l.forM body := rfl
    rw [hCons, exec_bind, List.flatMap_cons, ← List.append_assoc, ← hEffect]
    exact hRest

theorem exec_invariant {I : σ → Prop} {allowed : E → Prop}
    (hKeep : ∀ e s, allowed e → I s → I (perform e s).2) {p : Prog E A α}
    (hOnly : Only allowed p) {s : σ} (hInit : I s) : I (exec perform p s).2 := by
  induction p generalizing s with
  | ret value => exact hInit
  | call e next ih => exact ih _ (hOnly.2 _) (hKeep e s hOnly.1 hInit)

end Prog

end Interaction
