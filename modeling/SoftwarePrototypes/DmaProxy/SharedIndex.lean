import SoftwarePrototypes.DmaProxy.Driver
import SoftwarePrototypes.Interaction.Runs

/-! # Two requests on one channel

The index of a request is kept in the channel, where `start_transfer` and `wait_for_transfer`
each read it again. A request works on its own BD as long as nobody overwrites the index while
it still has a read to make.
-/

namespace SoftwarePrototypes.DmaProxy

open Interaction Interaction.Runs Interaction.Prog

/-- A request under way. `copied` and `reads` count what it has done with `bdindex`. -/
structure Request where
  cmd : Cmd
  arg : Int
  program : Program Int
  copied : Bool
  reads : Nat

structure Pair where
  driver : Driver
  request : Bool → Request

inductive Turn where
  | call (who : Bool) (reply : Reply)
  | engine (event : EngineEvent)

def Request.after (r : Request) (e : Call) (rest : Program Int) (reply : Reply) : Request :=
  match e with
  | .copyFromUser _ => { r with program := rest, copied := reply.ok }
  | .readBdindex => { r with program := rest, reads := r.reads + 1 }
  | _ => { r with program := rest }

def Pair.step (w : Pair) : Turn → Option Pair
  | .call who reply =>
    match (w.request who).program with
    | .ret _ => none
    | .call e next => (perform e reply w.driver).map fun (answer, d) =>
      ⟨d, Function.update w.request who ((w.request who).after e (next answer) reply)⟩
  | .engine event => (w.driver.engineStep event).map fun d => { w with driver := d }

def Request.opened (trace : Bool) (cmd : Cmd) (arg : Int) : Request :=
  ⟨cmd, arg, ioctl trace cmd arg, false, 0⟩

def Pair.opened (trace : Bool) (d : Driver) (asked : Bool → Cmd × Int) : Pair :=
  ⟨d, fun who => .opened trace (asked who).1 (asked who).2⟩

/-! ## The two laws of a pair -/

/-- A request works on no BD but the one its argument names. -/
def OwnBd (w : Pair) : Turn → Prop
  | .call who _ =>
    match (w.request who).program.head with
    | some e => ∀ bd ∈ e.touches, bd = (w.request who).arg
    | none => True
  | .engine _ => True

def Request.Expects (r : Request) : Prop := r.copied = true ∧ r.reads < r.cmd.reads

/-- What a copy leaves in `bdindex` is the index of every other request that has yet to read. -/
def NoOverwrite (w : Pair) : Turn → Prop
  | .call who reply =>
    match (w.request who).program.head with
    | some (.copyFromUser arg) => (w.request !who).Expects →
        (if reply.ok then arg else reply.value) = (w.request !who).arg
    | _ => True
  | .engine _ => True

instance (r : Request) : Decidable r.Expects := inferInstanceAs (Decidable (_ ∧ _))

instance (w : Pair) (turn : Turn) : Decidable (OwnBd w turn) := by
  unfold OwnBd
  split
  · split <;> infer_instance
  · infer_instance

instance (w : Pair) (turn : Turn) : Decidable (NoOverwrite w turn) := by
  unfold NoOverwrite
  split
  · split <;> infer_instance
  · infer_instance

/-! ## A request whose reads all return its index -/

/-- Every read of `bdindex` returns `arg`; the state counts the reads. -/
def ownAnswers (arg : Int) : Sem Call Answer Nat := fun e n answer n' =>
  match e with
  | .readBdindex => answer = arg ∧ n' = n + 1
  | _ => n' = n

def OwnCall (arg : Int) (limit : Nat) (e : Call) (n : Nat) : Prop :=
  (∀ bd ∈ e.touches, bd = arg) ∧ (e = .readBdindex → n < limit) ∧ ∀ a, e ≠ .copyFromUser a

/-- With reads that return `arg`, the program works on `arg` alone and makes `k` more reads. -/
abbrev Owns {α : Type} (arg : Int) (limit k : Nat) (p : Program α) (n : Nat) : Prop :=
  Always Eq (ownAnswers arg) (OwnCall arg limit) (fun _ n' => n' = n + k) p n

theorem owns_of_only {α : Type} {arg : Int} {limit n : Nat} {p : Program α}
    (h : Only (fun e => (∀ bd ∈ e.touches, bd = arg) ∧ e ≠ .readBdindex ∧
      ∀ a, e ≠ .copyFromUser a) p) : Owns arg limit 0 p n := by
  apply Always.of_invariant (I := fun n' => n' = n) _ _ _ h rfl
  · exact fun _ _ hOld hEq => hEq ▸ hOld
  · intro e s answer s' hAllowed hOld hSem
    cases e <;> first
      | exact absurd rfl hAllowed.2.1
      | exact Eq.trans hSem hOld
  · exact fun e s hAllowed _ => ⟨hAllowed.1, fun hRead => absurd hRead hAllowed.2.1, hAllowed.2.2⟩

theorem owns_read {α : Type} {arg : Int} {limit n : Nat} (hLimit : n < limit)
    {rest : Int → Program α} (h : Owns arg limit 0 (rest arg) (n + 1)) :
    Owns arg limit 1 (ask .readBdindex >>= rest) n := by
  refine Always.ask_bind ?_
  rintro _ rfl
  refine ⟨⟨by simp [Call.touches], fun _ => hLimit, by simp⟩, ?_⟩
  rintro _ _ ⟨rfl, rfl⟩
  exact h.mono (fun _ _ => id) fun _ _ => id

theorem startTransfer_owns {trace : Bool} {arg : Int} {limit n : Nat} (hLimit : n < limit) :
    Owns arg limit 1 (startTransfer trace) n := by
  rw [startTransfer]
  refine owns_read hLimit (owns_of_only (Only.bind ?_ fun _ => ?_))
  · cases trace <;> simp [traceStart, Call.touches]
  · simp only [only_ask_bind, Call.touches]
    refine ⟨by simp, fun _ => ⟨by simp, fun _ => ⟨by simp, fun _ => ⟨by simp, ?_⟩⟩⟩⟩
    intro chanDesc
    cases chanDesc with
    | none => trivial
    | some desc =>
      simp only [only_ask_bind]
      refine ⟨by simp, fun _ => ⟨by simp, fun _ => ⟨by simp, fun cookie => ?_⟩⟩⟩
      split <;> simp

theorem waitForTransfer_owns {arg : Int} {limit n : Nat} (hLimit : n < limit) :
    Owns arg limit 1 waitForTransfer n := by
  rw [waitForTransfer]
  refine owns_read hLimit (owns_of_only ?_)
  simp only [only_ask_bind]
  refine ⟨by simp [Call.touches], fun _ => ⟨by simp [Call.touches], fun timeLeft =>
    ⟨by simp [Call.touches], fun status => ?_⟩⟩⟩
  split
  · simp [Call.touches]
  · split <;> simp [Call.touches]

theorem dispatch_owns {trace : Bool} {cmd : Cmd} {arg : Int} (hCmd : 0 < cmd.reads) :
    Owns arg cmd.reads cmd.reads (dispatch trace cmd) 0 := by
  cases cmd with
  | startXfer => exact startTransfer_owns (by decide)
  | finishXfer => exact waitForTransfer_owns (by decide)
  | xfer =>
    apply Always.bind (fun _ => rfl)
    refine (startTransfer_owns (by decide)).mono (fun _ _ => id) ?_
    rintro _ _ rfl
    exact waitForTransfer_owns (by decide)
  | showBuflen => exact absurd hCmd (lt_irrefl 0)
  | unknown => exact absurd hCmd (lt_irrefl 0)

/-! ## Two requests together -/

/-- Where a request can be: before its copy, after a copy that failed, or past the copy with
its remaining reads. -/
inductive Request.Stage (trace : Bool) (r : Request) : Prop where
  | fresh : r.program = ioctl trace r.cmd r.arg → r.copied = false → r.reads = 0 → Stage trace r
  | failed (value : Int) : r.program = .ret value → r.copied = false → Stage trace r
  | running : r.copied = true →
      Always Eq (ownAnswers r.arg) (OwnCall r.arg r.cmd.reads) (fun _ _ => True) r.program
        r.reads → Stage trace r

structure Pair.Inv (trace : Bool) (w : Pair) : Prop where
  transfers : ∀ who, 0 < (w.request who).cmd.reads
  stage : ∀ who, (w.request who).Stage trace
  index : ∀ who, (w.request who).Expects → w.driver.bdindex = (w.request who).arg

theorem after_cmd (r : Request) (e : Call) (rest : Program Int) (reply : Reply) :
    (r.after e rest reply).cmd = r.cmd ∧ (r.after e rest reply).arg = r.arg := by
  cases e <;> exact ⟨rfl, rfl⟩

theorem stage_copy {trace : Bool} {r : Request} {reply : Reply}
    (hCmd : 0 < r.cmd.reads) (hReads : r.reads = 0) :
    (r.after (.copyFromUser r.arg) (if reply.ok = false then .ret (-einval) else do
      dispatch trace r.cmd
      pure 0) reply).Stage trace := by
  by_cases hOk : reply.ok = false
  · exact .failed (-einval) (if_pos hOk) hOk
  · apply Request.Stage.running (by simpa [Request.after] using hOk)
    simp only [Request.after, if_neg hOk, hReads]
    apply Always.bind fun _ => rfl
    exact (dispatch_owns hCmd).mono (fun _ _ => id) fun _ _ _ _ _ => trivial

theorem stage_call {trace : Bool} {r : Request} {e : Call} {next : Answer e → Program Int}
    {answer : Answer e} {reply : Reply} {d d' : Driver} (hCopied : r.copied = true)
    (h : Always Eq (ownAnswers r.arg) (OwnCall r.arg r.cmd.reads) (fun _ _ => True)
      (.call e next) r.reads)
    (hIndex : r.Expects → d.bdindex = r.arg) (hPerform : perform e reply d = some (answer, d')) :
    (r.after e (next answer) reply).Stage trace := by
  obtain ⟨_, hLimit, hNoCopy⟩ := h.safe_call fun _ => rfl
  cases e with
  | copyFromUser arg => exact absurd rfl (hNoCopy arg)
  | readBdindex =>
    cases hPerform
    have hAnswer : d.bdindex = r.arg := hIndex ⟨hCopied, hLimit rfl⟩
    exact .running hCopied (h.answered (fun _ => rfl) ⟨hAnswer, rfl⟩)
  | _ => exact .running hCopied (h.answered (fun _ => rfl) rfl)

theorem expects_after {r : Request} {e : Call} {rest : Program Int} {reply : Reply}
    (hCopy : ∀ a, e ≠ .copyFromUser a) (h : (r.after e rest reply).Expects) : r.Expects := by
  cases e with
  | copyFromUser arg => exact absurd rfl (hCopy arg)
  | readBdindex => exact ⟨h.1, (Nat.lt_succ_self r.reads).trans h.2⟩
  | _ => exact h

theorem Pair.Inv.update {trace : Bool} {w : Pair} (h : w.Inv trace) (who : Bool) (r : Request)
    (d : Driver) (hCmd : r.cmd = (w.request who).cmd) (hStage : r.Stage trace)
    (hSelf : r.Expects → d.bdindex = r.arg)
    (hOther : (w.request !who).Expects → d.bdindex = (w.request !who).arg) :
    Pair.Inv trace ⟨d, Function.update w.request who r⟩ := by
  have hEither : ∀ {P : Request → Prop}, P r → P (w.request !who) →
      ∀ who', P (Function.update w.request who r who') := by
    intro P hr hOld who'
    by_cases hWho : who' = who
    · rwa [hWho, Function.update_self]
    · rwa [Function.update_of_ne hWho, Bool.eq_not_of_ne hWho]
  constructor
  · exact hEither (P := fun r => 0 < r.cmd.reads) (hCmd ▸ h.transfers who) (h.transfers _)
  · exact hEither hStage (h.stage _)
  · exact hEither (P := fun r => r.Expects → d.bdindex = r.arg) hSelf hOther

theorem pair_inv_step {trace : Bool} {w next : Pair} {turn : Turn} (h : w.Inv trace)
    (hGuard : NoOverwrite w turn) (hStep : w.step turn = some next) : next.Inv trace := by
  cases turn with
  | engine event =>
    obtain ⟨d, hEngine, hEq⟩ := Option.map_eq_some_iff.mp hStep
    cases hEq
    refine ⟨h.transfers, h.stage, fun who hExpects => ?_⟩
    exact (engine_bdindex hEngine).trans (h.index who hExpects)
  | call who reply =>
    simp only [Pair.step] at hStep
    simp only [NoOverwrite] at hGuard
    cases h.stage who with
    | fresh hProgram hCopied hReads =>
      rw [hProgram] at hStep hGuard
      cases hStep
      refine h.update who _ _ rfl (stage_copy (h.transfers who) hReads) ?_ ?_
      · intro hExpects
        have hOk : reply.ok = true := hExpects.1
        exact if_pos hOk
      · exact hGuard
    | failed value hProgram hCopied =>
      rw [hProgram] at hStep
      cases hStep
    | running hCopied hOwns =>
      cases hProgram : (w.request who).program with
      | ret value =>
        rw [hProgram] at hStep
        cases hStep
      | call e rest =>
        rw [hProgram] at hStep hOwns
        obtain ⟨⟨answer, d⟩, hPerform, hEq⟩ := Option.map_eq_some_iff.mp hStep
        cases hEq
        have hNoCopy := (hOwns.safe_call fun _ => rfl).2.2
        have hSame := perform_bdindex hPerform hNoCopy
        have hAfter := after_cmd (w.request who) e (rest answer) reply
        refine h.update who _ d hAfter.1 (stage_call hCopied hOwns (h.index who) hPerform) ?_ ?_
        · intro hExpects
          rw [hSame, hAfter.2]
          exact h.index who (expects_after hNoCopy hExpects)
        · intro hExpects
          rw [hSame]
          exact h.index _ hExpects

theorem pair_inv_own {trace : Bool} {w : Pair} {turn : Turn} (h : w.Inv trace) :
    OwnBd w turn := by
  cases turn with
  | engine event => trivial
  | call who reply =>
    simp only [OwnBd]
    cases h.stage who with
    | fresh hProgram _ _ =>
      rw [hProgram]
      simp [ioctl, DmaProxy.ask, Prog.ask, head, Call.touches]
    | failed value hProgram _ =>
      rw [hProgram]
      trivial
    | running _ hOwns =>
      cases hProgram : (w.request who).program with
      | ret value => trivial
      | call e rest =>
        rw [hProgram] at hOwns
        exact (hOwns.safe_call fun _ => rfl).1

/-- Two requests keep to their own BDs, whatever the interleaving, when no copy overwrites an
index that the other request has yet to read. -/
theorem own_bd (trace : Bool) (d : Driver) (asked : Bool → Cmd × Int) (turns : List Turn)
    (hAsked : ∀ who, 0 < (asked who).1.reads)
    (h : Along Pair.step NoOverwrite (.opened trace d asked) turns) :
    Along Pair.step OwnBd (.opened trace d asked) turns := by
  apply Along.of_invariant (I := Pair.Inv trace) _ _ _ h
  · exact fun w turn next hInv hGuard hStep => pair_inv_step hInv hGuard hStep
  · exact fun w turn hInv _ => pair_inv_own hInv
  · refine ⟨hAsked, fun who => .fresh rfl rfl rfl, fun who hExpects => ?_⟩
    cases hExpects.1

def idleDriver : Driver where
  pBufferTable := fun _ => ⟨.noError, 1024⟩
  bufferPhysAddr := 0
  pBdTable := fun _ => ⟨0, 0, 0, 0, 0⟩
  bdindex := 0
  transfers := []
  issued := 0
  completed := 0
  starts := []

def turns (who : Bool) (count : Nat) : List Turn := List.replicate count (.call who ⟨true, 1⟩)

theorem own_bd_overlapping :
    Along Pair.step OwnBd
      (.opened false idleDriver fun who => if who then (.finishXfer, 5) else (.startXfer, 3))
      (turns false 4 ++ turns true 2 ++ turns false 6 ++ turns true 4) :=
  own_bd false idleDriver _ _ (by decide) (by decide)

/-- A start that loses its index to a later copy starts the other BD, and an `XFER` can wait on
another BD than the one it started. -/
theorem own_bd_lost :
    ¬ Along Pair.step OwnBd
        (.opened false idleDriver fun who => if who then (.startXfer, 5) else (.startXfer, 3))
        (turns false 1 ++ turns true 1 ++ turns false 2) ∧
      ¬ Along Pair.step OwnBd
        (.opened false idleDriver fun who => if who then (.finishXfer, 5) else (.xfer, 3))
        (turns false 10 ++ turns true 1 ++ turns false 2) := by
  constructor <;> decide

end SoftwarePrototypes.DmaProxy
