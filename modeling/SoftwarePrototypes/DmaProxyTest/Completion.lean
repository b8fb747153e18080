import SoftwarePrototypes.DmaProxyTest.Alone
import SoftwarePrototypes.DmaProxyTest.Refinement

/-! # The application comes to its end

Over the driver no undisturbed run goes on for ever, and none comes to a halt before both threads
have returned with all their transfers finished.
-/

namespace SoftwarePrototypes.DmaProxyTest

open Interaction Interaction.Prog
open SoftwarePrototypes.DmaProxy (Driver Reply bufferSize)

/-! ## How far the bench gets -/

section Rounds

variable (cfg : Config)

/-- Of one round; the one that fills a transmit buffer again makes the most. -/
def callCount : Nat := wordCount cfg + 7

theorem txFill_calls (bufferId : Nat) (inProgressCount : Int) :
    (txFill cfg bufferId inProgressCount).Within 4 := by
  have hInit : (txInit cfg bufferId inProgressCount).Within 1 := within_ite (within_ask _) trivial
  refine within_ask_bind fun _ => hInit.bind (m := 2) fun _ => ?_
  exact within_ask_bind fun _ => within_ask_bind fun _ => within_ite trivial trivial

theorem txWords_calls (bufferId : Nat) (counter : Int) :
    (txWords cfg bufferId counter).Within (wordCount cfg) := by
  refine within_ite ?_ trivial
  have hWords : ∀ i, (op (.writeWord bufferId i (txValue cfg i counter))).Within 1 :=
    fun _ => within_ask _
  refine (Within.forM hWords _).mono ?_
  rw [List.length_range, Nat.mul_one]

theorem txLoop_calls (l : Locals) : (txLoop cfg l).Within (callCount cfg) := by
  have hStop : (txStop cfg (l.counter + 1) l.stopInProgress).Within 2 :=
    within_ask_bind fun _ => within_ite (within_ask_bind fun _ => trivial) trivial
  have hReport : ∀ status, (txReport status).Within 1 := fun _ => within_ite (within_ask _) trivial
  have hAll : (txLoop cfg l).Within (1 + (2 + (wordCount cfg + 1 + 1) + 1) + 1) := by
    refine within_ask_bind fun status => (hReport status).bind fun _ => ?_
    refine within_ask_bind fun done => within_ite trivial (hStop.bind fun _ => ?_)
    refine within_ask_bind fun full => within_ite trivial ?_
    exact (txWords_calls cfg _ _).bind (m := 1) fun _ => within_ask_bind fun _ => trivial
  exact hAll.mono (by unfold callCount; omega)

theorem rxFill_calls (bufferId : Nat) (inProgressCount : Int) :
    (rxFill cfg bufferId inProgressCount).Within 3 := by
  refine within_ask_bind fun _ => within_ask_bind fun _ => within_ask_bind fun _ => ?_
  exact within_ite trivial trivial

theorem rxLoop_calls (l : Locals) : (rxLoop cfg l).Within 6 := by
  have hVerify : (rxVerify cfg l.bufferId l.counter).Within 2 := by
    refine within_ite (within_ask_bind fun data => ?_) trivial
    exact within_ite (within_ask _) trivial
  refine within_ask_bind fun status => within_ite (within_ask_bind fun _ => trivial) ?_
  refine hVerify.bind (m := 3) fun _ => within_ask_bind fun done => within_ite trivial ?_
  refine within_ask_bind fun full => within_ite trivial ?_
  exact within_ask_bind fun _ => trivial

theorem body_calls (side : Side) (next : Next) : (body cfg side next).Within (callCount cfg) := by
  have hFew : 6 ≤ callCount cfg := by unfold callCount; omega
  cases next with
  | fill bufferId inProgressCount =>
    cases side with
    | tx => exact (txFill_calls cfg _ _).mono ((by decide : 4 ≤ 6).trans hFew)
    | rx => exact (rxFill_calls cfg _ _).mono ((by decide : 3 ≤ 6).trans hFew)
  | loop l =>
    cases side with
    | tx => exact txLoop_calls cfg l
    | rx => exact (rxLoop_calls cfg l).mono hFew
  | returned count | exited => cases side <;> trivial

end Rounds

/-- Only a start adds to what the engine has to move. -/
theorem serve_pending {cfg : Config} {side : Side} {e : Op} {st st' : State} {answer : Answer e}
    (h : serve cfg side e st = some (answer, st')) (other : Side) :
    (st'.channel other).pending.length ≤ (st.channel other).pending.length + 1 := by
  have hSet : ∀ c : Channel, c.pending.length ≤ (st.channel side).pending.length + 1 →
      ((st.set side c).channel other).pending.length ≤ (st.channel other).pending.length + 1 := by
    intro c hc
    rcases eq_or_ne other side with rfl | hOther
    · rw [channel_set_self]
      exact hc
    · rw [channel_set_other hOther]
      exact Nat.le_succ _
  cases e with
  | startXfer b count =>
    cases h
    exact hSet _ List.length_append.le
  | finishXfer b count =>
    obtain ⟨⟨status, c⟩, hFinish, hResult⟩ := Option.map_eq_some_iff.mp h
    cases hResult
    apply hSet
    unfold Channel.finish at hFinish
    split at hFinish
    · cases hFinish
      exact Nat.le_succ _
    · split at hFinish <;> cases hFinish
      exact Nat.le_succ _
  | writeWord b i value | reachedNumTransfers test count =>
    cases h
    exact hSet _ (Nat.le_succ _)
  | _ =>
    cases h
    exact Nat.le_succ _

theorem engine_pending {cfg : Config} {st st' : State} (h : engine cfg st = some st') :
    (st'.channel .tx).pending.length + 1 = (st.channel .tx).pending.length := by
  unfold engine at h
  split at h
  · rename_i b bs b' bs' hTx hRx
    cases h
    rw [channel_set_other (by decide), channel_set_self, hTx]
    rfl
  · cases h

section Bound

variable {cfg : Config} {t : Side → Setting} {st st' : State} {side : Side} {n : Nat}

abbrev Ranks (cfg : Config) (t : Setting) (side : Side) : Thread Next → View → Nat → Prop :=
  Ranked (Moved t) (does t) (Safe t) (Measured t) (body cfg side) (callCount cfg)

/-- Each call counts twice, as it may start a transfer that the engine has to move. -/
structure Budgeted (cfg : Config) (t : Side → Setting) (n : Nat) (st : State) : Prop where
  inv : Inv t st
  ranked : ∃ calls : Side → Nat,
    (∀ side, Ranks cfg (t side) side (st.code side) (st.view side) (calls side)) ∧
      2 * total calls + (st.channel .tx).pending.length ≤ n

theorem Measured.head {t : Setting} {m : Nat} {next : Next} {v : View}
    (h : Measured t (m + 1) next v) : (body cfg side next).head ≠ none := by
  obtain ⟨stage, hStands, hMeasure⟩ := h
  cases stage with
  | fill k =>
    obtain ⟨rfl, -⟩ := hStands
    cases side <;> exact Option.some_ne_none _
  | loop k =>
    obtain ⟨_, _, rfl, -⟩ := hStands
    cases side <;> exact Option.some_ne_none _
  | left => cases hMeasure

theorem Wired.lowers (h : Wired cfg t True) (side : Side) :
    Lowers (Moved (t side)) (does (t side)) (Safe (t side)) (Measured (t side)) (body cfg side)
      (callCount cfg) where
  refl := Moved.refl _
  trans _ _ _ hFirst hLater := hFirst.trans hLater
  round _ _ _ hMeasured :=
    ⟨hMeasured.head, (h.keeps side).lowers ((h.calm side).mpr trivial) hMeasured⟩
  left _ _ hMeasured := by
    obtain ⟨rfl, -⟩ := hMeasured.left ((h.calm side).mpr trivial)
    rw [(h.keeps side).left]
    rfl
  stable _ _ _ hMeasured hMove := by
    obtain ⟨rfl, hSettled⟩ := hMeasured.left ((h.calm side).mpr trivial)
    exact ⟨.left, ⟨rfl, hSettled.moved hMove⟩, rfl⟩
  within := body_calls cfg side

theorem Budgeted.thread (hWired : Wired cfg t True) (h : Budgeted cfg t n st)
    (hStep : step cfg st (.thread side) = some st') : ∃ n' < n, Budgeted cfg t n' st' := by
  have hInv := h.inv.step_calm hWired (by simp) hStep
  obtain ⟨calls, hRanked, hCalls⟩ := h.ranked
  obtain ⟨m, hCoherent⟩ := h.inv.coherent
  have hGuard := guard_of_calm h.inv (fun side => (hWired.calm side).mpr trivial)
    (show Label.thread side ≠ .sigint by simp)
  rw [step, if_neg (by simp [h.inv.not_exited])] at hStep
  simp only [advanceThread] at hStep
  split at hStep
  · cases hStep
  rename_i e rest hCode
  obtain ⟨⟨answer, st₁⟩, hServe, rfl⟩ := Option.map_eq_some_iff.mp hStep
  have hPending := serve_pending hServe .tx
  have hServed := serve_served hWired hCoherent (h.inv.safe_head (congrArg Prog.head hCode))
    (fun value hValue => hGuard.2 side value rfl (by rw [hCode, ← hValue]; rfl)) hServe
  have hOwn := hRanked side
  rw [hCode] at hOwn
  obtain ⟨k, hLess, hNext⟩ := (hWired.lowers side).answered hServed.does hOwn
  have hTotal := total_update calls side k
  refine ⟨2 * total (Function.update calls side k) + (st₁.channel .tx).pending.length, ?_, hInv,
    Function.update calls side k, ?_, le_rfl⟩
  · omega
  · intro other
    rcases eq_or_ne other side with rfl | hOther
    · simp only [Function.update_self]
      exact hNext
    · simp only [Function.update_of_ne hOther, hServed.code]
      exact (hWired.lowers other).moved (hServed.others other hOther) (hRanked other)

theorem Budgeted.step (hWired : Wired cfg t True) (h : Budgeted cfg t n st) {label : Label}
    (hCalm : label ≠ .sigint) (hStep : step cfg st label = some st') :
    ∃ n' < n, Budgeted cfg t n' st' := by
  cases label with
  | thread side => exact h.thread hWired hStep
  | engine =>
    have hInv := h.inv.step_calm hWired hCalm hStep
    obtain ⟨calls, hRanked, hCalls⟩ := h.ranked
    obtain ⟨m, hCoherent⟩ := h.inv.coherent
    rw [DmaProxyTest.step, if_neg (by simp [h.inv.not_exited])] at hStep
    have hPending := engine_pending hStep
    obtain ⟨hMoved, -, hCode⟩ := engine_moved hWired hCoherent hStep
    refine ⟨n - 1, by omega, hInv, calls, fun side => ?_, by omega⟩
    rw [hCode]
    exact (hWired.lowers side).moved (hMoved side) (hRanked side)
  | sigint => exact absurd rfl hCalm

def benchBound (cfg : Config) (numTransfers : Int) : Nat :=
  2 * total fun side => (max numTransfers.toNat 1 + 1 + slots cfg side) * (callCount cfg + 1)

theorem budgeted_initial (hWired : Wired cfg t True) {numTransfers : Int}
    {words : Side → Nat → Nat → BitVec 32} (hAsked : ∀ side, (t side).asked = numTransfers) :
    Budgeted cfg t (benchBound cfg numTransfers) (initial cfg numTransfers words) where
  inv := inv_initial hWired numTransfers words hAsked
  ranked := by
    refine ⟨_, fun side => ?_, le_rfl⟩
    have hStart := stationed_start (t := t side)
      (v := (initial cfg numTransfers words).view side) rfl (fun _ => ⟨rfl, (hAsked side).symm⟩)
    rw [hWired.size] at hStart
    refine (hWired.lowers side).ranked ⟨_, hStart, ?_⟩
    rw [Stage.measure, hAsked, hWired.slots]
    rfl

theorem bench_budgeted (hWired : Wired cfg t True) {numTransfers : Int}
    {words : Side → Nat → Nat → BitVec 32} (hAsked : ∀ side, (t side).asked = numTransfers)
    {labels : List Label} (hCalm : ∀ label ∈ labels, label ≠ .sigint) {final : State}
    (hRun : Runs.run (DmaProxyTest.step cfg) (initial cfg numTransfers words) labels = some final) :
    ∃ n, Budgeted cfg t n final ∧ n + labels.length ≤ benchBound cfg numTransfers :=
  Runs.run_bounded (fun _ _ _ _ h hLabel hStep => h.step hWired hLabel hStep)
    (budgeted_initial hWired hAsked) (Runs.Along.of_labels hCalm _) hRun

theorem Budgeted.returned (h : Budgeted cfg t n st) (hWired : Wired cfg t True)
    (hHead : (st.code side).head = none) :
    st.code side = .ret (.returned 0) ∧ Settled (t side) (st.view side) := by
  obtain ⟨calls, hRanked, -⟩ := h.ranked
  obtain ⟨next, hMeasured, hCode⟩ := (hRanked side).left hHead
  obtain ⟨rfl, hSettled⟩ := hMeasured.left ((hWired.calm side).mpr trivial)
  exact ⟨hCode.trans (hWired.keeps side).left, hSettled⟩

end Bound

/-! ## Where the application can halt -/

/-- No thread starts more transfers than asked for: what it has started by the end of its round is
within, and a call never takes a start back. -/
theorem Holds.starts_le {t : Setting} (hCalm : t.calm) (hReceives : ¬ t.receives) {p : Thread Next}
    {v : View} (h : Holds t (Stationed t) p v) : v.ledger.starts.length ≤ v.target := by
  induction p generalizing v with
  | ret next =>
    obtain ⟨stage, hStands⟩ := h v (Moved.refl t v)
    cases stage with
    | fill k =>
      have hAsked := hStands.2.asked
      have hTarget : 1 ≤ v.target := le_max_right _ 1
      rw [hStands.2.starts_length]
      omega
    | loop k =>
      obtain ⟨s, _, _, hWorking⟩ := hStands
      rw [hWorking.starts_length, hWorking.started]
      exact min_le_right _ _
    | left => exact hStands.2.starts_length.le
  | call e rest ih =>
    have hSafe := h.safe_call (Moved.refl t)
    have hDoes : does t e v (perform t.ring.slots (fun _ _ => 0) e v).1
        (perform t.ring.slots (fun _ _ => 0) e v).2 :=
      does_of_performs hCalm hReceives hSafe ⟨rfl, rfl⟩
    have hNext := ih _ (h.answered (Moved.refl t) hDoes)
    cases e with
    | writeNumTransfers value =>
      obtain ⟨_, _, _, _, _, hAgitated, _⟩ := hSafe
      exact absurd hCalm hAgitated
    | startXfer b count =>
      have hMore : (v.ledger.starts ++ [b]).length ≤ v.target := hNext
      rw [List.length_append] at hMore
      exact (Nat.le_add_right _ _).trans hMore
    | _ => exact hNext

section Halts

variable {cfg : Config} {r : Ring} {side : Side} {m : Stack} {c : Channel} {ahead : Thread Next}
  {slack : Nat}

theorem exists_serveUser {e : Op} (h : e.ioctl = none) :
    ∃ result, serveUser side e m = some result := by
  cases e with
  | startXfer b count | finishXfer b count => cases h
  | _ => exact ⟨_, rfl⟩

theorem exists_result {e : Op} {ioctl : DmaProxy.Cmd × Nat} (h : e.ioctl = some ioctl)
    (d : Driver) : ∃ answer, e.result d = some answer := by
  cases e with
  | startXfer b count | finishXfer b count => exact ⟨_, rfl⟩
  | _ => cases h

/-- A thread outside of an ioctl, or back from one, makes its next call. -/
theorem stepUser_idle {trace : Bool} (hRequest : (m.lane side).request = none)
    (hStuck : stepUser cfg trace side m = none) : (m.lane side).code.head = none := by
  simp only [stepUser] at hStuck
  split at hStuck
  · rename_i next hCode
    rw [hCode]
    rfl
  · rename_i e rest hCode
    rw [hRequest] at hStuck
    cases hIoctl : e.ioctl with
    | none =>
      obtain ⟨result, hServe⟩ : ∃ result, serveUser side e m = some result :=
        exists_serveUser hIoctl
      simp only [hIoctl, hServe] at hStuck
      cases hStuck
    | some ioctl =>
      simp only [hIoctl] at hStuck
      cases hStuck

theorem stepUser_back {trace : Bool} {value : Int}
    (hRequest : (m.lane side).request = some (.ret value)) {e : Op} {rest : Answer e → Thread Next}
    (hCode : (m.lane side).code = .call e rest) {ioctl : DmaProxy.Cmd × Nat}
    (hIoctl : e.ioctl = some ioctl) : stepUser cfg trace side m ≠ none := by
  obtain ⟨answer, hResult⟩ := exists_result hIoctl (m.lane side).driver
  simp only [stepUser]
  rw [hCode]
  simp only [hRequest, hResult]
  exact Option.some_ne_none _

/-- A call of the kernel is made, unless it is a wait without a signal. -/
theorem stepKernel_stuck {e : DmaProxy.Call} {next : DmaProxy.Answer e → DmaProxy.Program Int}
    (hRequest : (m.lane side).request = some (.call e next))
    (hStuck : ∀ reply, Undisturbed m (.kernel side reply) → stepKernel side reply m = none) :
    ∃ bd, e = .waitForCompletionTimeout bd ∧ ((m.lane side).driver.pBdTable bd).done = 0 := by
  by_contra hNone
  obtain ⟨reply, result, hPerform, hWorks⟩ := DmaProxy.exists_working (m.lane side).driver e
    fun bd hWait => Nat.pos_of_ne_zero fun hSignal => hNone ⟨bd, hWait, hSignal⟩
  have hCalm : Undisturbed m (.kernel side reply) := by
    intro p hp e' he'
    rw [hRequest] at hp
    cases hp
    cases he'
    exact hWorks
  have hStep := hStuck reply hCalm
  simp only [stepKernel, hRequest, hPerform] at hStep
  cases hStep

/-- Where a side is that can make no step of its own: it has returned, or it waits for its oldest
transfer. -/
inductive Halted (r : Ring) (c : Channel) (w : Lane) : Prop
  | returned (hHead : w.code.head = none)
  | waiting (f n : Nat) (hStarts : c.ledger.starts.length = n)
      (h : DmaProxy.Waiting r f n w.driver)
      (hSignal : (w.driver.pBdTable (r.slot f)).done = 0)

theorem LaneLinked.halted (h : LaneLinked cfg r side c (m.lane side) ahead slack) {trace : Bool}
    (hUser : stepUser cfg trace side m = none)
    (hKernel : ∀ reply, Undisturbed m (.kernel side reply) → stepKernel side reply m = none) :
    Halted r c (m.lane side) := by
  obtain ⟨own, hEngaged, -⟩ := h.engaged
  cases hEngaged with
  | idle hRequest _ _ _ => exact .returned (stepUser_idle hRequest hUser)
  | @starting f n _ _ left _ hIn _ _ _ | @started f n _ _ left _ hIn _ _ _ =>
    cases left with
    | ret value => exact absurd hUser (stepUser_back hIn.request hIn.code rfl)
    | call e next =>
      obtain ⟨bd, rfl, -⟩ := stepKernel_stuck hIn.request hKernel
      exact (hIn.follows.safe_call DmaProxy.Proceeds.refl).elim
  | @finishing f n _ _ left _ hIn _ _ =>
    cases left with
    | ret value => exact absurd hUser (stepUser_back hIn.request hIn.code rfl)
    | call e next =>
      obtain ⟨bd, rfl, hSignal⟩ := stepKernel_stuck hIn.request hKernel
      obtain ⟨rfl, hWaiting⟩ := hIn.follows.safe_call DmaProxy.Proceeds.refl
      exact .waiting f n hIn.starts hWaiting hSignal

end Halts

/-! ## Completion -/

/-- Both threads have returned, and all transfers asked for have completed and called back. -/
structure Complete (numTransfers : Int) (m : Stack) : Prop where
  code : ∀ side, (m.lane side).code = .ret (.returned 0)
  request : ∀ side, (m.lane side).request = none
  transfers : ∀ side, (m.lane side).driver.transfers.length = max numTransfers.toNat 1
  signalled : ∀ side, ∀ transfer ∈ (m.lane side).driver.transfers,
    transfer.outcome = some true ∧ transfer.fired = true

/-- No step is left that keeps the run undisturbed. -/
def Stuck (cfg : Config) (trace : Bool) (m : Stack) : Prop :=
  ∀ label, Undisturbed m label → stackStep cfg trace m label = none

section Complete

variable {cfg : Config} {trace : Bool} {numTransfers : Int} {m : Stack}

theorem Complete.engine (h : Complete numTransfers m) (side : Side) (event : DmaProxy.EngineEvent) :
    (m.lane side).driver.engineStep event = none := by
  rw [Option.eq_none_iff_forall_ne_some]
  intro d hEngine
  obtain ⟨ok, t, -, hGet, -, hOpen, -⟩ | ⟨k, t, -, hGet, -, hFresh, -⟩ :=
    DmaProxy.engineStep_cases hEngine
  · rw [(h.signalled side t (List.mem_of_getElem? hGet)).1] at hOpen
    cases hOpen
  · rw [(h.signalled side t (List.mem_of_getElem? hGet)).2] at hFresh
    cases hFresh

theorem Complete.stuck (h : Complete numTransfers m) : Stuck cfg trace m := by
  intro label hCalm
  unfold stackStep
  split
  · rfl
  cases label with
  | user side =>
    simp only [stepUser]
    rw [h.code side]
  | kernel side reply =>
    simp only [stepKernel]
    rw [h.request side]
  | engine =>
    simp only [loopback, h.engine]
    rfl
  | callback side k =>
    simp only [h.engine]
    rfl
  | sigint => exact hCalm.elim

end Complete

section Stuck

variable {cfg : Config} {t : Side → Setting} {slack : Side → Nat} {m : Stack} {st : State}
  {side : Side} {k n : Nat} {trace : Bool}

theorem Linked.request_none (h : Linked cfg t slack m st)
    (hHead : (m.lane side).code.head = none) : (m.lane side).request = none := by
  refine (h.lane side).request_none fun e he => ?_
  rw [hHead] at he
  cases he

theorem Linked.not_exited (h : Linked cfg t slack m st) : m.exited = false := by
  unfold Stack.exited
  split
  · rename_i hCode
    have hRequest := h.request_none (congrArg Prog.head hCode)
    have hAhead := ((h.lane .rx).outside hRequest).1.trans hCode
    have hNot := h.inv.not_exited
    unfold State.exited at hNot
    rw [hAhead] at hNot
    cases hNot
  · rfl

/-- A side that has returned. -/
structure Returned (t : Setting) (c : Channel) (w : Lane) (v : View) : Prop where
  code : w.code = .ret (.returned 0)
  request : w.request = none
  settled : Settled t v
  carries : DmaProxy.Carries t.ring c.ledger.finishes.length c.ledger.starts.length w.driver

theorem Linked.returned (h : Linked cfg t slack m st) (hWired : Wired cfg t True)
    (hBudget : Budgeted cfg t n st) (hHead : (m.lane side).code.head = none) :
    Returned (t side) (st.channel side) (m.lane side) (st.view side) := by
  have hRequest := h.request_none hHead
  obtain ⟨hAhead, calls, -, hOutside⟩ := (h.lane side).outside hRequest
  rw [← hAhead] at hHead
  obtain ⟨hCode, hSettled⟩ := hBudget.returned hWired hHead
  exact ⟨hAhead.symm.trans hCode, hRequest, hSettled, hOutside.carries⟩

theorem Returned.moved (h : Returned (t side) (st.channel side) (m.lane side) (st.view side))
    (hCoherent : Coherent t k st) : k = (st.view side).target := by
  obtain ⟨s, f, hOk⟩ := hCoherent side
  obtain ⟨rfl, rfl⟩ := hOk.toMatches.unique h.settled.toMatches
  exact Nat.le_antisymm hOk.le_started hOk.finished_le

/-- A side that waits has transfers for the engine to move, and is not done. -/
theorem Linked.waiting (h : Linked cfg t slack m st) (hCalm : ∀ side, (t side).calm)
    (hReceives : ∀ side, ¬ (t side).receives) (hCoherent : Coherent t k st) {f n : Nat}
    (hStarts : (st.channel side).ledger.starts.length = n)
    (hWaiting : DmaProxy.Waiting (t side).ring f n (m.lane side).driver)
    (hSignal : ((m.lane side).driver.pBdTable ((t side).ring.slot f)).done = 0)
    (hCallback : (m.lane side).driver.engineStep (.callback f) = none) :
    k < (st.view side).target ∧
      ∃ d, (m.lane side).driver.engineStep (.complete true) = some d := by
  obtain ⟨s, f', hOk⟩ := hCoherent side
  have hMoved := (h.lane side).paired.completed hOk
  have hCompleted := hWaiting.completed hSignal hCallback
  have hStarted := hWaiting.started
  have hWithin : (st.channel side).ledger.starts.length ≤ (st.view side).target :=
    Holds.starts_le (hCalm side) (hReceives side) (h.inv.codes side)
  refine ⟨by omega, hWaiting.carries.engine ?_⟩
  rw [hWaiting.issued]
  omega

theorem Paired.exists_descriptor {r : Ring} {c : Channel} {w : Lane} {d : Driver}
    (h : Paired cfg r c w) (hEngine : w.driver.engineStep (.complete true) = some d) :
    ∃ desc, w.descriptors[w.driver.completed]? = some desc := by
  obtain ⟨_, _, -, hGet, -⟩ | ⟨_, _, hEvent, -⟩ := DmaProxy.engineStep_cases hEngine
  · have hBound := (List.getElem?_eq_some_iff.mp hGet).1
    rw [← h.queued] at hBound
    exact ⟨_, List.getElem?_eq_getElem hBound⟩
  · cases hEvent

theorem Linked.loopback (h : Linked cfg t slack m st)
    (hEngine : ∀ side, ∃ d, (m.lane side).driver.engineStep (.complete true) = some d) :
    loopback m ≠ none := by
  obtain ⟨sender, hSender⟩ := hEngine .tx
  obtain ⟨receiver, hReceiver⟩ := hEngine .rx
  obtain ⟨source, hSource⟩ := (h.lane .tx).paired.exists_descriptor hSender
  obtain ⟨target, hTarget⟩ := (h.lane .rx).paired.exists_descriptor hReceiver
  simp only [DmaProxyTest.loopback, hSender, hReceiver, hSource, hTarget]
  exact Option.some_ne_none _

/-- No step of either side, of the engine or of its callbacks is left. -/
structure Idle (cfg : Config) (trace : Bool) (m : Stack) : Prop where
  user : ∀ side, stepUser cfg trace side m = none
  kernel : ∀ side reply, Undisturbed m (.kernel side reply) → stepKernel side reply m = none
  engine : DmaProxyTest.loopback m = none
  callback : ∀ side k, (m.lane side).driver.engineStep (.callback k) = none

theorem Stuck.idle (h : Stuck cfg trace m) (hNot : m.exited = false) : Idle cfg trace m where
  user side := by simpa [stackStep, hNot] using h (.user side) trivial
  kernel side reply hCalm := by simpa [stackStep, hNot] using h (.kernel side reply) hCalm
  engine := by simpa [stackStep, hNot] using h .engine trivial
  callback side k := by simpa [stackStep, hNot] using h (.callback side k) trivial

/-- A side that has returned shows that all transfers are moved, one that waits that some are
not; so both wait, and the engine can move, or none does. -/
theorem Linked.all_returned (h : Linked cfg t slack m st) (hWired : Wired cfg t True)
    (hReceives : ∀ side, ¬ (t side).receives) (hBudget : Budgeted cfg t n st)
    (hIdle : Idle cfg trace m) (side : Side) :
    Returned (t side) (st.channel side) (m.lane side) (st.view side) := by
  have hCalm : ∀ side, (t side).calm := fun side => (hWired.calm side).mpr trivial
  obtain ⟨k, hCoherent⟩ := h.inv.coherent
  have hEach : ∀ side,
      k = (st.view side).target ∧
        Returned (t side) (st.channel side) (m.lane side) (st.view side) ∨
      k < (st.view side).target ∧
        ∃ d, (m.lane side).driver.engineStep (.complete true) = some d := by
    intro side
    cases (h.lane side).halted (hIdle.user side) (hIdle.kernel side) with
    | returned hHead =>
      have hReturned := h.returned hWired hBudget hHead
      exact .inl ⟨hReturned.moved hCoherent, hReturned⟩
    | waiting f n hStarts hWaiting hSignal =>
      exact .inr (h.waiting hCalm hReceives hCoherent hStarts hWaiting hSignal
        (hIdle.callback side f))
  have hTarget : ∀ side, (st.view side).target = (st.view .tx).target := fun _ => rfl
  by_cases hDone : k = (st.view .tx).target
  · rcases hEach side with ⟨-, hReturned⟩ | ⟨hMore, -⟩
    · exact hReturned
    · rw [hTarget] at hMore
      omega
  · have hEngine : ∀ side, ∃ d, (m.lane side).driver.engineStep (.complete true) = some d := by
      intro side
      rcases hEach side with ⟨hHere, -⟩ | ⟨-, hEngine⟩
      · exact absurd (hHere.trans (hTarget side)) hDone
      · exact hEngine
    exact absurd hIdle.engine (h.loopback hEngine)

theorem Linked.complete (h : Linked cfg t slack m st) (hWired : Wired cfg t True)
    (hReceives : ∀ side, ¬ (t side).receives) {numTransfers : Int}
    (hAsked : ∀ side, (t side).asked = numTransfers) (hBudget : Budgeted cfg t n st)
    (hStuck : Stuck cfg trace m) : Complete numTransfers m := by
  have hReturned := h.all_returned hWired hReceives hBudget (hStuck.idle h.not_exited)
  have hTarget : ∀ side, (st.view side).target = max numTransfers.toNat 1 := by
    intro side
    rw [View.target, (hReturned side).settled.calm ((hWired.calm side).mpr trivial), hAsked]
  have hLength : ∀ side, (m.lane side).driver.transfers.length = max numTransfers.toNat 1 := by
    intro side
    rw [(hReturned side).carries.length, ← hTarget side]
    exact (hReturned side).settled.starts_length
  refine ⟨fun side => (hReturned side).code, fun side => (hReturned side).request, hLength, ?_⟩
  intro side transfer hMem
  obtain ⟨k, hGet⟩ := List.mem_iff_getElem?.mp hMem
  have hBound : k < max numTransfers.toNat 1 := by
    rw [← hLength side]
    exact (List.getElem?_eq_some_iff.mp hGet).1
  have hFinished : (st.channel side).ledger.finishes.length = max numTransfers.toNat 1 :=
    (hReturned side).settled.finishes_length.trans (hTarget side)
  have hCarries := (hReturned side).carries
  have hCompleted := hCarries.finished_le
  have hOwn := hCarries.carried k transfer hGet
  refine ⟨?_, hOwn.consumed (by omega)⟩
  rw [hOwn.outcome, if_pos (by omega)]

end Stuck

/-- What a run can have of steps: those of the bench, and before and after each those of the ioctls
and the callbacks. -/
def stepBound (cfg : Config) (numTransfers : Int) : Nat :=
  2 * cost + cost * benchBound cfg numTransfers

theorem stack_completes {cfg : Config} (h : Ringed cfg)
    (hCount : ∀ side, bufferCount cfg side ≤ DmaProxy.bufferCount)
    (hSize : cfg.testSize ≤ bufferSize) (trace : Bool) (numTransfers : Int)
    (channels : Side → OpenedChannel) {labels : List StackLabel} {final : Stack}
    (hAlong : Runs.Along (stackStep cfg trace) Undisturbed
      (initialStack cfg numTransfers channels) labels)
    (hRun : Runs.run (stackStep cfg trace) (initialStack cfg numTransfers channels) labels =
      some final) :
    labels.length ≤ stepBound cfg numTransfers ∧
      (Stuck cfg trace final ↔ Complete numTransfers final) := by
  have hWired := plain_wired h numTransfers
  have hAsked : ∀ side, (plain h numTransfers side).asked = numTransfers := by
    rintro (_ | _) <;> rfl
  have hReceives : ∀ side, ¬ (plain h numTransfers side).receives := by
    rintro (_ | _) <;> exact id
  obtain ⟨labels', st, slack, hCalm, hBench, hLinked, hLength⟩ :=
    linked_run hWired hSize hCount hAsked hAlong hRun
  obtain ⟨n, hBudget, hBound⟩ := bench_budgeted hWired hAsked hCalm hBench
  constructor
  · have hCost : cost * labels'.length ≤ cost * benchBound cfg numTransfers :=
      Nat.mul_le_mul_left cost (by omega)
    exact hLength.trans (Nat.add_le_add_left hCost _)
  · exact ⟨hLinked.complete hWired hReceives hAsked hBudget, Complete.stuck⟩

/-- On from the check of the second transfer, to the return of both threads. -/
def returnedLabels : List StackLabel :=
  loopedLabels ++ [.user .rx, .callback .tx 1] ++ finishLabels .tx ++ [.user .tx]

theorem stack_completes_two_transfers :
    returnedLabels.length ≤ stepBound loopedBack 2 ∧
      (Stuck loopedBack false ((Runs.run (stackStep loopedBack false)
          (initialStack loopedBack 2 loopedChannels) returnedLabels).get (by decide +kernel)) ↔
        Complete 2 ((Runs.run (stackStep loopedBack false)
          (initialStack loopedBack 2 loopedChannels) returnedLabels).get (by decide +kernel))) :=
  stack_completes loopedBack_ringed loopedBack_count (by decide) false 2 loopedChannels
    (by decide +kernel) (Option.some_get _).symm

end SoftwarePrototypes.DmaProxyTest
