import SoftwarePrototypes.DmaProxyTest.Lanes
import SoftwarePrototypes.DmaProxyTest.Verification

/-! # The driver does what the bench says

A run of the application over the driver, with the kernel calls of its ioctls interleaved, is one
of the bench. The engine of the bench moves buffers, the one of the driver the addresses of
descriptors. What holds of all runs of the bench holds of the application over the driver.
-/

namespace SoftwarePrototypes.DmaProxyTest

open Interaction Interaction.Prog
open SoftwarePrototypes.DmaProxy (Descriptor Driver Reply bufferSize dmaHandle)

/-! ## One step -/

structure Linked (cfg : Config) (t : Side → Setting) (slack : Side → Nat) (m : Stack)
    (st : State) : Prop where
  inv : Inv t st
  numTransfers : st.numTransfers = m.numTransfers
  stop : st.stop = m.stop
  lane : ∀ side, LaneLinked cfg (t side).ring side (st.channel side) (m.lane side)
    (st.code side) (slack side)

def total (slack : Side → Nat) : Nat := slack .tx + slack .rx

theorem total_update (slack : Side → Nat) (side : Side) (n : Nat) :
    total (Function.update slack side n) + slack side = total slack + n := by
  cases side <;> simp [total, Function.update] <;> omega

/-- The guard of the steps of the bench that a step here stands for. -/
theorem Inv.step_calm {cfg : Config} {t : Side → Setting} {st st' : State} {label : Label}
    (h : Inv t st) (hWired : Wired cfg t True) (hCalm : label ≠ .sigint)
    (hStep : step cfg st label = some st') : Inv t st' :=
  inv_step hWired h (guard_of_calm h (fun side => (hWired.calm side).mpr trivial) hCalm) hStep

theorem Inv.not_exited {t : Side → Setting} {st : State} (h : Inv t st) : st.exited = false := by
  unfold State.exited
  split
  · rename_i hCode
    have hHolds := h.codes .rx
    rw [hCode] at hHolds
    obtain ⟨stage, hStands⟩ := hHolds _ (Moved.refl _ _)
    cases stage with
    | fill k => cases hStands.1
    | loop k =>
      obtain ⟨_, _, hNext, _⟩ := hStands
      cases hNext
    | left => cases hStands.1
  · rfl

section Steps

variable {cfg : Config} {t : Side → Setting} {slack slack' : Side → Nat} {m m₁ next : Stack}
  {st st₁ : State} {side : Side} {calls : List Op}

theorem step_thread (h : Inv t st) {e : Op} {rest : Answer e → Thread Next}
    (hCode : st.code side = .call e rest) {answer : Answer e}
    (hServe : serve cfg side e st = some (answer, st₁)) :
    step cfg st (.thread side) = some { st₁ with
      code := Function.update st₁.code side (settle (body cfg side) (rest answer)) } := by
  rw [step, if_neg (by simp [h.not_exited])]
  simp only [advanceThread]
  rw [hCode]
  simp only [hServe, Option.map_some]

/-- A call outside of the driver, at both levels. -/
structure Alike (cfg : Config) (t : Side → Setting) (slack : Nat) (side : Side) (calls : List Op)
    (m m₁ : Stack) (st st₁ : State) : Prop where
  numTransfers : st₁.numTransfers = m₁.numTransfers
  stop : st₁.stop = m₁.stop
  code : st₁.code = st.code
  others : ∀ other, other ≠ side →
    st₁.channel other = st.channel other ∧ m₁.lane other = m.lane other
  own : Outside cfg (t side).ring calls (st₁.channel side) (m₁.lane side) slack

@[simp] theorem lane_set_self {w : Lane} : (m.set side w).lane side = w := Function.update_self ..

theorem lane_set_other {w : Lane} {other : Side} (h : other ≠ side) :
    (m.set side w).lane other = m.lane other := Function.update_of_ne h ..

theorem write_within {b i : Nat} {value : BitVec 32} (hSize : cfg.testSize ≤ bufferSize)
    (h : Readied cfg (.writeWord b i value) calls) : 4 * (i + 1) ≤ bufferSize := by
  have hIndex : i < max (cfg.testSize / 4) 1 := h
  rw [bufferSize] at *
  omega

/-! One lemma for each call that moves something, or reads what the bench keeps for itself. -/

theorem alike_setLength (h : Linked cfg t slack m st) {n : Nat}
    (hOutside : Outside cfg (t side).ring calls (st.channel side) (m.lane side) n) (b : Nat) :
    Alike cfg t n side (.setLength b (storedLength cfg) :: calls) m
      (m.set side ((m.lane side).setLength b (storedLength cfg))) st st := by
  refine ⟨h.numTransfers, h.stop, rfl, fun other hOther => ⟨rfl, lane_set_other hOther⟩, ?_⟩
  rw [lane_set_self]
  exact hOutside.setLength b

theorem alike_writeWord (h : Linked cfg t slack m st) {n : Nat}
    (hOutside : Outside cfg (t side).ring calls (st.channel side) (m.lane side) n) {b i : Nat}
    {value : BitVec 32} (hWithin : 4 * (i + 1) ≤ bufferSize) :
    Alike cfg t n side (.writeWord b i value :: calls) m
      (m.set side ((m.lane side).writeWord b i value)) st
      (st.set side ((st.channel side).write b i value)) := by
  refine ⟨h.numTransfers, h.stop, rfl,
    fun other hOther => ⟨channel_set_other hOther, lane_set_other hOther⟩, ?_⟩
  rw [lane_set_self, channel_set_self]
  refine Outside.plain ?_ trivial
  exact ⟨hOutside.request, hOutside.paired.write hWithin value, hOutside.carries,
    { hOutside.prepared with }, hOutside.slack_le⟩

theorem alike_reachedNumTransfers (h : Linked cfg t slack m st) {n : Nat}
    (hOutside : Outside cfg (t side).ring calls (st.channel side) (m.lane side) n) (test : Test)
    (count : Int) (reached : Bool) :
    Alike cfg t n side (.reachedNumTransfers test count :: calls) m m st
      (st.set side ((st.channel side).test (slots cfg side) test count reached)) := by
  refine ⟨h.numTransfers, h.stop, rfl, fun other hOther => ⟨channel_set_other hOther, rfl⟩, ?_⟩
  rw [channel_set_self]
  exact (hOutside.test _ test count reached).plain trivial

theorem alike_writeNumTransfers (h : Linked cfg t slack m st) {n : Nat}
    (hOutside : Outside cfg (t side).ring calls (st.channel side) (m.lane side) n) (value : Int) :
    Alike cfg t n side (.writeNumTransfers value :: calls) m { m with numTransfers := value } st
      { st with numTransfers := value } :=
  ⟨rfl, h.stop, rfl, fun _ _ => ⟨rfl, rfl⟩, hOutside.plain trivial⟩

/-- A call that leaves both levels as they are. -/
theorem alike_same (h : Linked cfg t slack m st) {n : Nat}
    (hOutside : Outside cfg (t side).ring calls (st.channel side) (m.lane side) n) {e : Op}
    (hPlain : e.Plain) : Alike cfg t n side (e :: calls) m m st st :=
  ⟨h.numTransfers, h.stop, rfl, fun _ _ => ⟨rfl, rfl⟩, hOutside.plain hPlain⟩

/-- The first word of a buffer that a finish of this round has given back. -/
theorem read_alike {n b i : Nat} (hCount : (t side).ring.size ≤ DmaProxy.bufferCount)
    (hOutside : Outside cfg (t side).ring calls (st.channel side) (m.lane side) n)
    (hReadied : Readied cfg (.readWord b i) calls)
    (hSafe : Safe (t side) (.readWord b i) (st.view side)) :
    (st.channel side).words b i = (m.lane side).memory ((m.lane side).address b i) := by
  obtain ⟨rfl, count, hFinished⟩ := hReadied
  obtain ⟨s, f, hMatches, -, -, -⟩ := hSafe
  have hMem : b ∈ (st.view side).ledger.starts := hOutside.prepared.finished b count hFinished
  rw [hMatches.starts] at hMem
  obtain ⟨k, -, rfl⟩ := List.mem_map.mp hMem
  exact hOutside.paired.words _ 0 (((t side).ring.slot_lt k).trans_le hCount) (by decide)

theorem Linked.served (h : Linked cfg t slack m st) (hSize : cfg.testSize ≤ bufferSize)
    (hCount : (t side).ring.size ≤ DmaProxy.bufferCount)
    (hRequest : (m.lane side).request = none) {e : Op} {rest : Answer e → Thread Next}
    (hCode : (m.lane side).code = .call e rest) {answer : Answer e}
    (hServe : serveUser side e m = some (answer, m₁)) :
    ∃ st₁ calls, serve cfg side e st = some (answer, st₁) ∧
      Readies cfg (fun _ _ => True) (.call e rest) calls ∧
      Alike cfg t (slack side) side (e :: calls) m m₁ st st₁ := by
  obtain ⟨hAhead, calls, hReadies, hOutside⟩ := (h.lane side).outside hRequest
  rw [hCode] at hReadies hAhead
  have hReadied := hReadies.safe_call fun _ => rfl
  cases e with
  | setLength b length =>
    obtain rfl : length = storedLength cfg := hReadied
    cases hServe
    exact ⟨st, calls, rfl, hReadies, alike_setLength h hOutside b⟩
  | writeWord b i value =>
    cases hServe
    exact ⟨_, calls, rfl, hReadies, alike_writeWord h hOutside (write_within hSize hReadied)⟩
  | reachedNumTransfers test count =>
    cases hServe
    refine ⟨_, calls, ?_, hReadies, alike_reachedNumTransfers h hOutside test
      count (decide (m.numTransfers ≤ count))⟩
    rw [serve, h.numTransfers]
  | readStop =>
    cases hServe
    refine ⟨st, calls, ?_, hReadies, alike_same h hOutside trivial⟩
    rw [serve, h.stop]
  | writeNumTransfers value =>
    cases hServe
    exact ⟨_, calls, rfl, hReadies, alike_writeNumTransfers h hOutside value⟩
  | readWord b i =>
    cases hServe
    refine ⟨st, calls, ?_, hReadies, alike_same h hOutside trivial⟩
    have hSafe := h.inv.safe_head (congrArg Prog.head hAhead)
    rw [serve, read_alike hCount hOutside hReadied hSafe]
  | printTransferError | printNotEqual i data expected =>
    cases hServe
    exact ⟨st, calls, rfl, hReadies, alike_same h hOutside trivial⟩
  | startXfer b count | finishXfer b count => cases hServe

/-- What the steps between two of the bench may add up to, for each of the bench. -/
def cost : Nat := DmaProxy.ioctlCalls + 2

/-- The bench gets to a state that stands for `next`, without a stop request. -/
def Followed (cfg : Config) (t : Side → Setting) (n : Nat) (st : State) (next : Stack) : Prop :=
  ∃ labels st' slack', (∀ label ∈ labels, label ≠ Label.sigint) ∧
    Runs.run (step cfg) st labels = some st' ∧ Linked cfg t slack' next st' ∧
    total slack' + 1 ≤ n + cost * labels.length

theorem followed_none (h : Linked cfg t slack' next st) (hLess : total slack' < total slack) :
    Followed cfg t (total slack) st next :=
  ⟨[], st, slack', fun _ hMem => absurd hMem List.not_mem_nil, rfl, h, hLess⟩

theorem followed_one (h : Linked cfg t slack' next st₁) {label : Label} (hCalm : label ≠ .sigint)
    (hStep : step cfg st label = some st₁) (hCost : total slack' + 1 ≤ total slack + cost) :
    Followed cfg t (total slack) st next := by
  refine ⟨[label], st₁, slack', ?_, ?_, h, ?_⟩
  · intro label' hMem
    rw [List.mem_singleton.mp hMem]
    exact hCalm
  · rw [Runs.run, hStep]
    rfl
  · rw [List.length_singleton, Nat.mul_one]
    exact hCost

/-- Only `side` has moved. -/
theorem Linked.lanes (h : Linked cfg t slack m st) (side : Side) {n : Nat}
    (hOwn : LaneLinked cfg (t side).ring side (st₁.channel side) (next.lane side) (st₁.code side) n)
    (hOthers : ∀ other, other ≠ side → st₁.channel other = st.channel other ∧
      st₁.code other = st.code other ∧ next.lane other = m.lane other) (other : Side) :
    LaneLinked cfg (t other).ring other (st₁.channel other) (next.lane other) (st₁.code other)
      (Function.update slack side n other) := by
  rcases eq_or_ne other side with rfl | hOther
  · rw [Function.update_self]
    exact hOwn
  · obtain ⟨hChannel, hCode, hLane⟩ := hOthers other hOther
    rw [hChannel, hCode, hLane, Function.update_of_ne hOther]
    exact h.lane other

/-- A step of a side that is none of the bench. -/
theorem Linked.silent (h : Linked cfg t slack m st) {w : Lane} {n : Nat} (hLess : n < slack side)
    (hOwn : LaneLinked cfg (t side).ring side (st.channel side) w (st.code side) n) :
    Followed cfg t (total slack) st (m.set side w) := by
  have hTotal := total_update slack side n
  have hStill : Linked cfg t (Function.update slack side n) (m.set side w) st := by
    refine ⟨h.inv, h.numTransfers, h.stop, h.lanes side ?_ ?_⟩
    · rw [lane_set_self]
      exact hOwn
    · exact fun other hOther => ⟨rfl, rfl, lane_set_other hOther⟩
  exact followed_none hStill (by omega)

section Wired

variable (hWired : Wired cfg t True) (hSize : cfg.testSize ≤ bufferSize)
  (hCount : ∀ side, (t side).ring.size ≤ DmaProxy.bufferCount)

include hWired

/-- One call of a thread of the bench. -/
theorem Linked.thread (h : Linked cfg t slack m st) {e : Op} {rest : Answer e → Thread Next}
    (hCode : st.code side = .call e rest) {answer : Answer e}
    (hServe : serve cfg side e st = some (answer, st₁))
    (hNumTransfers : st₁.numTransfers = next.numTransfers) (hStop : st₁.stop = next.stop)
    (hKept : st₁.code = st.code) {n : Nat} (hSlack : n < slack side + cost)
    (hOwn : LaneLinked cfg (t side).ring side (st₁.channel side) (next.lane side)
      (settle (body cfg side) (rest answer)) n)
    (hOthers : ∀ other, other ≠ side →
      st₁.channel other = st.channel other ∧ next.lane other = m.lane other) :
    Followed cfg t (total slack) st next := by
  have hStep := step_thread h.inv hCode hServe
  have hTotal := total_update slack side n
  have hNext : Linked cfg t (Function.update slack side n) next { st₁ with
      code := Function.update st₁.code side (settle (body cfg side) (rest answer)) } := by
    refine ⟨h.inv.step_calm hWired (by simp) hStep, hNumTransfers, hStop, h.lanes side ?_ ?_⟩
    · simp only [Function.update_self]
      exact hOwn
    · intro other hOther
      obtain ⟨hChannel, hLane⟩ := hOthers other hOther
      refine ⟨hChannel, ?_, hLane⟩
      simp only [Function.update_of_ne hOther, hKept]
  exact followed_one hNext (by simp) hStep (by omega)

include hSize hCount

theorem Linked.user (h : Linked cfg t slack m st) {trace : Bool}
    (hStep : stepUser cfg trace side m = some next) : Followed cfg t (total slack) st next := by
  have hLane := h.lane side
  simp only [stepUser] at hStep
  split at hStep
  · cases hStep
  · rename_i e rest hCode
    split at hStep
    · rename_i hRequest hIoctl
      obtain ⟨⟨answer, m₁⟩, hServe, rfl⟩ := Option.map_eq_some_iff.mp hStep
      have hAhead := (hLane.outside hRequest).1.trans hCode
      obtain ⟨st₁, calls, hServed, hReadies, hAlike⟩ :=
        h.served hSize (hCount side) hRequest hCode hServe
      refine h.thread hWired hAhead hServed hAlike.numTransfers hAlike.stop hAlike.code
        (Nat.lt_add_of_pos_right (Nat.succ_pos _)) ?_ ?_
      · rw [lane_set_self]
        exact hAlike.own.linked (readies_resumed hReadies answer)
      · intro other hOther
        rw [lane_set_other hOther]
        exact hAlike.others other hOther
    · rename_i cmd b hRequest hIoctl
      cases hStep
      have hAhead := (hLane.outside hRequest).1.trans hCode
      have hSafe := h.inv.safe_head (congrArg Prog.head hAhead)
      obtain ⟨n, hLess, hEntered⟩ :=
        hLane.entered (hCount side) hRequest hCode hIoctl rfl hSafe trace
      exact h.silent hLess hEntered
    · rename_i value hRequest
      obtain ⟨answer, hResult, rfl⟩ := Option.map_eq_some_iff.mp hStep
      obtain ⟨k, hCoherent⟩ := h.inv.coherent
      obtain ⟨s, f, hOk⟩ := hCoherent side
      rcases hLane.returned hOk hRequest hCode hResult with ⟨n, hLess, hStill⟩ |
        ⟨b, count, c, rest', hAhead, hFinish, hFinished⟩
      · exact h.silent hLess hStill
      · have hServe : serve cfg side (.finishXfer b count) st =
            some (.noError, st.set side c) := by
          rw [serve, hFinish]
          rfl
        refine h.thread hWired hAhead hServe h.numTransfers h.stop rfl (Nat.lt_succ_self _) ?_ ?_
        · rw [lane_set_self, channel_set_self]
          exact hFinished
        · exact fun other hOther => ⟨channel_set_other hOther, lane_set_other hOther⟩
    · cases hStep

omit hSize hCount in
theorem Linked.kernel (h : Linked cfg t slack m st) {reply : Reply}
    (hCalm : Undisturbed m (.kernel side reply)) (hStep : stepKernel side reply m = some next) :
    Followed cfg t (total slack) st next := by
  simp only [stepKernel] at hStep
  split at hStep
  · rename_i e rest hRequest
    obtain ⟨⟨answer, d⟩, hPerform, rfl⟩ := Option.map_eq_some_iff.mp hStep
    have hWorks : DmaProxy.Works reply (m.lane side).driver e := hCalm _ hRequest e rfl
    rcases (h.lane side).called hRequest hPerform hWorks with ⟨n, hLess, hStill⟩ | ⟨b, count, rest',
      hAhead, hStarted⟩
    · exact h.silent hLess hStill
    · refine h.thread hWired hAhead rfl h.numTransfers h.stop rfl (Nat.lt_succ_self _) ?_ ?_
      · rw [lane_set_self, channel_set_self]
        exact hStarted
      · exact fun other hOther => ⟨channel_set_other hOther, lane_set_other hOther⟩
  · cases hStep

omit hWired hSize hCount in
theorem Linked.callback (h : Linked cfg t slack m st) {k : Nat} {d : Driver}
    (hEngine : (m.lane side).driver.engineStep (.callback k) = some d) :
    Followed cfg t (total slack) st (m.set side { m.lane side with driver := d }) := by
  have hLane := h.lane side
  have hUnfired := callback_unfired hEngine
  obtain ⟨own, -, hSlack⟩ := hLane.engaged
  have hLess : slack side - 1 < slack side := by omega
  have hOne : unfired d + slack side ≤ unfired (m.lane side).driver + (slack side - 1) := by omega
  have hPaired := hLane.paired.callback hEngine
  exact h.silent hLess
    (hLane.moved hPaired (DmaProxy.proceeds_callback hEngine) rfl rfl rfl hOne)

theorem Linked.engine (h : Linked cfg t slack m st) (hStep : loopback m = some next) :
    Followed cfg t (total slack) st next := by
  obtain ⟨sender, hSender, hStep⟩ := Option.bind_eq_some_iff.mp hStep
  obtain ⟨receiver, hReceiver, hStep⟩ := Option.bind_eq_some_iff.mp hStep
  obtain ⟨source, hSource, hStep⟩ := Option.bind_eq_some_iff.mp hStep
  obtain ⟨target, hTarget, hStep⟩ := Option.bind_eq_some_iff.mp hStep
  cases hStep
  obtain ⟨k, hCoherent⟩ := h.inv.coherent
  obtain ⟨sTx, fTx, hTxOk⟩ := hCoherent .tx
  obtain ⟨sRx, fRx, hRxOk⟩ := hCoherent .rx
  have hTx := (h.lane .tx).paired
  have hRx := (h.lane .rx).paired
  obtain ⟨hMoreTx, -, -, -⟩ := complete_counts hSender
  obtain ⟨hMoreRx, -, -, -⟩ := complete_counts hReceiver
  obtain rfl := hTx.described _ _ hSource
  obtain rfl := hRx.described _ _ hTarget
  rw [hTx.issued, hTxOk.starts_length, hTx.completed hTxOk] at hMoreTx
  rw [hRx.issued, hRxOk.starts_length, hRx.completed hRxOk] at hMoreRx
  rw [hTx.completed hTxOk, hRx.completed hRxOk]
  obtain ⟨bsTx, hPendingTx⟩ := hTxOk.pending_cons hMoreTx
  obtain ⟨bsRx, hPendingRx⟩ := hRxOk.pending_cons hMoreRx
  have hSourceSlot := ((t .tx).ring.slot_lt k).trans_le (hCount .tx)
  have hUnfiredTx := complete_unfired hSender
  have hUnfiredRx := complete_unfired hReceiver
  have hStep : step cfg st .engine = engine cfg st := by
    rw [step, if_neg (by simp [h.inv.not_exited])]
  simp only [engine, hPendingTx, hPendingRx] at hStep
  have hTotal : total (fun side => slack side + 1) + 1 ≤ total slack + cost := by
    simp only [total, cost, DmaProxy.ioctlCalls]
    omega
  refine followed_one ⟨h.inv.step_calm hWired (by simp) hStep, h.numTransfers, h.stop, ?_⟩ (by simp)
    hStep hTotal
  rintro (_ | _)
  · rw [channel_set_other (by decide), channel_set_self, lane_set_other (by decide), lane_set_self]
    refine (h.lane .tx).moved (hTx.complete hSender hPendingTx hTx.words _)
      (DmaProxy.proceeds_complete hSender) rfl rfl rfl ?_
    change unfired sender + slack .tx ≤ unfired (m.lane .tx).driver + (slack .tx + 1)
    omega
  · rw [channel_set_self, lane_set_self]
    refine (h.lane .rx).moved (hRx.complete hReceiver hPendingRx ?_ _)
      (DmaProxy.proceeds_complete hReceiver) rfl rfl rfl ?_
    · exact fun b i hb hi => moved_word hTx hRx hSize hSourceSlot hb hi
    · change unfired receiver + slack .rx ≤ unfired (m.lane .rx).driver + (slack .rx + 1)
      omega

theorem Linked.step (h : Linked cfg t slack m st) {trace : Bool} {label : StackLabel}
    (hCalm : Undisturbed m label) (hStep : stackStep cfg trace m label = some next) :
    Followed cfg t (total slack) st next := by
  unfold stackStep at hStep
  split at hStep
  · cases hStep
  cases label with
  | user side => exact h.user hWired hSize hCount hStep
  | kernel side reply => exact h.kernel hWired hCalm hStep
  | engine => exact h.engine hWired hSize hCount hStep
  | callback side k =>
    obtain ⟨d, hEngine, rfl⟩ := Option.map_eq_some_iff.mp hStep
    exact h.callback hEngine
  | sigint => exact hCalm.elim

end Wired

end Steps

/-! ## From the start on -/

theorem carries_opened (r : Ring) (c : OpenedChannel) : DmaProxy.Carries r 0 0 c.driver where
  length := rfl
  consistent := DmaProxy.consistent_opened c.pBdTable c.pBufferTable c.bufferPhysAddr
  finished_le := le_rfl
  completed_le := le_rfl
  issued_le := le_rfl
  room := Nat.zero_le _
  carried k t hGet := by cases hGet

section Runs

variable {cfg : Config} {t : Side → Setting} {numTransfers : Int}
  {channels : Side → OpenedChannel}

theorem prepared_nil {c : Channel} {d : Driver} : Prepared cfg c d [] where
  stored _ _ hNot := by cases hNot
  finished _ _ hNot := by cases hNot

theorem linked_initial (hWired : Wired cfg t True)
    (hAsked : ∀ side, (t side).asked = numTransfers) :
    Linked cfg t (fun _ => cost) (initialStack cfg numTransfers channels)
      (initial cfg numTransfers fun side => (channels side).words) where
  inv := inv_initial hWired numTransfers _ hAsked
  numTransfers := rfl
  stop := rfl
  lane side := {
    paired := {
      pending := rfl
      issued := rfl
      queued := rfl
      described := fun k desc hGet => by cases hGet
      handles := (channels side).handles
      lengths := fun b hb => by cases hb
      words := fun _ _ _ _ => rfl }
    engaged := ⟨_, .idle rfl rfl (carries_opened _ _) le_rfl, le_rfl⟩
    prepared := ⟨[], body_readies side _, prepared_nil⟩ }

theorem linked_run (hWired : Wired cfg t True) (hSize : cfg.testSize ≤ bufferSize)
    (hCount : ∀ side, bufferCount cfg side ≤ DmaProxy.bufferCount)
    (hAsked : ∀ side, (t side).asked = numTransfers) {trace : Bool} {labels : List StackLabel}
    {final : Stack}
    (hAlong : Runs.Along (stackStep cfg trace) Undisturbed
      (initialStack cfg numTransfers channels) labels)
    (hRun : Runs.run (stackStep cfg trace) (initialStack cfg numTransfers channels) labels =
      some final) :
    ∃ labels' st slack, (∀ label ∈ labels', label ≠ Label.sigint) ∧
      Runs.run (step cfg) (initial cfg numTransfers fun side => (channels side).words) labels' =
        some st ∧
      Linked cfg t slack final st ∧ labels.length ≤ 2 * cost + cost * labels'.length := by
  have hRings : ∀ side, (t side).ring.size ≤ DmaProxy.bufferCount :=
    fun side => (hWired.size side).trans_le (hCount side)
  have hMatch : ∀ n m st label next, (∃ slack, total slack = n ∧ Linked cfg t slack m st) →
      Undisturbed m label → stackStep cfg trace m label = some next →
      ∃ labels' st' n', (∀ label' ∈ labels', label' ≠ Label.sigint) ∧
        Runs.run (step cfg) st labels' = some st' ∧
        (∃ slack, total slack = n' ∧ Linked cfg t slack next st') ∧
        n' + 1 ≤ n + cost * labels'.length := by
    rintro n m st label next ⟨slack, rfl, h⟩ hCalm hStep
    obtain ⟨labels', st', slack', hLabels, hBench, hLinked, hLess⟩ :=
      h.step hWired hSize hRings hCalm hStep
    exact ⟨labels', st', _, hLabels, hBench, ⟨slack', rfl, hLinked⟩, hLess⟩
  obtain ⟨labels', st, _, hLabels, hBench, ⟨slack, rfl, hLinked⟩, hLength⟩ :=
    Runs.run_matched hMatch ⟨_, rfl, linked_initial hWired hAsked⟩ hAlong hRun
  refine ⟨labels', st, slack, hLabels, hBench, hLinked, ?_⟩
  simp only [total] at hLength
  omega

end Runs

/-- What a state of the application over the driver has in common with one of the bench. A thread
outside of an ioctl stands where the one of the bench does, as many transfers are issued as
started, and each is that of its buffer. -/
structure Shows (cfg : Config) (m : Stack) (st : State) : Prop where
  threads : ∀ side, (m.lane side).request = none → st.code side = (m.lane side).code
  numTransfers : st.numTransfers = m.numTransfers
  issued : ∀ side, (m.lane side).driver.issued = (st.channel side).ledger.starts.length
  completed : ∀ side, (st.channel side).pending.length + (m.lane side).driver.completed =
    (m.lane side).driver.issued
  descriptors : ∀ (side : Side) (k b : Nat) (desc : Descriptor),
    (st.channel side).ledger.starts[k]? = some b → (m.lane side).descriptors[k]? = some desc →
    desc = ⟨dmaHandle (m.lane side).driver.bufferPhysAddr b, BitVec.ofNat 32 cfg.testSize⟩
  words : ∀ side b i, b < DmaProxy.bufferCount → 4 * (i + 1) ≤ bufferSize →
    (st.channel side).words b i = (m.lane side).memory ((m.lane side).address b i)

theorem Linked.shows {cfg : Config} {t : Side → Setting} {slack : Side → Nat} {m : Stack}
    {st : State}
    (h : Linked cfg t slack m st) : Shows cfg m st where
  threads side hRequest := ((h.lane side).outside hRequest).1
  numTransfers := h.numTransfers
  issued side := (h.lane side).paired.issued
  completed side := (h.lane side).paired.pending
  descriptors side k b desc hStart hDesc := by
    obtain ⟨_, hCoherent⟩ := h.inv.coherent
    obtain ⟨s, f, hOk⟩ := hCoherent side
    rw [hOk.starts, List.getElem?_map] at hStart
    obtain ⟨j, hRange, rfl⟩ := Option.map_eq_some_iff.mp hStart
    obtain ⟨hBound, hEq⟩ := List.getElem?_eq_some_iff.mp hRange
    rw [List.getElem_range] at hEq
    rw [← hEq]
    exact (h.lane side).paired.described k desc hDesc
  words side := (h.lane side).paired.words

/-- Without verification nothing is said of the words. -/
def plain {cfg : Config} (h : Ringed cfg) (numTransfers : Int) : Side → Setting
  | .tx => ⟨ring h .tx, cfg.rxBufferCount, numTransfers, True, True, False, False⟩
  | .rx => ⟨ring h .rx, cfg.rxBufferCount, numTransfers, True, False, False, False⟩

theorem plain_wired {cfg : Config} (h : Ringed cfg) (numTransfers : Int) :
    Wired cfg (plain h numTransfers) True where
  keeps := by
    rintro (_ | _)
    · exact txThread_keeps rfl rfl trivial rfl fun hNot => hNot.elim
    · exact rxThread_keeps rfl rfl id
  size := by rintro (_ | _) <;> rfl
  slots := by rintro (_ | _) <;> rfl
  calm := by rintro (_ | _) <;> exact Iff.rfl
  stops := id
  carried := fun hNot => hNot.elim
  unsent := id
  unreceived := id

theorem stack_refines {cfg : Config} (h : Ringed cfg)
    (hCount : ∀ side, bufferCount cfg side ≤ DmaProxy.bufferCount)
    (hSize : cfg.testSize ≤ bufferSize) (trace : Bool) (numTransfers : Int)
    (channels : Side → OpenedChannel) {labels : List StackLabel} {final : Stack}
    (hAlong : Runs.Along (stackStep cfg trace) Undisturbed
      (initialStack cfg numTransfers channels) labels)
    (hRun : Runs.run (stackStep cfg trace) (initialStack cfg numTransfers channels) labels =
      some final) :
    ∃ labels' st, (∀ label ∈ labels', label ≠ Label.sigint) ∧
      Runs.run (step cfg) (initial cfg numTransfers fun side => (channels side).words) labels' =
        some st ∧
      Shows cfg final st := by
  have hWired := plain_wired h numTransfers
  have hAsked : ∀ side, (plain h numTransfers side).asked = numTransfers := by
    rintro (_ | _) <;> rfl
  obtain ⟨labels', st, _, hCalm, hBench, hLinked, -⟩ :=
    linked_run hWired hSize hCount hAsked hAlong hRun
  exact ⟨labels', st, hCalm, hBench, hLinked.shows⟩

/-! ### Two transfers -/

def loopedBack : Config := ⟨1, 2, 1, true, 4⟩

theorem loopedBack_ringed : Ringed loopedBack where
  increment := Nat.one_pos
  count := by rintro (_ | _) <;> decide
  revisits := by
    rintro (_ | _)
    · exact fun k h => ⟨0, by decide, Nat.mod_one _⟩
    · have hNext : Ring.Revisits 2 1 := fun k h => ⟨(k + 1) % 2, by omega, by omega⟩
      exact hNext

theorem loopedBack_count (side : Side) : bufferCount loopedBack side ≤ DmaProxy.bufferCount := by
  cases side <;> decide

def openedAt (bufferPhysAddr : Nat) : OpenedChannel where
  pBdTable bd := ⟨0, 0, dmaHandle bufferPhysAddr bd.toNat, 0, 0⟩
  pBufferTable _ := ⟨.busy, 0⟩
  bufferPhysAddr := bufferPhysAddr
  memory _ := 0
  handles _ _ := rfl

def loopedChannels : Side → OpenedChannel
  | .tx => openedAt 0x100000
  | .rx => openedAt 0x200000

def startLabels (side : Side) (cookie : Int) : List StackLabel :=
  .user side :: List.replicate 10 (.kernel side ⟨true, cookie⟩) ++ [.user side]

def finishLabels (side : Side) : List StackLabel :=
  .user side :: List.replicate 6 (.kernel side ⟨true, 0⟩) ++ [.user side]

/-- Both receive buffers are started, and the transmit buffer twice, up to the check of the second
transfer. -/
def loopedLabels : List StackLabel :=
  List.replicate 2 (.user .tx) ++ [.user .rx] ++ startLabels .tx 1 ++ startLabels .rx 1 ++
    List.replicate 2 (.user .rx) ++ startLabels .rx 2 ++
    [.user .rx, .engine, .callback .rx 0, .callback .tx 0, .user .tx] ++ finishLabels .tx ++
    finishLabels .rx ++ List.replicate 4 (.user .tx) ++ startLabels .tx 2 ++
    List.replicate 3 (.user .rx) ++ [.engine, .callback .rx 1] ++ finishLabels .rx ++ [.user .rx]

theorem loopedLabels_undisturbed : Runs.Along (stackStep loopedBack false) Undisturbed
    (initialStack loopedBack 2 loopedChannels) loopedLabels := by decide +kernel

theorem stack_refines_two_transfers :
    ∃ labels' st, (∀ label ∈ labels', label ≠ Label.sigint) ∧
      Runs.run (step loopedBack) (initial loopedBack 2 fun side => (loopedChannels side).words)
        labels' = some st ∧
      Shows loopedBack ((Runs.run (stackStep loopedBack false)
        (initialStack loopedBack 2 loopedChannels) loopedLabels).get (by decide +kernel)) st :=
  stack_refines loopedBack_ringed loopedBack_count (by decide) false 2 loopedChannels
    loopedLabels_undisturbed (Option.some_get _).symm

/-! ### End to end -/

/-- No check of a received buffer fails, and an ioctl that has finished a transfer leaves
`PROXY_NO_ERROR`. -/
structure Intact (m : Stack) : Prop where
  equal : ∀ i data expected, (m.lane .rx).code.head ≠ some (.printNotEqual i data expected)
  status : ∀ side b count value, (m.lane side).code.head = some (.finishXfer b count) →
    (m.lane side).request = some (.ret value) →
    ((m.lane side).driver.pBufferTable (b : Nat)).status = .noError

theorem LaneLinked.status {cfg : Config} {r : Ring} {side : Side} {c : Channel} {w : Lane}
    {ahead : Thread Next} {slack : Nat} (h : LaneLinked cfg r side c w ahead slack) {b : Nat}
    {count value : Int} (hHead : w.code.head = some (.finishXfer b count))
    (hRequest : w.request = some (.ret value)) :
    (w.driver.pBufferTable b).status = .noError := by
  obtain ⟨own, hEngaged, -⟩ := h.engaged
  cases hEngaged with
  | idle hIdle _ _ _ =>
    rw [hRequest] at hIdle
    cases hIdle
  | starting hIn _ _ _ | started hIn _ _ _ =>
    rw [hIn.code] at hHead
    cases hHead
  | @finishing f n _ _ left _ hIn _ _ =>
    rw [hIn.code] at hHead
    cases hHead
    obtain rfl : left = .ret value := Option.some.inj (hIn.request.symm.trans hRequest)
    have hFinished : DmaProxy.Finished r f n w.driver := hIn.follows _ (.refl _)
    exact hFinished.status

theorem Linked.intact {cfg : Config} {t : Side → Setting} {slack : Side → Nat} {m : Stack}
    {st : State}
    (h : Linked cfg t slack m st) (hReceives : (t .rx).receives) : Intact m where
  equal i data expected hHead := by
    have hIdle : (m.lane .rx).request = none := by
      refine (h.lane .rx).request_none fun e he => ?_
      cases hHead.symm.trans he
      rfl
    have hAhead := ((h.lane .rx).outside hIdle).1
    exact (h.inv.verified hReceives).2 i data expected ((congrArg Prog.head hAhead).trans hHead)
  status side b count value hHead hRequest := (h.lane side).status hHead hRequest

theorem stack_intact {cfg : Config} (h : Ringed cfg)
    (hCount : ∀ side, bufferCount cfg side ≤ DmaProxy.bufferCount)
    (hVerify : cfg.verify = true) (hWord : 4 ≤ cfg.testSize) (hSize : cfg.testSize ≤ bufferSize)
    (trace : Bool) (numTransfers : Int)
    (hWhen : cfg.bufferIncrement ≤ cfg.txBufferCount ∨ numTransfers = 1)
    (channels : Side → OpenedChannel) {labels : List StackLabel} {final : Stack}
    (hAlong : Runs.Along (stackStep cfg trace) Undisturbed
      (initialStack cfg numTransfers channels) labels)
    (hRun : Runs.run (stackStep cfg trace) (initialStack cfg numTransfers channels) labels =
      some final) : Intact final := by
  have hWired := verifying_wired h hVerify hWord hWhen
  have hAsked : ∀ side, (verifying h numTransfers side).asked = numTransfers := by
    rintro (_ | _) <;> rfl
  obtain ⟨_, _, _, _, _, hLinked, -⟩ := linked_run hWired hSize hCount hAsked hAlong hRun
  exact hLinked.intact trivial

theorem stack_intact_two_transfers :
    Intact ((Runs.run (stackStep loopedBack false) (initialStack loopedBack 2 loopedChannels)
      loopedLabels).get (by decide +kernel)) :=
  stack_intact loopedBack_ringed loopedBack_count rfl (by decide) (by decide) false 2
    (.inl (by decide)) loopedChannels loopedLabels_undisturbed (Option.some_get _).symm

end SoftwarePrototypes.DmaProxyTest
