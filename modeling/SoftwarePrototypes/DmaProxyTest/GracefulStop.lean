import SoftwarePrototypes.DmaProxyTest.Interleaving

/-! # The graceful stop

After a stop request `tx_thread` rewrites `num_transfers` to `counter + RX_BUFFER_COUNT`. That
works out if `rx_thread` has all its buffers in progress at that moment. Once it has passed one
over it starts others in its place, and waits on a buffer that is not started.
-/

namespace SoftwarePrototypes.DmaProxyTest

open Interaction Interaction.Prog

def checkedIn (verify : Bool) (testSize : Nat) : Config := ⟨1, 32, 1, verify, testSize⟩

def LeftLoops (p : Thread Next) : Prop := p = .ret .exited ∨ ∃ count, p = .ret (.returned count)

structure Graceful (st : State) : Prop where
  finishes : ∀ side b count, (st.code side).head = some (.finishXfer b count) →
    b ∈ (st.channel side).ledger.outstanding
  outstanding : (∀ side, LeftLoops (st.code side)) →
    ∀ side, (st.channel side).ledger.outstanding = []
  same : (∀ side, LeftLoops (st.code side)) →
    (st.channel .tx).ledger.starts.length = (st.channel .rx).ledger.starts.length ∧
      (st.channel .tx).ledger.finishes.length = (st.channel .rx).ledger.finishes.length

section Invariant

variable {t : Side → Setting} {st : State}

theorem Inv.settled (h : Inv t st) {side : Side} (hLeft : LeftLoops (st.code side)) :
    Settled (t side) (st.view side) := by
  have hHolds := h.codes side
  obtain ⟨next, hCode, hOut⟩ : ∃ next, st.code side = .ret next ∧
      (next = .exited ∨ ∃ count, next = .returned count) := by
    rcases hLeft with hExit | ⟨count, hReturn⟩
    · exact ⟨_, hExit, .inl rfl⟩
    · exact ⟨_, hReturn, .inr ⟨count, rfl⟩⟩
  rw [hCode] at hHolds
  obtain ⟨stage, hStands⟩ := hHolds _ (Moved.refl _ _)
  cases stage with
  | fill k =>
    rcases hOut with rfl | ⟨_, rfl⟩ <;> cases hStands.1
  | loop k =>
    obtain ⟨_, _, rfl, _⟩ := hStands
    rcases hOut with hNext | ⟨_, hNext⟩ <;> cases hNext
  | left => exact hStands.2

theorem Inv.graceful (h : Inv t st) : Graceful st where
  finishes := by
    intro side b count hHead
    obtain ⟨s, f, hMatches, _, _, rfl, hEarly, _⟩ := h.safe_head hHead
    exact hMatches.mem_outstanding.mpr ⟨f, le_rfl, hEarly, rfl⟩
  outstanding := by
    intro hLeft side
    have hLength := (h.settled (hLeft side)).outstanding_length
    rw [Nat.sub_self, List.length_eq_zero_iff] at hLength
    exact hLength
  same := by
    intro hLeft
    have hTx := h.settled (hLeft .tx)
    have hRx := h.settled (hLeft .rx)
    have hTarget : (st.view .tx).target = (st.view .rx).target := rfl
    constructor
    · exact (hTx.starts_length.trans hTarget).trans hRx.starts_length.symm
    · exact (hTx.finishes_length.trans hTarget).trans hRx.finishes_length.symm

end Invariant

def bufferRing (count : Nat) (hCount : 0 < count) : Ring :=
  .ofDvd count 1 hCount Nat.one_pos (Nat.one_dvd count)

def stopping (numTransfers : Int) : Side → Setting
  | .tx => ⟨bufferRing 1 (by decide), 32, numTransfers, False, True, False, False⟩
  | .rx => ⟨bufferRing 32 (by decide), 32, numTransfers, False, False, False, False⟩

theorem stopping_wired (verify : Bool) (testSize : Nat) (numTransfers : Int) :
    Wired (checkedIn verify testSize) (stopping numTransfers) False where
  keeps := by
    rintro (_ | _)
    · exact txThread_keeps rfl rfl trivial rfl fun h => h.elim
    · exact rxThread_keeps rfl rfl id
  size := by rintro (_ | _) <;> rfl
  slots := by rintro (_ | _) <;> rfl
  calm := by rintro (_ | _) <;> exact Iff.rfl
  stops := id
  carried := fun h => h.elim
  unsent := id
  unreceived := id

def rewrites (st : State) : Label → Bool
  | .thread .tx => match st.code .tx with
    | .call (.writeNumTransfers _) _ => true
    | _ => false
  | _ => false

/-- When `tx_thread` rewrites `num_transfers`, `rx_thread` has not left its first loop early nor
skipped a restart, and the new count fits an `int`. -/
def StopInTime (st : State) (label : Label) : Prop :=
  rewrites st label = true → (st.channel .rx).ledger.passedOver = false ∧
    (st.channel .tx).ledger.finishes.length + 32 < 2 ^ 31

instance StopInTime.decidable (st : State) (label : Label) : Decidable (StopInTime st label) :=
  inferInstanceAs (Decidable (rewrites st label = true → _ ∧ _))

theorem rewrites_of_head {st : State} {value : Int}
    (hHead : (st.code .tx).head = some (.writeNumTransfers value)) :
    rewrites st (.thread .tx) = true := by
  unfold rewrites
  cases hCode : st.code .tx with
  | ret next =>
    rw [hCode] at hHead
    cases hHead
  | call e rest =>
    rw [hCode] at hHead
    cases hHead
    rfl

theorem int32_of_lt {value : Nat} (h : value < 2 ^ 31) : int32 value = value := by
  unfold int32
  apply Int.bmod_eq_of_le <;> omega

/-- A rewrite in time can be reached by both threads: the engine has moved no more transfers than
`tx_thread` has finished. -/
theorem guard_of_inTime {numTransfers : Int} {st : State} {label : Label}
    (h : Inv (stopping numTransfers) st) (hInTime : StopInTime st label) :
    Guard (stopping numTransfers) False st label := by
  refine ⟨fun hCalm => hCalm.elim, ?_⟩
  rintro side value rfl hHead
  obtain ⟨s, f, hMatches, _, _, _, hStops, hValue, hRoom, hEarly, hSlots⟩ := h.safe_head hHead
  cases side with
  | rx => exact hStops.elim
  | tx =>
    obtain ⟨hUnpassed, hSmall⟩ := hInTime (rewrites_of_head hHead)
    obtain ⟨m, hCoherent⟩ := h.coherent
    obtain ⟨sTx, fTx, hTx⟩ := hCoherent .tx
    obtain ⟨sRx, fRx, hRx⟩ := hCoherent .rx
    obtain ⟨rfl, rfl⟩ := hTx.toMatches.unique hMatches
    rw [hTx.finishes_length] at hSmall
    have hNew : value = ((fTx + 32 : Nat) : Int) := by
      rw [hValue, ← int32_of_lt hSmall]
      rfl
    have hOneSlot : (stopping numTransfers .tx).ring.slots = 1 := rfl
    have hRxSlots : (stopping numTransfers .rx).ring.slots = 32 := rfl
    rw [hOneSlot] at hRoom hSlots
    have hMoved := hRx.finished_le
    have hStarted := hTx.le_started
    rintro (_ | _)
    · refine ⟨?_, ?_, ?_⟩
      · rcases Bool.eq_false_or_eq_true (st.view .tx).ledger.passedOver with hPassed | hNot
        · exact absurd (hSlots hPassed) (by decide)
        · exact hNot
      · exact hTx.finishes_length ▸ hEarly
      · change (st.channel .tx).ledger.finishes.length + _ ≤ _
        rw [hTx.finishes_length, hOneSlot, hNew]
        omega
    · have hLength := hRx.finishes_length
      refine ⟨hUnpassed, ?_, ?_⟩
      · change (st.channel .rx).ledger.finishes.length < (st.view .tx).target
        omega
      · change (st.channel .rx).ledger.finishes.length + _ ≤ _
        rw [hRxSlots, hNew]
        omega

theorem stop_graceful (verify : Bool) (testSize : Nat) (numTransfers : Int)
    (words : Side → Nat → Nat → BitVec 32) (labels : List Label) {final : State}
    (hInTime : Runs.Along (step (checkedIn verify testSize)) StopInTime
      (initial (checkedIn verify testSize) numTransfers words) labels)
    (hRun : Runs.run (step (checkedIn verify testSize))
      (initial (checkedIn verify testSize) numTransfers words) labels = some final) :
    Graceful final := by
  have hInv : Inv (stopping numTransfers) final := by
    apply inv_run (stopping_wired verify testSize numTransfers) _ _ hInTime hRun
    · exact fun st label hInv hHere => guard_of_inTime hInv hHere
    · rintro (_ | _) <;> rfl
  exact hInv.graceful

def stopLabels : List Label :=
  [.sigint] ++ List.replicate 3 (.thread .tx) ++ List.replicate 5 (.thread .rx) ++ .engine ::
    List.replicate 4 (.thread .tx)

theorem stop_graceful_early :
    Graceful ((Runs.run (step (checkedIn false 1024)) (initial (checkedIn false 1024) 100
      fun _ _ _ => 0) stopLabels).get (by decide +kernel)) :=
  stop_graceful false 1024 100 (fun _ _ _ => 0) stopLabels (by decide +kernel)
    (Option.some_get _).symm

def finishesUnstarted (st : State) : Bool :=
  match st.code .rx with
  | .call (.finishXfer b _) _ => decide (b ∉ (st.channel .rx).ledger.outstanding)
  | _ => false

theorem Graceful.not_unstarted {st : State} (h : Graceful st) : finishesUnstarted st = false := by
  unfold finishesUnstarted
  split
  · rename_i b count rest hCode
    rw [decide_eq_false_iff_not, not_not]
    exact h.finishes .rx b count (congrArg Prog.head hCode)
  · rfl

/-- Two transfers asked for, both receive buffers started and no third; then the stop. -/
def lateStopLabels : List Label :=
  List.replicate 3 (.thread .tx) ++ List.replicate 6 (.thread .rx) ++ .sigint :: .engine ::
    List.replicate 6 (.thread .tx) ++ List.replicate 4 (.thread .rx) ++ .engine ::
    List.replicate 4 (.thread .rx)

theorem stop_not_graceful : ¬ ∀ (verify : Bool) (testSize : Nat) (numTransfers : Int)
    (words : Side → Nat → Nat → BitVec 32), 1 ≤ numTransfers → ∀ (labels : List Label) final,
      Runs.run (step (checkedIn verify testSize))
        (initial (checkedIn verify testSize) numTransfers words) labels = some final →
      Graceful final := by
  intro hAll
  have hFails : (Runs.run (step (checkedIn false 1024)) (initial (checkedIn false 1024) 2
      fun _ _ _ => 0) lateStopLabels).any finishesUnstarted = true := by decide +kernel
  obtain ⟨final, hRun, hFinal⟩ := (Option.any_eq_true _ _).mp hFails
  have hGraceful := hAll false 1024 2 (fun _ _ _ => 0) (by decide) lateStopLabels final hRun
  rw [hGraceful.not_unstarted] at hFinal
  cases hFinal

end SoftwarePrototypes.DmaProxyTest
