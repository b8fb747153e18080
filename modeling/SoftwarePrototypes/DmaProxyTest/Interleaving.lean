import SoftwarePrototypes.DmaProxyTest.Bench

/-! # All interleavings

Every step of the application keeps what each thread relies on, so both threads keep their
discipline however their calls, the engine and a stop request interleave.
-/

namespace SoftwarePrototypes.DmaProxyTest

open Interaction Interaction.Prog
open SoftwarePrototypes.DmaProxy (ProxyStatus)

structure Wired (cfg : Config) (t : Side → Setting) (calm : Prop) : Prop where
  keeps : ∀ side, Keeps (t side) (body cfg side)
  size : ∀ side, (t side).ring.size = bufferCount cfg side
  slots : ∀ side, (t side).ring.slots = slots cfg side
  calm : ∀ side, (t side).calm ↔ calm
  stops : ¬ (t .rx).stops
  carried : (t .rx).receives → (t .tx).sends ∧ 0 < wordCount cfg
  unsent : ¬ (t .rx).sends
  unreceived : ¬ (t .tx).receives

/-- The engine has moved the same number of transfers of both channels. -/
def Coherent (t : Side → Setting) (m : Nat) (st : State) : Prop :=
  ∀ side, ∃ s f, ChannelOk (t side) m s f (st.channel side)

structure Inv (t : Side → Setting) (st : State) : Prop where
  coherent : ∃ m, Coherent t m st
  codes : ∀ side, Holds (t side) (Stationed (t side)) (st.code side) (st.view side)

/-- A rewrite of `num_transfers` that neither thread can miss: none has passed over a buffer yet
or is done, and both can reach the new count with all slots in progress. -/
def MayRewrite (t : Side → Setting) (st : State) (value : Int) : Prop :=
  ∀ side, (st.view side).ledger.passedOver = false ∧
    (st.view side).ledger.finishes.length < (st.view side).target ∧
    (st.view side).ledger.finishes.length + (t side).ring.slots ≤ max value.toNat 1

section Calls

variable {cfg : Config} {t : Side → Setting} {calm : Prop} {st st' : State} {side other : Side}
  {m : Nat} {c : Channel}

@[simp] theorem channel_set_self : (st.set side c).channel side = c := Function.update_self ..

theorem channel_set_other (h : other ≠ side) : (st.set side c).channel other = st.channel other :=
  Function.update_of_ne h ..

theorem view_set_other (h : other ≠ side) : (st.set side c).view other = st.view other := by
  rw [State.view, channel_set_other h]
  rfl

/-- What a call of `side` means for everyone. -/
structure Served (t : Side → Setting) (m : Nat) (side : Side) (e : Op) (st : State)
    (answer : Answer e) (st' : State) : Prop where
  does : does (t side) e (st.view side) answer (st'.view side)
  others : ∀ other, other ≠ side → Moved (t other) (st.view other) (st'.view other)
  coherent : Coherent t m st'
  code : st'.code = st.code

theorem served_set {e : Op} {answer : Answer e} (hCoherent : Coherent t m st)
    (hDoes : does (t side) e (st.view side) answer ((st.set side c).view side))
    (hOk : ∃ s f, ChannelOk (t side) m s f c) : Served t m side e st answer (st.set side c) where
  does := hDoes
  others := fun other hOther => by
    rw [view_set_other hOther]
    exact Moved.refl _ _
  coherent := by
    intro side'
    rcases eq_or_ne side' side with rfl | hOther
    · rw [channel_set_self]
      exact hOk
    · rw [channel_set_other hOther]
      exact hCoherent side'
  code := rfl

theorem served_same {e : Op} {answer : Answer e} (hCoherent : Coherent t m st)
    (hDoes : does (t side) e (st.view side) answer (st.view side)) :
    Served t m side e st answer st :=
  ⟨hDoes, fun _ _ => Moved.refl _ _, hCoherent, rfl⟩

theorem write_first (c : Channel) (b i : Nat) (value : BitVec 32) :
    (fun b' => (c.write b i value).words b' 0) =
      if i = 0 then Function.update (fun b' => c.words b' 0) b value
      else fun b' => c.words b' 0 := by
  funext b'
  rcases eq_or_ne b' b with rfl | hOther
  · rcases eq_or_ne i 0 with rfl | hPos
    · simp [Channel.write]
    · rw [if_neg hPos]
      simp [Channel.write, Function.update_of_ne hPos.symm]
  · simp only [Channel.write, Function.update_of_ne hOther]
    split
    · rw [Function.update_of_ne hOther]
    · rfl

theorem Matches.unique {r : Ring} {s f s' f' : Nat} {L : Ledger} (h : Matches r s f L)
    (h' : Matches r s' f' L) : s = s' ∧ f = f' :=
  ⟨h.starts_length.symm.trans h'.starts_length, h.finishes_length.symm.trans h'.finishes_length⟩

/-! One lemma for each call that changes the state, or reads what the engine has moved. -/

section Ops

variable {s f : Nat}

theorem served_writeWord (hCoherent : Coherent t m st)
    (hOk : ChannelOk (t side) m s f (st.channel side)) {b i : Nat} {value : BitVec 32}
    (hFits : Fits (t side) s f (st.view side) (.writeWord b i value)) :
    Served t m side (.writeWord b i value) st ()
      (st.set side ((st.channel side).write b i value)) := by
  obtain ⟨rfl, hFree⟩ := hFits
  refine served_set hCoherent ?_ ⟨_, _, hOk.write hFree i value⟩
  simp only [does, State.view, channel_set_self, write_first]
  rfl

theorem served_startXfer (hCoherent : Coherent t m st)
    (hOk : ChannelOk (t side) m s f (st.channel side)) {b : Nat} {count : Int}
    (hFits : Fits (t side) s f (st.view side) (.startXfer b count)) :
    Served t m side (.startXfer b count) st () (st.set side ((st.channel side).start b)) := by
  obtain ⟨rfl, hFree, -, hWord⟩ := hFits
  refine served_set hCoherent ?_ ⟨_, _, hOk.start hFree hWord⟩
  simp only [does, State.view, channel_set_self]
  rfl

theorem served_finishXfer (hCoherent : Coherent t m st)
    (hOk : ChannelOk (t side) m s f (st.channel side)) {b : Nat} {count : Int}
    (hFits : Fits (t side) s f (st.view side) (.finishXfer b count)) {status : ProxyStatus}
    (hFinish : (st.channel side).finish b = some (status, c)) :
    Served t m side (.finishXfer b count) st status (st.set side c) := by
  obtain ⟨rfl, hEarly, -⟩ := hFits
  obtain ⟨hStatus, hLedger, hWords, hMoved, hOk'⟩ := hOk.finish hEarly hFinish
  refine served_set hCoherent ⟨hStatus, ?_, rfl, rfl, ?_⟩ ⟨_, _, hOk'⟩
  · simp only [State.view, channel_set_self]
    exact hLedger
  · intro hReceiving
    simp only [State.view, channel_set_self, hWords, hOk.finishes_length]
    exact hOk.arrived hReceiving f le_rfl hMoved

theorem served_reachedNumTransfers (hSlots : (t side).ring.slots = slots cfg side)
    (hCoherent : Coherent t m st) (hOk : ChannelOk (t side) m s f (st.channel side))
    (test : Test) (count : Int) :
    Served t m side (.reachedNumTransfers test count) st (decide (st.numTransfers ≤ count))
      (st.set side ((st.channel side).test (slots cfg side) test count
        (decide (st.numTransfers ≤ count)))) := by
  refine served_set hCoherent ⟨rfl, ?_⟩ ⟨s, f, ⟨hOk.starts, hOk.finishes⟩, hOk.finished_le,
    hOk.le_started, hOk.room, hOk.pending, hOk.completed, hOk.sent, hOk.arrived⟩
  simp only [State.view, channel_set_self, hSlots]
  rfl

/-- Nobody who rewrites the count is alone in not being calm. -/
theorem served_writeNumTransfers (hWired : Wired cfg t calm) (hCoherent : Coherent t m st)
    {value : Int} (hFits : Fits (t side) s f (st.view side) (.writeNumTransfers value))
    (hMay : MayRewrite t st value) :
    Served t m side (.writeNumTransfers value) st () { st with numTransfers := value } := by
  have hAgitated : ∀ side, ¬ (t side).calm := fun other hCalm =>
    hFits.1 ((hWired.calm side).mpr ((hWired.calm other).mp hCalm))
  refine ⟨⟨rfl, (hMay side).1, (hMay side).2.2⟩, ?_, hCoherent, rfl⟩
  intro other _
  exact ⟨rfl, .inr (hMay other), fun _ _ => rfl, fun hCalm => absurd hCalm (hAgitated other)⟩

theorem served_readWord (hCoherent : Coherent t m st) (b i : Nat) :
    Served t m side (.readWord b i) st ((st.channel side).words b i) st := by
  refine served_same hCoherent ⟨?_, rfl⟩
  rintro rfl
  rfl

end Ops

/-- Each call within the discipline does what the thread expects of it, and no more than the other
thread relies on. -/
theorem serve_served (hWired : Wired cfg t calm) (hCoherent : Coherent t m st) {e : Op}
    {answer : Answer e} (hSafe : Safe (t side) e (st.view side))
    (hRewrite : ∀ value, e = .writeNumTransfers value → MayRewrite t st value)
    (hServe : serve cfg side e st = some (answer, st')) : Served t m side e st answer st' := by
  obtain ⟨s, f, hMatches, -, -, hFits⟩ := hSafe
  obtain ⟨s', f', hOk⟩ := hCoherent side
  obtain ⟨rfl, rfl⟩ := hOk.toMatches.unique hMatches
  cases e with
  | finishXfer b count =>
    obtain ⟨⟨status, c⟩, hFinish, hResult⟩ := Option.map_eq_some_iff.mp hServe
    obtain ⟨rfl, rfl⟩ := Prod.mk.inj hResult
    exact served_finishXfer hCoherent hOk hFits hFinish
  | writeWord b i value =>
    obtain ⟨rfl, rfl⟩ := Prod.mk.inj (Option.some.inj hServe)
    exact served_writeWord hCoherent hOk hFits
  | startXfer b count =>
    obtain ⟨rfl, rfl⟩ := Prod.mk.inj (Option.some.inj hServe)
    exact served_startXfer hCoherent hOk hFits
  | reachedNumTransfers test count =>
    obtain ⟨rfl, rfl⟩ := Prod.mk.inj (Option.some.inj hServe)
    exact served_reachedNumTransfers (hWired.slots side) hCoherent hOk test count
  | writeNumTransfers value =>
    obtain ⟨rfl, rfl⟩ := Prod.mk.inj (Option.some.inj hServe)
    exact served_writeNumTransfers hWired hCoherent hFits (hRewrite value rfl)
  | readWord b i =>
    obtain ⟨rfl, rfl⟩ := Prod.mk.inj (Option.some.inj hServe)
    exact served_readWord hCoherent b i
  | readStop =>
    obtain ⟨rfl, rfl⟩ := Prod.mk.inj (Option.some.inj hServe)
    exact served_same hCoherent ⟨rfl, rfl⟩
  | setLength b length | printTransferError | printNotEqual i data expected =>
    obtain ⟨rfl, rfl⟩ := Prod.mk.inj (Option.some.inj hServe)
    exact served_same hCoherent rfl

theorem engine_moved (hWired : Wired cfg t calm) (hCoherent : Coherent t m st)
    (hEngine : engine cfg st = some st') :
    (∀ side, Moved (t side) (st.view side) (st'.view side)) ∧ Coherent t (m + 1) st' ∧
      st'.code = st.code := by
  obtain ⟨sTx, fTx, hTx⟩ := hCoherent .tx
  obtain ⟨sRx, fRx, hRx⟩ := hCoherent .rx
  unfold engine at hEngine
  split at hEngine
  case h_2 => cases hEngine
  case h_1 b bs b' bs' hPendingTx hPendingRx =>
    obtain ⟨hMoreTx, rfl, rfl⟩ := hTx.next hPendingTx
    obtain ⟨hMoreRx, rfl, rfl⟩ := hRx.next hPendingRx
    have hLowTx := hTx.finished_le
    have hLowRx := hRx.finished_le
    have hRoomRx := hRx.room
    have hOther : ∀ b, b ≠ (t .rx).ring.slot m → ∀ new : Nat → BitVec 32,
        Function.update (st.channel .rx).words ((t .rx).ring.slot m) new b =
          (st.channel .rx).words b := by
      intro b hNe new
      exact Function.update_of_ne hNe _ _
    cases hEngine
    refine ⟨?_, ?_, rfl⟩
    · rintro (_ | _)
      · exact Moved.refl _ _
      · refine ⟨rfl, .inl rfl, ?_, fun _ => ⟨rfl, rfl⟩⟩
        intro b hFree
        have hNe : b ≠ (t .rx).ring.slot m := by
          rintro rfl
          exact hFree (hRx.mem_outstanding.mpr ⟨m, hLowRx, hMoreRx, rfl⟩)
        exact congrFun (hOther b hNe _) 0
    · rintro (_ | _)
      · refine ⟨sTx, fTx, ?_⟩
        exact hTx.moved hMoreTx (fun _ _ _ _ => rfl)
          (fun hReceiving => absurd hReceiving hWired.unreceived)
      · refine ⟨sRx, fRx, ?_⟩
        apply hRx.moved hMoreRx
        · intro j hAfter hBefore hNe
          apply hOther
          rcases Nat.lt_or_gt_of_ne hNe with hLt | hGt
          · exact (t .rx).ring.slot_ne hLt (by omega)
          · exact ((t .rx).ring.slot_ne hGt (by omega)).symm
        · intro hReceiving
          obtain ⟨hSending, hWord⟩ := hWired.carried hReceiving
          rw [Function.update_self, copied, if_pos hWord]
          exact hTx.sent hSending m le_rfl hMoreTx

/-- The condition on a step: no stop where none is expected, and no rewrite that a thread can
miss. -/
def Guard (t : Side → Setting) (calm : Prop) (st : State) (label : Label) : Prop :=
  (calm → label ≠ .sigint) ∧ ∀ side value, label = .thread side →
    (st.code side).head = some (.writeNumTransfers value) → MayRewrite t st value

theorem inv_step (hWired : Wired cfg t calm) {label : Label} (h : Inv t st)
    (hGuard : Guard t calm st label) (hStep : step cfg st label = some st') : Inv t st' := by
  obtain ⟨m, hCoherent⟩ := h.coherent
  have hTrans : ∀ side, ∀ v v' v'', Moved (t side) v v' → Moved (t side) v' v'' →
      Moved (t side) v v'' := fun _ _ _ _ hMove hMove' => hMove.trans hMove'
  unfold step at hStep
  split at hStep
  · cases hStep
  cases label with
  | thread side =>
    simp only [advanceThread] at hStep
    split at hStep
    · cases hStep
    · rename_i e rest hCode
      obtain ⟨⟨answer, st₁⟩, hServe, rfl⟩ := Option.map_eq_some_iff.mp hStep
      have hHolds := h.codes side
      rw [hCode] at hHolds
      have hServed := serve_served hWired hCoherent (hHolds.safe_call (Moved.refl _))
        (fun value hValue => hGuard.2 side value rfl (by rw [hCode, ← hValue]; rfl)) hServe
      refine ⟨⟨m, hServed.coherent⟩, ?_⟩
      intro other
      rcases eq_or_ne other side with rfl | hOther
      · have hNext := hHolds.answered (Moved.refl _) hServed.does
        have hSettled := hNext.settle (Moved.refl _) fun _ _ => (hWired.keeps other).round
        simp only [Function.update_self]
        exact hSettled
      · have hMoved := (h.codes other).moved (hTrans other) (hServed.others other hOther)
        simp only [Function.update_of_ne hOther, hServed.code]
        exact hMoved
  | engine =>
    obtain ⟨hMoved, hCoherent', hCode⟩ := engine_moved hWired hCoherent hStep
    refine ⟨⟨m + 1, hCoherent'⟩, fun side => ?_⟩
    rw [hCode]
    exact (h.codes side).moved (hTrans side) (hMoved side)
  | sigint =>
    cases hStep
    refine ⟨⟨m, hCoherent⟩, fun side => ?_⟩
    have hMoved : Moved (t side) (st.view side) (State.view { st with stop := true } side) := by
      refine ⟨rfl, .inl rfl, fun _ _ => rfl, fun hCalm => ?_⟩
      exact absurd rfl (hGuard.1 ((hWired.calm side).mp hCalm))
    exact (h.codes side).moved (hTrans side) hMoved

end Calls

/-! ## From the start on -/

section Runs

variable {cfg : Config} {t : Side → Setting} {calm : Prop}

theorem inv_initial (hWired : Wired cfg t calm) (numTransfers : Int)
    (words : Side → Nat → Nat → BitVec 32) (hAsked : ∀ side, (t side).asked = numTransfers) :
    Inv t (initial cfg numTransfers words) where
  coherent := by
    refine ⟨0, fun side => ⟨0, 0, ⟨rfl, rfl⟩, le_rfl, le_rfl, Nat.zero_le _, rfl, rfl, ?_, ?_⟩⟩
    · intro _ j _ hNone
      omega
    · intro _ j _ hNone
      omega
  codes := by
    intro side
    have hStart := stationed_start (t := t side)
      (v := (initial cfg numTransfers words).view side) rfl
      (fun _ => ⟨rfl, (hAsked side).symm⟩)
    rw [hWired.size] at hStart
    exact (hWired.keeps side).round ⟨_, hStart⟩

theorem inv_run (hWired : Wired cfg t calm) {P : State → Label → Prop}
    (hGuard : ∀ st label, Inv t st → P st label → Guard t calm st label) {numTransfers : Int}
    {words : Side → Nat → Nat → BitVec 32} (hAsked : ∀ side, (t side).asked = numTransfers)
    {labels : List Label} {final : State}
    (hAlong : Runs.Along (step cfg) P (initial cfg numTransfers words) labels)
    (hRun : Runs.run (step cfg) (initial cfg numTransfers words) labels = some final) :
    Inv t final :=
  Runs.run_invariant
    (fun st label _ hInv hHere hStep => inv_step hWired hInv (hGuard st label hInv hHere) hStep)
    (inv_initial hWired numTransfers words hAsked) hAlong hRun

theorem Inv.safe_head {st : State} (h : Inv t st) {side : Side} {e : Op}
    (hHead : (st.code side).head = some e) : Safe (t side) e (st.view side) := by
  have hHolds := h.codes side
  cases hCode : st.code side with
  | ret next =>
    rw [hCode] at hHead
    cases hHead
  | call e' rest =>
    rw [hCode] at hHead hHolds
    cases hHead
    exact hHolds.safe_call (Moved.refl _)

end Runs

end SoftwarePrototypes.DmaProxyTest
