import SoftwarePrototypes.TripCounter.Commands

/-! # Messages to the A72

While no response is there, the PLM sends its counter again and the A72 may answer it again. With
drivers that do not fail, each counter is still taken over once: the responses that the PLM has
accepted leave it at 2, 4, 6 and so on.
-/

namespace SoftwarePrototypes.TripCounter.Linux

open Interaction Interaction.Prog Interaction.Runs Interaction.Threads Interaction.Handshakes

def counterSlot (s : State) : Slot U32 U32 :=
  ⟨s.message plmToIpi3ReqOffset, s.message (plmToIpi3ReqOffset + 32), s.isPending⟩

def AcceptedOnce (s : State) : Prop := s.accepted = evens s.accepted.length

/-- What `UserTask` relies on. -/
structure PlmSteady (s s' : State) : Prop where
  slot : Awaits (· + 1) (counterSlot s) (counterSlot s')
  counter : s'.tripCounter .a72 = s.tripCounter .a72
  accepted : s'.accepted = s.accepted
  observed : s.observed = false → s'.observed = false

/-- What the interrupt handler relies on. -/
structure HandlerSteady (s s' : State) : Prop where
  slot : Offers (counterSlot s) (counterSlot s')
  enabled : OnlyPlm s.enabled → OnlyPlm s'.enabled

/-- After `n` responses the counter is `2 * n`; the A72 sends no commands. -/
structure Counter (s : State) : Prop where
  accepted : AcceptedOnce s
  counter : s.tripCounter .a72 = BitVec.ofNat 32 (2 * s.accepted.length)
  observed : s.observed = false

/-- The request holds the counter. -/
structure Posted (s : State) : Prop extends Counter s where
  request : (counterSlot s).request = s.tripCounter .a72

/-- The counter has been sent, and its response may be there. -/
structure Asked (s : State) : Prop extends Posted s where
  outstanding : Outstanding (· + 1) (counterSlot s)

/-- `Waiting` says whether the PLM has sent the counter; if not, no request is pending. -/
def AtTask : Bool → State → Prop
  | true, s => Asked s
  | false, s => Counter s ∧ s.isPending = false

/-- A response has been read and not yet counted. -/
structure Taken (s : State) : Prop where
  accepted : AcceptedOnce s
  counter : s.tripCounter .a72 = BitVec.ofNat 32 (2 * s.accepted.length + 1)
  observed : s.observed = false
  idle : s.isPending = false

section States

variable {s s' s'' : State}

theorem PlmSteady.refl (s : State) : PlmSteady s s := ⟨Awaits.refl _ _, rfl, rfl, id⟩

theorem PlmSteady.trans (h : PlmSteady s s') (h' : PlmSteady s' s'') : PlmSteady s s'' where
  slot := h.slot.trans h'.slot
  counter := h'.counter.trans h.counter
  accepted := h'.accepted.trans h.accepted
  observed hDown := h'.observed (h.observed hDown)

theorem HandlerSteady.refl (s : State) : HandlerSteady s s := ⟨Offers.refl _, id⟩

theorem HandlerSteady.trans (h : HandlerSteady s s') (h' : HandlerSteady s' s'') :
    HandlerSteady s s'' := ⟨h.slot.trans h'.slot, fun hOnly => h'.enabled (h.enabled hOnly)⟩

theorem PlmSteady.idle (h : PlmSteady s s') (hDown : s.isPending = false) :
    s'.isPending = false := by
  have hSlot := congrArg Slot.pending (h.slot.idle hDown)
  exact hSlot.trans hDown

theorem Counter.moved (h : Counter s) (hMove : PlmSteady s s') : Counter s' where
  accepted := by
    rw [AcceptedOnce, hMove.accepted]
    exact h.accepted
  counter := by rw [hMove.counter, hMove.accepted, h.counter]
  observed := hMove.observed h.observed

theorem Posted.moved (h : Posted s) (hMove : PlmSteady s s') : Posted s' where
  toCounter := h.toCounter.moved hMove
  request := by rw [hMove.slot.request, hMove.counter, h.request]

theorem Asked.moved (h : Asked s) (hMove : PlmSteady s s') : Asked s' where
  toPosted := h.toPosted.moved hMove
  outstanding := h.outstanding.moved hMove.slot

theorem AtTask.moved {waiting : Bool} (h : AtTask waiting s) (hMove : PlmSteady s s') :
    AtTask waiting s' := by
  cases waiting with
  | true => exact Asked.moved h hMove
  | false => exact ⟨h.1.moved hMove, hMove.idle h.2⟩

theorem AtTask.counter {waiting : Bool} (h : AtTask waiting s) : Counter s := by
  cases waiting with
  | true => exact (Asked.toPosted h).toCounter
  | false => exact h.1

theorem Taken.moved (h : Taken s) (hMove : PlmSteady s s') : Taken s' where
  accepted := by
    rw [AcceptedOnce, hMove.accepted]
    exact h.accepted
  counter := by rw [hMove.counter, hMove.accepted, h.counter]
  observed := hMove.observed h.observed
  idle := hMove.idle h.idle

/-! ### The bit of the PLM in the status register -/

theorem isPending_eq (s : State) : s.isPending = s.isr.getLsbD 1 := by
  have hMask : remoteIpiMask = BitVec.twoPow 32 1 := rfl
  rw [State.isPending, hMask, BitVec.and_twoPow]
  cases s.isr.getLsbD 1 <;> rfl

theorem isPending_raised (s : State) :
    { s with isr := s.isr ||| remoteIpiMask }.isPending = true := by
  rw [isPending_eq]
  dsimp only
  rw [BitVec.getLsbD_or]
  exact Bool.or_true _

theorem isPending_cleared (s : State) :
    { s with isr := s.isr &&& ~~~remoteIpiMask }.isPending = false := by
  rw [isPending_eq]
  dsimp only
  rw [BitVec.getLsbD_and]
  exact Bool.and_false _

theorem isPending_triggered (s : State) (mask : U32) :
    { s with isr := s.isr ||| mask &&& ~~~remoteIpiMask }.isPending = s.isPending := by
  rw [isPending_eq, isPending_eq]
  dsimp only
  rw [BitVec.getLsbD_or, BitVec.getLsbD_and]
  have hMask : (~~~remoteIpiMask).getLsbD 1 = false := rfl
  rw [hMask, Bool.and_false, Bool.or_false]

/-- With no other interrupt enabled, the handler runs for the PLM. -/
theorem isPending_of_enabled (hOnly : OnlyPlm s.enabled) (h : s.isr &&& s.enabled ≠ 0) :
    s.isPending = true := by
  rcases hOnly with hNone | hPlm
  · rw [hNone] at h
    exact (h BitVec.and_zero).elim
  · rw [hPlm] at h
    exact decide_eq_true h

end States

/-! ### What the calls change -/

section Calls

variable {b : Board} {choice : Choice} {s s' : State}

theorem SameMessages.plmSteady (h : SameMessages s s') : PlmSteady s s' := by
  have hSlot : counterSlot s' = counterSlot s := by
    rw [counterSlot, State.isPending, h.message, h.isr]
    rfl
  refine ⟨?_, congrFun h.tripCounter .a72, h.accepted, fun hDown => h.observed.trans hDown⟩
  rw [hSlot]
  exact Awaits.refl _ _

theorem SameMessages.handlerSteady (h : SameMessages s s') : HandlerSteady s s' := by
  have hSlot : counterSlot s' = counterSlot s := by
    rw [counterSlot, State.isPending, h.message, h.isr]
    rfl
  refine ⟨?_, h.enabled⟩
  rw [hSlot]
  exact Offers.refl _

/-- What the handler may call, in which state. -/
def HandlerSafe : MetalOp → State → Prop
  | .write32 .ipi offset value, s =>
    offset = ipiIsrOffset ∧ value = remoteIpiMask ∧ s.isPending = true ∧
      (counterSlot s).response = (counterSlot s).request + 1
  | .write32 .ipiBuf offset _, s => offset = plmToIpi3ReqOffset + 32 ∧ s.isPending = true
  | .read32 device offset, _ => device = .ipiBuf → offset = plmToIpi3ReqOffset
  | .printCounter _ _ _, _ => True
  | _, _ => False

theorem counterSlot_respond (s : State) (value : U32) :
    counterSlot (s.store value .ipiBuf (plmToIpi3ReqOffset + 32)) =
      (counterSlot s).respond value := by
  rw [counterSlot, State.store]
  dsimp only
  rw [Function.update_self, Function.update_of_ne (by decide)]
  rfl

theorem counterSlot_clear (s : State) :
    counterSlot (s.store remoteIpiMask .ipi ipiIsrOffset) = (counterSlot s).clear :=
  congrArg (Slot.mk _ _) (isPending_cleared s)

theorem read_same {device : Device} {offset : U32}
    (hOffset : device = .ipiBuf → offset = plmToIpi3ReqOffset) : s.note device offset = s := by
  apply if_neg
  rintro ⟨hDevice, rfl⟩
  exact absurd (hOffset hDevice) (by decide)

theorem handler_plmSteady {e : MetalOp} {answer : MetalAnswer e} (hSafe : HandlerSafe e s)
    (h : metalServe b e choice s = some (answer, s')) : PlmSteady s s' := by
  cases e with
  | write32 device offset value =>
    obtain rfl := metalServe_write h
    cases device with
    | ipi =>
      obtain ⟨rfl, rfl, hUp, hAnswered⟩ := hSafe
      refine ⟨?_, rfl, rfl, id⟩
      rw [counterSlot_clear]
      exact Awaits.clear hUp hAnswered
    | ipiBuf =>
      obtain ⟨rfl, hUp⟩ := hSafe
      refine ⟨?_, rfl, rfl, id⟩
      rw [counterSlot_respond]
      exact Awaits.respond hUp value
  | read32 device offset =>
    obtain ⟨-, rfl⟩ := metalServe_read h
    rw [read_same hSafe]
    exact PlmSteady.refl s
  | printCounter format seconds payload =>
    cases choice <;> cases h
    exact PlmSteady.refl s
  | _ => exact hSafe.elim

/-- The calls of the part for the R5, and the prints. -/
def QuietCall : PlmOp → Prop
  | .r5 _ | .xilPrintf _ => True
  | _ => False

theorem quiet_same (ok : Bool) {e : PlmOp} (hQuiet : QuietCall e) (s : State) :
    SameMessages s (plmServe ok e s).2 := by
  cases e with
  | r5 e =>
    cases ok <;> cases e <;> exact ⟨rfl, rfl, rfl, rfl, id, rfl, rfl, rfl⟩
  | xilPrintf text => exact SameMessages.refl s
  | _ => exact hQuiet.elim

theorem posted_write (s : State) : counterSlot (plmServe true .ipiWrite s).2 =
    (counterSlot s).post (s.tripCounter .a72) := by
  rw [counterSlot]
  simp only [plmServe, if_true]
  rw [Function.update_self, Function.update_of_ne (by decide)]
  rfl

theorem raised_trigger (s : State) :
    counterSlot (plmServe true .ipiTrigger s).2 = (counterSlot s).raise :=
  congrArg (Slot.mk _ _) (isPending_raised s)

theorem plm_handlerSteady {e : PlmOp}
    (hPost : e = .ipiWrite → s.isPending = true → s.tripCounter .a72 = (counterSlot s).request) :
    HandlerSteady s (plmServe true e s).2 := by
  cases e with
  | r5 e =>
    have hQuiet : QuietCall (.r5 e) := trivial
    exact (quiet_same true hQuiet s).handlerSteady
  | xilPrintf text => exact HandlerSteady.refl s
  | ipiWrite =>
    refine ⟨?_, id⟩
    rw [posted_write]
    exact Offers.post (hPost rfl)
  | ipiTrigger =>
    refine ⟨?_, id⟩
    rw [raised_trigger]
    exact Offers.raise _
  | ipiPollForAck | ipiRead | increment => exact ⟨Offers.refl _, id⟩

theorem r5Part_only {α : Type} (p : TripCounter.Plm α) : Only QuietCall (r5Part p) := by
  induction p with
  | ret value => trivial
  | call e next ih => exact ⟨trivial, ih⟩

end Calls

/-! ### Every counter once -/

section Outline

/-- The PLM writes the request again only with the counter that is there. -/
def PlmSafe (e : PlmOp) (s : State) : Prop :=
  AcceptedOnce s ∧
    (e = .ipiWrite → s.isPending = true → s.tripCounter .a72 = (counterSlot s).request)

def accepting : Outline CallAnswer Result State where
  rely
    | .plm, s, s' => PlmSteady s s'
    | .irq, s, s' => HandlerSteady s s'
    | .linux, _, _ => True
  guard _ _ _ := True
  safe
    | .plm, e, s => PlmSafe e s
    | .irq, e, s => HandlerSafe e s
    | .linux, e, _ => SetUpCall e
  post
    | .plm, st, s => AtTask st.waiting s
    | .irq, _, s => OnlyPlm s.enabled
    | .linux, point, _ => point ≠ .observing

variable {b : Board} {s : State}

/-! The PLM -/

abbrev Accepts {α : Type} (b : Board) (post : α → State → Prop) (p : Plm α) (s : State) : Prop :=
  Always PlmSteady (accepting.sem (demo b) .plm) PlmSafe post p s

theorem accepts_op (hReliable : b.mayFail = false) {α : Type} {post : α → State → Prop} {e : PlmOp}
    {rest : PlmAnswer e → Plm α} (hSafe : ∀ s', PlmSteady s s' → PlmSafe e s')
    (hNext : ∀ s', PlmSteady s s' →
      Accepts b post (rest (plmServe true e s').1) (plmServe true e s').2) :
    Accepts b post (plmOp e >>= rest) s := by
  apply Always.ask_bind
  intro s' hMove
  refine ⟨hSafe s' hMove, ?_⟩
  rintro answer s'' ⟨-, choice, hPerform⟩
  cases choice with
  | proceed ok =>
    simp only [demo, hReliable, Bool.or_false] at hPerform
    cases ok with
    | false => cases hPerform
    | true =>
      obtain ⟨rfl, rfl⟩ := Prod.mk.inj (Option.some.inj hPerform)
      exact hNext s' hMove
  | _ => cases hPerform

theorem accepts_quiet {α : Type} {p : Plm α} {waiting : Bool}
    (hOnly : Only QuietCall p) (h : AtTask waiting s) :
    Accepts b (fun _ => AtTask waiting) p s := by
  apply Always.of_invariant _ _ _ hOnly h
  · exact fun _ _ hHere hMove => hHere.moved hMove
  · rintro e s answer s' hQuiet hHere ⟨-, choice, hPerform⟩
    cases choice with
    | proceed ok =>
      simp only [demo] at hPerform
      split at hPerform
      case isTrue =>
        have hSame := quiet_same ok hQuiet s
        rw [Option.some.inj hPerform] at hSame
        exact hHere.moved hSame.plmSteady
      case isFalse => cases hPerform
    | _ => cases hPerform
  · rintro e s hQuiet hHere
    refine ⟨hHere.counter.accepted, ?_⟩
    rintro rfl
    exact hQuiet.elim

theorem accepts_ret {α : Type} {post : α → State → Prop} {value : α}
    (h : ∀ s', PlmSteady s s' → post value s') : Accepts b post (.ret value) s := h

theorem reportUnless_success (text : String) : reportUnless .success text = pure () :=
  if_neg (not_not.mpr rfl)

theorem posted_of_counter (h : Counter s) : Posted (plmServe true .ipiWrite s).2 where
  toCounter := ⟨h.accepted, h.counter, h.observed⟩
  request := by
    rw [posted_write]
    rfl

theorem asked_of_posted (h : Posted s) : Asked (plmServe true .ipiTrigger s).2 where
  toPosted := ⟨⟨h.accepted, h.counter, h.observed⟩, h.request⟩
  outstanding := by
    rw [raised_trigger]
    exact outstanding_raise _

theorem sendToA72_accepts (hReliable : b.mayFail = false) {st : Statics}
    (h : AtTask st.waiting s) : Accepts b (fun _ => Asked) (sendToA72 b.toBuild st) s := by
  have hReport : Only QuietCall (reportWaiting b.toBuild st) :=
    only_ite (fun _ => ⟨trivial, fun _ => trivial⟩) fun _ => trivial
  apply Always.bind PlmSteady.refl
  apply (accepts_quiet hReport h).mono fun _ _ => id
  intro _ s₁ h₁
  apply accepts_op hReliable
  · intro s₂ hMove
    have h₂ := h₁.moved hMove
    refine ⟨h₂.counter.accepted, fun _ hUp => ?_⟩
    cases hWaiting : st.waiting with
    | true =>
      rw [hWaiting] at h₂
      exact (Asked.toPosted h₂).request.symm
    | false =>
      rw [hWaiting] at h₂
      exact (Bool.false_ne_true (h₂.2.symm.trans hUp)).elim
  intro s₂ hMove₂
  have hWritten : (plmServe true .ipiWrite s₂).1 = .success := rfl
  have h₃ := posted_of_counter (h₁.moved hMove₂).counter
  rw [hWritten, reportUnless_success, pure_eq, ret_bind]
  apply accepts_op hReliable
  · exact fun s₄ hMove => ⟨(h₃.moved hMove).accepted, nofun⟩
  intro s₄ hMove₄
  have hTriggered : (plmServe true .ipiTrigger s₄).1 = .success := rfl
  have h₅ := asked_of_posted (h₃.moved hMove₄)
  rw [hTriggered, reportUnless_success]
  exact accepts_ret fun s₆ hMove => h₅.moved hMove

/-- The response to the counter is read while no request is pending. -/
theorem taken_read (h : Asked s) (hDown : s.isPending = false) :
    Taken (plmServe true .ipiRead s).2 where
  accepted := h.accepted
  counter := by
    have hResponse : s.message (plmToIpi3ReqOffset + 32) =
        BitVec.ofNat 32 (2 * s.accepted.length + 1) := by
      rw [← even_succ, ← h.counter, ← h.request]
      exact h.outstanding.answered hDown
    exact (Function.update_self ApiId.a72 _ s.tripCounter).trans hResponse
  observed := h.observed
  idle := hDown

theorem counted_increment (h : Taken s) : AtTask false (plmServe true .increment s).2 := by
  have hCounter : s.tripCounter .a72 + 1 = BitVec.ofNat 32 (2 * (s.accepted.length + 1)) := by
    rw [h.counter, odd_succ]
  refine ⟨⟨?_, ?_, h.observed⟩, h.idle⟩
  · have hAccepted := h.accepted
    rw [AcceptedOnce] at hAccepted ⊢
    simp only [plmServe]
    rw [List.length_cons, evens, hCounter, ← hAccepted]
  · exact (Function.update_self ApiId.a72 _ s.tripCounter).trans hCounter

theorem receiveFromA72_accepts (hReliable : b.mayFail = false) (h : Asked s) :
    Accepts b AtTask receiveFromA72 s := by
  apply accepts_op hReliable
  · exact fun s₁ hMove => ⟨(h.moved hMove).accepted, nofun⟩
  intro s₁ hMove₁
  have h₁ := h.moved hMove₁
  have hStatus : (plmServe true .ipiPollForAck s₁).1 = statusOf (!s₁.isPending) := rfl
  rw [hStatus]
  cases hPending : s₁.isPending with
  | true => exact accepts_ret fun s₂ hMove => h₁.moved hMove
  | false =>
    have hClear : statusOf (!false) = .success := rfl
    rw [if_pos hClear]
    apply accepts_op hReliable
    · exact fun s₂ hMove => ⟨(h₁.moved hMove).accepted, nofun⟩
    intro s₂ hMove₂
    have hRead : (plmServe true .ipiRead s₂).1 = .success := rfl
    have h₃ := taken_read (h₁.moved hMove₂) (hMove₂.idle hPending)
    rw [hRead, reportUnless_success, pure_eq, ret_bind]
    apply accepts_op hReliable
    · exact fun s₄ hMove => ⟨(h₃.moved hMove).accepted, nofun⟩
    intro s₄ hMove₄
    have h₅ := counted_increment (h₃.moved hMove₄)
    exact accepts_ret fun s₆ hMove => h₅.moved hMove

theorem waitingPart_accepts (hReliable : b.mayFail = false) {waiting : Bool}
    (h : AtTask waiting s) : Accepts b AtTask (waitingPart waiting) s := by
  cases waiting with
  | true => exact receiveFromA72_accepts hReliable h
  | false => exact accepts_ret fun s₁ hMove => h.moved hMove

theorem a72Part_accepts (hReliable : b.mayFail = false) {st : Statics}
    (h : AtTask st.waiting s) : Accepts b AtTask (a72Part b.toBuild st) s := by
  rw [a72Part]
  split
  · apply Always.bind PlmSteady.refl
    apply (sendToA72_accepts hReliable h).mono fun _ _ => id
    exact fun _ s₁ h₁ => waitingPart_accepts (b := b) hReliable h₁
  · exact waitingPart_accepts hReliable h

theorem userTask_accepts (hReliable : b.mayFail = false) {st : Statics}
    (h : AtTask st.waiting s) :
    Accepts b (fun st s => AtTask st.waiting s) (userTask b.toBuild st) s := by
  apply Always.bind PlmSteady.refl
  apply (accepts_quiet (r5Part_only _) h).mono fun _ _ => id
  intro executionCount s₁ h₁
  split
  · apply Always.bind PlmSteady.refl
    apply (a72Part_accepts hReliable h₁).mono fun _ _ => id
    exact fun waiting s₂ h₂ => accepts_ret fun s₃ hMove => h₂.moved hMove
  · exact accepts_ret fun s₂ hMove => h₁.moved hMove

theorem r5Command_plmSteady (s : State) (payload : U32) :
    PlmSteady s { s with
      tripCounter := (processCmd (ApiId.command .r5) payload s.tripCounter).2.1 } where
  slot := Awaits.refl _ _
  counter := by
    have hApart : ApiId.a72 ≠ .r5 := by decide
    rw [processCmd_r5]
    exact Function.update_of_ne hApart (payload + 1) s.tripCounter
  accepted := rfl
  observed := id

/-! The interrupt handler -/

abbrev Handles (b : Board) (p : A72 Unit) (s : State) : Prop :=
  accepting.Follows (demo b) .irq p s

/-- The handler runs for a message of the PLM. -/
structure InHandler (s : State) : Prop where
  pending : s.isPending = true
  enabled : OnlyPlm s.enabled

theorem InHandler.moved {s' : State} (h : InHandler s) (hMove : HandlerSteady s s') :
    InHandler s' := ⟨(hMove.slot.pending h.pending).1, hMove.enabled h.enabled⟩

theorem handles_op {e : MetalOp} {rest : MetalAnswer e → A72 Unit}
    (hSafe : ∀ s', HandlerSteady s s' → HandlerSafe e s')
    (hNext : ∀ s', HandlerSteady s s' → ∀ choice answer s'',
      metalServe b e choice s' = some (answer, s'') → Handles b (rest answer) s'') :
    Handles b (metal e >>= rest) s := by
  apply Always.ask_bind
  intro s' hMove
  refine ⟨hSafe s' hMove, ?_⟩
  rintro answer s'' ⟨-, choice, hServe⟩
  exact hNext s' hMove choice answer s'' hServe

theorem handles_read {device : Device} {offset : U32} {rest : U32 → A72 Unit}
    (hOffset : device = .ipiBuf → offset = plmToIpi3ReqOffset)
    (hNext : ∀ s', HandlerSteady s s' → Handles b (rest (s'.load device offset)) s') :
    Handles b (metal (.read32 device offset) >>= rest) s := by
  apply handles_op
  · exact fun _ _ => hOffset
  intro s' hMove choice answer s'' hServe
  obtain ⟨rfl, rfl⟩ := metalServe_read hServe
  rw [read_same hOffset]
  exact hNext s' hMove

theorem printCounter_handles (format : String) (counter : U32) (h : OnlyPlm s.enabled) :
    Handles b (printCounter format counter) s := by
  rw [printCounter]
  split
  · apply Always.ask
    intro s₁ hMove₁
    refine ⟨trivial, ?_⟩
    rintro answer s₂ ⟨-, choice, hServe⟩ s₃ hMove₃
    cases choice <;> cases hServe
    exact hMove₃.enabled (hMove₁.enabled h)
  · exact fun s₁ hMove => hMove.enabled h

theorem ipiIrqHandler_handles (h : InHandler s) : Handles b ipiIrqHandler s := by
  apply handles_read fun _ => rfl
  intro s₁ hMove₁
  have h₁ := h.moved hMove₁
  have hVal : s₁.load .ipiBuf plmToIpi3ReqOffset = (counterSlot s₁).request := rfl
  rw [hVal]
  apply handles_op
  · exact fun s₂ hMove => ⟨rfl, (h₁.moved hMove).pending⟩
  intro s₂ hMove₂ choice₂ answer₂ s₃ hServe₂
  obtain rfl := metalServe_write hServe₂
  have h₂ := h₁.moved hMove₂
  have hRequest := (hMove₂.slot.pending h₁.pending).2
  have hSlot := counterSlot_respond s₂ ((counterSlot s₁).request + 1)
  have h₃ : InHandler (s₂.store ((counterSlot s₁).request + 1) .ipiBuf (plmToIpi3ReqOffset + 32)) :=
    ⟨(congrArg Slot.pending hSlot).trans h₂.pending, h₂.enabled⟩
  apply handles_read
  · rintro ⟨⟩
  intro s₄ hMove₄
  have h₄ := h₃.moved hMove₄
  -- The interrupt for which the handler runs is still pending.
  have hPending : s₄.load .ipi ipiIsrOffset &&& remoteIpiMask ≠ 0 := of_decide_eq_true h₄.pending
  have hResponse : (counterSlot s₄).response = (counterSlot s₄).request + 1 := by
    rw [hMove₄.slot.response, (hMove₄.slot.pending h₃.pending).2, hSlot]
    exact congrArg (· + 1) hRequest.symm
  rw [if_pos hPending]
  apply handles_op
  · intro s₅ hMove
    refine ⟨rfl, rfl, (h₄.moved hMove).pending, ?_⟩
    rw [hMove.slot.response, (hMove.slot.pending h₄.pending).2, hResponse]
  intro s₅ hMove₅ choice₅ answer₅ s₆ hServe₅
  obtain rfl := metalServe_write hServe₅
  exact printCounter_handles _ _ (hMove₅.enabled h₄.enabled)

/-! The set-up of the A72 -/

abbrev SetsUp {α : Type} (b : Board) (post : α → State → Prop) (p : A72 α) (s : State) : Prop :=
  Always (fun _ _ => True) (accepting.sem (demo b) .linux) (fun e _ => SetUpCall e) post p s

theorem setsUp_then {α β : Type} {post : β → State → Prop} {p : A72 α} {rest : α → A72 β}
    (hOnly : Only SetUpCall p) (hRest : ∀ value s', SetsUp b post (rest value) s') (s : State) :
    SetsUp b post (p >>= rest) s := by
  have hTrue : SetsUp b (fun _ _ => True) p s := by
    apply Always.of_invariant (I := fun _ => True) _ _ _ hOnly trivial
    · exact fun _ _ _ _ => trivial
    · exact fun _ _ _ _ _ _ _ => trivial
    · exact fun _ _ hCall _ => hCall
  apply Always.bind fun _ => trivial
  exact hTrue.mono (fun _ _ => id) fun value s' _ => hRest value s'

theorem out_setsUp (ret : Int) (g : Globals) (s : State) :
    SetsUp b (fun point _ => point ≠ .observing) (out ret g) s := by
  apply setsUp_then (deinitIpi_only g)
  intro _ s₁
  apply setsUp_then ((only_ask _).mpr _)
  · exact fun _ _ _ _ => nofun
  · trivial

theorem main_setsUp (s : State) : SetsUp b (fun point _ => point ≠ .observing) main s := by
  apply setsUp_then ((only_ask _).mpr _)
  · intro ret s₁
    split
    · apply setsUp_then ((only_ask _).mpr _)
      · exact fun _ => out_setsUp ret _
      · trivial
    apply setsUp_then initIpi_only
    rintro ⟨ret, g⟩ s₂
    dsimp only
    split
    · exact out_setsUp ret g s₂
    apply setsUp_then ((only_ask _).mpr _)
    · intro _ s₃
      apply setsUp_then ((only_ask _).mpr _)
      · exact fun _ _ _ _ => nofun
      · exact ⟨.inr rfl, rfl⟩
    · trivial
  · trivial

theorem plm_accepts_again {st : Statics} {choice : Choice} {code : Plm Statics} {s' : State}
    (hReliable : b.mayFail = false) (h : AtTask st.waiting s)
    (hAgain : (demo b).again .plm st choice s = some (code, s')) :
    accepting.Follows (demo b) .plm code s' ∧ HandlerSteady s s' := by
  obtain ⟨rfl, rfl⟩ | ⟨hUp, -, -⟩ | ⟨payload, rfl, rfl⟩ := plm_given hAgain
  · exact ⟨userTask_accepts hReliable h, HandlerSteady.refl s'⟩
  · rw [h.counter.observed] at hUp
    cases hUp
  · have hAt := h.moved (r5Command_plmSteady s payload)
    exact ⟨fun s' hMove => hAt.moved hMove, Offers.refl _, id⟩

theorem handler_accepts_again {choice : Choice} {code : A72 Unit} {s' : State}
    (h : OnlyPlm s.enabled) (hAgain : (demo b).again .irq () choice s = some (code, s')) :
    accepting.Follows (demo b) .irq code s' ∧ PlmSteady s s' := by
  obtain ⟨-, hPending, rfl, rfl⟩ := irq_given hAgain
  exact ⟨ipiIrqHandler_handles ⟨isPending_of_enabled h hPending, h⟩, PlmSteady.refl s'⟩

/-- The A72 sends nothing, so that its loop stays where it is. -/
theorem linux_accepts_again {choice : Choice} {point : Point} {code : A72 Point} {s' : State}
    (hOneWay : b.a72ToPlm = false) (h : point ≠ .observing)
    (hAgain : (demo b).again .linux point choice s = some (code, s')) :
    accepting.Follows (demo b) .linux code s' ∧ s' = s := by
  obtain ⟨hOn, rfl, rfl⟩ := linux_given hAgain
  refine ⟨?_, rfl⟩
  cases point with
  | returned status => exact (hOn status rfl).elim
  | observing => exact (h rfl).elim
  | top tripCounter =>
    rw [mainLoop, hOneWay]
    intro s₁ _ hObserving
    cases hObserving

theorem sameMessages_rely {s' : State} (h : SameMessages s s') (j : Thread) :
    accepting.rely j s s' := by
  cases j with
  | plm => exact h.plmSteady
  | irq => exact h.handlerSteady
  | linux => trivial

theorem plm_rely {s' : State} (h : HandlerSteady s s') {j : Thread} (hOther : j ≠ .plm) :
    accepting.rely j s s' := by
  cases j with
  | plm => exact absurd rfl hOther
  | irq => exact h
  | linux => trivial

theorem handler_rely {s' : State} (h : PlmSteady s s') {j : Thread} (hOther : j ≠ .irq) :
    accepting.rely j s s' := by
  cases j with
  | plm => exact h
  | irq => exact absurd rfl hOther
  | linux => trivial

theorem trigger_rely {choice : Choice} {s' : State}
    (hMoved : (demo b).surroundings choice s = some s') (j : Thread) :
    accepting.rely j s s' := by
  obtain ⟨mask, rfl⟩ := triggered hMoved
  have hSlot : counterSlot { s with isr := s.isr ||| mask &&& ~~~remoteIpiMask } =
      counterSlot s := congrArg (Slot.mk _ _) (isPending_triggered s mask)
  cases j with
  | plm =>
    refine ⟨?_, rfl, rfl, id⟩
    rw [hSlot]
    exact Awaits.refl _ _
  | irq =>
    refine ⟨?_, id⟩
    rw [hSlot]
    exact Offers.refl _
  | linux => trivial

theorem plm_accepts_call {e : PlmOp} {choice : Choice} {answer : PlmAnswer e} {s' : State}
    (hReliable : b.mayFail = false) (hSafe : PlmSafe e s)
    (hPerform : (demo b).perform .plm e choice s = some (answer, s')) : HandlerSteady s s' := by
  obtain ⟨ok, hOk, hServe⟩ := plm_performed hPerform
  rw [hReliable, Bool.or_false] at hOk
  have hSteady : HandlerSteady s (plmServe true e s).2 := plm_handlerSteady hSafe.2
  rw [← hOk, hServe] at hSteady
  exact hSteady

theorem accepting_sound (hOneWay : b.a72ToPlm = false) (hReliable : b.mayFail = false) :
    accepting.Sound (demo b) where
  refl i s := sameMessages_rely (SameMessages.refl s) i
  trans i s s' s'' hMove hMove' := by
    cases i with
    | plm => exact PlmSteady.trans hMove hMove'
    | irq => exact HandlerSteady.trans hMove hMove'
    | linux => trivial
  call i e choice s answer s' hSafe _ hPerform j hOther := by
    cases i with
    | linux => exact sameMessages_rely (setUp_same hSafe hPerform) j
    | irq => exact handler_rely (handler_plmSteady hSafe hPerform) hOther
    | plm => exact plm_rely (plm_accepts_call hReliable hSafe hPerform) hOther
  again i value choice s code s' hPost hAgain := by
    cases i with
    | plm =>
      obtain ⟨hFollows, hSteady⟩ := plm_accepts_again hReliable hPost hAgain
      exact ⟨hFollows, fun j hOther => plm_rely hSteady hOther⟩
    | linux =>
      obtain ⟨hFollows, rfl⟩ := linux_accepts_again hOneWay hPost hAgain
      exact ⟨hFollows, fun j _ => sameMessages_rely (SameMessages.refl _) j⟩
    | irq =>
      obtain ⟨hFollows, hSteady⟩ := handler_accepts_again hPost hAgain
      exact ⟨hFollows, fun j hOther => handler_rely hSteady hOther⟩
  surroundings _ _ _ hMoved j := trigger_rely hMoved j

theorem started_accepting (message : U32 → U32) : accepting.Holds (demo b) (started message) := by
  intro i
  cases i with
  | plm =>
    have hIdle : (started message).shared.isPending = false :=
      (isPending_eq _).trans BitVec.getLsbD_zero
    have hCounter : AtTask false (started message).shared := ⟨⟨rfl, rfl, rfl⟩, hIdle⟩
    exact accepts_ret fun s' hMove => hCounter.moved hMove
  | linux => exact main_setsUp _
  | irq => exact fun s' hMove => hMove.enabled (.inl rfl)

theorem accepted_of_holds {C : Config CallAnswer Result State} (h : accepting.Holds (demo b) C) :
    AcceptedOnce C.shared := by
  have hHere := h .plm
  cases hCode : C.code .plm with
  | ret st =>
    rw [hCode] at hHere
    exact (AtTask.counter (hHere C.shared (PlmSteady.refl _))).accepted
  | call e next =>
    rw [hCode] at hHere
    exact (hHere C.shared (PlmSteady.refl _)).1.1

/-- Where the A72 sends nothing by itself and the drivers of the PLM do not fail, the responses
that the PLM accepts bring its counter to 2, 4, 6 and so on, however often each message is sent
and answered. -/
theorem accepted_once (hOneWay : b.a72ToPlm = false) (hReliable : b.mayFail = false)
    {message : U32 → U32} {labels : List (Label Thread Choice)}
    {final : Config CallAnswer Result State}
    (hRun : run (step (demo b)) (started message) labels = some final) :
    AcceptedOnce final.shared := by
  apply accepted_of_holds
  exact (accepting_sound hOneWay hReliable).always_run (started_accepting message)
    (fun _ _ _ => trivial) hRun

end Outline

/-! ### A message that is sent twice -/

def plmSends : Board := ⟨⟨false, true, false⟩, 61, false⟩

/-- `UserTask` sends its counter and finds no response. -/
def sendCounter : List (Label Thread Choice) := .again .plm .userTask :: goOn .plm 5

/-- The interrupt handler up to its print. -/
def answerCounter : List (Label Thread Choice) := .again .irq .interrupt :: goOn .irq 4

/-- `UserTask` sends nothing and takes the response. -/
def takeCounter : List (Label Thread Choice) := .again .plm .userTask :: goOn .plm 3

/-- `UserTask` looks for a response and finds none. -/
def lookAgain : List (Label Thread Choice) := .again .plm .userTask :: goOn .plm 1

/-- The first message is answered twice: the PLM has sent it again before it takes the response. -/
def sentTwice : List (Label Thread Choice) :=
  startUp ++ sendCounter ++ (List.replicate 9 lookAgain).flatten ++ answerCounter ++
    goOn .irq 1 ++ sendCounter ++ answerCounter ++ goOn .irq 1 ++ takeCounter

theorem accepted_once_sentTwice : ∃ final,
    run (step (demo plmSends)) (started fun _ => 7) sentTwice = some final ∧
      final.shared.accepted = [2] ∧ AcceptedOnce final.shared := by
  have hAccepted : (run (step (demo plmSends)) (started fun _ => 7) sentTwice).map
      (fun C => C.shared.accepted) = some [2] := by
    decide +kernel
  obtain ⟨final, hRun, hOne⟩ := Option.map_eq_some_iff.mp hAccepted
  exact ⟨final, hRun, hOne, accepted_once rfl rfl hRun⟩

/-- A response that cannot be read is counted all the same, and leaves the counter at 1. -/
example : (run (step (demo { plmSends with mayFail := true })) (started fun _ => 7)
    (startUp ++ sendCounter ++ answerCounter ++ .again .plm .userTask :: goOn .plm 1 ++
      .call .plm (.proceed false) :: goOn .plm 2)).map (fun C => C.shared.accepted) = some [1] := by
  decide +kernel

end SoftwarePrototypes.TripCounter.Linux
