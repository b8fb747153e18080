import SoftwarePrototypes.Interaction.Handshakes
import SoftwarePrototypes.TripCounter.ExactlyOnce
import SoftwarePrototypes.TripCounter.LinuxPrograms

/-! # Commands of the A72

Whatever the PLM sends and receives meanwhile, in any build, each message of `send_ipi_msg` is
handled once, and what it returns is the counter of the PLM: 2, 4, 6 and so on.
-/

namespace SoftwarePrototypes.TripCounter.Linux

open Interaction Interaction.Prog Interaction.Runs Interaction.Threads Interaction.Handshakes

/-! ### What a step of each thread does -/

section Steps

variable {b : Board} {choice : Choice} {s s' : State}

theorem plm_performed {e : PlmOp} {answer : PlmAnswer e}
    (h : (demo b).perform .plm e choice s = some (answer, s')) :
    ∃ ok, (ok || b.mayFail) = true ∧ plmServe ok e s = (answer, s') := by
  cases choice with
  | proceed ok =>
    simp only [demo] at h
    split at h
    case isTrue hOk => exact ⟨ok, hOk, Option.some.inj h⟩
    case isFalse => cases h
  | _ => cases h

theorem plm_given {st : Statics} {code : Plm Statics}
    (h : (demo b).again .plm st choice s = some (code, s')) :
    (code = userTask b.toBuild st ∧ s' = s) ∨
      (s.observed = true ∧ code = .ret st ∧ s' = s.handle) ∨
      ∃ payload, code = .ret st ∧ s' = { s with
        tripCounter := (processCmd (ApiId.command .r5) payload s.tripCounter).2.1 } := by
  cases choice with
  | userTask =>
    obtain ⟨rfl, rfl⟩ := Prod.mk.inj (Option.some.inj h)
    exact .inl ⟨rfl, rfl⟩
  | command =>
    simp only [demo] at h
    split at h
    case isTrue hUp =>
      obtain ⟨rfl, rfl⟩ := Prod.mk.inj (Option.some.inj h)
      exact .inr (.inl ⟨hUp, rfl, rfl⟩)
    case isFalse => cases h
  | r5Command payload =>
    obtain ⟨rfl, rfl⟩ := Prod.mk.inj (Option.some.inj h)
    exact .inr (.inr ⟨payload, rfl, rfl⟩)
  | _ => cases h

theorem linux_given {point : Point} {code : A72 Point}
    (h : (demo b).again .linux point choice s = some (code, s')) :
    (∀ status, point ≠ .returned status) ∧ code = mainLoop b.toBuild point ∧ s' = s := by
  cases point with
  | returned status => cases h
  | top tripCounter | observing =>
    obtain ⟨rfl, rfl⟩ := Prod.mk.inj (Option.some.inj h)
    exact ⟨nofun, rfl, rfl⟩

theorem irq_given {code : A72 Unit} (h : (demo b).again .irq () choice s = some (code, s')) :
    s.registered b.irqInfo = true ∧ s.isr &&& s.enabled ≠ 0 ∧ code = ipiIrqHandler ∧ s' = s := by
  cases choice with
  | interrupt =>
    simp only [demo] at h
    split at h
    case isTrue hCalled =>
      obtain ⟨rfl, rfl⟩ := Prod.mk.inj (Option.some.inj h)
      exact ⟨hCalled.1, hCalled.2.2, rfl, rfl⟩
    case isFalse => cases h
  | _ => cases h

theorem triggered (h : (demo b).surroundings choice s = some s') :
    ∃ mask : U32, s' = { s with isr := s.isr ||| mask &&& ~~~remoteIpiMask } := by
  cases choice with
  | trigger mask => exact ⟨mask, (Option.some.inj h).symm⟩
  | _ => cases h

end Steps

/-- The `k`-th value returned and the counter after the `k`-th command are `2 * k`, and at most one
command has been handled that has not returned. -/
structure Delivered (s : State) : Prop where
  returned : s.returned = evens s.returned.length
  trips : s.trips = evens s.trips.length
  least : s.returned.length ≤ s.trips.length
  most : s.trips.length ≤ s.returned.length + 1

def commandSlot (s : State) : Slot U32 U32 :=
  ⟨s.message (ipi3ToPlmReqOffset + 4), s.message (ipi3ToPlmReqOffset + 32 + 4), s.observed⟩

def HoldsCommand (s : State) : Prop := s.message ipi3ToPlmReqOffset = ApiId.command .a72

/-- What `send_ipi_msg` relies on. -/
structure Steady (s s' : State) : Prop where
  command : s'.message ipi3ToPlmReqOffset = s.message ipi3ToPlmReqOffset
  slot : HoldsCommand s → Awaits (· + 1) (commandSlot s) (commandSlot s')
  down : s.observed = false → s'.observed = false
  returned : s'.returned = s.returned
  trips : s'.observed = s.observed → s'.trips = s.trips
  handled : HoldsCommand s → s.observed = true → s'.observed = false →
    s'.trips = (s.message (ipi3ToPlmReqOffset + 4) + 1) :: s.trips

/-- Nothing but one word of the messages is changed, and none that a command uses. -/
structure Elsewhere (s s' : State) : Prop where
  message : ∃ offset value, offset ≠ ipi3ToPlmReqOffset ∧ offset ≠ ipi3ToPlmReqOffset + 4 ∧
    offset ≠ ipi3ToPlmReqOffset + 32 + 4 ∧ s'.message = Function.update s.message offset value
  observed : s'.observed = s.observed
  returned : s'.returned = s.returned
  trips : s'.trips = s.trips

/-- No command is under way. -/
structure Between (s : State) : Prop extends Delivered s where
  observed : s.observed = false
  length : s.trips.length = s.returned.length

/-- The command with the next counter is under way, or its response is there. -/
structure Sent (s : State) : Prop extends Delivered s where
  command : HoldsCommand s
  payload : (commandSlot s).request = BitVec.ofNat 32 (2 * s.returned.length + 1)
  outstanding : Outstanding (· + 1) (commandSlot s)
  waiting : s.observed = true → s.trips.length = s.returned.length
  handled : s.observed = false → s.trips.length = s.returned.length + 1

section States

variable {s s' s'' : State}

theorem Steady.refl (s : State) : Steady s s where
  command := rfl
  slot _ := Awaits.refl _ _
  down := id
  returned := rfl
  trips _ := rfl
  handled _ hUp hDown := (Bool.false_ne_true (hDown.symm.trans hUp)).elim

theorem HoldsCommand.moved (h : HoldsCommand s) (hMove : Steady s s') : HoldsCommand s' :=
  hMove.command.trans h

theorem Steady.trans (h : Steady s s') (h' : Steady s' s'') : Steady s s'' where
  command := h'.command.trans h.command
  slot hHolds := (h.slot hHolds).trans (h'.slot (hHolds.moved h))
  down hDown := h'.down (h.down hDown)
  returned := h'.returned.trans h.returned
  trips hSame := by
    cases hUp : s.observed with
    | false =>
      have hDown := h.down hUp
      rw [h'.trips ((h'.down hDown).trans hDown.symm), h.trips (hDown.trans hUp.symm)]
    | true =>
      cases hBetween : s'.observed with
      | false =>
        have hDown := h'.down hBetween
        rw [hSame, hUp] at hDown
        cases hDown
      | true =>
        rw [h'.trips ((hSame.trans hUp).trans hBetween.symm), h.trips (hBetween.trans hUp.symm)]
  handled hHolds hUp hDown := by
    cases hBetween : s'.observed with
    | false =>
      rw [h'.trips (hDown.trans hBetween.symm)]
      exact h.handled hHolds hUp hBetween
    | true =>
      have hPayload : s'.message (ipi3ToPlmReqOffset + 4) = s.message (ipi3ToPlmReqOffset + 4) :=
        (h.slot hHolds).request
      rw [h'.handled (hHolds.moved h) hBetween hDown, h.trips (hBetween.trans hUp.symm), hPayload]

theorem Elsewhere.steady (h : Elsewhere s s') : Steady s s' := by
  obtain ⟨offset, value, hCommand, hPayload, hResponse, hMessage⟩ := h.message
  have hSlot : commandSlot s' = commandSlot s := by
    rw [commandSlot, hMessage, h.observed, Function.update_of_ne hPayload.symm,
      Function.update_of_ne hResponse.symm]
    rfl
  constructor
  · rw [hMessage, Function.update_of_ne hCommand.symm]
  · intro _
    rw [hSlot]
    exact Awaits.refl _ _
  · exact fun hDown => h.observed.trans hDown
  · exact h.returned
  · exact fun _ => h.trips
  · exact fun _ hUp hDown => (Bool.false_ne_true (hDown.symm.trans (h.observed.trans hUp))).elim

theorem elsewhere_of_same (hMessage : s'.message = s.message) (hObserved : s'.observed = s.observed)
    (hReturned : s'.returned = s.returned) (hTrips : s'.trips = s.trips) : Elsewhere s s' :=
  ⟨⟨0, s.message 0, by decide, by decide, by decide, by rw [Function.update_eq_self, hMessage]⟩,
    hObserved, hReturned, hTrips⟩

/-- The counter that the PLM keeps is the one that it sends back. -/
theorem handle_command (h : HoldsCommand s) :
    s.handle.trips = (s.message (ipi3ToPlmReqOffset + 4) + 1) :: s.trips ∧
      commandSlot s.handle =
        ((commandSlot s).respond ((commandSlot s).request + 1)).clear := by
  rw [HoldsCommand] at h
  constructor
  · simp [State.handle, h, processCmd_a72]
  · rw [commandSlot, State.handle, h, processCmd_a72]
    dsimp only
    rw [Function.update_self, Function.update_of_ne (by decide), Function.update_of_ne (by decide)]
    rfl

theorem steady_handle (hUp : s.observed = true) : Steady s s.handle where
  command := by
    rw [State.handle]
    dsimp only
    rw [Function.update_of_ne (by decide), Function.update_of_ne (by decide)]
  slot hHolds := by
    rw [(handle_command hHolds).2]
    exact Awaits.serve hUp
  down _ := rfl
  returned := rfl
  trips hSame := (Bool.false_ne_true (hSame.trans hUp)).elim
  handled hHolds _ _ := (handle_command hHolds).1

theorem Between.moved (h : Between s) (hMove : Steady s s') : Between s' := by
  have hDown := hMove.down h.observed
  have hTrips := hMove.trips (hDown.trans h.observed.symm)
  constructor
  · constructor
    · rw [hMove.returned]
      exact h.returned
    · rw [hTrips]
      exact h.trips
    · rw [hTrips, hMove.returned]
      exact h.least
    · rw [hTrips, hMove.returned]
      exact h.most
  · exact hDown
  · rw [hTrips, hMove.returned, h.length]

theorem Sent.moved (h : Sent s) (hMove : Steady s s') : Sent s' := by
  have hSlot := hMove.slot h.command
  have hPayload : (commandSlot s').request = BitVec.ofNat 32 (2 * s'.returned.length + 1) := by
    rw [hSlot.request, h.payload, hMove.returned]
  have hOutstanding := h.outstanding.moved hSlot
  cases hUp : s.observed with
  | true =>
    cases hUp' : s'.observed with
    | true =>
      have hTrips := hMove.trips (hUp'.trans hUp.symm)
      have hLength : s'.trips.length = s'.returned.length := by
        rw [hTrips, hMove.returned, h.waiting hUp]
      refine ⟨⟨?_, ?_, by omega, by omega⟩, h.command.moved hMove, hPayload, hOutstanding, ?_, ?_⟩
      · rw [hMove.returned]
        exact h.returned
      · rw [hTrips]
        exact h.trips
      · exact fun _ => hLength
      · exact fun hDown => (Bool.false_ne_true (hDown.symm.trans hUp')).elim
    | false =>
      have hTrips := hMove.handled h.command hUp hUp'
      have hNext : s.message (ipi3ToPlmReqOffset + 4) + 1 =
          BitVec.ofNat 32 (2 * (s.returned.length + 1)) := by
        rw [← odd_succ, ← h.payload]
        rfl
      have hLength : s'.trips.length = s'.returned.length + 1 := by
        rw [hTrips, List.length_cons, hMove.returned, h.waiting hUp]
      refine ⟨⟨?_, ?_, by omega, by omega⟩, h.command.moved hMove, hPayload, hOutstanding, ?_, ?_⟩
      · rw [hMove.returned]
        exact h.returned
      · rw [hTrips, List.length_cons, h.waiting hUp, evens, hNext, h.trips, h.waiting hUp]
      · exact fun hUp'' => (Bool.false_ne_true (hUp'.symm.trans hUp'')).elim
      · exact fun _ => hLength
  | false =>
    have hDown := hMove.down hUp
    have hTrips := hMove.trips (hDown.trans hUp.symm)
    have hLength : s'.trips.length = s'.returned.length + 1 := by
      rw [hTrips, hMove.returned, h.handled hUp]
    refine ⟨⟨?_, ?_, by omega, by omega⟩, h.command.moved hMove, hPayload, hOutstanding, ?_, ?_⟩
    · rw [hMove.returned]
      exact h.returned
    · rw [hTrips]
      exact h.trips
    · exact fun hUp' => (Bool.false_ne_true (hDown.symm.trans hUp')).elim
    · exact fun _ => hLength

end States

/-! ### What the threads call -/

section Calls

variable {b : Board} {choice : Choice} {s s' : State}

theorem metalServe_write {device : Device} {offset value : U32} {answer : Unit}
    (h : metalServe b (.write32 device offset value) choice s = some (answer, s')) :
    s' = s.store value device offset := by
  cases choice with
  | proceed ok =>
    cases h
    rfl
  | _ => cases h

theorem metalServe_read {device : Device} {offset answer : U32}
    (h : metalServe b (.read32 device offset) choice s = some (answer, s')) :
    answer = s.load device offset ∧ s' = s.note device offset := by
  cases choice with
  | proceed ok =>
    cases h
    exact ⟨rfl, rfl⟩
  | _ => cases h

/-- The calls of the set-up and of the prints: no message and no interrupt is touched, and no
interrupt but that of the PLM is enabled. -/
def SetUpCall : MetalOp → Prop
  | .write32 .ipi offset value =>
    (offset = ipiIdrOffset ∨ offset = ipiIerOffset) ∧ value = remoteIpiMask
  | .write32 .ipiBuf _ _ | .read32 _ _ => False
  | _ => True

/-- The calls of the interrupt handler. -/
def HandlerCall : MetalOp → Prop
  | .write32 .ipi offset value => offset = ipiIsrOffset ∧ value = remoteIpiMask
  | .write32 .ipiBuf offset _ => offset = plmToIpi3ReqOffset + 32
  | .read32 device offset => device = .ipiBuf → offset = plmToIpi3ReqOffset
  | .printCounter _ _ _ => True
  | _ => False

/-- No interrupt is enabled but that of the PLM. -/
def OnlyPlm (enabled : U32) : Prop := enabled = 0 ∨ enabled = remoteIpiMask

theorem OnlyPlm.masked {enabled : U32} (h : OnlyPlm enabled) :
    OnlyPlm (enabled &&& ~~~remoteIpiMask) := by
  rcases h with rfl | rfl
  · exact .inl rfl
  · exact .inl rfl

theorem OnlyPlm.unmasked {enabled : U32} (h : OnlyPlm enabled) :
    OnlyPlm (enabled ||| remoteIpiMask) := by
  rcases h with rfl | rfl
  · exact .inr rfl
  · exact .inr rfl

/-- Everything that the messages are about is unchanged. -/
structure SameMessages (s s' : State) : Prop where
  tripCounter : s'.tripCounter = s.tripCounter
  message : s'.message = s.message
  observed : s'.observed = s.observed
  isr : s'.isr = s.isr
  enabled : OnlyPlm s.enabled → OnlyPlm s'.enabled
  returned : s'.returned = s.returned
  trips : s'.trips = s.trips
  accepted : s'.accepted = s.accepted

theorem SameMessages.refl (s : State) : SameMessages s s := ⟨rfl, rfl, rfl, rfl, id, rfl, rfl, rfl⟩

theorem SameMessages.steady (h : SameMessages s s') : Steady s s' :=
  (elsewhere_of_same h.message h.observed h.returned h.trips).steady

theorem setUp_same {e : MetalOp} {answer : MetalAnswer e} (hCall : SetUpCall e)
    (h : metalServe b e choice s = some (answer, s')) : SameMessages s s' := by
  cases e with
  | write32 device offset value =>
    obtain rfl := metalServe_write h
    cases device with
    | ipiBuf => exact hCall.elim
    | ipi =>
      obtain ⟨rfl | rfl, rfl⟩ := hCall
      · have hStore : s.store remoteIpiMask .ipi ipiIdrOffset =
            { s with enabled := s.enabled &&& ~~~remoteIpiMask } := rfl
        rw [hStore]
        exact ⟨rfl, rfl, rfl, rfl, OnlyPlm.masked, rfl, rfl, rfl⟩
      · have hStore : s.store remoteIpiMask .ipi ipiIerOffset =
            { s with enabled := s.enabled ||| remoteIpiMask } := rfl
        rw [hStore]
        exact ⟨rfl, rfl, rfl, rfl, OnlyPlm.unmasked, rfl, rfl, rfl⟩
  | read32 device offset => exact hCall.elim
  | deviceOpen device =>
    cases choice <;> cases h
    split <;> exact ⟨rfl, rfl, rfl, rfl, id, rfl, rfl, rfl⟩
  | deviceIoRegion device =>
    cases choice <;> cases h
    split <;> exact ⟨rfl, rfl, rfl, rfl, id, rfl, rfl, rfl⟩
  | _ =>
    cases choice <;> cases h
    exact ⟨rfl, rfl, rfl, rfl, id, rfl, rfl, rfl⟩

theorem handler_elsewhere {e : MetalOp} {answer : MetalAnswer e} (hCall : HandlerCall e)
    (h : metalServe b e choice s = some (answer, s')) : Elsewhere s s' := by
  cases e with
  | write32 device offset value =>
    obtain rfl := metalServe_write h
    cases device with
    | ipi =>
      obtain ⟨rfl, rfl⟩ := hCall
      exact elsewhere_of_same rfl rfl rfl rfl
    | ipiBuf =>
      obtain rfl : offset = plmToIpi3ReqOffset + 32 := hCall
      exact ⟨⟨plmToIpi3ReqOffset + 32, value, by decide, by decide, by decide, rfl⟩, rfl, rfl, rfl⟩
  | read32 device offset =>
    obtain ⟨-, rfl⟩ := metalServe_read h
    have hOther : ¬ (device = .ipiBuf ∧ offset = ipi3ToPlmReqOffset + 32 + 4) := by
      rintro ⟨hDevice, rfl⟩
      exact absurd (hCall hDevice) (by decide)
    rw [State.note, if_neg hOther]
    exact elsewhere_of_same rfl rfl rfl rfl
  | printCounter format seconds payload =>
    cases choice <;> cases h
    exact elsewhere_of_same rfl rfl rfl rfl
  | _ => exact hCall.elim

theorem plm_elsewhere (ok : Bool) (e : PlmOp) (s : State) : Elsewhere s (plmServe ok e s).2 := by
  have hSame : Elsewhere s s := elsewhere_of_same rfl rfl rfl rfl
  cases ok with
  | false =>
    cases e with
    | increment => exact elsewhere_of_same rfl rfl rfl rfl
    | r5 e => cases e <;> exact hSame
    | _ => exact hSame
  | true =>
    cases e with
    | ipiWrite =>
      exact ⟨⟨plmToIpi3ReqOffset, s.tripCounter .a72, by decide, by decide, by decide, rfl⟩, rfl,
        rfl, rfl⟩
    | r5 e => cases e <;> exact elsewhere_of_same rfl rfl rfl rfl
    | _ => exact elsewhere_of_same rfl rfl rfl rfl

theorem plm_steady {e : PlmOp} {answer : PlmAnswer e}
    (h : (demo b).perform .plm e choice s = some (answer, s')) : Steady s s' := by
  obtain ⟨ok, -, hServe⟩ := plm_performed h
  have hElsewhere := plm_elsewhere ok e s
  rw [hServe] at hElsewhere
  exact hElsewhere.steady

theorem plm_steady_again {st : Statics} {code : Plm Statics}
    (h : (demo b).again .plm st choice s = some (code, s')) : Steady s s' := by
  obtain ⟨-, rfl⟩ | ⟨hUp, -, rfl⟩ | ⟨payload, -, rfl⟩ := plm_given h
  · exact Steady.refl s'
  · exact steady_handle hUp
  · apply Elsewhere.steady
    exact elsewhere_of_same rfl rfl rfl rfl

theorem trigger_steady (h : (demo b).surroundings choice s = some s') : Steady s s' := by
  obtain ⟨mask, rfl⟩ := triggered h
  apply Elsewhere.steady
  exact elsewhere_of_same rfl rfl rfl rfl

theorem printCounter_only {allowed : MetalOp → Prop} {format : String}
    (h : ∀ seconds payload, allowed (.printCounter format seconds payload)) (counter : U32) :
    Only allowed (printCounter format counter) :=
  only_ite (fun _ => (only_ask _).mpr (h _ _)) fun _ => trivial

theorem handler_only : Only HandlerCall ipiIrqHandler := by
  refine ⟨fun _ => rfl, fun val => ⟨rfl, fun _ => ⟨nofun, fun val2 => ?_⟩⟩⟩
  have hPrint : Only HandlerCall (printCounter "On A72: Seconds: %d Payload: %d\r\n" val) :=
    printCounter_only (fun _ _ => trivial) val
  apply only_ite
  · exact fun _ => ⟨⟨rfl, rfl⟩, fun _ => hPrint⟩
  · exact fun _ => hPrint

theorem initIpi_only : Only SetUpCall initIpi := by
  refine ⟨trivial, fun ret => only_ite (fun _ => ⟨trivial, fun _ => trivial⟩) fun _ => ?_⟩
  refine ⟨trivial, fun ipiIoBuffer => only_ite (fun _ => ?_) fun _ => ?_⟩
  · exact ⟨trivial, fun _ => ⟨trivial, fun _ => trivial⟩⟩
  refine ⟨trivial, fun ret => only_ite (fun _ => ⟨trivial, fun _ => trivial⟩) fun _ => ?_⟩
  refine ⟨trivial, fun ipiIo => only_ite (fun _ => ?_) fun _ => ?_⟩
  · exact ⟨trivial, fun _ => ⟨trivial, fun _ => ⟨trivial, fun _ => trivial⟩⟩⟩
  refine ⟨trivial, fun ipiIrq => ⟨⟨.inl rfl, rfl⟩, fun _ => ?_⟩⟩
  exact ⟨trivial, fun _ => ⟨trivial, fun _ => trivial⟩⟩

theorem deinitIpi_only (g : Globals) : Only SetUpCall (deinitIpi g) := by
  have hClose : ∀ isOpen device, Only SetUpCall (closeDevice isOpen device) :=
    fun _ _ => only_ite (fun _ => ⟨trivial, fun _ => trivial⟩) fun _ => trivial
  apply Only.bind
  · exact only_ite (fun _ => ⟨⟨.inl rfl, rfl⟩, fun _ => trivial⟩) fun _ => trivial
  · refine fun _ => ⟨trivial, fun _ => ⟨trivial, fun _ => ?_⟩⟩
    exact (hClose _ _).bind fun _ => hClose _ _

end Calls

/-! ### Every command once -/

section Outline

def AtPoint : Point → State → Prop
  | .top tripCounter, s => Between s ∧ tripCounter = BitVec.ofNat 32 (2 * s.returned.length)
  | .observing, s => Sent s
  | .returned _, s => Between s

def sending : Outline CallAnswer Result State where
  rely
    | .linux, s, s' => Steady s s'
    | _, _, _ => True
  guard _ _ _ := True
  safe
    | .linux, _, s => Delivered s
    | .irq, e, _ => HandlerCall e
    | .plm, _, _ => True
  post
    | .linux, point, s => AtPoint point s
    | _, _, _ => True

variable {b : Board} {s : State}

abbrev Sends (b : Board) (p : A72 Point) (s : State) : Prop := sending.Follows (demo b) .linux p s

theorem AtPoint.moved {point : Point} {s' : State} (h : AtPoint point s) (hMove : Steady s s') :
    AtPoint point s' := by
  cases point with
  | top tripCounter => exact ⟨h.1.moved hMove, by rw [hMove.returned, h.2]⟩
  | observing => exact Sent.moved h hMove
  | returned ret => exact Between.moved h hMove

theorem AtPoint.delivered {point : Point} (h : AtPoint point s) : Delivered s := by
  cases point with
  | top tripCounter => exact h.1.toDelivered
  | observing => exact Sent.toDelivered h
  | returned ret => exact Between.toDelivered h

theorem sends_setUp {α : Type} {p : A72 α} {tripCounter : U32} (hOnly : Only SetUpCall p)
    (h : AtPoint (.top tripCounter) s) :
    Always Steady (sending.sem (demo b) .linux) (fun _ => Delivered)
      (fun _ => AtPoint (.top tripCounter)) p s := by
  apply Always.of_invariant _ _ _ hOnly h
  · exact fun _ _ hHere hMove => hHere.moved hMove
  · rintro e s answer s' hCall hHere ⟨-, choice, hServe⟩
    exact hHere.moved (setUp_same hCall hServe).steady
  · exact fun _ _ _ hHere => hHere.delivered

theorem sends_then {α : Type} {p : A72 α} {rest : α → A72 Point} {tripCounter : U32}
    (hOnly : Only SetUpCall p) (h : AtPoint (.top tripCounter) s)
    (hRest : ∀ value s', AtPoint (.top tripCounter) s' → Sends b (rest value) s') :
    Sends b (p >>= rest) s :=
  Always.bind Steady.refl ((sends_setUp hOnly h).mono (fun _ _ => id) hRest)

theorem sends_quiet {e : MetalOp} {rest : MetalAnswer e → A72 Point} {tripCounter : U32}
    (h : AtPoint (.top tripCounter) s) (hCall : SetUpCall e)
    (hRest : ∀ answer s', AtPoint (.top tripCounter) s' → Sends b (rest answer) s') :
    Sends b (metal e >>= rest) s :=
  sends_then ((only_ask e).mpr hCall) h hRest

theorem sends_ret {point : Point} (h : AtPoint point s) : Sends b (.ret point) s :=
  fun _ hMove => h.moved hMove

theorem sends_op {e : MetalOp} {rest : MetalAnswer e → A72 Point} {point : Point}
    (h : AtPoint point s) (hNext : ∀ s', AtPoint point s' → Steady s s' → ∀ choice answer s'',
      metalServe b e choice s' = some (answer, s'') → Sends b (rest answer) s'') :
    Sends b (metal e >>= rest) s := by
  apply Always.ask_bind
  intro s' hMove
  refine ⟨(h.moved hMove).delivered, ?_⟩
  rintro answer s'' ⟨-, choice, hServe⟩
  exact hNext s' (h.moved hMove) hMove choice answer s'' hServe

theorem between_store (h : Between s) (value offset : U32) :
    Between (s.store value .ipiBuf offset) :=
  ⟨⟨h.returned, h.trips, h.least, h.most⟩, h.observed, h.length⟩

/-- The trigger follows the command and the counter. -/
theorem sent_trigger (h : Between s) (hCommand : HoldsCommand s)
    (hPayload : s.message (ipi3ToPlmReqOffset + 4) = BitVec.ofNat 32 (2 * s.returned.length + 1)) :
    Sent (s.store remoteIpiMask .ipi ipiTrigOffset) := by
  have hUp : (s.store remoteIpiMask .ipi ipiTrigOffset).observed = true := by
    simp [State.store, remoteIpiMask]
  refine ⟨⟨h.returned, h.trips, h.least, h.most⟩, hCommand, hPayload, .inl hUp, ?_, ?_⟩
  · exact fun _ => h.length
  · exact fun hDown => (Bool.false_ne_true (hDown.symm.trans hUp)).elim

theorem sendIpiMsg_sends {tripCounter : U32} (h : AtPoint (.top tripCounter) s) :
    Sends b (sendIpiMsg (tripCounter + 1)) s := by
  apply sends_op h
  intro s₁ h₁ _ choice₁ answer₁ s₂ hServe₁
  obtain rfl := metalServe_write hServe₁
  have hCommand : HoldsCommand (s₁.store (plmModuleId <<< 8 ||| 1) .ipiBuf ipi3ToPlmReqOffset) :=
    Function.update_self ipi3ToPlmReqOffset _ s₁.message
  have h₂ : AtPoint (.top tripCounter)
      (s₁.store (plmModuleId <<< 8 ||| 1) .ipiBuf ipi3ToPlmReqOffset) :=
    ⟨between_store h₁.1 _ _, h₁.2⟩
  apply sends_op h₂
  intro s₃ h₃ hMove₃ choice₃ answer₃ s₄ hServe₃
  obtain rfl := metalServe_write hServe₃
  have hCommand₃ : s₃.message ipi3ToPlmReqOffset = ApiId.command .a72 := hCommand.moved hMove₃
  have hCommand₄ : HoldsCommand (s₃.store (tripCounter + 1) .ipiBuf (ipi3ToPlmReqOffset + 4)) := by
    have hApart : ipi3ToPlmReqOffset ≠ ipi3ToPlmReqOffset + 4 := by decide
    exact (Function.update_of_ne hApart (tripCounter + 1) s₃.message).trans hCommand₃
  have hPayload : (commandSlot (s₃.store (tripCounter + 1) .ipiBuf
      (ipi3ToPlmReqOffset + 4))).request = BitVec.ofNat 32 (2 * s₃.returned.length + 1) := by
    rw [← even_succ, ← h₃.2]
    exact Function.update_self (ipi3ToPlmReqOffset + 4) _ s₃.message
  have h₄ : AtPoint (.top tripCounter)
      (s₃.store (tripCounter + 1) .ipiBuf (ipi3ToPlmReqOffset + 4)) :=
    ⟨between_store h₃.1 _ _, h₃.2⟩
  apply sends_op h₄
  intro s₅ h₅ hMove₅ choice₅ answer₅ s₆ hServe₅
  obtain rfl := metalServe_write hServe₅
  apply sends_ret
  apply sent_trigger h₅.1 (hCommand₄.moved hMove₅)
  have hSlot := (hMove₅.slot hCommand₄).request
  rw [hPayload] at hSlot
  rw [hMove₅.returned]
  exact hSlot

/-- What `send_ipi_msg` returns is the counter after its command. -/
theorem sent_return (h : Sent s) (hDown : s.observed = false) :
    AtPoint (.top (s.message (ipi3ToPlmReqOffset + 32 + 4)))
      (s.note .ipiBuf (ipi3ToPlmReqOffset + 32 + 4)) := by
  have hResponse : s.message (ipi3ToPlmReqOffset + 32 + 4) =
      BitVec.ofNat 32 (2 * (s.returned.length + 1)) := by
    rw [← odd_succ, ← h.payload]
    exact h.outstanding.answered hDown
  have hLength := h.handled hDown
  rw [State.note, if_pos ⟨rfl, rfl⟩]
  refine ⟨⟨⟨?_, h.trips, ?_, ?_⟩, hDown, hLength⟩, hResponse⟩
  · rw [List.length_cons, evens, ← hResponse, ← h.returned]
  · exact Nat.le_of_eq hLength.symm
  · exact Nat.le_succ_of_le (Nat.le_of_eq hLength)

theorem observe_sends (h : Sent s) : Sends b observe s := by
  have hSent : AtPoint .observing s := h
  apply sends_op hSent
  intro s₁ h₁ _ choice₁ val s₂ hServe₁
  obtain ⟨hLoad, hNote⟩ := metalServe_read hServe₁
  have hSame : s₂ = s₁ := hNote
  have hVal : val = if s₁.observed then remoteIpiMask else 0 := hLoad
  rw [hSame, hVal]
  cases hUp : s₁.observed with
  | true => exact sends_ret h₁
  | false =>
    apply sends_op h₁
    intro s₃ h₃ hMove₃ choice₃ tripCounter s₄ hServe₃
    obtain ⟨rfl, rfl⟩ := metalServe_read hServe₃
    apply sends_then (printCounter_only (fun _ _ => trivial) _) (sent_return h₃ (hMove₃.down hUp))
    intro _ s₅ h₅
    apply sends_quiet h₅
    · trivial
    exact fun _ s₆ h₆ => sends_ret h₆

theorem mainLoop_sends {point : Point} (h : AtPoint point s) :
    Sends b (mainLoop b.toBuild point) s := by
  cases point with
  | top tripCounter =>
    rw [mainLoop]
    split
    · exact sendIpiMsg_sends h
    · exact sends_ret h
  | observing => exact observe_sends h
  | returned ret => exact sends_ret h

theorem out_sends (ret : Int) (g : Globals) (h : AtPoint (.top 0) s) : Sends b (out ret g) s := by
  apply sends_then (deinitIpi_only g) h
  intro _ s₁ h₁
  apply sends_quiet h₁
  · trivial
  intro _ s₂ h₂
  apply sends_ret
  exact h₂.1

theorem main_sends (h : AtPoint (.top 0) s) : Sends b main s := by
  apply sends_quiet h
  · trivial
  intro ret s₁ h₁
  split
  · apply sends_quiet h₁
    · trivial
    exact fun _ _ => out_sends ret _
  apply sends_then initIpi_only h₁
  rintro ⟨ret, g⟩ s₂ h₂
  dsimp only
  split
  · exact out_sends ret g h₂
  apply sends_quiet h₂
  · trivial
  intro _ s₃ h₃
  apply sends_quiet h₃
  · exact ⟨.inr rfl, rfl⟩
  exact fun _ s₄ h₄ => sends_ret h₄

theorem handler_sends (s : State) : sending.Follows (demo b) .irq ipiIrqHandler s := by
  apply Always.of_invariant (I := fun _ => True) _ _ _ handler_only trivial
  · exact fun _ _ _ _ => trivial
  · exact fun _ _ _ _ _ _ _ => trivial
  · exact fun _ _ hCall _ => hCall

theorem steady_rely {s' : State} (h : Steady s s') (j : Thread) : sending.rely j s s' := by
  cases j with
  | linux => exact h
  | plm | irq => trivial

theorem linux_sends_again {point : Point} {choice : Choice} {code : A72 Point} {s' : State}
    (h : AtPoint point s) (hAgain : (demo b).again .linux point choice s = some (code, s')) :
    Sends b code s' ∧ Steady s s' := by
  obtain ⟨-, rfl, rfl⟩ := linux_given hAgain
  exact ⟨mainLoop_sends h, Steady.refl s'⟩

theorem handler_sends_again {choice : Choice} {code : A72 Unit} {s' : State}
    (hAgain : (demo b).again .irq () choice s = some (code, s')) :
    sending.Follows (demo b) .irq code s' ∧ Steady s s' := by
  obtain ⟨-, -, rfl, rfl⟩ := irq_given hAgain
  exact ⟨handler_sends s', Steady.refl s'⟩

theorem sending_sound (b : Board) : sending.Sound (demo b) where
  refl i s := steady_rely (Steady.refl s) i
  trans i s s' s'' hMove hMove' := by
    cases i with
    | linux => exact Steady.trans hMove hMove'
    | plm | irq => trivial
  call i e choice s answer s' hSafe _ hPerform j hOther := by
    cases i with
    | linux =>
      cases j with
      | linux => exact absurd rfl hOther
      | plm | irq => trivial
    | irq => exact steady_rely (handler_elsewhere hSafe hPerform).steady j
    | plm => exact steady_rely (plm_steady hPerform) j
  again i value choice s code s' hPost hAgain := by
    cases i with
    | plm =>
      refine ⟨Always.of_forall (fun _ _ => trivial) (fun _ _ => trivial) code s', ?_⟩
      exact fun j _ => steady_rely (plm_steady_again hAgain) j
    | linux =>
      obtain ⟨hSends, hSteady⟩ := linux_sends_again hPost hAgain
      exact ⟨hSends, fun j _ => steady_rely hSteady j⟩
    | irq =>
      obtain ⟨hFollows, hSteady⟩ := handler_sends_again hAgain
      exact ⟨hFollows, fun j _ => steady_rely hSteady j⟩
  surroundings choice s s' hMoved j := steady_rely (trigger_steady hMoved) j

theorem started_holds (message : U32 → U32) : sending.Holds (demo b) (started message) := by
  intro i
  cases i with
  | plm | irq => exact fun _ _ => trivial
  | linux =>
    apply main_sends
    exact ⟨⟨⟨rfl, rfl, Nat.le_refl 0, Nat.zero_le 1⟩, rfl, rfl⟩, rfl⟩

theorem delivered_of_holds {C : Config CallAnswer Result State} (h : sending.Holds (demo b) C) :
    Delivered C.shared := by
  have hHere := h .linux
  cases hCode : C.code .linux with
  | ret point =>
    rw [hCode] at hHere
    exact (hHere C.shared (Steady.refl _)).delivered
  | call e next =>
    rw [hCode] at hHere
    exact (hHere C.shared (Steady.refl _)).1

/-- Whatever the builds, whatever fails in the PLM and however the handler runs in between, the
A72 gets 2, 4, 6 and so on back, each once, and the PLM counts every command once. -/
theorem delivered_once {message : U32 → U32} {labels : List (Label Thread Choice)}
    {final : Config CallAnswer Result State}
    (hRun : run (step (demo b)) (started message) labels = some final) :
    Delivered final.shared := by
  apply delivered_of_holds
  exact (sending_sound b).always_run (started_holds message) (fun _ _ _ => trivial) hRun

end Outline

/-! ### Two commands -/

def goOn (i : Thread) (calls : Nat) : List (Label Thread Choice) :=
  List.replicate calls (.call i (.proceed true))

/-- `metal_init` and both opens succeed, and the loop of `main` is reached. -/
def startUp : List (Label Thread Choice) :=
  .call .linux (.result 0) :: .call .linux (.result 0) :: goOn .linux 1 ++
    .call .linux (.result 0) :: goOn .linux 7

/-- `send_ipi_msg` looks once before the PLM has handled its command and once after. -/
def oneCommand : List (Label Thread Choice) :=
  .again .linux .command :: goOn .linux 3 ++ .again .linux .command :: goOn .linux 1 ++
    .again .plm .command :: .again .linux .command :: goOn .linux 3

def a72Sends : Board := ⟨⟨true, false, false⟩, 61, false⟩

theorem delivered_once_twice : ∃ final,
    run (step (demo a72Sends)) (started fun _ => 7) (startUp ++ oneCommand ++ oneCommand) =
      some final ∧ final.shared.returned = [4, 2] ∧ Delivered final.shared := by
  have hReturned : (run (step (demo a72Sends)) (started fun _ => 7)
      (startUp ++ oneCommand ++ oneCommand)).map (fun C => C.shared.returned) = some [4, 2] := by
    decide +kernel
  obtain ⟨final, hRun, hTwo⟩ := Option.map_eq_some_iff.mp hReturned
  exact ⟨final, hRun, hTwo, delivered_once hRun⟩

end SoftwarePrototypes.TripCounter.Linux
