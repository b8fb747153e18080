import SoftwarePrototypes.TripCounter.Programs

/-! # The trip counter, exactly once

An interrupt of the PLM may reach the R5 after its command has been handled and before `UserTask`
has written the new counter. The R5 then receives the old value once more. In every run without
such a receive the trip values are 2, 4, 6 and so on.
-/

namespace SoftwarePrototypes.TripCounter

open Interaction Interaction.Prog Interaction.Runs Interaction.Threads

/-- The multiples of 2 up to `2 * n`, modulo 2^32, the latest first. -/
def evens : Nat → List U32
  | 0 => []
  | n + 1 => BitVec.ofNat 32 (2 * (n + 1)) :: evens n

/-- The `k`-th value received and the counter after the `k`-th command are `2 * k`. -/
structure ExactlyOnce (s : State) : Prop where
  received : s.received = evens s.received.length
  trips : s.trips = evens s.trips.length

/-- The R5 receives only after `UserTask` has written since the last command. -/
def Fresh : (i : Cpu) → Call i → State → Prop
  | .plm, _, _ => True
  | .r5, e, s => e = .recvRequest → s.fresh = true

instance Fresh.decidable : ∀ i e s, Decidable (Fresh i e s)
  | .plm, _, _ => inferInstanceAs (Decidable True)
  | .r5, e, s => inferInstanceAs (Decidable (e = .recvRequest → s.fresh = true))

/-- The R5 receives the next value. -/
def Next : (i : Cpu) → Call i → State → Prop
  | .plm, _, _ => True
  | .r5, e, s => e = .recvRequest → s.request.1 = BitVec.ofNat 32 (2 * (s.received.length + 1))

/-- The R5 has answered every value but the last. -/
structure InHand (s : State) : Prop where
  length : s.trips.length = s.received.length
  fresh : s.trips.length = 0 ∨ s.fresh = true

def reply (n : Nat) : Words := (ApiId.command .r5, BitVec.ofNat 32 (2 * n + 1))

structure Counted (s : State) : Prop extends ExactlyOnce s where
  counter : s.tripCounter .r5 = BitVec.ofNat 32 (2 * s.trips.length)
  request : s.request.1 =
    BitVec.ofNat 32 (2 * if s.fresh = true then s.trips.length else s.trips.length - 1)
  command : ∀ words ∈ s.command, InHand s ∧ words = reply s.received.length

/-- What the R5 relies on: the PLM handles a command once. -/
structure Steady (s s' : State) : Prop where
  counted : Counted s → Counted s'
  received : s'.received = s.received
  idle : s.command = none → s'.command = none ∧ s'.trips.length = s.trips.length ∧
    (s.fresh = true → s'.fresh = true)
  posted : Counted s → s.command ≠ none → s'.command = s.command ∨
    s'.command = none ∧ s'.trips.length = s'.received.length + 1

section States

variable {s s' s'' : State} {words : Words}

theorem evens_length (n : Nat) : (evens n).length = n := by
  induction n with
  | zero => rfl
  | succ n ih => rw [evens, List.length_cons, ih]

theorem evens_suffix {l : List U32} {n : Nat} (h : l <:+ evens n) : l = evens l.length := by
  induction n with
  | zero =>
    obtain rfl := List.suffix_nil.mp h
    rfl
  | succ n ih =>
    rcases List.suffix_cons_iff.mp h with rfl | hRest
    · rw [List.length_cons, evens_length]
      rfl
    · exact ih hRest

theorem evens_step {n : Nat} (hDistinct : BitVec.ofNat 32 (2 * n) = BitVec.ofNat 32 (2 * (n + 1))) :
    False := by
  have hValue := congrArg BitVec.toNat hDistinct
  simp only [BitVec.toNat_ofNat] at hValue
  omega

theorem Steady.refl (s : State) : Steady s s :=
  ⟨id, rfl, fun hNone => ⟨hNone, rfl, id⟩, fun _ _ => .inl rfl⟩

theorem Steady.trans (h : Steady s s') (h' : Steady s' s'') : Steady s s'' where
  counted hCounted := h'.counted (h.counted hCounted)
  received := h'.received.trans h.received
  idle hNone := by
    obtain ⟨hNone', hLength, hFresh⟩ := h.idle hNone
    obtain ⟨hNone'', hLength', hFresh'⟩ := h'.idle hNone'
    exact ⟨hNone'', hLength'.trans hLength, fun hHere => hFresh' (hFresh hHere)⟩
  posted hCounted hSome := by
    rcases h.posted hCounted hSome with hSame | ⟨hNone, hLength⟩
    · rw [← hSame]
      exact h'.posted (h.counted hCounted) (hSame ▸ hSome)
    · obtain ⟨hNone', hLength', _⟩ := h'.idle hNone
      exact .inr ⟨hNone', by rw [hLength', hLength, h'.received]⟩

theorem Steady.suffix (h : Steady s s') : s.received <:+ s'.received :=
  h.received ▸ List.suffix_refl _

theorem InHand.moved (h : InHand s) (hNone : s.command = none) (hMove : Steady s s') :
    InHand s' := by
  obtain ⟨_, hLength, hFresh⟩ := hMove.idle hNone
  constructor
  · rw [hLength, hMove.received, h.length]
  · rw [hLength]
    exact h.fresh.imp_right hFresh

/-- The PLM changes nothing that counts. -/
theorem steady_of_same (hTrips : s'.trips = s.trips) (hReceived : s'.received = s.received)
    (hCounter : s'.tripCounter .r5 = s.tripCounter .r5) (hRequest : s'.request = s.request)
    (hCommand : s'.command = s.command) (hFresh : s'.fresh = s.fresh) : Steady s s' where
  counted h := by
    have hInHand : InHand s → InHand s' := fun h => ⟨by rw [hTrips, hReceived, h.length], by
      rw [hTrips, hFresh]
      exact h.fresh⟩
    constructor
    · constructor
      · rw [hReceived]
        exact h.received
      · rw [hTrips]
        exact h.trips
    · rw [hCounter, hTrips, h.counter]
    · rw [hRequest, hFresh, hTrips, h.request]
    · rw [hCommand, hReceived]
      exact fun words hMem => (h.command words hMem).imp_left hInHand
  received := hReceived
  idle hNone := ⟨hCommand.trans hNone, congrArg List.length hTrips, fun h => hFresh.trans h⟩
  posted _ _ := .inl hCommand

/-- `UserTask` writes the counter as it is after the last command. -/
theorem steady_write :
    Steady s { s with request := (s.tripCounter .r5, s.request.2), fresh := true } where
  counted h := ⟨⟨h.received, h.trips⟩, h.counter, h.counter, fun words hMem =>
    (h.command words hMem).imp_left fun hInHand => ⟨hInHand.length, .inr rfl⟩⟩
  received := rfl
  idle hNone := ⟨hNone, rfl, fun _ => rfl⟩
  posted _ _ := .inl rfl

theorem odd_succ (n : Nat) : BitVec.ofNat 32 (2 * n + 1) + 1 = BitVec.ofNat 32 (2 * (n + 1)) :=
  (BitVec.ofNat_add (2 * n + 1) 1).symm

theorem even_succ (n : Nat) : BitVec.ofNat 32 (2 * n) + 1 = BitVec.ofNat 32 (2 * n + 1) :=
  (BitVec.ofNat_add (2 * n) 1).symm

theorem processCmd_r5 (payload : U32) (tripCounter : ApiId → U32) :
    processCmd (ApiId.command .r5) payload tripCounter =
      (.success, Function.update tripCounter .r5 (payload + 1), some (payload + 1)) := by
  rw [processCmd, if_pos (by decide)]

theorem processCmd_a72 (payload : U32) (tripCounter : ApiId → U32) :
    processCmd (ApiId.command .a72) payload tripCounter =
      (.success, Function.update tripCounter .a72 (payload + 1), some (payload + 1)) := by
  rw [processCmd, if_neg (by decide), if_pos (by decide)]

/-- The PLM handles the reply to the value that the R5 has in hand. -/
theorem handle_reply (n : Nat) :
    (s.handle (reply n)).tripCounter .r5 = BitVec.ofNat 32 (2 * (n + 1)) ∧
      (s.handle (reply n)).trips = BitVec.ofNat 32 (2 * (n + 1)) :: s.trips := by
  have hCounter : (s.handle (reply n)).tripCounter .r5 = BitVec.ofNat 32 (2 * (n + 1)) := by
    rw [State.handle, reply, processCmd_r5, ← odd_succ]
    exact Function.update_self ApiId.r5 (BitVec.ofNat 32 (2 * n + 1) + 1) s.tripCounter
  exact ⟨hCounter, congrArg (· :: s.trips) hCounter⟩

theorem handle_counted (h : Counted s) (hInHand : InHand s) :
    Counted (s.handle (reply s.received.length)) ∧
      (s.handle (reply s.received.length)).trips.length = s.received.length + 1 := by
  obtain ⟨hCounter, hTrips⟩ := handle_reply (s := s) s.received.length
  have hLength : (s.handle (reply s.received.length)).trips.length = s.received.length + 1 := by
    rw [hTrips, List.length_cons, hInHand.length]
  refine ⟨⟨⟨h.received, ?_⟩, ?_, ?_, ?_⟩, hLength⟩
  · rw [hLength, hTrips, h.trips, hInHand.length]
    rfl
  · rw [hCounter, hLength]
  · -- The buffer still holds the counter from before the command.
    rw [hLength]
    have hRequest := h.request
    rcases hInHand.fresh with hZero | hFresh
    · rw [hZero] at hRequest
      rw [← hInHand.length, hZero]
      exact hRequest.trans (by simp [State.handle])
    · rw [if_pos hFresh, hInHand.length] at hRequest
      exact hRequest
  · exact fun words hMem => nomatch hMem

theorem steady_handle (hCommand : s.command = some words) : Steady s (s.handle words) where
  counted h := by
    obtain ⟨hInHand, rfl⟩ := h.command words hCommand
    exact (handle_counted h hInHand).1
  received := rfl
  idle hNone := nomatch hCommand.symm.trans hNone
  posted h _ := by
    obtain ⟨hInHand, rfl⟩ := h.command words hCommand
    exact .inr ⟨rfl, (handle_counted h hInHand).2⟩

end States

section Outline

variable {s : State}

/-- The R5 has answered every value. -/
structure Answered (s : State) : Prop where
  command : s.command = none
  length : s.trips.length = s.received.length + 1

theorem Answered.moved {s' : State} (h : Answered s) (hMove : Steady s s') : Answered s' := by
  obtain ⟨hNone, hLength, _⟩ := hMove.idle h.command
  exact ⟨hNone, by rw [hLength, h.length, hMove.received]⟩

/-- Between two rounds; the first starts with 0 in hand. -/
def AtPoint : Point → State → Prop
  | .top requestBuffer, s =>
    requestBuffer.1 = 0 ∧ s.command = none ∧ s.received = [] ∧ InHand s ∨
      requestBuffer.1 ≠ 0 ∧ Answered s
  | .waiting _, s => Answered s
  | .exited, _ => True

def counting : Outline CallAnswer Result State where
  rely
    | .plm, _, _ => True
    | .r5, s, s' => Steady s s'
  guard := Fresh
  safe
    | .plm, _, _ => True
    | .r5, e, s => Counted s ∧
        (e = .recvRequest → s.trips.length = s.received.length + 1)
  post
    | .plm, _, _ => True
    | .r5, point, s => Counted s ∧ AtPoint point s

abbrev Counts (p : R5 Point) (s : State) : Prop := counting.Follows demo .r5 p s

theorem counts_op {e : R5Op} {rest : R5Answer e → R5 Point} (h : Counted s)
    (hCall : e = .recvRequest → ∀ s', Steady s s' → s'.trips.length = s'.received.length + 1)
    (hNext : ∀ s', Steady s s' → Fresh .r5 e s' → ∀ answer s'',
      r5Serve e s' = some (answer, s'') → Counts (rest answer) s'') :
    Counts (r5Op e >>= rest) s := by
  apply Always.ask_bind
  intro s' hMove
  refine ⟨⟨hMove.counted h, fun hRecv => hCall hRecv s' hMove⟩, ?_⟩
  rintro answer s'' ⟨hFresh, choice, hPerform⟩
  cases choice with
  | proceed ok => exact hNext s' hMove hFresh answer s'' hPerform
  | _ => cases hPerform

/-- The calls that neither receive nor send. -/
def Quiet : R5Op → Prop
  | .recvRequest | .sendData _ => False
  | _ => True

theorem quiet_steady {e : R5Op} (hQuiet : Quiet e) {s s' : State} {answer : R5Answer e}
    (hServe : r5Serve e s = some (answer, s')) : Steady s s' := by
  cases e with
  | recvRequest | sendData _ => exact hQuiet.elim
  | awaitHandled =>
    simp only [r5Serve] at hServe
    split at hServe
    · cases hServe
      exact Steady.refl s
    · cases hServe
  | clearErrorStatus | clearRecvDone =>
    cases hServe
    exact steady_of_same rfl rfl rfl rfl rfl rfl
  | readErrorStatus | readRecvDone | recvResponse | xilPrintf _ _ =>
    cases hServe
    exact Steady.refl s

theorem counts_quiet {e : R5Op} {rest : R5Answer e → R5 Point} (h : Counted s) (hQuiet : Quiet e)
    (hNext : ∀ answer s', Steady s s' → Counts (rest answer) s') :
    Counts (r5Op e >>= rest) s := by
  apply counts_op h
  · rintro rfl
    exact hQuiet.elim
  · exact fun s' hMove _ answer s'' hServe =>
      hNext answer s'' (hMove.trans (quiet_steady hQuiet hServe))

theorem counts_ret {point : Point} (h : Counted s)
    (hAt : ∀ s', Steady s s' → AtPoint point s') : Counts (.ret point) s :=
  fun s' hMove => ⟨hMove.counted h, hAt s' hMove⟩

theorem counts_exit (text : String) (h : Counted s) : Counts (exitWith text) s :=
  counts_quiet h trivial fun _ _ hMove => counts_ret (hMove.counted h) fun _ _ => trivial

theorem counts_printSeconds {rest : Unit → R5 Point} (trip : U32) (h : Counted s)
    (hNext : ∀ s', Steady s s' → Counts (rest ()) s') : Counts (printSeconds trip >>= rest) s := by
  unfold printSeconds
  split
  · exact counts_quiet h trivial fun _ => hNext
  · exact hNext s (Steady.refl s)

theorem counted_post (h : Counted s) (hInHand : InHand s) :
    Counted { s with command := some (reply s.received.length) } :=
  ⟨⟨h.received, h.trips⟩, h.counter, h.request, fun words hMem => by
    cases hMem
    exact ⟨⟨hInHand.length, hInHand.fresh⟩, rfl⟩⟩

theorem command_ne_zero : (ApiId.command .r5 : U32) ≠ 0 := by decide

theorem checkResponse_counts {requestBuffer : Words} (h : Counted s) (hAnswered : Answered s)
    (hCommand : requestBuffer.1 ≠ 0) : Counts (checkResponse requestBuffer) s := by
  have hTop : ∀ s', Steady s s' → AtPoint (.top requestBuffer) s' :=
    fun s' hMove => .inr ⟨hCommand, hAnswered.moved hMove⟩
  apply counts_quiet h
  · trivial
  rintro ⟨status, response⟩ s₁ hMove₁
  have hCounted₁ := hMove₁.counted h
  dsimp only
  split
  · exact counts_exit _ hCounted₁
  split
  · apply counts_quiet hCounted₁
    · trivial
    intro _ s₂ hMove₂
    have hMove := hMove₁.trans hMove₂
    exact counts_ret (hMove.counted h) fun s' hMove' => hTop s' (hMove.trans hMove')
  · exact counts_ret hCounted₁ fun s' hMove' => hTop s' (hMove₁.trans hMove')

/-- The value in hand is sent back, plus one, and the loop goes on once the command is handled. -/
theorem sendBack_counts {requestBuffer : Words} (h : Counted s) (hNone : s.command = none)
    (hInHand : InHand s) (hValue : requestBuffer.1 = BitVec.ofNat 32 (2 * s.received.length)) :
    Counts (sendBack requestBuffer) s := by
  apply counts_printSeconds _ h
  intro s₁ hMove₁
  have hReply : (ApiId.command .r5, requestBuffer.1 + 1) = reply s.received.length := by
    rw [hValue, even_succ]
    rfl
  apply counts_op (hMove₁.counted h)
  · rintro ⟨⟩
  rintro s₂ hMove₂ - answer s₃ ⟨⟩
  have hMove := hMove₁.trans hMove₂
  rw [hReply, ← hMove.received]
  have hPosted := counted_post (hMove.counted h) (hInHand.moved hNone hMove)
  apply counts_op hPosted
  · rintro ⟨⟩
  intro s₄ hMove₄ _ status s₅ hServe
  simp only [r5Serve] at hServe
  split at hServe
  case isFalse => cases hServe
  case isTrue hHandled =>
    cases hServe
    have hAnswered : Answered s₄ := by
      have hClear : s₄.command = none := Option.isNone_iff_eq_none.mp hHandled
      have hLeft : s₄.command ≠ some (reply s₂.received.length) := by
        rw [hClear]
        exact (Option.some_ne_none _).symm
      obtain ⟨_, hLength⟩ := (hMove₄.posted hPosted (Option.some_ne_none _)).resolve_left hLeft
      exact ⟨hClear, hLength⟩
    exact checkResponse_counts (hMove₄.counted hPosted) hAnswered command_ne_zero

/-- What is received is the counter, for it has been written since the last command. -/
theorem counted_recv (h : Counted s) (hAnswered : Answered s) (hFresh : s.fresh = true) :
    s.request.1 = BitVec.ofNat 32 (2 * (s.received.length + 1)) ∧
      Counted { s with received := s.request.1 :: s.received } ∧
      InHand { s with received := s.request.1 :: s.received } := by
  have hValue : s.request.1 = BitVec.ofNat 32 (2 * (s.received.length + 1)) := by
    rw [h.request, if_pos hFresh, hAnswered.length]
  refine ⟨hValue, ⟨⟨?_, h.trips⟩, h.counter, h.request, ?_⟩, ⟨hAnswered.length, .inr hFresh⟩⟩
  · rw [List.length_cons, evens, ← hValue, ← h.received]
  · intro words hMem
    rw [hAnswered.command] at hMem
    cases hMem

theorem receive_counts (h : Counted s) (hAnswered : Answered s) : Counts receive s := by
  apply counts_op h
  · exact fun _ s' hMove => (hAnswered.moved hMove).length
  rintro s₁ hMove₁ hFresh answer s₂ ⟨⟩
  have hAnswered₁ := hAnswered.moved hMove₁
  obtain ⟨hValue, hCounted, hInHand⟩ := counted_recv (hMove₁.counted h) hAnswered₁ (hFresh rfl)
  exact sendBack_counts hCounted hAnswered₁.command hInHand hValue

theorem mainLoop_counts {point : Point} (h : Counted s) (hAt : AtPoint point s) :
    Counts (mainLoop point) s := by
  cases point with
  | exited => exact counts_ret h fun _ _ => trivial
  | waiting requestBuffer =>
    apply counts_quiet h
    · trivial
    intro errorStatus s₁ hMove₁
    have hAnswered : Answered s := hAt
    split
    · exact receive_counts (hMove₁.counted h) (hAnswered.moved hMove₁)
    apply counts_quiet (hMove₁.counted h)
    · trivial
    intro recvDone s₂ hMove₂
    have hMove := hMove₁.trans hMove₂
    split
    · exact receive_counts (hMove.counted h) (hAnswered.moved hMove)
    · apply counts_ret (hMove.counted h)
      exact fun s' hMove' => hAnswered.moved (hMove.trans hMove')
  | top requestBuffer =>
    rcases hAt with ⟨hZero, hNone, hNothing, hInHand⟩ | ⟨hCommand, hAnswered⟩
    · rw [mainLoop, if_neg (not_not.mpr hZero)]
      apply sendBack_counts h hNone hInHand
      rw [hZero, hNothing]
      rfl
    · rw [mainLoop, if_pos hCommand]
      apply counts_quiet h
      · trivial
      intro _ s₁ hMove₁
      apply counts_quiet (hMove₁.counted h)
      · trivial
      intro _ s₂ hMove₂
      have hMove := hMove₁.trans hMove₂
      apply counts_ret (hMove.counted h)
      exact fun s' hMove' => hAnswered.moved (hMove.trans hMove')

theorem plmServe_steady (ok : Bool) (e : PlmOp) : Steady s (plmServe ok e s).2 := by
  cases e with
  | ipiWrite =>
    cases ok with
    | false => exact Steady.refl s
    | true => exact steady_write
  | ipiTrigger =>
    cases ok with
    | false => exact Steady.refl s
    | true => exact steady_of_same rfl rfl rfl rfl rfl rfl
  | xilPrintf text => exact Steady.refl s

theorem plm_steady {executionCount : Int} {choice : Choice} {code : Plm Int} {s' : State}
    (hAgain : demo.again .plm executionCount choice s = some (code, s')) : Steady s s' := by
  cases choice with
  | userTask =>
    obtain ⟨-, rfl⟩ := Prod.mk.inj (Option.some.inj hAgain)
    exact Steady.refl s
  | command =>
    obtain ⟨words, hCommand, hResult⟩ := Option.map_eq_some_iff.mp hAgain
    obtain ⟨-, rfl⟩ := Prod.mk.inj hResult
    exact steady_handle hCommand
  | a72Command payload =>
    obtain ⟨-, rfl⟩ := Prod.mk.inj (Option.some.inj hAgain)
    apply steady_of_same
    · rfl
    · rfl
    · simp [processCmd_a72]
    · rfl
    · rfl
    · rfl
  | _ => cases hAgain

theorem surroundings_steady {choice : Choice} {s' : State}
    (hMoved : demo.surroundings choice s = some s') : Steady s s' := by
  cases choice with
  | done =>
    simp only [demo] at hMoved
    split at hMoved
    · cases hMoved
      exact steady_of_same rfl rfl rfl rfl rfl rfl
    · cases hMoved
  | error mask =>
    cases hMoved
    exact steady_of_same rfl rfl rfl rfl rfl rfl
  | _ => cases hMoved

theorem counting_sound : counting.Sound demo where
  refl i s := by
    cases i with
    | plm => trivial
    | r5 => exact Steady.refl s
  trans i s s' s'' hMove hMove' := by
    cases i with
    | plm => trivial
    | r5 => exact Steady.trans hMove hMove'
  call i e choice s answer s' _ _ hPerform j hOther := by
    cases j with
    | plm => trivial
    | r5 =>
      cases i with
      | r5 => exact absurd rfl hOther
      | plm =>
        cases choice with
        | proceed ok =>
          obtain ⟨rfl, rfl⟩ := Prod.mk.inj (Option.some.inj hPerform)
          exact plmServe_steady ok e
        | _ => cases hPerform
  again i value choice s code s' hPost hAgain := by
    cases i with
    | r5 =>
      cases value with
      | exited => cases hAgain
      | top requestBuffer | waiting requestBuffer =>
        obtain ⟨rfl, rfl⟩ := Prod.mk.inj (Option.some.inj hAgain)
        refine ⟨mainLoop_counts hPost.1 hPost.2, fun j hOther => ?_⟩
        cases j with
        | plm => trivial
        | r5 => exact absurd rfl hOther
    | plm =>
      refine ⟨Always.of_forall (fun _ _ => trivial) (fun _ _ => trivial) code s', ?_⟩
      intro j hOther
      cases j with
      | plm => trivial
      | r5 => exact plm_steady hAgain
  surroundings choice s s' hMoved j := by
    cases j with
    | plm => trivial
    | r5 => exact surroundings_steady hMoved

theorem started_counted : Counted started.shared :=
  ⟨⟨rfl, rfl⟩, rfl, rfl, nofun⟩

theorem started_holds : counting.Holds demo started := by
  intro i
  cases i with
  | plm => exact fun _ _ => trivial
  | r5 =>
    have hInHand : InHand started.shared := ⟨rfl, .inl rfl⟩
    apply counts_ret started_counted
    intro s' hMove
    obtain ⟨hNone, _⟩ := hMove.idle rfl
    exact .inl ⟨rfl, hNone, hMove.received, hInHand.moved rfl hMove⟩

theorem counted_of_holds {C : Config CallAnswer Result State} (h : counting.Holds demo C) :
    Counted C.shared := by
  have hHere := h .r5
  cases hCode : C.code .r5 with
  | ret point =>
    rw [hCode] at hHere
    exact (hHere C.shared (Steady.refl _)).1
  | call e next =>
    rw [hCode] at hHere
    exact (hHere C.shared (Steady.refl _)).1.1

/-- A receive of anything but the next value is one of the value before. -/
theorem next_iff_fresh {i : Cpu} {e : Call i} (h : counting.safe i e s) :
    Next i e s ↔ Fresh i e s := by
  cases i with
  | plm => exact Iff.rfl
  | r5 =>
    obtain ⟨hCounted, hLength⟩ := h
    apply imp_congr_right
    intro hRecv
    have hRequest := hCounted.request
    rw [hLength hRecv] at hRequest
    cases hFresh : s.fresh with
    | true => simpa [hFresh] using hRequest
    | false =>
      rw [if_neg (hFresh ▸ Bool.false_ne_true)] at hRequest
      exact ⟨fun hNext => (evens_step (hRequest.symm.trans hNext)).elim, nofun⟩

/-! ### The values received, over a run -/

variable {C C' : Config CallAnswer Result State} {label : Label Cpu Choice}
  {labels : List (Label Cpu Choice)}

theorem r5Serve_received {e : R5Op} {s s' : State} {answer : R5Answer e}
    (h : r5Serve e s = some (answer, s')) : s.received <:+ s'.received := by
  cases e with
  | recvRequest =>
    cases h
    exact List.suffix_cons _ _
  | awaitHandled =>
    simp only [r5Serve] at h
    split at h
    · cases h
      exact List.suffix_refl _
    · cases h
  | _ =>
    cases h
    exact List.suffix_refl _

theorem received_step (h : step demo C label = some C') :
    C.shared.received <:+ C'.shared.received := by
  obtain ⟨i, choice, e, next, answer, -, -, hPerform, -⟩ |
    ⟨i, choice, value, p, -, -, hAgain, -⟩ | ⟨choice, -, hMoved, -⟩ := step_cases h
  · cases i with
    | plm =>
      cases choice with
      | proceed ok =>
        have hResult : plmServe ok e C.shared = (answer, C'.shared) := Option.some.inj hPerform
        have hSteady : Steady C.shared (plmServe ok e C.shared).2 := plmServe_steady ok e
        rw [hResult] at hSteady
        exact hSteady.suffix
      | _ => cases hPerform
    | r5 =>
      cases choice with
      | proceed ok => exact r5Serve_received hPerform
      | _ => cases hPerform
  · cases i with
    | plm => exact (plm_steady hAgain).suffix
    | r5 =>
      cases value with
      | exited => cases hAgain
      | top requestBuffer | waiting requestBuffer =>
        obtain ⟨-, hShared⟩ := Prod.mk.inj (Option.some.inj hAgain)
        exact hShared ▸ List.suffix_refl _
  · have hSteady : Steady C.shared C'.shared :=
      counting_sound.surroundings choice _ _ hMoved .r5
    exact hSteady.suffix

theorem received_run {final : Config CallAnswer Result State}
    (h : run (step demo) C labels = some final) : C.shared.received <:+ final.shared.received := by
  induction labels generalizing C with
  | nil =>
    cases h
    exact List.suffix_refl _
  | cons label labels ih =>
    obtain ⟨next, hStep, hRest⟩ := Option.bind_eq_some_iff.mp h
    exact (received_step hStep).trans (ih hRest)

theorem next_of_step (h : step demo C label = some C')
    (hReceived : C'.shared.received = evens C'.shared.received.length) :
    AtCall Next C label := by
  cases label with
  | call i choice =>
    intro e hHead
    cases i with
    | plm => trivial
    | r5 =>
      rintro rfl
      obtain ⟨rest, hCode⟩ := exists_call_of_head hHead
      obtain ⟨_, _, e', _, answer, hLabel, hCode', hPerform, -⟩ |
        ⟨_, _, _, _, hLabel, -⟩ | ⟨_, hLabel, -⟩ := step_cases h
      · cases hLabel
        rw [hCode] at hCode'
        cases hCode'
        have hNext : C'.shared.received = C.shared.request.1 :: C.shared.received := by
          cases choice with
          | proceed ok =>
            obtain ⟨-, hShared⟩ := Prod.mk.inj (Option.some.inj hPerform)
            rw [← hShared]
          | _ => cases hPerform
        rw [hNext, List.length_cons, evens] at hReceived
        exact (List.cons.inj hReceived).1
      · cases hLabel
      · cases hLabel
  | again i choice => trivial
  | surroundings choice => trivial

/-- If all values received in the end are right, each was when it was received. -/
theorem next_of_received {final : Config CallAnswer Result State}
    (h : run (step demo) C labels = some final)
    (hReceived : final.shared.received = evens final.shared.received.length) :
    Along (step demo) (AtCall Next) C labels := by
  induction labels generalizing C with
  | nil => trivial
  | cons label labels ih =>
    obtain ⟨next, hStep, hRest⟩ := Option.bind_eq_some_iff.mp h
    constructor
    · exact next_of_step hStep (evens_suffix (hReceived ▸ received_run hRest))
    · intro next' hNext'
      obtain rfl := Option.some.inj (hStep.symm.trans hNext')
      exact ih hRest

/-- Whatever the interleaving, the R5 receives 2, 4, 6 and so on, and the counter after each of its
commands is the same, exactly where it never receives before `UserTask` has written. -/
theorem exactlyOnce_iff {final : Config CallAnswer Result State}
    (hRun : run (step demo) started labels = some final) :
    ExactlyOnce final.shared ↔ Along (step demo) (AtCall Fresh) started labels := by
  constructor
  · intro hOnce
    exact (counting_sound.along_iff started_holds fun _ _ _ => next_iff_fresh).mp
      (next_of_received hRun hOnce.received)
  · intro hFresh
    exact (counted_of_holds (counting_sound.run started_holds hFresh hRun)).toExactlyOnce

end Outline

/-! ### An interrupt that comes late -/

def proceed (i : Cpu) (calls : Nat) : List (Label Cpu Choice) :=
  List.replicate calls (.call i (.proceed true))

/-- `UserTask` sends 0; the R5 sends its first command, and the PLM handles it. -/
def firstCommand : List (Label Cpu Choice) :=
  .again .plm .userTask :: proceed .plm 2 ++ .again .r5 .done :: proceed .r5 2 ++
    .again .plm .command :: proceed .r5 2

/-- The R5 clears its flags, is interrupted, and receives. -/
def firstReceive : List (Label Cpu Choice) :=
  .again .r5 .done :: proceed .r5 2 ++ .surroundings .done :: .again .r5 .done :: proceed .r5 3

/-- `UserTask` is executed ten times. -/
def tenTasks : List (Label Cpu Choice) :=
  List.replicate 10 (.again .plm .userTask) ++ proceed .plm 2

/-- With the ten executions in between, the R5 receives 2. -/
theorem exactlyOnce_iff_fresh : ∃ final,
    run (step demo) started (firstCommand ++ tenTasks ++ firstReceive) = some final ∧
      ExactlyOnce final.shared := by
  have hSome : (run (step demo) started
      (firstCommand ++ tenTasks ++ firstReceive)).isSome = true := by
    decide
  obtain ⟨final, hRun⟩ := Option.isSome_iff_exists.mp hSome
  exact ⟨final, hRun, (exactlyOnce_iff hRun).mpr (by decide)⟩

/-- Without them, the first value that it receives is 0. -/
theorem exactlyOnce_failure : ∃ final,
    run (step demo) started (firstCommand ++ firstReceive) = some final ∧
      ¬ ExactlyOnce final.shared := by
  have hReceived : (run (step demo) started (firstCommand ++ firstReceive)).map
      (fun C => C.shared.received) = some [0] := by
    decide
  obtain ⟨final, hRun, hZero⟩ := Option.map_eq_some_iff.mp hReceived
  refine ⟨final, hRun, fun hOnce => ?_⟩
  have hFirst := hOnce.received
  rw [hZero] at hFirst
  exact absurd hFirst (by decide)

end SoftwarePrototypes.TripCounter
