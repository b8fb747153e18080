import SoftwarePrototypes.DmaProxyTest.Discipline

/-! # The rounds of the two threads

Whatever the others do within what a thread relies on, each round of its loops keeps the
discipline at every call and leads on to the next stage.
-/

namespace SoftwarePrototypes.DmaProxyTest

open Interaction Interaction.Prog
open SoftwarePrototypes.DmaProxy (ProxyStatus)

variable {t : Setting} {v : View} {k s : Nat} {α : Type} {post : α → View → Prop}

theorem holds_ask {P : View → Prop} (h : P v) (hStable : ∀ v v', P v → Moved t v v' → P v')
    {e : Op} {rest : Answer e → Thread α} (hSafe : ∀ v, P v → Safe t e v)
    (hNext : ∀ v answer v', P v → does t e v answer v' → Holds t post (rest answer) v') :
    Holds t post (op e >>= rest) v := by
  apply Always.ask_bind
  intro v₁ hMove
  have hHere := hStable v v₁ h hMove
  exact ⟨hSafe v₁ hHere, fun answer v₂ hDoes => hNext v₁ answer v₂ hHere hDoes⟩

theorem holds_ret {value : α} (h : ∀ v', Moved t v v' → post value v') :
    Holds t post (.ret value) v := h

theorem holds_bind {β : Type} {p : Thread α} {rest : α → Thread β} {last : β → View → Prop}
    (h : Holds t (fun value v' => Holds t last (rest value) v') p v) :
    Holds t last (p >>= rest) v :=
  Always.bind (Moved.refl t) h

def Ends (t : Setting) (stage : Stage) (next : Next) (v : View) : Prop :=
  ∃ stage', Stands t stage' next v ∧ stage.Leads stage'

theorem Filling.safe (h : Filling t k s v) {e : Op} (hFits : Fits t s 0 v e) : Safe t e v := by
  have hStarted := h.started
  have hWithin := h.within
  exact ⟨s, 0, h.toMatches, by omega, by omega, hFits⟩

theorem Working.safe {f : Nat} (h : Working t k s f v) {e : Op} (hEarly : f ≤ s)
    (hFits : Fits t s f v e) : Safe t e v := by
  have hStarted := h.started
  have hFinished := h.finished
  exact ⟨s, f, h.toMatches, hEarly, by omega, hFits⟩

theorem Working.early (h : Working t k s k v) : k < s := by
  have hStarted := h.started
  have hAsked := h.asked
  have hSlots := t.ring.slots_pos
  omega

theorem Working.started_later (h : Working t k s (k + 1) v) : k + 1 ≤ s := by
  have hStarted := h.started
  have hAsked := h.asked
  have hSlots := t.ring.slots_pos
  omega

theorem ends_fill (h : Filling t (k + 1) (k + 1) v) :
    Holds t (Ends t (.fill k)) (.ret (.fill (t.ring.slot (k + 1)) ((k : Int) + 1))) v := by
  apply holds_ret
  intro v' hMove
  exact ⟨.fill (k + 1), ⟨by push_cast; rfl, h.moved hMove⟩, rfl⟩

theorem ends_loop (h : Working t 0 (k + 1) 0 v) :
    Holds t (Ends t (.fill k)) (.ret (.loop ⟨0, (k : Int) + 1, 0, false⟩)) v := by
  apply holds_ret
  intro v' hMove
  refine ⟨.loop 0, ⟨k + 1, false, ?_, h.moved hMove⟩, rfl⟩
  simp [Ring.slot]

theorem afterFill_ring (r : Ring) (hWithin : k < r.slots) (count : Int) :
    afterFill r.size (r.slot k + r.stride) count =
      if k + 1 < r.slots then .fill (r.slot (k + 1)) count else .loop ⟨0, count, 0, false⟩ := by
  have hNext : r.slot k + r.stride = (k + 1) * r.stride := by
    rw [r.slot_of_lt hWithin, Nat.add_mul, Nat.one_mul]
  simp only [afterFill, hNext, r.mul_stride_lt]
  split
  · rename_i hInner
    rw [r.slot_of_lt hInner]
  · rfl

theorem fill_tail (h : Filling t k (k + 1) v) :
    Holds t (Ends t (.fill k)) (do
      let done ← op (.reachedNumTransfers .fill ((k : Int) + 1))
      if done then pure (.loop ⟨0, (k : Int) + 1, 0, false⟩) else
      pure (afterFill t.ring.size (t.ring.slot k + t.ring.stride) ((k : Int) + 1))) v := by
  refine holds_ask h (fun _ _ h hMove => h.moved hMove) (fun _ h => h.safe (by simp [Fits])) ?_
  rintro v answer _ h ⟨hAnswer, rfl⟩
  cases answer with
  | true =>
    exact ends_loop (h.full (of_decide_eq_true hAnswer.symm))
  | false =>
    have hRoom := of_decide_eq_false hAnswer.symm
    simp only [Bool.false_eq_true, if_false, tested_unreached, afterFill_ring t.ring h.within]
    split
    · rename_i hInner
      exact ends_fill (h.next hRoom hInner)
    · rename_i hLast
      exact ends_loop (h.last hRoom hLast)

variable {cfg : Config}

theorem txInit_holds (hSends : t.sends → cfg.verify = true) (h : Filling t k k v) :
    Holds t (fun _ v' => Filling t k k v' ∧
      (t.sends → v'.word (t.ring.slot k) = BitVec.ofNat 32 k))
      (txInit cfg (t.ring.slot k) k) v := by
  rw [txInit]
  split
  · refine holds_ask h (fun _ _ h hMove => h.moved hMove) ?_ ?_
    · intro v h
      have hWithin := h.within
      exact h.safe ⟨rfl, by omega⟩
    · rintro v _ _ h rfl
      apply holds_ret
      intro v' hMove
      have hFree := h.next_free (by have hWithin := h.within; omega)
      refine ⟨(h.stored _).moved hMove, fun _ => ?_⟩
      rw [hMove.word _ hFree]
      simp
  · rename_i hVerify
    apply holds_ret
    intro v' hMove
    exact ⟨h.moved hMove, fun hSending => absurd (hSends hSending) hVerify⟩

theorem txFill_ends (hSize : t.ring.size = cfg.txBufferCount)
    (hStride : t.ring.stride = cfg.bufferIncrement) (hSends : t.sends → cfg.verify = true)
    (h : Filling t k k v) :
    Holds t (Ends t (.fill k)) (txFill cfg (t.ring.slot k) k) v := by
  rw [txFill, ← hSize, ← hStride]
  refine holds_ask h (fun _ _ h hMove => h.moved hMove) (fun _ h => h.safe trivial) ?_
  rintro v _ _ h rfl
  apply holds_bind
  apply (txInit_holds hSends h).mono (fun _ _ => id)
  rintro _ v h
  refine holds_ask (P := fun v => Filling t k k v ∧
    (t.sends → v.word (t.ring.slot k) = BitVec.ofNat 32 k)) h ?_ ?_ ?_
  · rintro v v' ⟨h, hWord⟩ hMove
    have hFree := h.next_free (by have hWithin := h.within; omega)
    exact ⟨h.moved hMove, fun hSending => (hMove.word _ hFree).trans (hWord hSending)⟩
  · rintro v ⟨h, hWord⟩
    have hWithin := h.within
    exact h.safe ⟨rfl, by omega, by omega, hWord⟩
  · rintro v _ _ ⟨h, _⟩ rfl
    exact fill_tail h.start

theorem rxFill_ends (hSize : t.ring.size = cfg.rxBufferCount)
    (hStride : t.ring.stride = cfg.bufferIncrement) (hSends : ¬ t.sends)
    (h : Filling t k k v) :
    Holds t (Ends t (.fill k)) (rxFill cfg (t.ring.slot k) k) v := by
  rw [rxFill, ← hSize, ← hStride]
  refine holds_ask h (fun _ _ h hMove => h.moved hMove) (fun _ h => h.safe trivial) ?_
  rintro v _ _ h rfl
  refine holds_ask h (fun _ _ h hMove => h.moved hMove) ?_ ?_
  · intro v h
    have hWithin := h.within
    exact h.safe ⟨rfl, by omega, by omega, fun hSending => absurd hSending hSends⟩
  · rintro v _ _ h rfl
    exact fill_tail h.start

/-! ## The second loop -/

theorem ends_left (h : Working t k s (k + 1) v) (hDone : v.numTransfers ≤ k + 1) :
    Holds t (Ends t (.loop k)) (.ret (.returned ((s : Int) - k - 1))) v := by
  obtain ⟨hStarted, hFinished⟩ := h.over hDone
  apply holds_ret
  intro v' hMove
  refine ⟨.left, ⟨?_, Settled.moved ⟨?_, fun hCalm => (h.calm hCalm).2⟩ hMove⟩, trivial⟩
  · congr 1
    omega
  · have hMatches := h.toMatches
    rw [hFinished, hStarted] at hMatches
    exact hMatches

/-- The count is reached, or the loop goes on. -/
theorem done_tail (h : Working t k s (k + 1) v) {rest : Thread Next}
    (hRest : ∀ v, Working t k s (k + 1) v → k + 1 < v.target →
      Holds t (Ends t (.loop k)) rest v) :
    Holds t (Ends t (.loop k)) (do
      let done ← op (.reachedNumTransfers .done ((k : Int) + 1))
      if done then pure (.returned ((s : Int) - k - 1)) else rest) v := by
  refine holds_ask h (fun _ _ h hMove => h.moved hMove)
    (fun _ h => h.safe h.started_later (by simp [Fits])) ?_
  rintro v answer _ h ⟨hAnswer, rfl⟩
  rw [tested_done]
  cases answer with
  | true => exact ends_left h (of_decide_eq_true hAnswer.symm)
  | false => exact hRest v h (Working.more (of_decide_eq_false hAnswer.symm))

theorem ends_round (h : Working t (k + 1) s (k + 1) v) {inProgressCount : Int}
    (hCount : inProgressCount = (s : Int) - k - 1) (stopInProgress : Bool) :
    Holds t (Ends t (.loop k)) (.ret (.loop ⟨nextBuffer t.ring.size t.ring.stride (t.ring.slot k),
      inProgressCount, (k : Int) + 1, stopInProgress⟩)) v := by
  apply holds_ret
  intro v' hMove
  refine ⟨.loop (k + 1), ⟨s, stopInProgress, ?_, h.moved hMove⟩, rfl⟩
  rw [nextBuffer, t.ring.slot_next, hCount]
  congr 2
  omega

theorem Working.stays (h : Working t k s (k + 1) v) {v' : View} (hMove : Moved t v v') {c : Nat}
    (hMore : c < v.target) (hNear : c < k + 1 + t.ring.slots) : c < v'.target := by
  have hLength := h.finishes_length
  rcases hMove.target with hSame | ⟨_, _, hNew⟩
  · rw [target_eq hSame]
    exact hMore
  · omega

/-- About to start a buffer again; `written` tells whether it holds the word to send. -/
structure Refilling (t : Setting) (k s : Nat) (written : Prop) (v : View) : Prop where
  working : Working t k s (k + 1) v
  full : s = k + t.ring.slots
  room : s < v.target
  word : t.sends → written → v.word (t.ring.slot s) = BitVec.ofNat 32 s

theorem Refilling.moved {written : Prop} (h : Refilling t k s written v) {v' : View}
    (hMove : Moved t v v') : Refilling t k s written v' := by
  have hFull := h.full
  refine ⟨h.working.moved hMove, hFull, h.working.stays hMove h.room (by omega), ?_⟩
  intro hSending hWritten
  rw [hMove.word _ (h.working.next_free (by omega))]
  exact h.word hSending hWritten

theorem Refilling.slot {written : Prop} (h : Refilling t k s written v) :
    t.ring.slot k = t.ring.slot s := by
  rw [h.full, t.ring.slot_add_slots]

/-- The end of a round of the second loop, in both threads: pass the buffer over, or prepare it
and start it again. -/
theorem loop_tail (h : Working t k s (k + 1) v) (hMore : k + 1 < v.target) (stopInProgress : Bool)
    (prepare : Thread Unit)
    (hPrepare : ∀ v, Refilling t k s False v →
      Holds t (fun _ v' => Refilling t k s True v') prepare v) :
    Holds t (Ends t (.loop k)) (do
      let full ← op (.reachedNumTransfers .refill ((k : Int) + 1 + ((s : Int) - k - 1)))
      let bufferId := nextBuffer t.ring.size t.ring.stride (t.ring.slot k)
      if full then
        pure (.loop ⟨bufferId, (s : Int) - k - 1, (k : Int) + 1, stopInProgress⟩) else do
      prepare
      op (.startXfer (t.ring.slot k) ((s : Int) - k - 1))
      pure (.loop ⟨bufferId, (s : Int) - k, (k : Int) + 1, stopInProgress⟩)) v := by
  have hSum : (k : Int) + 1 + ((s : Int) - k - 1) = s := by omega
  have hLater := h.started_later
  have hSlots := t.ring.slots_pos
  rw [hSum]
  refine holds_ask (P := fun v => Working t k s (k + 1) v ∧ k + 1 < v.target) ⟨h, hMore⟩
    ?_ (fun _ h => h.1.safe hLater rfl) ?_
  · rintro v v' ⟨h, hMore⟩ hMove
    exact ⟨h.moved hMove, h.stays hMove hMore (by omega)⟩
  rintro v answer _ ⟨h, hMore⟩ ⟨hAnswer, rfl⟩
  cases answer with
  | true =>
    exact ends_round (h.passOver hMore (of_decide_eq_true hAnswer.symm)) rfl stopInProgress
  | false =>
    obtain ⟨hFull, hRoom⟩ := h.refill (of_decide_eq_false hAnswer.symm)
    simp only [Bool.false_eq_true, if_false, tested_unreached]
    apply holds_bind
    apply (hPrepare v ⟨h, hFull, hRoom, fun _ hNever => hNever.elim⟩).mono (fun _ _ => id)
    rintro _ v h
    refine holds_ask h (fun _ _ h hMove => h.moved hMove) ?_ ?_
    · intro v h
      have hSlot := h.slot
      refine h.working.safe hLater ⟨hSlot, by omega, by omega, fun hSending => ?_⟩
      rw [hSlot]
      exact h.word hSending trivial
    · rintro v _ _ h rfl
      exact ends_round (h.slot ▸ h.working.restart h.full h.room) (by omega) stopInProgress

theorem txStop_holds (hStops : t.stops) (hRx : t.rxBufferCount = cfg.rxBufferCount)
    (h : Working t k s (k + 1) v) (hMore : k + 1 < v.target) (stopInProgress : Bool) :
    Holds t (fun _ v' => Working t k s (k + 1) v' ∧ k + 1 < v'.target)
      (txStop cfg ((k : Int) + 1) stopInProgress) v := by
  have hSlots := t.ring.slots_pos
  have hStable : ∀ v v', Working t k s (k + 1) v ∧ k + 1 < v.target → Moved t v v' →
      Working t k s (k + 1) v' ∧ k + 1 < v'.target :=
    fun v v' h hMove => ⟨h.1.moved hMove, h.1.stays hMove h.2 (by omega)⟩
  rw [txStop]
  refine holds_ask ⟨h, hMore⟩ hStable (fun _ h => h.1.safe h.1.started_later trivial) ?_
  rintro v answer _ ⟨h, hMore⟩ ⟨hAnswer, rfl⟩
  split
  · rename_i hFirst
    have hAgitated : ¬ t.calm := by
      intro hCalm
      rw [hAnswer, (h.calm hCalm).1] at hFirst
      cases hFirst
    refine holds_ask ⟨h, hMore⟩ hStable ?_ ?_
    · rintro v ⟨h, hMore⟩
      have hStarted := h.started
      refine h.safe h.started_later ⟨hAgitated, hStops, ?_, by omega, hMore,
        fun hPassed => (h.passed hPassed).2⟩
      rw [hRx]
      push_cast
      rfl
    · rintro v _ v' ⟨h, hMore⟩ ⟨rfl, hUnpassed, hReach⟩
      have hLength := h.finishes_length
      have hFull := h.unpassed hUnpassed
      apply holds_ret
      refine fun v' => hStable _ v' ⟨⟨h.toMatches, ?_, ?_, h.finished, h.unpassed, ?_, ?_⟩, ?_⟩
      · omega
      · omega
      · intro hPassed
        rw [hUnpassed] at hPassed
        cases hPassed
      · exact fun hCalm => absurd hCalm hAgitated
      · omega
  · exact holds_ret fun v' => hStable _ v' ⟨h, hMore⟩

/-- What is sent counts the transfers: there is a word to write, and the quotient that the code
computes is the number of slots, unless nothing is restarted. -/
structure CountsSent (cfg : Config) (t : Setting) : Prop where
  verify : cfg.verify = true
  words : 0 < wordCount cfg
  quotient : cfg.txBufferCount / cfg.bufferIncrement = t.ring.slots ∨ t.calm ∧ t.asked ≤ 1

theorem txValue_first (hSends : CountsSent cfg t) {written : Prop}
    (h : Refilling t k s written v) : txValue cfg 0 ((k : Int) + 1) = BitVec.ofNat 32 s := by
  have hSlots := t.ring.slots_pos
  have hFull := h.full
  have hRoom := h.room
  rcases hSends.quotient with hQuotient | ⟨hCalm, hOne⟩
  · rw [txValue, hQuotient, hFull, ← BitVec.ofInt_natCast]
    congr 1
    push_cast
    omega
  · have hAsked := (h.working.calm hCalm).2
    unfold View.target at hRoom
    omega

theorem Refilling.write (hSends : t.sends → CountsSent cfg t) {done : List Nat}
    (h : Refilling t k s (0 ∈ done) v) (i : Nat) :
    Holds t (fun _ v' => Refilling t k s (0 ∈ done ++ [i]) v')
      (op (.writeWord (t.ring.slot k) i (txValue cfg i ((k : Int) + 1)))) v := by
  refine holds_ask h (fun _ _ h hMove => h.moved hMove) ?_ ?_
  · intro v h
    have hFull := h.full
    exact h.working.safe h.working.started_later ⟨h.slot, by omega⟩
  · rintro v _ _ h rfl
    apply holds_ret
    intro v' hMove
    refine Refilling.moved ?_ hMove
    refine ⟨h.working.stored _, h.full, h.room, fun hSending hDone => ?_⟩
    rcases Nat.eq_zero_or_pos i with rfl | hPos
    · rw [← h.slot]
      exact (Function.update_self _ _ _).trans (txValue_first (hSends hSending) h)
    · rw [List.mem_append, List.mem_singleton] at hDone
      rcases hDone with hDone | rfl
      · simp only [if_neg hPos.ne']
        exact h.word hSending hDone
      · omega

theorem txWords_holds (hSends : t.sends → CountsSent cfg t) (h : Refilling t k s False v) :
    Holds t (fun _ v' => Refilling t k s True v')
      (txWords cfg (t.ring.slot k) ((k : Int) + 1)) v := by
  rw [txWords]
  split
  · have hInit : Refilling t k s (0 ∈ ([] : List Nat)) v :=
      ⟨h.working, h.full, h.room, fun _ hMem => absurd hMem List.not_mem_nil⟩
    have hLoop := Always.forM (I := fun done v => Refilling t k s (0 ∈ done) v) (Moved.refl t)
      (fun _ _ _ h hMove => h.moved hMove) (fun _ i _ h => h.write hSends i)
      (List.range (wordCount cfg)) hInit
    apply hLoop.mono (fun _ _ => id)
    intro _ v h
    refine ⟨h.working, h.full, h.room, fun hSending _ => h.word hSending ?_⟩
    rw [List.nil_append, List.mem_range]
    exact (hSends hSending).words
  · rename_i hVerify
    apply holds_ret
    intro v' hMove
    have hMoved := h.moved hMove
    exact ⟨hMoved.working, hMoved.full, hMoved.room,
      fun hSending => absurd (hSends hSending).verify hVerify⟩

theorem txLoop_ends (hSize : t.ring.size = cfg.txBufferCount)
    (hStride : t.ring.stride = cfg.bufferIncrement) (hStops : t.stops)
    (hRx : t.rxBufferCount = cfg.rxBufferCount)
    (hSends : t.sends → CountsSent cfg t)
    (h : Working t k s k v) (stopInProgress : Bool) :
    Holds t (Ends t (.loop k))
      (txLoop cfg ⟨t.ring.slot k, (s : Int) - k, k, stopInProgress⟩) v := by
  rw [txLoop, ← hSize, ← hStride]
  dsimp only
  refine holds_ask h (fun _ _ h hMove => h.moved hMove)
    (fun _ h => h.safe h.early.le ⟨rfl, h.early, rfl⟩) ?_
  rintro v answer v' h ⟨rfl, hLedger, hNum, hStop, _⟩
  have hFinished := h.finish hLedger hNum hStop
  refine done_tail hFinished fun v h hMore => ?_
  apply holds_bind
  apply (txStop_holds hStops hRx h hMore stopInProgress).mono (fun _ _ => id)
  rintro stopInProgress v ⟨h, hMore⟩
  exact loop_tail h hMore stopInProgress _ fun v h => txWords_holds hSends h

theorem rxVerify_holds (h : Working t k s (k + 1) v)
    (hArrived : t.receives → v.word (t.ring.slot k) = BitVec.ofNat 32 k) :
    Holds t (fun _ v' => Working t k s (k + 1) v') (rxVerify cfg (t.ring.slot k) k) v := by
  have hStable : ∀ v v', Working t k s (k + 1) v → Moved t v v' → Working t k s (k + 1) v' :=
    fun v v' h hMove => h.moved hMove
  rw [rxVerify]
  split
  · refine holds_ask (P := fun v => Working t k s (k + 1) v ∧
      (t.receives → v.word (t.ring.slot k) = BitVec.ofNat 32 k)) ⟨h, hArrived⟩ ?_
      (fun _ h => h.1.safe h.1.started_later ⟨rfl, by omega, h.2⟩) ?_
    · rintro v v' ⟨h, hArrived⟩ hMove
      have hStarted := h.started
      refine ⟨h.moved hMove, fun hReceiving => ?_⟩
      rw [hMove.word _ (h.last_free (by omega))]
      exact hArrived hReceiving
    · rintro v answer _ ⟨h, hArrived⟩ ⟨hAnswer, rfl⟩
      split
      · rename_i hOther
        have hSilent : ¬ t.receives := by
          intro hReceiving
          apply hOther
          rw [hAnswer rfl, hArrived hReceiving]
          simp
        refine holds_ask h hStable (fun _ h => h.safe h.started_later hSilent) ?_
        rintro v _ _ h rfl
        exact holds_ret fun v' => hStable _ v' h
      · exact holds_ret fun v' => hStable _ v' h
  · exact holds_ret fun v' => hStable _ v' h

theorem rxLoop_ends (hSize : t.ring.size = cfg.rxBufferCount)
    (hStride : t.ring.stride = cfg.bufferIncrement) (hSends : ¬ t.sends)
    (h : Working t k s k v) :
    Holds t (Ends t (.loop k)) (rxLoop cfg ⟨t.ring.slot k, (s : Int) - k, k, false⟩) v := by
  rw [rxLoop, ← hSize, ← hStride]
  dsimp only
  refine holds_ask h (fun _ _ h hMove => h.moved hMove)
    (fun _ h => h.safe h.early.le ⟨rfl, h.early, rfl⟩) ?_
  rintro v answer v' h ⟨rfl, hLedger, hNum, hStop, hArrived⟩
  have hFinished := h.finish hLedger hNum hStop
  rw [h.finishes_length] at hArrived
  simp only [ne_eq, not_true_eq_false, if_false]
  apply holds_bind
  apply (rxVerify_holds hFinished hArrived).mono (fun _ _ => id)
  intro _ v h
  refine done_tail h fun v h hMore => ?_
  apply loop_tail h hMore false (pure ())
  intro v h
  apply holds_ret
  intro v' hMove
  have hMoved := h.moved hMove
  exact ⟨hMoved.working, hMoved.full, hMoved.room, fun hSending => absurd hSending hSends⟩

/-! ## Whole threads -/

/-- A body whose every round keeps the discipline and leads on. -/
structure Keeps (t : Setting) (body : Next → Thread Next) : Prop where
  fill : ∀ k v, Filling t k k v → Holds t (Ends t (.fill k)) (body (.fill (t.ring.slot k) k)) v
  loop : ∀ k s stopInProgress v, Working t k s k v → Holds t (Ends t (.loop k))
    (body (.loop ⟨t.ring.slot k, (s : Int) - k, k, stopInProgress⟩)) v
  left : body (.returned 0) = .ret (.returned 0)

theorem txThread_keeps (hSize : t.ring.size = cfg.txBufferCount)
    (hStride : t.ring.stride = cfg.bufferIncrement) (hStops : t.stops)
    (hRx : t.rxBufferCount = cfg.rxBufferCount)
    (hSends : t.sends → CountsSent cfg t) :
    Keeps t (txThread cfg) where
  fill := fun _ _ h => txFill_ends hSize hStride (fun hSending => (hSends hSending).verify) h
  loop := fun _ _ stopInProgress _ h => txLoop_ends hSize hStride hStops hRx hSends h stopInProgress
  left := rfl

theorem rxThread_keeps (hSize : t.ring.size = cfg.rxBufferCount)
    (hStride : t.ring.stride = cfg.bufferIncrement) (hSends : ¬ t.sends) :
    Keeps t (rxThread cfg) where
  fill := fun _ _ h => rxFill_ends hSize hStride hSends h
  loop := fun _ _ _ _ h => rxLoop_ends hSize hStride hSends h
  left := rfl

def Stationed (t : Setting) (next : Next) (v : View) : Prop := ∃ stage, Stands t stage next v

theorem Keeps.round {body : Next → Thread Next} (hKeeps : Keeps t body) {next : Next}
    (h : Stationed t next v) : Holds t (Stationed t) (body next) v := by
  have hForget : ∀ stage next v, Ends t stage next v → Stationed t next v :=
    fun _ _ _ ⟨stage', h, _⟩ => ⟨stage', h⟩
  obtain ⟨stage, h⟩ := h
  cases stage with
  | fill k =>
    obtain ⟨rfl, h⟩ := h
    exact (hKeeps.fill k v h).mono (fun _ _ => id) (hForget _)
  | loop k =>
    obtain ⟨s, stopInProgress, rfl, h⟩ := h
    exact (hKeeps.loop k s stopInProgress v h).mono (fun _ _ => id) (hForget _)
  | left =>
    obtain ⟨rfl, h⟩ := h
    rw [hKeeps.left]
    exact holds_ret fun v' hMove => ⟨.left, rfl, h.moved hMove⟩

theorem stationed_start (hLedger : v.ledger = ⟨[], [], false⟩)
    (hCalm : t.calm → v.stop = false ∧ v.numTransfers = t.asked) :
    Stands t (.fill 0) (afterFill t.ring.size 0 0) v := by
  have hSlots := t.ring.slots_pos
  have hSize := t.ring.last_lt
  refine ⟨?_, ⟨?_, ?_⟩, .inl rfl, hSlots, .inl rfl, ?_, hCalm⟩
  · rw [afterFill, if_pos (by omega)]
    simp [Ring.slot]
  · rw [hLedger]
    rfl
  · rw [hLedger]
    rfl
  · rw [hLedger]

end SoftwarePrototypes.DmaProxyTest
