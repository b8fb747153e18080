import SoftwarePrototypes.Interaction.Threads
import SoftwarePrototypes.IpiMessaging.Handlers

/-! # No request is acknowledged unanswered

A source that finds its pending bit cleared takes its request for answered. The handler of RPU 0
clears one source at a time, after it has answered it. The others answer the PMU and clear all.
-/

namespace SoftwarePrototypes.IpiMessaging

open Interaction Interaction.Prog Interaction.Runs Interaction.Threads

def Event.reads (i : Source) : Event → Bool
  | .read j _ => j = i
  | _ => false

def Event.responds (i : Source) : Event → Bool
  | .respond j _ => j = i
  | _ => false

/-- What the port has seen since the handler was entered. -/
def Port.thisRun (p : Port) : List Event := p.log.takeWhile fun event => event ≠ .enter

def Port.sinceTrigger (p : Port) (i : Source) : List Event :=
  p.thisRun.takeWhile fun event => event ≠ .trigger i

/-- The run of the handler has read the request of the source after its trigger, and has written
its response. -/
structure Answered (p : Port) (i : Source) : Prop where
  read : (p.sinceTrigger i).any (Event.reads i) = true
  responded : p.thisRun.any (Event.responds i) = true

instance (p : Port) (i : Source) : Decidable (Answered p i) :=
  decidable_of_iff ((p.sinceTrigger i).any (Event.reads i) = true ∧
    p.thisRun.any (Event.responds i) = true) ⟨fun h => ⟨h.1, h.2⟩, fun h => ⟨h.read, h.responded⟩⟩

/-- The bits that a call of a handler clears. -/
def clears (ch : Channel) : Op → U32
  | .write32 addr value => if ch.decode addr = some .isr then value else 0
  | .clearInterruptStatus mask => mask
  | _ => 0

def ClearsAnswered (ch : Channel) (e : Op) (p : Port) : Prop :=
  ∀ i : Source, p.pending i = true → (clears ch e).getLsbD i = true → Answered p i

/-- No source but the PMU is pending when a handler other than that of RPU 0 clears. -/
def OnlyPmu (ch : Channel) (e : Op) (p : Port) : Prop :=
  ch = .rpu0 ∨ ∀ i : Source, p.pending i = true → (clears ch e).getLsbD i = true → i = pmu

instance (ch : Channel) (e : Op) (p : Port) : Decidable (ClearsAnswered ch e p) :=
  inferInstanceAs (Decidable (∀ i : Source, _ → _ → Answered p i))

instance (ch : Channel) (e : Op) (p : Port) : Decidable (OnlyPmu ch e p) :=
  inferInstanceAs (Decidable (_ ∨ ∀ i : Source, _ → _ → i = pmu))

inductive Choice where
  | proceed (ok : Bool)
  | send (i : Source) (value : U32)
  | trigger (i : Source)

/-- One CPU, whose handler is entered while an enabled source is pending, among sources that
trigger again only once their bit has been cleared. -/
def handling (ch : Channel) (targets : List Source) :
    System (fun _ : Unit => Answer) (fun _ => Unit) Choice Port where
  perform
    | _, e, .proceed ok, p => some (serve ch ok e p)
    | _, _, .send _ _, _ => none
    | _, _, .trigger _, _ => none
  again _ _ _ p :=
    if p.isr &&& allMask ≠ 0 then some (handler targets ch, p.note .enter) else none
  surroundings
    | .proceed _, _ => none
    | .send i value, p => some (p.send i value)
    | .trigger i, p =>
      if allMask.getLsbD i && !p.pending i then some (p.trigger i) else none

/-- The port with whatever is pending, before the handler is first entered. -/
def waiting (p : Port) : Config (fun _ : Unit => Answer) (fun _ => Unit) Port :=
  ⟨p, fun _ => .ret ()⟩

/-- What the handler relies on: no pending source triggers, and nobody else reads or responds. -/
structure Undisturbed (p p' : Port) : Prop where
  pending : ∀ i, p.pending i = true → p'.pending i = true
  read : ∀ i, p.pending i = true → (p.sinceTrigger i).any (Event.reads i) = true →
    (p'.sinceTrigger i).any (Event.reads i) = true
  reads : ∀ i, p'.thisRun.any (Event.reads i) = p.thisRun.any (Event.reads i)
  responded : ∀ i, p'.thisRun.any (Event.responds i) = p.thisRun.any (Event.responds i)

section Log

variable {p p' p'' : Port} {i : Source} {event : Event}

theorem thisRun_of_log (hLog : p'.log = event :: p.log) (hEnter : event ≠ .enter) :
    p'.thisRun = event :: p.thisRun := by
  simp [Port.thisRun, hLog, hEnter]

theorem sinceTrigger_of_log (hLog : p'.log = event :: p.log) (hEnter : event ≠ .enter)
    (hTrigger : event ≠ .trigger i) : p'.sinceTrigger i = event :: p.sinceTrigger i := by
  simp [Port.sinceTrigger, thisRun_of_log hLog hEnter, hTrigger]

theorem any_thisRun (h : (p.sinceTrigger i).any (Event.reads i) = true) :
    p.thisRun.any (Event.reads i) = true := by
  obtain ⟨event, hMem, hReads⟩ := List.any_eq_true.mp h
  exact List.any_eq_true.mpr ⟨event, (List.takeWhile_prefix _).subset hMem, hReads⟩

theorem Undisturbed.refl (p : Port) : Undisturbed p p :=
  ⟨fun _ => id, fun _ _ => id, fun _ => rfl, fun _ => rfl⟩

theorem Undisturbed.trans (h : Undisturbed p p') (h' : Undisturbed p' p'') :
    Undisturbed p p'' where
  pending i hPending := h'.pending i (h.pending i hPending)
  read i hPending hRead := h'.read i (h.pending i hPending) (h.read i hPending hRead)
  reads i := (h'.reads i).trans (h.reads i)
  responded i := (h'.responded i).trans (h.responded i)

theorem undisturbed_of_log (event : Event) (hLog : p'.log = event :: p.log)
    (hEnter : event ≠ .enter)
    (hPending : ∀ i, p.pending i = true → p'.pending i = true ∧ event ≠ .trigger i)
    (hQuiet : ∀ i, event.reads i = false ∧ event.responds i = false) : Undisturbed p p' where
  pending i hHere := (hPending i hHere).1
  read i hHere hRead := by
    rw [sinceTrigger_of_log hLog hEnter (hPending i hHere).2, List.any_cons, hRead, Bool.or_true]
  reads i := by rw [thisRun_of_log hLog hEnter, List.any_cons, (hQuiet i).1, Bool.false_or]
  responded i := by rw [thisRun_of_log hLog hEnter, List.any_cons, (hQuiet i).2, Bool.false_or]

theorem undisturbed_send (value : U32) : Undisturbed p (p.send i value) := by
  apply undisturbed_of_log (.sent i value) rfl
  · simp
  · simp
  · exact fun _ => ⟨rfl, rfl⟩

theorem undisturbed_trigger (h : p.pending i = false) : Undisturbed p (p.trigger i) := by
  apply undisturbed_of_log (.trigger i) rfl
  · simp
  · intro j hPending
    refine ⟨by simp [hPending], ?_⟩
    rintro ⟨⟩
    exact Bool.false_ne_true (h.symm.trans hPending)
  · exact fun _ => ⟨rfl, rfl⟩

end Log

/-! ### From a trigger to a clear -/

section Source

variable {p p' : Port} {i : Source}

/-- The source is pending and the handler has read its request. -/
structure ReadPending (p : Port) (i : Source) : Prop where
  pending : p.pending i = true
  read : (p.sinceTrigger i).any (Event.reads i) = true

theorem ReadPending.of_read (h : p.pending i = true) (value : U32) :
    ReadPending (p.note (.read i value)) i where
  pending := h
  read := by
    have hLog : (p.note (.read i value)).sinceTrigger i = .read i value :: p.sinceTrigger i :=
      sinceTrigger_of_log rfl (by simp) (by simp)
    simp [hLog, Event.reads]

theorem ReadPending.moved (h : ReadPending p i) (hMove : Undisturbed p p') : ReadPending p' i :=
  ⟨hMove.pending i h.pending, hMove.read i h.pending h.read⟩

theorem ReadPending.respond (h : ReadPending p i) (value : U32) :
    ReadPending (p.respond i value) i where
  pending := h.pending
  read := by
    have hLog : (p.respond i value).sinceTrigger i = .respond i value :: p.sinceTrigger i :=
      sinceTrigger_of_log rfl (by simp) (by simp)
    rw [hLog, List.any_cons, h.read, Bool.or_true]

theorem responded_respond (value : U32) :
    (p.respond i value).thisRun.any (Event.responds i) = true := by
  have hLog : (p.respond i value).thisRun = .respond i value :: p.thisRun :=
    thisRun_of_log rfl (by simp)
  simp [hLog, Event.responds]

theorem any_reads_read {j : Source} (value : U32) :
    (p.note (.read j value)).thisRun.any (Event.reads i) =
      (decide (j = i) || p.thisRun.any (Event.reads i)) := by
  have hLog : (p.note (.read j value)).thisRun = .read j value :: p.thisRun :=
    thisRun_of_log rfl (by simp)
  rw [hLog, List.any_cons]
  rfl

theorem any_reads_respond {j : Source} (value : U32) :
    (p.respond j value).thisRun.any (Event.reads i) = p.thisRun.any (Event.reads i) := by
  have hLog : (p.respond j value).thisRun = .respond j value :: p.thisRun :=
    thisRun_of_log rfl (by simp)
  rw [hLog, List.any_cons]
  rfl

/-- A source read while it is pending is answered once its response is written. -/
theorem ReadPending.answered (h : ReadPending p i) (value : U32)
    (hMove : Undisturbed (p.respond i value) p') : Answered p' i where
  read := ((h.respond value).moved hMove).read
  responded := (hMove.responded i).trans (responded_respond value)

end Source

section Handlers

variable {ch : Channel} {targets : List Source} {p p' : Port} {i j : Source}

/-- What the handler of a channel keeps at each of its calls. -/
def answering (ch : Channel) : Outline (fun _ : Unit => Answer) (fun _ => Unit) Port where
  rely _ := Undisturbed
  guard _ _ _ := True
  safe _ e p := ClearsAnswered ch e p ↔ OnlyPmu ch e p
  post _ _ _ := True

abbrev Answers (ch : Channel) (targets : List Source) (code : Handler Unit) (p : Port) : Prop :=
  (answering ch).Follows (handling ch targets) () code p

theorem answers_ret : Answers ch targets (.ret ()) p := fun _ _ => trivial

theorem answers_op {e : Op} {rest : Answer e → Handler Unit}
    (h : ∀ p', Undisturbed p p' → (ClearsAnswered ch e p' ↔ OnlyPmu ch e p') ∧
      ∀ ok, Answers ch targets (rest (serve ch ok e p').1) (serve ch ok e p').2) :
    Answers ch targets (op e >>= rest) p := by
  apply Always.ask_bind
  intro p' hMove
  refine ⟨(h p' hMove).1, ?_⟩
  rintro answer p'' ⟨-, choice, hPerform⟩
  cases choice with
  | proceed ok =>
    obtain ⟨rfl, rfl⟩ := Prod.mk.inj (Option.some.inj hPerform)
    exact (h p' hMove).2 ok
  | send i value => cases hPerform
  | trigger i => cases hPerform

theorem quiet_call {e : Op} (h : clears ch e = 0) : ClearsAnswered ch e p ↔ OnlyPmu ch e p := by
  simp [ClearsAnswered, OnlyPmu, h]

/-! ### The handler of RPU 0 -/

theorem read_source (ok : Bool) : serve ch ok (.readMessage i.mask) p =
    (some (p.request i), p.note (.read i (p.request i))) := by
  simp [serve]

theorem respond_source (ok : Bool) (value : U32) :
    serve ch ok (.writeMessage i.mask value) p = ((), p.respond i value) := by
  simp [serve, Port.store]

/-- Each source seen pending stays so until the handler has come to it. -/
theorem pollSources_answers (status : U32) (l : List Source) (hDistinct : l.Nodup) (tmp : U32)
    (hPending : ∀ i ∈ l, status.getLsbD i = true → p.pending i = true) :
    Answers .rpu0 targets (pollSources status (l.map Source.mask) tmp) p := by
  induction l generalizing p tmp with
  | nil => exact answers_ret
  | cons i l ih =>
    obtain ⟨hFresh, hDistinct⟩ := List.nodup_cons.mp hDistinct
    rw [List.map_cons, pollSources]
    split
    case isFalse => exact ih hDistinct tmp fun j hMem => hPending j (List.mem_cons_of_mem i hMem)
    case isTrue hSeen =>
      have hHere := hPending i List.mem_cons_self (and_mask_ne_zero.mp hSeen)
      have hRest : ∀ j ∈ l, status.getLsbD j = true → j ≠ i ∧ p.pending j = true := by
        intro j hMem hSeen
        exact ⟨fun hEq => hFresh (hEq ▸ hMem), hPending j (List.mem_cons_of_mem i hMem) hSeen⟩
      apply answers_op
      intro p₁ hMove₁
      refine ⟨quiet_call rfl, fun ok => ?_⟩
      have hRead : ReadPending (p₁.note (.read i (p₁.request i))) i :=
        .of_read (hMove₁.pending i hHere) _
      rw [read_source]
      apply answers_op
      intro p₂ hMove₂
      refine ⟨quiet_call rfl, fun ok => ?_⟩
      rw [respond_source]
      apply answers_op
      intro p₃ hMove₃
      have hAnswered := (hRead.moved hMove₂).answered _ hMove₃
      constructor
      · refine ⟨fun _ => .inl rfl, fun _ j _ hClears => ?_⟩
        rw [clears, mask_getLsbD, decide_eq_true_eq] at hClears
        exact hClears ▸ hAnswered
      · intro ok
        apply ih hDistinct
        intro j hMem hSeen
        obtain ⟨hNe, hThere⟩ := hRest j hMem hSeen
        have hStill := hMove₃.pending j (hMove₂.pending j (hMove₁.pending j hThere))
        change (p₃.clear i.mask).pending j = true
        rw [pending_clear, hStill, mask_getLsbD, decide_eq_false hNe]
        rfl

theorem ipiIntrHandler_answers (hDistinct : targets.Nodup) :
    Answers .rpu0 targets (ipiIntrHandler (targets.map Source.mask)) p := by
  apply answers_op
  intro p' _
  refine ⟨quiet_call rfl, fun ok => ?_⟩
  exact pollSources_answers p'.isr targets hDistinct 0 fun _ _ hSeen => hSeen

/-! ### The handlers of the other CPUs -/

/-- The source for which the handler was entered is still pending when it clears all, and the PMU
is the only source it has read. -/
theorem echoHandler_answers {a : Addresses} (h : ch.addresses = some a)
    (hEntered : p.pending j = true) (hStart : ∀ i, p.thisRun.any (Event.reads i) = false) :
    Answers ch targets (echoHandler a) p := by
  apply answers_op
  intro p₁ hMove₁
  refine ⟨quiet_call (by simp [clears]), fun ok => ?_⟩
  rw [read_request h]
  apply answers_op
  intro p₂ hMove₂
  refine ⟨quiet_call (by simp [clears, h]), fun ok => ?_⟩
  rw [write_response h]
  apply answers_op
  intro p₃ hMove₃
  refine ⟨?_, fun _ => answers_ret⟩
  have hAll : ∀ i : Source, (clears ch (.write32 a.isr (~~~0))).getLsbD i = true := by
    intro i
    rw [clears, decode_isr h, if_pos rfl]
    exact allOnes_getLsbD i
  have hReads : ∀ i, p₃.thisRun.any (Event.reads i) = true → i = pmu := by
    intro i hRead
    rw [hMove₃.reads, any_reads_respond, hMove₂.reads, any_reads_read, hMove₁.reads, hStart,
      Bool.or_false, decide_eq_true_eq] at hRead
    exact hRead.symm
  have hOther : ch ≠ .rpu0 := by
    rintro rfl
    cases h
  constructor
  · intro hClears
    refine .inr fun i hPending _ => ?_
    exact hReads i (any_thisRun (hClears i hPending (hAll i)).read)
  · rintro (hRpu | hOnly)
    · exact absurd hRpu hOther
    intro i hPending hCleared
    have hStill := hMove₃.pending j (hMove₂.pending j (hMove₁.pending j hEntered))
    obtain rfl := hOnly j hStill (hAll j)
    obtain rfl := hOnly i hPending hCleared
    exact ((ReadPending.of_read (hMove₁.pending _ hEntered) _).moved hMove₂).answered _ hMove₃

theorem mailboxHandler_answers : Answers .rpu1 targets mailboxHandler p := by
  apply answers_op
  intro p₁ _
  refine ⟨quiet_call rfl, fun ok => ?_⟩
  generalize (serve .rpu1 ok (.recv pmuMask) p₁).1 = message
  cases message with
  | none => exact answers_op fun _ _ => ⟨quiet_call rfl, fun _ => answers_ret⟩
  | some tmp =>
    apply answers_op
    intro p₂ _
    refine ⟨quiet_call rfl, fun ok => ?_⟩
    split
    · exact answers_ret
    · exact answers_op fun _ _ => ⟨quiet_call rfl, fun _ => answers_ret⟩

theorem handler_answers (hDistinct : targets.Nodup) (hEntered : p.pending j = true)
    (hStart : ∀ i, p.thisRun.any (Event.reads i) = false) :
    Answers ch targets (handler targets ch) p := by
  cases ch with
  | rpu0 => exact ipiIntrHandler_answers hDistinct
  | rpu1 => exact mailboxHandler_answers
  | mb0 => exact echoHandler_answers rfl hEntered hStart
  | mb1 => exact echoHandler_answers rfl hEntered hStart
  | apu => exact echoHandler_answers rfl hEntered hStart

theorem exists_pending {mask : U32} (h : p.isr &&& mask ≠ 0) : ∃ i, p.pending i = true := by
  by_contra hNone
  apply h
  ext i hLt
  have hBit : p.isr.getLsbD i = false := by
    have := not_exists.mp hNone ⟨i, hLt⟩
    simpa [Port.pending] using this
  simp [← BitVec.getLsbD_eq_getElem, hBit]

theorem answering_sound (hDistinct : targets.Nodup) :
    (answering ch).Sound (handling ch targets) where
  refl _ := Undisturbed.refl
  trans _ _ _ _ := Undisturbed.trans
  call _ _ _ _ _ _ _ _ _ _ hOther := absurd (Subsingleton.elim _ _) hOther
  again i value choice p code p' _ hAgain := by
    refine ⟨?_, fun _ hOther => absurd (Subsingleton.elim _ _) hOther⟩
    simp only [handling] at hAgain
    split at hAgain
    case isFalse => cases hAgain
    case isTrue hEnabled =>
      obtain ⟨rfl, rfl⟩ := Prod.mk.inj (Option.some.inj hAgain)
      obtain ⟨j, hPending⟩ := exists_pending hEnabled
      have hStart : ∀ i, (p.note .enter).thisRun.any (Event.reads i) = false := by
        intro i
        simp [Port.thisRun, Port.note]
      have hAnswers : Answers ch targets (handler targets ch) (p.note .enter) :=
        handler_answers hDistinct hPending hStart
      exact hAnswers
  surroundings choice p p' hMoved _ := by
    cases choice with
    | proceed ok => cases hMoved
    | send i value =>
      cases hMoved
      exact undisturbed_send value
    | trigger i =>
      simp only [handling] at hMoved
      split at hMoved
      case isFalse => cases hMoved
      case isTrue hQuiet =>
        cases hMoved
        exact undisturbed_trigger (by simpa using (Bool.and_eq_true_iff.mp hQuiet).2)

/-- Along every interleaving, what a handler clears is answered exactly where it is the handler of
RPU 0 or only the PMU is pending. -/
theorem clearsAnswered_iff (hDistinct : targets.Nodup) (p : Port)
    (labels : List (Label Unit Choice)) :
    Along (step (handling ch targets)) (AtCall fun _ => ClearsAnswered ch) (waiting p) labels ↔
      Along (step (handling ch targets)) (AtCall fun _ => OnlyPmu ch) (waiting p) labels := by
  have hStart : (answering ch).Holds (handling ch targets) (waiting p) := fun _ => answers_ret
  have hSafe : Along _ (AtCall (answering ch).safe) (waiting p) labels :=
    (answering_sound hDistinct).always hStart fun _ _ _ => trivial
  exact Along.congr (hSafe.mono fun _ _ => atCall_iff)

end Handlers

/-! ### The PMU and RPU 1 at the same time -/

def bothPending : Port := { newPort with isr := 0x10200 }

def oneRun (calls : Nat) : List (Label Unit Choice) :=
  .again () (.proceed true) :: List.replicate calls (.call () (.proceed true))

/-- The handler of RPU 0 answers both. -/
theorem clearsAnswered_iff_both :
    (run (step (handling .rpu0 [16, 9])) (waiting bothPending) (oneRun 7)).isSome = true ∧
      Along (step (handling .rpu0 [16, 9])) (AtCall fun _ => ClearsAnswered .rpu0)
        (waiting bothPending) (oneRun 7) :=
  ⟨by decide, (clearsAnswered_iff (by decide) bothPending (oneRun 7)).mpr (by decide)⟩

/-- That of the first Microblaze clears the request of RPU 1 without having read it. -/
theorem clearsAnswered_failure :
    ¬ Along (step (handling .mb0 [])) (AtCall fun _ => ClearsAnswered .mb0)
      (waiting bothPending) (oneRun 3) := by
  decide

end SoftwarePrototypes.IpiMessaging
