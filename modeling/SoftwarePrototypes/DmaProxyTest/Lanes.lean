import SoftwarePrototypes.DmaProxyTest.OverDriver

/-! # One side of the application at both levels

The thread of the application over the driver and the one of the bench, with their channels. An
ioctl of the driver is many calls of the kernel, one of the bench is one: a start is where its
transfer is issued, a finish where the ioctl returns.
-/

namespace SoftwarePrototypes.DmaProxyTest

open Interaction Interaction.Prog
open SoftwarePrototypes.DmaProxy (ChannelBuffer Cmd Descriptor Driver Follows ProxyBd ProxyStatus
  Proceeds Reply bufferSize dmaHandle)

/-! ## What a request leaves alone -/

/-- What a thread knows of a channel without looking into its transfers. -/
structure Located (d d' : Driver) : Prop where
  physAddr : d'.bufferPhysAddr = d.bufferPhysAddr
  handle : ∀ bd, (d'.pBdTable bd).dmaHandle = (d.pBdTable bd).dmaHandle
  length : ∀ bd, (d'.pBufferTable bd).length = (d.pBufferTable bd).length

section Driver

variable {d d' : Driver} {e : DmaProxy.Call} {reply : Reply} {answer : DmaProxy.Answer e}

theorem located_updateBd (bd : Int) {f : ProxyBd → ProxyBd}
    (hf : ∀ b, (f b).dmaHandle = b.dmaHandle) : Located d (d.updateBd bd f) :=
  ⟨rfl, DmaProxy.updateBd_handle hf, fun _ => rfl⟩

theorem located_setStatus (bd : Int) (status : ProxyStatus) :
    Located d (d.updateBuffer bd fun b => { b with status }) := by
  refine ⟨rfl, fun _ => rfl, fun bd' => ?_⟩
  by_cases h : bd' = bd
  · subst h
    simp [Driver.updateBuffer]
  · simp [Driver.updateBuffer, h]

theorem Proceeds.located (h : Proceeds d d') : Located d d' :=
  ⟨h.physAddr, h.handle, fun bd => by rw [h.buffers]⟩

theorem submit_located {bd cookie : Int} (h : d.submit bd cookie = some d') : Located d d' := by
  have hStore : Located d (d.storeCookie bd cookie) := located_updateBd bd fun _ => rfl
  unfold Driver.submit at h
  split at h
  · cases h
    exact ⟨hStore.physAddr, hStore.handle, hStore.length⟩
  · split at h <;> cases h
    exact ⟨hStore.physAddr, hStore.handle, hStore.length⟩

theorem perform_located (h : DmaProxy.perform e reply d = some (answer, d')) : Located d d' := by
  cases e with
  | sgInitTable bd | setSgDmaAddress bd | setSgDmaLen bd | initCompletion bd =>
    cases h
    exact located_updateBd bd fun _ => rfl
  | dmaengineSubmit bd desc =>
    obtain ⟨d₁, hSubmit, hEq⟩ := Option.map_eq_some_iff.mp h
    cases hEq
    exact submit_located hSubmit
  | devicePrepSlaveSg bd =>
    simp only [DmaProxy.perform] at h
    split at h <;> cases h <;> exact ⟨rfl, fun _ => rfl, fun _ => rfl⟩
  | waitForCompletionTimeout bd =>
    simp only [DmaProxy.perform] at h
    split at h <;> cases h
    · exact located_updateBd bd fun _ => rfl
    · exact ⟨rfl, fun _ => rfl, fun _ => rfl⟩
  | setStatus bd status =>
    cases h
    exact located_setStatus bd status
  | _ =>
    cases h
    exact ⟨rfl, fun _ => rfl, fun _ => rfl⟩

theorem submit_counts {bd cookie : Int} (h : d.submit bd cookie = some d') :
    d'.completed = d.completed ∧ d'.issued = d.issued ∧
      d'.transfers.length = d.transfers.length + if cookie < 0 then 0 else 1 := by
  unfold Driver.submit at h
  split at h
  · rename_i hRefused
    cases h
    rw [if_pos hRefused]
    exact ⟨rfl, rfl, rfl⟩
  · rename_i hAccepted
    rw [if_neg hAccepted]
    split at h <;> cases h
    exact ⟨rfl, rfl, List.length_append⟩

/-- A transfer is accepted with its descriptor; only `dma_async_issue_pending` issues. -/
theorem perform_counts (h : DmaProxy.perform e reply d = some (answer, d')) :
    d'.completed = d.completed ∧ (e ≠ .dmaAsyncIssuePending → d'.issued = d.issued) ∧
      d'.transfers.length = d.transfers.length + (accepted reply e).length := by
  cases e with
  | dmaengineSubmit bd desc =>
    obtain ⟨d₁, hSubmit, hEq⟩ := Option.map_eq_some_iff.mp h
    cases hEq
    obtain ⟨hCompleted, hIssued, hTransfers⟩ := submit_counts hSubmit
    refine ⟨hCompleted, fun _ => hIssued, hTransfers.trans ?_⟩
    rw [accepted, apply_ite List.length]
    rfl
  | dmaAsyncIssuePending =>
    cases h
    exact ⟨rfl, fun hOther => absurd rfl hOther, rfl⟩
  | devicePrepSlaveSg bd =>
    simp only [DmaProxy.perform] at h
    split at h <;> cases h <;> exact ⟨rfl, fun _ => rfl, rfl⟩
  | waitForCompletionTimeout bd =>
    simp only [DmaProxy.perform] at h
    split at h <;> cases h <;> exact ⟨rfl, fun _ => rfl, rfl⟩
  | _ =>
    cases h
    exact ⟨rfl, fun _ => rfl, rfl⟩

/-- The transfers whose callback is still to come. -/
def unfired (d : Driver) : Nat := d.transfers.countP fun t => t.outcome.isSome && !t.fired

theorem submit_unfired {bd cookie : Int} (h : d.submit bd cookie = some d') :
    unfired d' = unfired d := by
  unfold Driver.submit at h
  split at h
  · cases h
    rfl
  · split at h <;> cases h
    exact List.countP_append

theorem perform_unfired (h : DmaProxy.perform e reply d = some (answer, d')) :
    unfired d' = unfired d := by
  cases e with
  | dmaengineSubmit bd desc =>
    obtain ⟨d₁, hSubmit, hEq⟩ := Option.map_eq_some_iff.mp h
    cases hEq
    exact submit_unfired hSubmit
  | devicePrepSlaveSg bd =>
    simp only [DmaProxy.perform] at h
    split at h <;> cases h <;> rfl
  | waitForCompletionTimeout bd =>
    simp only [DmaProxy.perform] at h
    split at h <;> cases h <;> rfl
  | _ =>
    cases h
    rfl

theorem complete_unfired (h : d.engineStep (.complete true) = some d') :
    unfired d' ≤ unfired d + 1 := by
  obtain ⟨ok, t, -, hGet, -, hOpen, rfl⟩ | ⟨_, _, hEvent, -⟩ := DmaProxy.engineStep_cases h
  · obtain ⟨hBound, rfl⟩ := List.getElem?_eq_some_iff.mp hGet
    simp only [unfired, Driver.complete]
    rw [List.countP_set hBound]
    split <;> split <;> omega
  · cases hEvent

theorem callback_unfired {k : Nat} (h : d.engineStep (.callback k) = some d') :
    unfired d' + 1 = unfired d := by
  obtain ⟨_, _, hEvent, -⟩ | ⟨j, t, -, hGet, hDone, hFresh, rfl⟩ := DmaProxy.engineStep_cases h
  · cases hEvent
  · obtain ⟨hBound, rfl⟩ := List.getElem?_eq_some_iff.mp hGet
    have hOpen : (d.transfers[j].outcome.isSome && !d.transfers[j].fired) = true := by
      rw [hDone, hFresh]
      rfl
    have hPos : 0 < unfired d := List.countP_pos_iff.mpr ⟨_, List.getElem_mem hBound, hOpen⟩
    change (d.transfers.set j _).countP _ + 1 = unfired d
    rw [List.countP_set hBound, if_pos hOpen, if_neg (by simp)]
    exact Nat.sub_add_cancel hPos

end Driver

/-! ## The two levels side by side -/

section Relations

variable (cfg : Config) (r : Ring)

/-- The descriptor of transfer `k` of the ring. -/
def descriptor (d : Driver) (k : Nat) : Descriptor :=
  ⟨dmaHandle d.bufferPhysAddr (r.slot k), storedLength cfg⟩

/-- The channel of the bench and the one of the driver hold the same words and transfers. -/
structure Paired (c : Channel) (w : Lane) : Prop where
  pending : c.pending.length + w.driver.completed = w.driver.issued
  issued : w.driver.issued = c.ledger.starts.length
  queued : w.descriptors.length = w.driver.transfers.length
  described : ∀ k desc, w.descriptors[k]? = some desc → desc = descriptor cfg r w.driver k
  handles : ∀ b : Nat, b < DmaProxy.bufferCount →
    (w.driver.pBdTable b).dmaHandle = dmaHandle w.driver.bufferPhysAddr b
  lengths : ∀ b ∈ c.ledger.starts,
    (w.driver.pBufferTable (b : Nat)).length = storedLength cfg
  words : ∀ b i, b < DmaProxy.bufferCount → 4 * (i + 1) ≤ bufferSize →
    c.words b i = w.memory (w.address b i)

/-- What the calls of the round have made of the buffers they name. -/
structure Prepared (c : Channel) (d : Driver) (calls : List Op) : Prop where
  stored : ∀ b length, .setLength b length ∈ calls →
    (d.pBufferTable (b : Nat)).length = storedLength cfg
  finished : ∀ b count, .finishXfer b count ∈ calls → b ∈ c.ledger.starts

/-- In the start of transfer `n`, with `f` transfers finished: `left` is left of the ioctl. -/
structure InStart (c : Channel) (w : Lane) (f n : Nat) (count : Int)
    (rest : Answer (.startXfer (r.slot n) count) → Thread Next) (left : DmaProxy.Program Int)
    (calls : Nat) : Prop where
  request : w.request = some left
  code : w.code = .call (.startXfer (r.slot n) count) rest
  finishes : c.ledger.finishes.length = f
  follows : Follows (DmaProxy.Starting r f n (descriptor cfg r w.driver n))
    (fun _ => DmaProxy.Started r f n) left w.driver
  within : left.Within calls

/-- In the finish of transfer `f`, with `n` transfers started. -/
structure InFinish (c : Channel) (w : Lane) (f n : Nat) (count : Int)
    (rest : Answer (.finishXfer (r.slot f) count) → Thread Next) (left : DmaProxy.Program Int)
    (calls : Nat) : Prop where
  request : w.request = some left
  code : w.code = .call (.finishXfer (r.slot f) count) rest
  finishes : c.ledger.finishes.length = f
  starts : c.ledger.starts.length = n
  follows : Follows (DmaProxy.Finishing r f n) (fun _ => DmaProxy.Finished r f n) left w.driver
  within : left.Within calls

/-- The ioctl that a thread is in, and where the thread of the bench stands meanwhile: `started`
is from the issue of its transfer on. The thread makes at most `slack` steps that are none of the
bench. -/
inductive Engaged (side : Side) (c : Channel) (w : Lane) (ahead : Thread Next) (slack : Nat) :
    Prop where
  | idle (hRequest : w.request = none) (hAhead : ahead = w.code)
      (h : DmaProxy.Carries r c.ledger.finishes.length c.ledger.starts.length w.driver)
      (hSlack : DmaProxy.ioctlCalls + 2 ≤ slack)
  | starting {f n : Nat} {count : Int} {rest : Answer (.startXfer (r.slot n) count) → Thread Next}
      {request : DmaProxy.Program Int} {calls : Nat}
      (h : InStart cfg r c w f n count rest request calls) (hAhead : ahead = w.code)
      (hStarts : c.ledger.starts.length = n) (hSlack : calls + 1 ≤ slack)
  | started {f n : Nat} {count : Int} {rest : Answer (.startXfer (r.slot n) count) → Thread Next}
      {request : DmaProxy.Program Int} {calls : Nat}
      (h : InStart cfg r c w f n count rest request calls)
      (hAhead : ahead = settle (body cfg side) (rest ()))
      (hStarts : c.ledger.starts.length = n + 1)
      (hSlack : calls + DmaProxy.ioctlCalls + 3 ≤ slack)
  | finishing {f n : Nat} {count : Int}
      {rest : Answer (.finishXfer (r.slot f) count) → Thread Next}
      {request : DmaProxy.Program Int} {calls : Nat}
      (h : InFinish r c w f n count rest request calls) (hAhead : ahead = w.code)
      (hSlack : calls + 1 ≤ slack)

/-- The callbacks to come are steps that are none of the bench, too. -/
structure LaneLinked (side : Side) (c : Channel) (w : Lane) (ahead : Thread Next) (slack : Nat) :
    Prop where
  paired : Paired cfg r c w
  engaged : ∃ own, Engaged cfg r side c w ahead own ∧ own + unfired w.driver ≤ slack
  prepared : ∃ calls, Readies cfg (fun _ _ => True) w.code calls ∧ Prepared cfg c w.driver calls

/-- A thread outside of an ioctl. -/
structure Outside (calls : List Op) (c : Channel) (w : Lane) (slack : Nat) : Prop where
  request : w.request = none
  paired : Paired cfg r c w
  carries : DmaProxy.Carries r c.ledger.finishes.length c.ledger.starts.length w.driver
  prepared : Prepared cfg c w.driver calls
  slack_le : DmaProxy.ioctlCalls + 2 + unfired w.driver ≤ slack

end Relations

section Lanes

variable {cfg : Config} {r : Ring} {side : Side} {c c' : Channel} {w w' : Lane}
  {ahead : Thread Next} {calls : List Op} {d d' : Driver} {slack : Nat}

theorem descriptor_eq (h : Located d d') (k : Nat) :
    descriptor cfg r d' k = descriptor cfg r d k := by
  rw [descriptor, h.physAddr, descriptor]

theorem Paired.relocate (h : Paired cfg r c w) (hLocated : Located w.driver w'.driver)
    (hPending : c'.pending.length + w'.driver.completed = w'.driver.issued)
    (hIssued : w'.driver.issued = c'.ledger.starts.length)
    (hQueued : w'.descriptors.length = w'.driver.transfers.length)
    (hDescribed : ∀ k desc, w'.descriptors[k]? = some desc → desc = descriptor cfg r w.driver k)
    (hLengths : ∀ b ∈ c'.ledger.starts,
      (w.driver.pBufferTable (b : Nat)).length = storedLength cfg)
    (hWords : ∀ b i, b < DmaProxy.bufferCount → 4 * (i + 1) ≤ bufferSize →
      c'.words b i = w'.memory (w.address b i)) : Paired cfg r c' w' where
  pending := hPending
  issued := hIssued
  queued := hQueued
  described k desc hGet := by
    rw [descriptor_eq hLocated]
    exact hDescribed k desc hGet
  handles b hb := by
    rw [hLocated.handle, hLocated.physAddr]
    exact h.handles b hb
  lengths b hb := (hLocated.length b).trans (hLengths b hb)
  words b i hb hi := by
    rw [Lane.address, hLocated.physAddr]
    exact hWords b i hb hi

theorem accepted_length_le (reply : Reply) (e : DmaProxy.Call) :
    (accepted reply e).length ≤ 1 := by
  cases e with
  | dmaengineSubmit bd desc =>
    rw [accepted, apply_ite List.length]
    split
    · exact Nat.zero_le 1
    · exact le_rfl
  | _ => exact Nat.zero_le 1

theorem Paired.called (h : Paired cfg r c w) {e : DmaProxy.Call} {reply : Reply}
    {answer : DmaProxy.Answer e} (hPerform : DmaProxy.perform e reply w.driver = some (answer, d))
    (hIssue : e ≠ .dmaAsyncIssuePending)
    (hOwn : ∀ desc ∈ accepted reply e,
      desc = descriptor cfg r w.driver w.driver.transfers.length)
    (request : Option (DmaProxy.Program Int)) :
    Paired cfg r c { w with
      request, driver := d, descriptors := w.descriptors ++ accepted reply e } := by
  obtain ⟨hCompleted, hIssued, hTransfers⟩ := perform_counts hPerform
  have hIssued := hIssued hIssue
  refine h.relocate (perform_located hPerform) ?_ (hIssued.trans h.issued) ?_ ?_ h.lengths h.words
  · rw [hCompleted, hIssued]
    exact h.pending
  · rw [List.length_append, h.queued]
    exact hTransfers.symm
  · intro k desc hGet
    rcases Nat.lt_or_ge k w.descriptors.length with hOld | hNew
    · exact h.described k desc ((List.getElem?_append_left hOld).symm.trans hGet)
    · rw [List.getElem?_append_right hNew] at hGet
      have hBound := (List.getElem?_eq_some_iff.mp hGet).1
      have hOne := accepted_length_le reply e
      have hLast : k = w.driver.transfers.length := by
        rw [← h.queued]
        omega
      rw [hLast]
      exact hOwn desc (List.mem_of_getElem? hGet)

/-- The transfer is issued where the bench starts its buffer. -/
theorem Paired.start (h : Paired cfg r c w) {b : Nat}
    (hTransfers : w.driver.transfers.length = c.ledger.starts.length + 1)
    (hLength : (w.driver.pBufferTable b).length = storedLength cfg)
    (request : Option (DmaProxy.Program Int)) :
    Paired cfg r (c.start b) { w with
      request, driver := { w.driver with issued := w.driver.transfers.length } } := by
  have hPending := h.pending
  have hIssued := h.issued
  refine h.relocate ⟨rfl, fun _ => rfl, fun _ => rfl⟩ ?_ ?_ h.queued h.described ?_ h.words
  · change (c.pending ++ [b]).length + w.driver.completed = w.driver.transfers.length
    rw [List.length_append, List.length_singleton]
    omega
  · change w.driver.transfers.length = (c.ledger.starts ++ [b]).length
    rw [List.length_append, List.length_singleton]
    exact hTransfers
  · intro b' hb'
    rcases List.mem_append.mp hb' with hOld | hNew
    · exact h.lengths b' hOld
    · rw [List.mem_singleton.mp hNew]
      exact hLength

theorem Prepared.mono (h : Prepared cfg c d calls)
    (hLength : ∀ bd, (d'.pBufferTable bd).length = (d.pBufferTable bd).length)
    (hStarts : c.ledger.starts ⊆ c'.ledger.starts) : Prepared cfg c' d' calls where
  stored b length hb := (hLength b).trans (h.stored b length hb)
  finished b count hb := hStarts (h.finished b count hb)

theorem readies_resumed {e : Op} {rest : Answer e → Thread Next}
    (h : Readies cfg (fun _ _ => True) (.call e rest) calls) (answer : Answer e) :
    Readies cfg (fun _ _ => True) (settle (body cfg side) (rest answer)) (e :: calls) := by
  apply Always.settle (J := fun _ _ => True) (fun _ => rfl)
  · exact fun next calls _ => body_readies side next
  · exact h.answered (fun _ => rfl) rfl

/-! ### An ioctl -/

theorem Paired.ready (h : Paired cfg r c w) (hPrepared : Prepared cfg c w.driver calls) {b : Nat}
    {count : Int} (hReadied : Readied cfg (.startXfer b count) calls) :
    (w.driver.pBufferTable b).length = storedLength cfg := by
  rcases hReadied with ⟨length, hStored⟩ | ⟨count', hFinished⟩
  · exact hPrepared.stored b length hStored
  · exact h.lengths b (hPrepared.finished b count' hFinished)

theorem submit_of_accepted {reply : Reply} {e : DmaProxy.Call} {desc : Descriptor}
    (h : desc ∈ accepted reply e) : ∃ bd, e = .dmaengineSubmit bd desc := by
  cases e with
  | dmaengineSubmit bd desc' =>
    rw [accepted] at h
    split at h
    · cases h
    · rw [List.mem_singleton] at h
      exact ⟨bd, by rw [h]⟩
  | _ => cases h

/-- A call that neither submits a transfer nor issues one. -/
def Passive (e : DmaProxy.Call) : Prop :=
  e ≠ .dmaAsyncIssuePending ∧ ∀ bd desc, e ≠ .dmaengineSubmit bd desc

theorem passive_of_finishing {f n : Nat} {e : DmaProxy.Call} (h : DmaProxy.Finishing r f n e d) :
    Passive e := by
  constructor
  · rintro rfl
    exact h
  · rintro bd desc rfl
    exact h

theorem Paired.passive (h : Paired cfg r c w) {e : DmaProxy.Call} {reply : Reply}
    {answer : DmaProxy.Answer e} (hPerform : DmaProxy.perform e reply w.driver = some (answer, d))
    (hPassive : Passive e) (request : Option (DmaProxy.Program Int)) :
    Paired cfg r c { w with
      request, driver := d, descriptors := w.descriptors ++ accepted reply e } := by
  refine h.called hPerform hPassive.1 (fun desc hMem => ?_) request
  obtain ⟨bd, hSubmit⟩ := submit_of_accepted hMem
  exact absurd hSubmit (hPassive.2 bd desc)

/-- The lane after a call of the kernel. -/
abbrev Lane.called (w : Lane) (e : DmaProxy.Call) (reply : Reply)
    (request : DmaProxy.Program Int) (d : Driver) : Lane :=
  { w with request := some request, driver := d, descriptors := w.descriptors ++ accepted reply e }

/-- A step that is none of the bench, of a thread that stays in its ioctl or comes out of it. -/
theorem Engaged.silent {own : Nat} (h : Engaged cfg r side c w' ahead (own - 1)) (hPos : 0 < own)
    (hSlack : own + unfired w.driver ≤ slack) (hUnfired : unfired w'.driver = unfired w.driver)
    (hPaired : Paired cfg r c w')
    (hPrepared : ∃ calls, Readies cfg (fun _ _ => True) w'.code calls ∧
      Prepared cfg c w'.driver calls) :
    ∃ slack' < slack, LaneLinked cfg r side c w' ahead slack' :=
  ⟨slack - 1, by omega, hPaired, ⟨own - 1, h, by omega⟩, hPrepared⟩

section Called

variable {f n k : Nat} {count : Int} {request : DmaProxy.Program Int} {e : DmaProxy.Call}
  {next : DmaProxy.Answer e → DmaProxy.Program Int} {reply : Reply} {answer : DmaProxy.Answer e}

section Start

variable {rest : Answer (.startXfer (r.slot n) count) → Thread Next}

theorem InStart.moved (h : InStart cfg r c w f n count rest request k)
    (hMove : Proceeds w.driver w'.driver) (hCode : w'.code = w.code)
    (hRequest : w'.request = w.request) (hLedger : c'.ledger = c.ledger) :
    InStart cfg r c' w' f n count rest request k where
  request := hRequest.trans h.request
  code := hCode.trans h.code
  finishes := hLedger ▸ h.finishes
  follows := by
    rw [descriptor_eq (Proceeds.located hMove)]
    exact h.follows.moved DmaProxy.Proceeds.trans hMove
  within := h.within

theorem InStart.answered (h : InStart cfg r c w f n count rest (.call e next) k)
    (hPerform : DmaProxy.perform e reply w.driver = some (answer, d))
    (hWorks : DmaProxy.Works reply w.driver e) :
    InStart cfg r c (w.called e reply (next answer) d) f n count rest (next answer) (k - 1) where
  request := rfl
  code := h.code
  finishes := h.finishes
  follows := by
    rw [descriptor_eq (perform_located hPerform)]
    exact h.follows.answered DmaProxy.Proceeds.refl ⟨reply, hPerform, hWorks⟩
  within := h.within.2 answer

/-- A transfer is submitted with the descriptor of its buffer. -/
theorem InStart.called (h : InStart cfg r c w f n count rest (.call e next) k)
    (hPaired : Paired cfg r c w)
    (hPerform : DmaProxy.perform e reply w.driver = some (answer, d))
    (hIssue : e ≠ .dmaAsyncIssuePending) (request : DmaProxy.Program Int) :
    Paired cfg r c (w.called e reply request d) := by
  refine hPaired.called hPerform hIssue (fun desc hMem => ?_) _
  obtain ⟨bd, rfl⟩ := submit_of_accepted hMem
  obtain ⟨-, hDesc, hPreparing⟩ := h.follows.safe_call DmaProxy.Proceeds.refl
  rw [hPreparing.carries.length]
  exact hDesc

/-- Once the transfer has been issued the start issues nothing. -/
theorem InStart.issues_once (h : InStart cfg r c w f n count rest (.call e next) k)
    (hIssued : w.driver.issued = n + 1) : e ≠ .dmaAsyncIssuePending := by
  rintro rfl
  have hSubmitted : DmaProxy.Submitted r f n w.driver :=
    h.follows.safe_call DmaProxy.Proceeds.refl
  exact absurd (hSubmitted.issued.symm.trans hIssued) (Nat.succ_ne_self n).symm

/-- The transfer is issued, where the bench starts it. -/
theorem InStart.issued {next : Unit → DmaProxy.Program Int}
    (h : InStart cfg r c w f n count rest (.call .dmaAsyncIssuePending next) k)
    (hPaired : Paired cfg r c w) (hStarts : c.ledger.starts.length = n)
    (hReadies : Readies cfg (fun _ _ => True) w.code calls)
    (hPrepared : Prepared cfg c w.driver calls)
    (hPerform : DmaProxy.perform .dmaAsyncIssuePending reply w.driver = some ((), d)) :
    Paired cfg r (c.start (r.slot n)) (w.called .dmaAsyncIssuePending reply (next ()) d) := by
  have hSubmitted : DmaProxy.Submitted r f n w.driver :=
    h.follows.safe_call DmaProxy.Proceeds.refl
  have hTransfers : w.driver.transfers.length = c.ledger.starts.length + 1 :=
    hSubmitted.carries.length.trans (congrArg (· + 1) hStarts.symm)
  rw [h.code] at hReadies
  have hReadied : Readied cfg (.startXfer (r.slot n) count) calls :=
    hReadies.safe_call fun _ => rfl
  have hStarted := hPaired.start hTransfers (hPaired.ready hPrepared hReadied) (some (next ()))
  cases hPerform
  rw [← List.append_nil w.descriptors] at hStarted
  exact hStarted

theorem InStart.linked_issued {next : Unit → DmaProxy.Program Int} {own : Nat}
    (h : InStart cfg r c w f n count rest (.call .dmaAsyncIssuePending next) k)
    (hPaired : Paired cfg r c w) (hStarts : c.ledger.starts.length = n)
    (hReadies : Readies cfg (fun _ _ => True) w.code calls)
    (hPrepared : Prepared cfg c w.driver calls)
    (hPerform : DmaProxy.perform .dmaAsyncIssuePending reply w.driver = some ((), d))
    (hWorks : DmaProxy.Works reply w.driver .dmaAsyncIssuePending) (hOwn : k + 1 ≤ own)
    (hSlack : own + unfired w.driver ≤ slack) :
    LaneLinked cfg r side (c.start (r.slot n))
      (w.called .dmaAsyncIssuePending reply (next ()) d) (settle (body cfg side) (rest ()))
      (slack + DmaProxy.ioctlCalls + 1) := by
  have hCalls : 0 < k := h.within.1
  have hUnfired : unfired d = unfired w.driver := perform_unfired hPerform
  have hBegun : InStart cfg r (c.start (r.slot n)) (w.called .dmaAsyncIssuePending reply
    (next ()) d) f n count rest (next ()) (k - 1) := { h.answered hPerform hWorks with }
  have hOne : (c.start (r.slot n)).ledger.starts.length = n + 1 :=
    List.length_append.trans (congrArg (· + 1) hStarts)
  refine ⟨h.issued hPaired hStarts hReadies hPrepared hPerform,
    ⟨own + DmaProxy.ioctlCalls + 1, .started hBegun rfl hOne (by omega), ?_⟩, calls, hReadies,
    hPrepared.mono (perform_located hPerform).length (List.subset_append_left _ _)⟩
  rw [hUnfired]
  omega

end Start

section Finish

variable {rest : Answer (.finishXfer (r.slot f) count) → Thread Next}

theorem InFinish.moved (h : InFinish r c w f n count rest request k)
    (hMove : Proceeds w.driver w'.driver) (hCode : w'.code = w.code)
    (hRequest : w'.request = w.request) (hLedger : c'.ledger = c.ledger) :
    InFinish r c' w' f n count rest request k where
  request := hRequest.trans h.request
  code := hCode.trans h.code
  finishes := hLedger ▸ h.finishes
  starts := hLedger ▸ h.starts
  follows := h.follows.moved DmaProxy.Proceeds.trans hMove
  within := h.within

theorem InFinish.answered (h : InFinish r c w f n count rest (.call e next) k)
    (hPerform : DmaProxy.perform e reply w.driver = some (answer, d))
    (hWorks : DmaProxy.Works reply w.driver e) :
    InFinish r c (w.called e reply (next answer) d) f n count rest (next answer) (k - 1) where
  request := rfl
  code := h.code
  finishes := h.finishes
  starts := h.starts
  follows := h.follows.answered DmaProxy.Proceeds.refl ⟨reply, hPerform, hWorks⟩
  within := h.within.2 answer

/-- A finish submits nothing and issues nothing. -/
theorem InFinish.called (h : InFinish r c w f n count rest (.call e next) k)
    (hPaired : Paired cfg r c w)
    (hPerform : DmaProxy.perform e reply w.driver = some (answer, d))
    (request : DmaProxy.Program Int) : Paired cfg r c (w.called e reply request d) :=
  hPaired.passive hPerform
    (passive_of_finishing (h.follows.safe_call DmaProxy.Proceeds.refl)) _

end Finish

end Called

/-- A call of the kernel is none of the bench, or it issues the transfer of the start that the
thread is in. -/
theorem LaneLinked.called (h : LaneLinked cfg r side c w ahead slack)
    {e : DmaProxy.Call} {next : DmaProxy.Answer e → DmaProxy.Program Int}
    (hRequest : w.request = some (.call e next)) {reply : Reply} {answer : DmaProxy.Answer e}
    (hPerform : DmaProxy.perform e reply w.driver = some (answer, d))
    (hWorks : DmaProxy.Works reply w.driver e) :
    (∃ slack' < slack, LaneLinked cfg r side c (w.called e reply (next answer) d) ahead slack') ∨
      ∃ b count, ∃ rest : Answer (.startXfer b count) → Thread Next,
        ahead = .call (.startXfer b count) rest ∧
        LaneLinked cfg r side (c.start b) (w.called e reply (next answer) d)
          (settle (body cfg side) (rest ())) (slack + DmaProxy.ioctlCalls + 1) := by
  obtain ⟨hPaired, ⟨own, hEngaged, hSlack⟩, calls, hReadies, hPrepared⟩ := h
  have hUnfired : unfired d = unfired w.driver := perform_unfired hPerform
  have hStill : Prepared cfg c d calls :=
    hPrepared.mono (perform_located hPerform).length (List.Subset.refl _)
  cases hEngaged with
  | idle hIdle _ _ _ =>
    rw [hRequest] at hIdle
    cases hIdle
  | @starting f n count rest request k h hAhead hStarts hOwn =>
    obtain rfl : request = .call e next := Option.some.inj (h.request.symm.trans hRequest)
    by_cases hIssue : e = .dmaAsyncIssuePending
    · subst hIssue
      right
      exact ⟨r.slot n, count, rest, hAhead.trans h.code,
        h.linked_issued hPaired hStarts hReadies hPrepared hPerform hWorks hOwn hSlack⟩
    · left
      have hCalls : 0 < k := h.within.1
      have hEngaged : Engaged cfg r side c (w.called e reply (next answer) d) ahead (own - 1) :=
        .starting (h.answered hPerform hWorks) hAhead hStarts (by omega)
      exact hEngaged.silent (by omega) hSlack hUnfired (h.called hPaired hPerform hIssue _)
        ⟨calls, hReadies, hStill⟩
  | @started f n count rest request k h hAhead hStarts hOwn =>
    obtain rfl : request = .call e next := Option.some.inj (h.request.symm.trans hRequest)
    left
    have hCalls : 0 < k := h.within.1
    have hEngaged : Engaged cfg r side c (w.called e reply (next answer) d) ahead (own - 1) :=
      .started (h.answered hPerform hWorks) hAhead hStarts (by omega)
    have hIssue := h.issues_once (hPaired.issued.trans hStarts)
    exact hEngaged.silent (by omega) hSlack hUnfired (h.called hPaired hPerform hIssue _)
      ⟨calls, hReadies, hStill⟩
  | @finishing f n count rest request k h hAhead hOwn =>
    obtain rfl : request = .call e next := Option.some.inj (h.request.symm.trans hRequest)
    left
    have hCalls : 0 < k := h.within.1
    have hEngaged : Engaged cfg r side c (w.called e reply (next answer) d) ahead (own - 1) :=
      .finishing (h.answered hPerform hWorks) hAhead (by omega)
    exact hEngaged.silent (by omega) hSlack hUnfired (h.called hPaired hPerform _)
      ⟨calls, hReadies, hStill⟩

theorem LaneLinked.outside (h : LaneLinked cfg r side c w ahead slack)
    (hRequest : w.request = none) : ahead = w.code ∧
      ∃ calls, Readies cfg (fun _ _ => True) w.code calls ∧ Outside cfg r calls c w slack := by
  obtain ⟨hPaired, ⟨own, hEngaged, hSlack⟩, calls, hReadies, hPrepared⟩ := h
  cases hEngaged with
  | idle _ hAhead hCarries hOwn =>
    exact ⟨hAhead, calls, hReadies, hRequest, hPaired, hCarries, hPrepared, by omega⟩
  | starting hIn _ _ _ | started hIn _ _ _ | finishing hIn _ _ =>
    cases hRequest.symm.trans hIn.request

/-- A thread at a call that is no ioctl, or at none, is in no ioctl. -/
theorem LaneLinked.request_none (h : LaneLinked cfg r side c w ahead slack)
    (hHead : ∀ e, w.code.head = some e → e.ioctl = none) : w.request = none := by
  obtain ⟨own, hEngaged, -⟩ := h.engaged
  cases hEngaged with
  | idle hIdle _ _ _ => exact hIdle
  | starting hIn _ _ _ | started hIn _ _ _ | finishing hIn _ _ =>
    rw [hIn.code] at hHead
    cases hHead _ rfl

theorem Outside.linked (h : Outside cfg r calls c w slack) {p : Thread Next}
    (hReadies : Readies cfg (fun _ _ => True) p calls) :
    LaneLinked cfg r side c { w with code := p } p slack where
  paired := { h.paired with }
  engaged := ⟨_, .idle h.request rfl h.carries le_rfl, h.slack_le⟩
  prepared := ⟨calls, hReadies, h.prepared⟩

theorem Paired.thread (h : Paired cfg r c w) (code : Thread Next)
    (request : Option (DmaProxy.Program Int)) : Paired cfg r c { w with code, request } :=
  { h with }

/-- An ioctl that keeps the discipline of the ring is one that its program can meet. -/
theorem LaneLinked.entered {t : Setting} {v : View}
    (h : LaneLinked cfg t.ring side c w ahead slack)
    (hSize : t.ring.size ≤ DmaProxy.bufferCount) (hRequest : w.request = none) {e : Op}
    {rest : Answer e → Thread Next} (hCode : w.code = .call e rest) {cmd : Cmd} {b : Nat}
    (hIoctl : e.ioctl = some (cmd, b)) (hLedger : v.ledger = c.ledger) (hSafe : Safe t e v)
    (trace : Bool) : ∃ slack' < slack, LaneLinked cfg t.ring side c
      { w with request := some (DmaProxy.ioctl trace cmd b) } ahead slack' := by
  obtain ⟨hAhead, calls, hReadies, -, hPaired, hCarries, hPrepared, hSlack⟩ := h.outside hRequest
  obtain ⟨s, f, hMatches, -, -, hFits⟩ := hSafe
  rw [hLedger] at hMatches
  have hStarts := hMatches.starts_length
  have hFinishes := hMatches.finishes_length
  have hIssued := hPaired.issued
  rw [hStarts, hFinishes] at hCarries
  rw [hStarts] at hIssued
  have hOwn : DmaProxy.ioctlCalls + 1 + unfired w.driver ≤ slack - 1 := by omega
  refine ⟨slack - 1, by omega, hPaired.thread _ _, ⟨_, ?_, hOwn⟩, calls, hReadies, hPrepared⟩
  cases e with
  | startXfer b' count =>
    cases hIoctl
    obtain ⟨rfl, hFree, -, -⟩ := hFits
    rw [hCode] at hReadies
    have hReady := hPaired.ready hPrepared (hReadies.safe_call fun _ => rfl)
    have hHandle := hPaired.handles (t.ring.slot s) ((t.ring.slot_lt s).trans_le hSize)
    have hWithin := DmaProxy.ioctl_within (.inl rfl) trace (t.ring.slot s)
    refine .starting ⟨rfl, hCode, hFinishes, ?_, hWithin⟩ hAhead hStarts le_rfl
    exact DmaProxy.start_follows ⟨hCarries, hIssued, hFree, hHandle, hReady⟩ trace
  | finishXfer b' count =>
    cases hIoctl
    obtain ⟨rfl, hEarly, -⟩ := hFits
    have hFollows := DmaProxy.finish_follows ⟨hCarries, hIssued, hEarly⟩ trace
    have hWithin := DmaProxy.ioctl_within (.inr rfl) trace (t.ring.slot f)
    exact .finishing ⟨rfl, hCode, hFinishes, hStarts, hFollows, hWithin⟩ hAhead le_rfl
  | _ => cases hIoctl

theorem Paired.completed {t : Setting} {k s f : Nat} (h : Paired cfg t.ring c w)
    (hOk : ChannelOk t k s f c) : w.driver.completed = k := by
  have hPending := h.pending
  have hIssued := h.issued
  have hLe := hOk.le_started
  rw [hOk.pending, List.length_map, List.length_range'] at hPending
  rw [hOk.starts_length] at hIssued
  omega

theorem Prepared.cons (h : Prepared cfg c d calls) {e : Op}
    (hLength : ∀ b length, e = .setLength b length →
      (d.pBufferTable (b : Nat)).length = storedLength cfg)
    (hFinish : ∀ b count, e = .finishXfer b count → b ∈ c.ledger.starts) :
    Prepared cfg c d (e :: calls) where
  stored b length hb :=
    (List.mem_cons.mp hb).elim (fun hHere => hLength b length hHere.symm) (h.stored b length)
  finished b count hb :=
    (List.mem_cons.mp hb).elim (fun hHere => hFinish b count hHere.symm) (h.finished b count)

theorem ChannelOk.finish_moved {t : Setting} {k s f : Nat} (hOk : ChannelOk t k s f c)
    (hMoved : f < k) : c.finish (t.ring.slot f) = some (.noError, { c with
      ledger := c.ledger.finished (t.ring.slot f)
      completed := c.completed.erase (t.ring.slot f) }) := by
  have hMem : t.ring.slot f ∈ c.completed := by
    rw [hOk.completed, mem_slots]
    exact ⟨f, le_rfl, by omega, rfl⟩
  rw [Channel.finish, if_pos hMem]

/-- A start comes back with its transfer issued. -/
theorem InStart.returned {f n k : Nat} {count value : Int}
    {rest : Answer (.startXfer (r.slot n) count) → Thread Next}
    (h : InStart cfg r c w f n count rest (.ret value) k) (hPaired : Paired cfg r c w) :
    c.ledger.starts.length = n + 1 ∧
      DmaProxy.Carries r c.ledger.finishes.length c.ledger.starts.length w.driver := by
  have hStarted : DmaProxy.Started r f n w.driver := h.follows _ (.refl _)
  have hStarts := hPaired.issued.symm.trans hStarted.issued
  refine ⟨hStarts, ?_⟩
  rw [h.finishes, hStarts]
  exact hStarted.carries

/-- A finish comes back once the engine has moved its transfer, without error. -/
theorem InFinish.returned {t : Setting} {k s f f' n i : Nat} {count value : Int}
    {rest : Answer (.finishXfer (t.ring.slot f') count) → Thread Next}
    (h : InFinish t.ring c w f' n count rest (.ret value) i) (hPaired : Paired cfg t.ring c w)
    (hOk : ChannelOk t k s f c) :
    f' = f ∧ f < k ∧ DmaProxy.Finished t.ring f s w.driver := by
  obtain rfl := h.finishes.symm.trans hOk.finishes_length
  obtain rfl := h.starts.symm.trans hOk.starts_length
  have hFinished : DmaProxy.Finished t.ring f' n w.driver := h.follows _ (.refl _)
  have hMoved := hFinished.carries.finished_le
  rw [hPaired.completed hOk] at hMoved
  exact ⟨rfl, hMoved, hFinished⟩

/-- The finish of the bench, where the driver has done its own. -/
theorem LaneLinked.finished {t : Setting} {k s f : Nat} {count : Int} {code : Thread Next}
    (side : Side) (hPaired : Paired cfg t.ring c w) (hOk : ChannelOk t k s f c) (hMoved : f < k)
    (hFinished : DmaProxy.Finished t.ring f s w.driver)
    (hReadies : Readies cfg (fun _ _ => True) code (.finishXfer (t.ring.slot f) count :: calls))
    (hPrepared : Prepared cfg c w.driver calls) (hSlack : 1 + unfired w.driver ≤ slack) :
    ∃ c', c.finish (t.ring.slot f) = some (.noError, c') ∧
      LaneLinked cfg t.ring side c' { w with code, request := none } code
        (slack + DmaProxy.ioctlCalls + 1) := by
  have hMem : t.ring.slot f ∈ c.ledger.starts := by
    rw [hOk.starts]
    exact List.mem_map.mpr ⟨f, List.mem_range.mpr (hMoved.trans_le hOk.le_started), rfl⟩
  have hAdded : Prepared cfg c w.driver (.finishXfer (t.ring.slot f) count :: calls) := by
    refine hPrepared.cons (fun _ _ hNot => by cases hNot) fun _ _ hHere => ?_
    cases hHere
    exact hMem
  have hIdle : DmaProxy.ioctlCalls + 2 + unfired w.driver ≤ slack + DmaProxy.ioctlCalls + 1 := by
    omega
  refine ⟨_, hOk.finish_moved hMoved, { hPaired with }, ⟨_, .idle rfl rfl ?_ le_rfl, hIdle⟩, _,
    hReadies, { hAdded with }⟩
  change DmaProxy.Carries t.ring (c.ledger.finishes ++ [_]).length c.ledger.starts.length w.driver
  rw [List.length_append, hOk.finishes_length, hOk.starts_length]
  exact hFinished.carries

/-- Coming back from a start is no step of the bench, coming back from a finish is its finish. -/
theorem LaneLinked.returned {t : Setting} {k s f : Nat}
    (h : LaneLinked cfg t.ring side c w ahead slack) (hOk : ChannelOk t k s f c) {value : Int}
    (hRequest : w.request = some (.ret value)) {e : Op} {rest : Answer e → Thread Next}
    (hCode : w.code = .call e rest) {answer : Answer e}
    (hResult : e.result w.driver = some answer) :
    let w' : Lane := { w with code := settle (body cfg side) (rest answer), request := none }
    (∃ slack' < slack, LaneLinked cfg t.ring side c w' ahead slack') ∨
      ∃ b count c', ∃ rest : Answer (.finishXfer b count) → Thread Next,
        ahead = .call (.finishXfer b count) rest ∧ c.finish b = some (.noError, c') ∧
        LaneLinked cfg t.ring side c' w' (settle (body cfg side) (rest .noError))
          (slack + DmaProxy.ioctlCalls + 1) := by
  intro w'
  obtain ⟨hPaired, ⟨own, hEngaged, hSlack⟩, calls, hReadies, hPrepared⟩ := h
  rw [hCode] at hReadies
  cases hEngaged with
  | idle hIdle _ _ _ => cases hRequest.symm.trans hIdle
  | @starting f' n count rest' left i hIn hAhead hStarts hOwn =>
    obtain rfl : left = .ret value := Option.some.inj (hIn.request.symm.trans hRequest)
    exact absurd ((hIn.returned hPaired).1.symm.trans hStarts) (Nat.succ_ne_self n)
  | @started f' n count rest' left i hIn hAhead hStarts hOwn =>
    obtain rfl : left = .ret value := Option.some.inj (hIn.request.symm.trans hRequest)
    left
    cases hCode.symm.trans hIn.code
    cases hResult
    have hCarries := (hIn.returned hPaired).2
    have hAdded : Prepared cfg c w.driver (.startXfer (t.ring.slot n) count :: calls) :=
      hPrepared.cons (fun _ _ hNot => by cases hNot) fun _ _ hNot => by cases hNot
    have hIdle : DmaProxy.ioctlCalls + 2 + unfired w.driver ≤ slack - 1 := by omega
    exact ⟨slack - 1, by omega, hPaired.thread _ _, ⟨_, .idle rfl hAhead hCarries le_rfl, hIdle⟩,
      _, readies_resumed hReadies (), hAdded⟩
  | @finishing f' n count rest' left i hIn hAhead hOwn =>
    obtain rfl : left = .ret value := Option.some.inj (hIn.request.symm.trans hRequest)
    right
    obtain ⟨rfl, hMoved, hFinished⟩ := hIn.returned hPaired hOk
    cases hCode.symm.trans hIn.code
    obtain rfl : answer = .noError := (Option.some.inj hResult).symm.trans hFinished.status
    have hOne : 1 + unfired w.driver ≤ slack := by omega
    obtain ⟨c', hFinish, hLinked⟩ := LaneLinked.finished side hPaired hOk hMoved hFinished
      (readies_resumed hReadies .noError) hPrepared hOne
    exact ⟨_, count, c', rest', hAhead.trans hCode, hFinish, hLinked⟩

/-! ### Words and lengths -/

theorem wordAddress_inj {physAddr b b' i i' : Nat} (hi : 4 * (i + 1) ≤ bufferSize)
    (hi' : 4 * (i' + 1) ≤ bufferSize) (h : wordAddress physAddr b i = wordAddress physAddr b' i') :
    b = b' ∧ i = i' := by
  simp only [wordAddress, dmaHandle, DmaProxy.sizeofChannelBuffer, DmaProxy.offsetofLength,
    DmaProxy.offsetofStatus, DmaProxy.offsetofBuffer, DmaProxy.sizeofWord, bufferSize] at *
  omega

theorem Paired.write (h : Paired cfg r c w) {b i : Nat} (hi : 4 * (i + 1) ≤ bufferSize)
    (value : BitVec 32) : Paired cfg r (c.write b i value) (w.writeWord b i value) := by
  refine { h with words := fun b' i' hb' hi' => ?_ }
  have hOld := h.words b' i' hb' hi'
  by_cases hSame : b' = b ∧ i' = i
  · obtain ⟨rfl, rfl⟩ := hSame
    simp [Channel.write, Lane.writeWord, Lane.address]
  · have hOther : w.address b' i' ≠ w.address b i :=
      fun hEq => hSame (wordAddress_inj hi' hi hEq)
    refine Eq.trans ?_ (hOld.trans (Function.update_of_ne hOther _ _).symm)
    rcases eq_or_ne b' b with rfl | hBuffer
    · have hWord : i' ≠ i := fun hEq => hSame ⟨rfl, hEq⟩
      simp [Channel.write, Function.update_of_ne hWord]
    · simp [Channel.write, Function.update_of_ne hBuffer]

theorem setLength_length {length : BitVec 32} {b : Nat} {bd : Int}
    (h : bd = b ∨ (w.driver.pBufferTable bd).length = length) :
    ((w.setLength b length).driver.pBufferTable bd).length = length := by
  by_cases hSame : bd = b
  · subst hSame
    simp [Lane.setLength, Driver.updateBuffer]
  · simp only [Lane.setLength, Driver.updateBuffer, Function.update_of_ne hSame]
    exact h.resolve_left hSame

theorem Outside.setLength (h : Outside cfg r calls c w slack) (b : Nat) :
    Outside cfg r (.setLength b (storedLength cfg) :: calls) c (w.setLength b (storedLength cfg))
      slack where
  request := h.request
  paired := { h.paired with
    lengths := fun b' hb' => setLength_length (.inr (h.paired.lengths b' hb')) }
  carries := h.carries.updateBuffer b fun buffer =>
    { buffer with length := storedLength cfg }
  prepared := {
    stored := fun b' length hb' => by
      apply setLength_length
      rcases List.mem_cons.mp hb' with hHere | hOld
      · cases hHere
        exact .inl rfl
      · exact .inr (h.prepared.stored b' length hOld)
    finished := fun b' count hb' => by
      rcases List.mem_cons.mp hb' with hNot | hOld
      · cases hNot
      · exact h.prepared.finished b' count hOld }
  slack_le := h.slack_le

/-- Neither the length of a buffer nor a finish. -/
def Op.Plain : Op → Prop
  | .setLength _ _ | .finishXfer _ _ => False
  | _ => True

theorem Outside.plain (h : Outside cfg r calls c w slack) {e : Op} (hPlain : e.Plain) :
    Outside cfg r (e :: calls) c w slack where
  request := h.request
  paired := h.paired
  carries := h.carries
  prepared := by
    apply h.prepared.cons
    · rintro b length rfl
      exact hPlain.elim
    · rintro b count rfl
      exact hPlain.elim
  slack_le := h.slack_le

theorem Outside.test (h : Outside cfg r calls c w slack) (slots : Nat) (test : Test) (count : Int)
    (reached : Bool) : Outside cfg r calls (c.test slots test count reached) w slack :=
  ⟨h.request, { h.paired with }, h.carries, { h.prepared with }, h.slack_le⟩

/-! ### The engine -/

/-- The engine and its callbacks leave the ioctl of a thread where it is. -/
theorem LaneLinked.moved (h : LaneLinked cfg r side c w ahead slack)
    (hPaired : Paired cfg r c' w') (hMove : DmaProxy.Proceeds w.driver w'.driver)
    (hCode : w'.code = w.code) (hRequest : w'.request = w.request)
    (hLedger : c'.ledger = c.ledger) {slack' : Nat}
    (hUnfired : unfired w'.driver + slack ≤ unfired w.driver + slack') :
    LaneLinked cfg r side c' w' ahead slack' := by
  obtain ⟨-, ⟨own, hEngaged, hSlack⟩, calls, hReadies, hPrepared⟩ := h
  have hLocated := Proceeds.located hMove
  refine ⟨hPaired, ⟨own, ?_, by omega⟩, calls, hCode ▸ hReadies,
    hPrepared.mono hLocated.length ?_⟩
  · cases hEngaged with
    | idle hHere hAhead hCarries hOwn =>
      refine .idle (hRequest.trans hHere) (hAhead.trans hCode.symm) ?_ hOwn
      rw [hLedger]
      exact hMove.carries _ _ _ hCarries
    | starting hIn hAhead hStarts hOwn =>
      exact .starting (hIn.moved hMove hCode hRequest hLedger) (hAhead.trans hCode.symm)
        (hLedger ▸ hStarts) hOwn
    | started hIn hAhead hStarts hOwn =>
      exact .started (hIn.moved hMove hCode hRequest hLedger) hAhead (hLedger ▸ hStarts) hOwn
    | finishing hIn hAhead hOwn =>
      exact .finishing (hIn.moved hMove hCode hRequest hLedger) (hAhead.trans hCode.symm) hOwn
  · rw [hLedger]
    exact List.Subset.refl _

theorem complete_counts (h : d.engineStep (.complete true) = some d') :
    d.completed < d.issued ∧ d'.completed = d.completed + 1 ∧ d'.issued = d.issued ∧
      d'.transfers.length = d.transfers.length := by
  obtain ⟨ok, t, -, -, hPending, -, rfl⟩ | ⟨_, _, hEvent, -⟩ := DmaProxy.engineStep_cases h
  · exact ⟨hPending, rfl, rfl, List.length_set⟩
  · cases hEvent

theorem Paired.complete (h : Paired cfg r c w)
    (hEngine : w.driver.engineStep (.complete true) = some d) {b : Nat} {bs : List Nat}
    (hPending : c.pending = b :: bs) {words : Nat → Nat → BitVec 32} {memory : Nat → BitVec 32}
    (hWords : ∀ b i, b < DmaProxy.bufferCount → 4 * (i + 1) ≤ bufferSize →
      words b i = memory (w.address b i)) (completed : List Nat) :
    Paired cfg r { c with pending := bs, completed, words } { w with driver := d, memory } := by
  obtain ⟨-, hCompleted, hIssued, hTransfers⟩ := complete_counts hEngine
  have hCount := h.pending
  rw [hPending, List.length_cons] at hCount
  refine h.relocate (Proceeds.located (DmaProxy.proceeds_complete hEngine)) ?_
    (hIssued.trans h.issued) (h.queued.trans hTransfers.symm) h.described h.lengths hWords
  change bs.length + d.completed = d.issued
  omega

theorem Paired.callback (h : Paired cfg r c w) {k : Nat}
    (hEngine : w.driver.engineStep (.callback k) = some d) :
    Paired cfg r c { w with driver := d } := by
  have hLocated := Proceeds.located (DmaProxy.proceeds_callback hEngine)
  obtain ⟨_, _, hEvent, -⟩ | ⟨j, t, -, -, -, -, rfl⟩ := DmaProxy.engineStep_cases hEngine
  · cases hEvent
  · exact h.relocate hLocated h.pending h.issued (h.queued.trans List.length_set.symm) h.described
      h.lengths h.words

theorem ChannelOk.pending_cons {t : Setting} {k s f : Nat} (h : ChannelOk t k s f c)
    (hMore : k < s) : ∃ bs, c.pending = t.ring.slot k :: bs := by
  have hSplit : s - k = s - (k + 1) + 1 := by omega
  rw [h.pending, hSplit, List.range'_succ, List.map_cons]
  exact ⟨_, rfl⟩

/-- What the engine moves by the addresses of two descriptors are the words of two buffers. -/
theorem moved_word {rTx rRx : Ring} {cTx cRx : Channel} {tx rx : Lane}
    (hTx : Paired cfg rTx cTx tx) (hRx : Paired cfg rRx cRx rx) (hSize : cfg.testSize ≤ bufferSize)
    {k : Nat} (hSource : rTx.slot k < DmaProxy.bufferCount) {b i : Nat}
    (hb : b < DmaProxy.bufferCount) (hi : 4 * (i + 1) ≤ bufferSize) :
    Function.update cRx.words (rRx.slot k)
        (copied cfg (cTx.words (rTx.slot k)) (cRx.words (rRx.slot k))) b i =
      moved (descriptor cfg rTx tx.driver k) (descriptor cfg rRx rx.driver k) tx.memory rx.memory
        (rx.address b i) := by
  have hLength : (storedLength cfg).toNat = cfg.testSize := by
    rw [storedLength, BitVec.toNat_ofNat]
    exact Nat.mod_eq_of_lt (hSize.trans_lt (by decide))
  have hOld := hRx.words b i hb hi
  simp only [moved, descriptor, hLength, min_self]
  rcases eq_or_ne b (rRx.slot k) with rfl | hOther
  · have hOffset : rx.address (rRx.slot k) i -
        dmaHandle rx.driver.bufferPhysAddr (rRx.slot k) = 4 * i := Nat.add_sub_cancel_left _ _
    have hLow : dmaHandle rx.driver.bufferPhysAddr (rRx.slot k) ≤ rx.address (rRx.slot k) i :=
      Nat.le_add_right _ _
    rw [Function.update_self, copied, hOffset, hOld, hTx.words _ i hSource hi, wordCount]
    refine if_congr ?_ rfl rfl
    omega
  · rw [Function.update_of_ne hOther, if_neg]
    · exact hOld
    · simp only [Lane.address, wordAddress, dmaHandle, DmaProxy.sizeofChannelBuffer,
        DmaProxy.offsetofLength, DmaProxy.offsetofStatus, DmaProxy.offsetofBuffer,
        DmaProxy.sizeofWord, bufferSize] at *
      omega

end Lanes

end SoftwarePrototypes.DmaProxyTest
