import SoftwarePrototypes.DmaProxy.SuccessSoundness

/-! # Whose completion a wait consumes

All transfers of a BD signal the one completion of the BD. A signal belongs to the start that a
wait is paired with unless an earlier transfer, whose wait has timed out, calls back after the
completion has been initialized anew.
-/

namespace SoftwarePrototypes.DmaProxy

open Interaction Interaction.Runs Interaction.Prog

/-! ## Starts, waits and callbacks in pairs -/

/-- A BD between its starts and its waits. -/
inductive Phase where
  | idle | preparing | started (transfer : Nat)
  deriving DecidableEq

/-- For every BD the transfers whose callbacks have signalled its completion and have not been
consumed, the oldest first, and its phase; the driver keeps no such record. -/
structure Record where
  signals : Int → List Nat
  phase : Int → Phase

def Record.called (r : Record) (d : Driver) (reply : Reply) : Call → Record
  | .initCompletion bd =>
    ⟨Function.update r.signals bd [], Function.update r.phase bd .preparing⟩
  | .dmaengineSubmit bd _ =>
    let phase : Phase := if reply.value < 0 then .idle else .started d.transfers.length
    { r with phase := Function.update r.phase bd phase }
  | .waitForCompletionTimeout bd =>
    ⟨Function.update r.signals bd (r.signals bd).tail, Function.update r.phase bd .idle⟩
  | _ => r

def Record.signalled (r : Record) (bd : Int) (k : Nat) : Record :=
  { r with signals := Function.update r.signals bd (r.signals bd ++ [k]) }

def Record.moved (r : Record) (d : Driver) : EngineEvent → Record
  | .complete _ => r
  | .callback k =>
    match d.transfers[k]? with
    | some t => r.signalled t.bd k
    | none => r

structure LoggedSession where
  session : Session
  record : Record

def LoggedSession.recorded (w : LoggedSession) : Label → Record
  | .advance reply =>
    match w.session.current with
    | .ret _ => w.record
    | .call e _ => w.record.called w.session.driver reply e
  | .engine event => w.record.moved w.session.driver event
  | _ => w.record

def LoggedSession.step (platform : Platform) (w : LoggedSession) (label : Label) :
    Option LoggedSession :=
  (w.session.step platform label).map fun session => ⟨session, w.recorded label⟩

def LoggedSession.opened (pBdTable : Int → ProxyBd) (pBufferTable : Int → ChannelBuffer)
    (bufferPhysAddr : Nat) : LoggedSession :=
  ⟨.opened pBdTable pBufferTable bufferPhysAddr, fun _ => [], fun _ => .idle⟩

/-! ## The laws of a session -/

/-- A signal that a wait finds is that of the transfer of its start, and an outcome that is about
to be stored is that of the latest transfer. -/
def Attributed (w : LoggedSession) : Label → Prop
  | .advance _ =>
    match w.session.current.head with
    | some (.waitForCompletionTimeout bd) => 0 < (w.session.driver.pBdTable bd).done →
        (w.record.signals bd).head?.map .started = some (w.record.phase bd)
    | some (.setStatus bd .noError) => w.session.driver.Ended bd true
    | some (.setStatus bd .error) => w.session.driver.Ended bd false
    | _ => True
  | _ => True

/-- On each BD starts and waits alternate, and every start is accepted. -/
def Record.Admits (r : Record) (reply : Reply) : Call → Prop
  | .devicePrepSlaveSg _ => reply.ok = true
  | .initCompletion bd => r.phase bd = .idle
  | .dmaengineSubmit _ _ => 0 ≤ reply.value
  | .waitForCompletionTimeout bd => r.phase bd ≠ .idle
  | _ => True

def Alternates (w : LoggedSession) : Label → Prop
  | .advance reply => ∀ e ∈ w.session.current.head, w.record.Admits reply e
  | _ => True

/-- A transfer calls back while its BD is idle or waits for it. -/
def InTime (w : LoggedSession) : Label → Prop
  | .engine (.callback k) => ∀ t ∈ w.session.driver.transfers[k]?,
      w.record.phase t.bd = .idle ∨ w.record.phase t.bd = .started k
  | _ => True

instance (w : LoggedSession) : (label : Label) → Decidable (Attributed w label)
  | .advance _ =>
    match hHead : w.session.current.head with
    | some (.waitForCompletionTimeout bd) =>
      decidable_of_iff (0 < (w.session.driver.pBdTable bd).done →
        (w.record.signals bd).head?.map .started = some (w.record.phase bd))
        (by rw [Attributed, hHead])
    | some (.setStatus bd .noError) =>
      decidable_of_iff (w.session.driver.Ended bd true) (by rw [Attributed, hHead])
    | some (.setStatus bd .error) =>
      decidable_of_iff (w.session.driver.Ended bd false) (by rw [Attributed, hHead])
    | none | some (.setStatus _ .timeout) | some (.setStatus _ .busy)
    | some (.copyFromUser _) | some .readBdindex | some (.readLength _) | some (.sgInitTable _)
    | some (.setSgDmaAddress _) | some (.setSgDmaLen _) | some (.devicePrepSlaveSg _)
    | some (.initCompletion _) | some (.dmaengineSubmit _ _) | some (.readCookie _)
    | some .dmaAsyncIssuePending | some (.dmaAsyncIsTxComplete _) =>
      decidable_of_iff True (by rw [Attributed, hHead])
  | .ioctl _ _ | .mmap _ _ | .writeLength _ _ | .engine _ => inferInstanceAs (Decidable True)

instance (r : Record) (reply : Reply) : (e : Call) → Decidable (r.Admits reply e)
  | .devicePrepSlaveSg _ => inferInstanceAs (Decidable (_ = _))
  | .initCompletion _ => inferInstanceAs (Decidable (_ = _))
  | .dmaengineSubmit _ _ => inferInstanceAs (Decidable (_ ≤ _))
  | .waitForCompletionTimeout _ => inferInstanceAs (Decidable (_ ≠ _))
  | .copyFromUser _ | .readBdindex | .readLength _ | .sgInitTable _ | .setSgDmaAddress _
  | .setSgDmaLen _ | .readCookie _ | .dmaAsyncIssuePending | .setStatus _ _
  | .dmaAsyncIsTxComplete _ => inferInstanceAs (Decidable True)

instance (w : LoggedSession) : (label : Label) → Decidable (Alternates w label)
  | .advance reply =>
    inferInstanceAs (Decidable (∀ e ∈ w.session.current.head, w.record.Admits reply e))
  | .ioctl _ _ | .mmap _ _ | .writeLength _ _ | .engine _ => inferInstanceAs (Decidable True)

instance (w : LoggedSession) (label : Label) : Decidable (InTime w label) := by
  unfold InTime
  split <;> infer_instance

/-! ## What the record says of a BD -/

/-- The callback of the transfer has run. -/
def Driver.Fired (d : Driver) (k : Nat) : Prop :=
  ∃ t, d.transfers[k]? = some t ∧ t.fired = true

/-- While a BD is started, its completion holds signals of its own transfer only. -/
def BdKept (d : Driver) (r : Record) (bd : Int) : Prop :=
  match r.phase bd with
  | .idle => True
  | .preparing => (d.pBdTable bd).done = 0 ∧ r.signals bd = []
  | .started k => d.latestStart bd = some (.accepted k) ∧
      (d.pBdTable bd).done = (r.signals bd).length ∧ ∀ j ∈ r.signals bd, j = k ∧ d.Fired j

structure Kept (d : Driver) (r : Record) : Prop where
  consistent : Consistent d
  outcome : ∀ t ∈ d.transfers, t.fired = true → t.outcome.isSome = true
  bds : ∀ bd, BdKept d r bd

section Record

variable {d d' : Driver} {r r' : Record} {bd : Int}

theorem BdKept.idle (h : r.phase bd = .idle) : BdKept d r bd := by
  rw [BdKept, h]
  trivial

theorem BdKept.of_same (h : BdKept d r bd) (hPhase : r'.phase bd = r.phase bd)
    (hSignals : r'.signals bd = r.signals bd)
    (hDone : (d'.pBdTable bd).done = (d.pBdTable bd).done)
    (hLatest : d'.latestStart bd = d.latestStart bd) (hFired : ∀ k, d.Fired k → d'.Fired k) :
    BdKept d' r' bd := by
  unfold BdKept at h ⊢
  rw [hPhase, hSignals, hDone, hLatest]
  split
  · trivial
  · rename_i hPreparing
    rwa [hPreparing] at h
  · rename_i k hStarted
    rw [hStarted] at h
    exact ⟨h.1, h.2.1, fun j hj => ⟨(h.2.2 j hj).1, hFired j (h.2.2 j hj).2⟩⟩

theorem BdKept.started {k : Nat} (h : BdKept d r bd) (hPhase : r.phase bd = .started k) :
    d.latestStart bd = some (.accepted k) ∧ (d.pBdTable bd).done = (r.signals bd).length ∧
      ∀ j ∈ r.signals bd, j = k ∧ d.Fired j := by
  rwa [BdKept, hPhase] at h

theorem BdKept.preparing (h : BdKept d r bd) (hPhase : r.phase bd = .preparing) :
    (d.pBdTable bd).done = 0 ∧ r.signals bd = [] := by
  rwa [BdKept, hPhase] at h

/-- A step that works on one BD leaves the others as they were. -/
theorem Kept.update (h : Kept d r) (bd : Int) (hConsistent : Consistent d')
    (hOutcome : ∀ t ∈ d'.transfers, t.fired = true → t.outcome.isSome = true)
    (hFired : ∀ k, d.Fired k → d'.Fired k)
    (hOther : ∀ bd' ≠ bd, r'.phase bd' = r.phase bd' ∧ r'.signals bd' = r.signals bd' ∧
      (d'.pBdTable bd').done = (d.pBdTable bd').done ∧ d'.latestStart bd' = d.latestStart bd')
    (hHere : BdKept d' r' bd) : Kept d' r' := by
  refine ⟨hConsistent, hOutcome, fun bd' => ?_⟩
  by_cases hSame : bd' = bd
  · rwa [hSame]
  · obtain ⟨hPhase, hSignals, hDone, hLatest⟩ := hOther bd' hSame
    exact (h.bds bd').of_same hPhase hSignals hDone hLatest hFired

theorem Kept.of_same (h : Kept d r) (hConsistent : Consistent d')
    (hTransfers : d'.transfers = d.transfers) (hStarts : d'.starts = d.starts)
    (hDone : ∀ bd, (d'.pBdTable bd).done = (d.pBdTable bd).done) : Kept d' r := by
  refine ⟨hConsistent, by rw [hTransfers]; exact h.outcome, fun bd => ?_⟩
  apply (h.bds bd).of_same rfl rfl (hDone bd)
  · rw [Driver.latestStart, hStarts, Driver.latestStart]
  · intro k hk
    rwa [Driver.Fired, hTransfers]

theorem updateBd_done {bd : Int} {f : ProxyBd → ProxyBd} (hf : ∀ b, (f b).done = b.done)
    (bd' : Int) : ((d.updateBd bd f).pBdTable bd').done = (d.pBdTable bd').done := by
  by_cases h : bd' = bd
  · subst h
    simp [Driver.updateBd, hf]
  · simp [Driver.updateBd, h]

theorem updateBd_other {bd bd' : Int} {f : ProxyBd → ProxyBd} (h : bd' ≠ bd) :
    (d.updateBd bd f).pBdTable bd' = d.pBdTable bd' := Function.update_of_ne h _ _

theorem storeCookie_done (bd cookie bd' : Int) :
    ((d.storeCookie bd cookie).pBdTable bd').done = (d.pBdTable bd').done :=
  updateBd_done (f := fun b => { b with cookie := cookie }) (fun _ => rfl) bd'

/-! ### Calls of the driver -/

/-- The phase of the BD and its signals are set anew. -/
theorem Kept.enter (h : Kept d r) (bd : Int) {f : ProxyBd → ProxyBd}
    (hf : ∀ b, (f b).cookie = b.cookie) {signals : List Nat} {phase : Phase}
    (hHere : BdKept (d.updateBd bd f)
      ⟨Function.update r.signals bd signals, Function.update r.phase bd phase⟩ bd) :
    Kept (d.updateBd bd f)
      ⟨Function.update r.signals bd signals, Function.update r.phase bd phase⟩ := by
  apply h.update bd (h.consistent.updateBd bd hf) h.outcome fun _ hFired => hFired
  · intro bd' hOther
    refine ⟨Function.update_of_ne hOther _ _, Function.update_of_ne hOther _ _, ?_, rfl⟩
    rw [updateBd_other hOther]
  · exact hHere

theorem Kept.initCompletion (h : Kept d r) (bd : Int) :
    Kept (d.updateBd bd fun b => { b with done := 0 })
      ⟨Function.update r.signals bd [], Function.update r.phase bd .preparing⟩ :=
  h.enter (f := fun b => { b with done := 0 }) bd (fun _ => rfl)
    (by simp [BdKept, Driver.updateBd])

theorem Kept.wait (h : Kept d r) (bd : Int) (f : ProxyBd → ProxyBd)
    (hf : ∀ b, (f b).cookie = b.cookie) (signals : List Nat) :
    Kept (d.updateBd bd f)
      ⟨Function.update r.signals bd signals, Function.update r.phase bd .idle⟩ :=
  h.enter bd hf (.idle (Function.update_self bd _ _))

theorem fired_append {t : Transfer} (hTransfers : d'.transfers = d.transfers ++ [t]) {k : Nat}
    (h : d.Fired k) : d'.Fired k := by
  obtain ⟨t', hGet, hFired⟩ := h
  have hBound : k < d.transfers.length := (List.getElem?_eq_some_iff.mp hGet).1
  exact ⟨t', by rw [hTransfers, List.getElem?_append_left hBound, hGet], hFired⟩

theorem Kept.submit {cookie : Int} (h : Kept d r) (hPrepared : r.phase bd = .preparing)
    (hAccepted : 0 ≤ cookie) (hSubmit : d.submit bd cookie = some d') :
    Kept d' { r with phase := Function.update r.phase bd (.started d.transfers.length) } := by
  have hConsistent := h.consistent.submit hSubmit
  unfold Driver.submit at hSubmit
  rw [if_neg (not_lt.mpr hAccepted)] at hSubmit
  split at hSubmit
  · cases hSubmit
    have hTransfers : ((d.storeCookie bd cookie).accept bd cookie).transfers =
        d.transfers ++ [⟨bd, cookie, none, false⟩] := rfl
    apply h.update bd hConsistent _ fun _ hFired => fired_append hTransfers hFired
    · intro bd' hOther
      refine ⟨Function.update_of_ne hOther _ _, rfl, ?_, ?_⟩
      · exact storeCookie_done bd cookie bd'
      · rw [Driver.accept, latestStart_record, if_neg (Ne.symm hOther)]
        rfl
    · obtain ⟨hDone, hSignals⟩ := (h.bds bd).preparing hPrepared
      simp only [BdKept, Function.update_self, hSignals]
      refine ⟨?_, ?_, fun j hMem => absurd hMem List.not_mem_nil⟩
      · rw [Driver.accept, latestStart_record, if_pos rfl]
        rfl
      · exact (storeCookie_done bd cookie bd).trans hDone
    · intro t hMem hFired
      rw [hTransfers, List.mem_append, List.mem_singleton] at hMem
      obtain hOld | rfl := hMem
      · exact h.outcome t hOld hFired
      · cases hFired
  · cases hSubmit

theorem Kept.called {e : Call} {reply : Reply} {answer : Answer e} (h : Kept d r)
    (hAdmits : r.Admits reply e)
    (hPrepared : ∀ bd desc, e = .dmaengineSubmit bd desc → r.phase bd = .preparing)
    (hPerform : perform e reply d = some (answer, d')) : Kept d' (r.called d reply e) := by
  have hConsistent := h.consistent.perform hPerform
  cases e with
  | dmaengineSubmit bd desc =>
    obtain ⟨d₁, hSubmit, hEq⟩ := Option.map_eq_some_iff.mp hPerform
    cases hEq
    have hAccepted : 0 ≤ reply.value := hAdmits
    simp only [Record.called, if_neg (not_lt.mpr hAccepted)]
    exact h.submit (hPrepared bd desc rfl) hAccepted hSubmit
  | devicePrepSlaveSg bd =>
    have hOk : reply.ok = true := hAdmits
    simp only [perform, hOk, if_true] at hPerform
    cases hPerform
    exact h
  | waitForCompletionTimeout bd =>
    simp only [perform] at hPerform
    split at hPerform <;> cases hPerform
    · exact h.wait bd (fun b => { b with done := b.done - 1 }) (fun _ => rfl) _
    · have hKept := h.wait bd id (fun _ => rfl) (r.signals bd).tail
      rwa [Driver.updateBd, id, Function.update_eq_self] at hKept
  | initCompletion bd => cases hPerform; exact h.initCompletion bd
  | sgInitTable bd =>
    cases hPerform
    exact h.of_same hConsistent rfl rfl (updateBd_done fun _ => rfl)
  | setSgDmaAddress bd =>
    cases hPerform
    exact h.of_same hConsistent rfl rfl (updateBd_done fun _ => rfl)
  | setSgDmaLen bd =>
    cases hPerform
    exact h.of_same hConsistent rfl rfl (updateBd_done fun _ => rfl)
  | _ => cases hPerform; exact h.of_same hConsistent rfl rfl fun _ => rfl

/-! ### Moves of the engine -/

theorem fired_set {k : Nat} {t t' : Transfer} (hTransfers : d'.transfers = d.transfers.set k t')
    (hGet : d.transfers[k]? = some t) (hFired : t.fired = true → t'.fired = true) {j : Nat}
    (h : d.Fired j) : d'.Fired j := by
  obtain ⟨u, hu, hRan⟩ := h
  by_cases hk : k = j
  · subst hk
    rw [hGet] at hu
    cases hu
    have hBound : k < d.transfers.length := (List.getElem?_eq_some_iff.mp hGet).1
    exact ⟨t', by simp [hTransfers, hBound], hFired hRan⟩
  · exact ⟨u, by rw [hTransfers, List.getElem?_set_ne hk, hu], hRan⟩

theorem outcome_set {k : Nat} {t' : Transfer} (h : Kept d r)
    (hNew : t'.fired = true → t'.outcome.isSome = true) :
    ∀ t ∈ d.transfers.set k t', t.fired = true → t.outcome.isSome = true := by
  intro t hMem
  obtain hOld | rfl := List.mem_or_eq_of_mem_set hMem
  · exact h.outcome t hOld
  · exact hNew

theorem Kept.complete {t : Transfer} {ok : Bool} (h : Kept d r)
    (hGet : d.transfers[d.completed]? = some t) (hConsistent : Consistent (d.complete t ok)) :
    Kept (d.complete t ok) r := by
  have hSet : (d.complete t ok).transfers =
      d.transfers.set d.completed { t with outcome := some ok } := rfl
  refine ⟨hConsistent, outcome_set h fun _ => rfl, fun bd => ?_⟩
  exact (h.bds bd).of_same rfl rfl rfl rfl fun _ => fired_set hSet hGet id

/-- A callback in time signals the start that is open on the BD, or none. -/
theorem Kept.callback {k : Nat} {t : Transfer} (h : Kept d r) (hGet : d.transfers[k]? = some t)
    (hCompleted : t.outcome.isSome = true) (hConsistent : Consistent (d.syncCallback k t))
    (hTime : r.phase t.bd = .idle ∨ r.phase t.bd = .started k) :
    Kept (d.syncCallback k t) (r.signalled t.bd k) := by
  have hFired : ∀ j, d.Fired j → (d.syncCallback k t).Fired j :=
    fun _ => fired_set rfl hGet fun _ => rfl
  have hBound : k < d.transfers.length := (List.getElem?_eq_some_iff.mp hGet).1
  have hRan : (d.syncCallback k t).Fired k := ⟨_, List.getElem?_set_self hBound, rfl⟩
  apply h.update t.bd hConsistent (outcome_set h fun _ => hCompleted) hFired
  · intro bd' hOther
    refine ⟨rfl, Function.update_of_ne hOther _ _, ?_, rfl⟩
    rw [Driver.syncCallback, updateBd_other hOther]
  · obtain hIdle | hStarted := hTime
    · exact .idle hIdle
    · obtain ⟨hLatest, hDone, hOwn⟩ := (h.bds t.bd).started hStarted
      unfold BdKept Record.signalled
      simp only [hStarted, Function.update_self]
      refine ⟨hLatest, ?_, ?_⟩
      · simp [Driver.syncCallback, Driver.updateBd, hDone]
      · intro j hj
        rw [List.mem_append, List.mem_singleton] at hj
        obtain hOld | rfl := hj
        · exact ⟨(hOwn j hOld).1, hFired j (hOwn j hOld).2⟩
        · exact ⟨rfl, hRan⟩

theorem Kept.engine {event : EngineEvent} (h : Kept d r)
    (hTime : ∀ k, event = .callback k → ∀ t ∈ d.transfers[k]?,
      r.phase t.bd = .idle ∨ r.phase t.bd = .started k)
    (hStep : d.engineStep event = some d') : Kept d' (r.moved d event) := by
  have hConsistent := engine_consistent hStep h.consistent
  obtain ⟨ok, t, rfl, hGet, -, -, rfl⟩ | ⟨k, t, rfl, hGet, hCompleted, -, rfl⟩ :=
    engineStep_cases hStep
  · exact h.complete hGet hConsistent
  · have hRecord : r.moved d (.callback k) = r.signalled t.bd k := by
      rw [Record.moved, hGet]
    rw [hRecord]
    exact h.callback hGet hCompleted hConsistent (hTime k rfl t hGet)

end Record

/-! ## One request -/

/-- What may happen to the driver and its record between two calls. -/
structure Drifts (s s' : Driver × Record) : Prop where
  kept : Kept s.1 s.2 → Kept s'.1 s'.2
  phase : s'.2.phase = s.2.phase
  ended : ∀ bd ok, s.1.Ended bd ok → s'.1.Ended bd ok

theorem Drifts.refl (s : Driver × Record) : Drifts s s := ⟨id, rfl, fun _ _ => id⟩

theorem Drifts.trans (s s' s'' : Driver × Record) (h : Drifts s s') (h' : Drifts s' s'') :
    Drifts s s'' :=
  ⟨h'.kept ∘ h.kept, h'.phase.trans h.phase,
    fun bd ok hEnded => h'.ended bd ok (h.ended bd ok hEnded)⟩

def recordedAnswers : Sem Call Answer (Driver × Record) := fun e s answer s' =>
  ∃ reply, perform e reply s.1 = some (answer, s'.1) ∧ s.2.Admits reply e ∧
    s'.2 = s.2.called s.1 reply e

def AttributedCall (e : Call) (s : Driver × Record) : Prop :=
  Kept s.1 s.2 ∧ (∀ bd desc, e = .dmaengineSubmit bd desc → s.2.phase bd = .preparing) ∧
    (∀ bd, e = .setStatus bd .noError → s.1.Ended bd true) ∧
    ∀ bd, e = .setStatus bd .error → s.1.Ended bd false

abbrev Attributes {α : Type} (p : Program α) (s : Driver × Record) : Prop :=
  Always Drifts recordedAnswers AttributedCall (fun _ s' => Kept s'.1 s'.2) p s

theorem answer_kept {e : Call} {s s' : Driver × Record} {answer : Answer e}
    (h : AttributedCall e s) (hAnswer : recordedAnswers e s answer s') : Kept s'.1 s'.2 := by
  obtain ⟨reply, hPerform, hAdmits, hRecord⟩ := hAnswer
  rw [hRecord]
  exact h.1.called hAdmits h.2.1 hPerform

def Plain (e : Call) : Prop :=
  (∀ bd desc, e ≠ .dmaengineSubmit bd desc) ∧ (∀ bd, e ≠ .setStatus bd .noError) ∧
    ∀ bd, e ≠ .setStatus bd .error

theorem Plain.attributed {e : Call} (hPlain : Plain e) {s : Driver × Record}
    (h : Kept s.1 s.2) : AttributedCall e s :=
  ⟨h, fun bd desc hEq => absurd hEq (hPlain.1 bd desc),
    fun bd hEq => absurd hEq (hPlain.2.1 bd), fun bd hEq => absurd hEq (hPlain.2.2 bd)⟩

theorem attributes_of_only {α : Type} {p : Program α} (hOnly : Only Plain p)
    {s : Driver × Record} (h : Kept s.1 s.2) : Attributes p s := by
  refine Always.of_invariant (I := fun s : Driver × Record => Kept s.1 s.2) ?_ ?_ ?_ hOnly h
  · exact fun _ _ hOld hDrift => hDrift.kept hOld
  · exact fun e s _ _ hPlain hOld hAnswer => answer_kept (hPlain.attributed hOld) hAnswer
  · exact fun e s hPlain hOld => hPlain.attributed hOld

/-- The rule for a call that neither submits nor stores an outcome. -/
theorem attributes_ask {α : Type} {e : Call} {rest : Answer e → Program α} (hPlain : Plain e)
    {s : Driver × Record} (h : Kept s.1 s.2)
    (hRest : ∀ s₁ answer s₂, Drifts s s₁ → Kept s₁.1 s₁.2 → recordedAnswers e s₁ answer s₂ →
      Kept s₂.1 s₂.2 → Attributes (rest answer) s₂) :
    Attributes (ask e >>= rest) s := by
  refine Always.ask_bind fun s₁ hDrift => ?_
  have h₁ := hDrift.kept h
  refine ⟨hPlain.attributed h₁, fun answer s₂ hAnswer => ?_⟩
  exact hRest s₁ answer s₂ hDrift h₁ hAnswer (answer_kept (hPlain.attributed h₁) hAnswer)

theorem startTransfer_attributes {trace : Bool} {s : Driver × Record} (h : Kept s.1 s.2) :
    Attributes (startTransfer trace) s := by
  rw [startTransfer]
  refine attributes_ask (by simp [Plain]) h fun _ bdindex s₁ _ _ _ h₁ => ?_
  have hTrace : Only Plain (traceStart trace bdindex) := by
    cases trace <;> simp [traceStart, Plain]
  apply Always.bind Drifts.refl
  refine (attributes_of_only hTrace h₁).mono (fun _ _ => id) fun _ s₂ h₂ => ?_
  refine attributes_ask (by simp [Plain]) h₂ fun _ _ s₃ _ _ _ h₃ => ?_
  refine attributes_ask (by simp [Plain]) h₃ fun _ _ s₄ _ _ _ h₄ => ?_
  refine attributes_ask (by simp [Plain]) h₄ fun _ _ s₅ _ _ _ h₅ => ?_
  refine attributes_ask (by simp [Plain]) h₅ fun _ chanDesc s₆ _ _ _ h₆ => ?_
  cases chanDesc with
  | none => exact attributes_of_only (p := .ret ()) trivial h₆
  | some desc =>
    refine attributes_ask (by simp [Plain]) h₆ fun _ _ s₇ _ _ hInit h₇ => ?_
    -- the completion is initialized right before the submission
    have hPreparing : s₇.2.phase bdindex = .preparing := by
      obtain ⟨reply, -, -, hRecord⟩ := hInit
      simp only [hRecord, Record.called, Function.update_self]
    refine Always.ask_bind fun s₈ hDrift => ?_
    have hCall : AttributedCall (.dmaengineSubmit bdindex desc) s₈ := by
      refine ⟨hDrift.kept h₇, ?_, fun bd hEq => ?_, fun bd hEq => ?_⟩
      · rintro bd desc' ⟨⟩
        rw [hDrift.phase, hPreparing]
      · cases hEq
      · cases hEq
    refine ⟨hCall, fun _ s₉ hSubmit => attributes_of_only ?_ (answer_kept hCall hSubmit)⟩
    simp only [only_ask_bind]
    refine ⟨by simp [Plain], fun cookie => ?_⟩
    split <;> simp [Plain]

/-- The status of the cookie of a BD is the outcome of its latest transfer. -/
theorem Consistent.status_of_ended {d : Driver} (h : Consistent d) {bd : Int} {ok : Bool}
    (hEnded : d.Ended bd ok) :
    d.isTxComplete (d.pBdTable bd).cookie = if ok then .complete else .error := by
  obtain ⟨t, hLatest, -, hOutcome⟩ := hEnded
  unfold Driver.latestTransfer at hLatest
  split at hLatest
  · rename_i k hLast
    have hFind : d.transfers.find? (·.cookie = (d.pBdTable bd).cookie) = some t := by
      have hCookie : t.cookie = (d.pBdTable bd).cookie := by
        have hId := h.accepted bd k hLast
        rw [Driver.ids, List.getElem?_map, hLatest] at hId
        exact (Prod.mk.inj (Option.some.inj hId)).2
      have hSome : (d.transfers.find? (·.cookie = (d.pBdTable bd).cookie)).isSome := by
        rw [List.find?_isSome]
        exact ⟨t, List.mem_of_getElem? hLatest, by simpa using hCookie⟩
      obtain ⟨u, hu⟩ := Option.isSome_iff_exists.mp hSome
      obtain ⟨j, hj⟩ := List.mem_iff_getElem?.mp (List.mem_of_find?_eq_some hu)
      have hSame := (h.latest_of_cookie hLast hj (by simpa using List.find?_some hu)).1
      rw [hSame, hLatest] at hj
      rwa [← hj] at hu
    rw [Driver.isTxComplete, hFind]
    obtain ⟨_, _, outcome, _⟩ := t
    obtain rfl : outcome = some ok := hOutcome
    cases ok <;> rfl
  · cases hLatest

/-- A wait that finds a signal consumes that of the transfer of its start. -/
theorem Kept.signal {d : Driver} {r : Record} (h : Kept d r) {bd : Int}
    (hWaits : r.phase bd ≠ .idle) (hDone : 0 < (d.pBdTable bd).done) :
    ∃ k, r.phase bd = .started k ∧ (r.signals bd).head? = some k ∧
      d.latestStart bd = some (.accepted k) ∧ d.Fired k := by
  cases hPhase : r.phase bd with
  | idle => exact absurd hPhase hWaits
  | preparing =>
    rw [((h.bds bd).preparing hPhase).1] at hDone
    exact absurd hDone (Nat.lt_irrefl 0)
  | started k =>
    obtain ⟨hLatest, hCount, hOwn⟩ := (h.bds bd).started hPhase
    rw [hCount] at hDone
    obtain ⟨j, rest, hSignals⟩ := List.exists_cons_of_length_pos hDone
    obtain ⟨rfl, hFired⟩ := hOwn j (by rw [hSignals]; exact List.mem_cons_self)
    exact ⟨j, rfl, by rw [hSignals]; rfl, hLatest, hFired⟩

theorem Kept.ended {d : Driver} {r : Record} (h : Kept d r) {bd : Int} {k : Nat}
    (hLatest : d.latestStart bd = some (.accepted k)) (hFired : d.Fired k) :
    ∃ ok, d.Ended bd ok := by
  obtain ⟨t, hGet, hRan⟩ := hFired
  obtain ⟨ok, hOutcome⟩ :=
    Option.isSome_iff_exists.mp (h.outcome t (List.mem_of_getElem? hGet) hRan)
  have hId := h.consistent.accepted bd k hLatest
  rw [Driver.ids, List.getElem?_map, hGet] at hId
  have hBd : t.bd = bd := (Prod.mk.inj (Option.some.inj hId)).1
  exact ⟨ok, t, by rw [Driver.latestTransfer, hLatest]; exact hGet, hBd, hOutcome⟩

/-- A wait with time left has found the signal of a transfer that has ended. -/
theorem wait_ended {s s' : Driver × Record} {bd : Int} (h : Kept s.1 s.2)
    (hWait : recordedAnswers (.waitForCompletionTimeout bd) s true s') :
    ∃ ok, s'.1.Ended bd ok := by
  obtain ⟨reply, hPerform, hWaits, -⟩ := hWait
  simp only [perform] at hPerform
  split at hPerform
  · rename_i hDone
    obtain ⟨k, -, -, hLatest, hFired⟩ := h.signal hWaits hDone
    obtain ⟨ok, hEnded⟩ := h.ended hLatest hFired
    have hDriver := (Prod.mk.inj (Option.some.inj hPerform)).2
    exact ⟨ok, hDriver ▸ hEnded⟩
  · cases (Prod.mk.inj (Option.some.inj hPerform)).1

theorem status_ended {s s' : Driver × Record} {bd : Int} {ok : Bool} {status : DmaStatus}
    (h : Kept s.1 s.2) (hEnded : s.1.Ended bd ok)
    (hStatus : recordedAnswers (.dmaAsyncIsTxComplete bd) s status s') :
    s'.1.Ended bd (decide (status = .complete)) := by
  obtain ⟨reply, hPerform, -, -⟩ := hStatus
  obtain ⟨hAnswer, hDriver⟩ := Prod.mk.inj (Option.some.inj hPerform)
  have hSame : decide (status = .complete) = ok := by
    rw [← hAnswer, h.consistent.status_of_ended hEnded]
    cases ok <;> rfl
  rw [hSame, ← hDriver]
  exact hEnded

theorem setStatus_attributes {s : Driver × Record} {bd : Int} {result : ProxyStatus}
    (h : Kept s.1 s.2) (hNoError : result = .noError → s.1.Ended bd true)
    (hError : result = .error → s.1.Ended bd false) :
    Attributes (ask (.setStatus bd result)) s := by
  refine Always.ask fun s₁ hDrift => ?_
  have hCall : AttributedCall (.setStatus bd result) s₁ := by
    refine ⟨hDrift.kept h, fun bd desc hEq => ?_, ?_, ?_⟩
    · cases hEq
    · rintro bd' ⟨⟩
      exact hDrift.ended bd true (hNoError rfl)
    · rintro bd' ⟨⟩
      exact hDrift.ended bd false (hError rfl)
  exact ⟨hCall, fun _ s₂ hSet s₃ hLast => hLast.kept (answer_kept hCall hSet)⟩

theorem waitForTransfer_attributes {s : Driver × Record} (h : Kept s.1 s.2) :
    Attributes waitForTransfer s := by
  rw [waitForTransfer]
  refine attributes_ask (by simp [Plain]) h fun _ bd s₁ _ _ _ h₁ => ?_
  refine attributes_ask (by simp [Plain]) h₁ fun _ _ s₂ _ _ _ h₂ => ?_
  refine attributes_ask (by simp [Plain]) h₂ fun s₃ timeLeft s₄ _ h₃ hWait h₄ => ?_
  refine attributes_ask (by simp [Plain]) h₄ fun s₅ status s₆ hDrift h₅ hStatus h₆ => ?_
  split
  · apply setStatus_attributes h₆
    · exact fun hEq => absurd hEq (by decide)
    · exact fun hEq => absurd hEq (by decide)
  · rename_i hLeft
    obtain rfl : timeLeft = true := eq_true_of_ne_false hLeft
    obtain ⟨ok, hEnded⟩ := wait_ended h₃ hWait
    have hOutcome := status_ended h₅ (hDrift.ended bd ok hEnded) hStatus
    split
    · rename_i hOther
      rw [decide_eq_false hOther] at hOutcome
      exact setStatus_attributes h₆ (fun hEq => absurd hEq (by decide)) fun _ => hOutcome
    · rename_i hComplete
      rw [decide_eq_true (not_not.mp hComplete)] at hOutcome
      exact setStatus_attributes h₆ (fun _ => hOutcome) fun hEq => absurd hEq (by decide)

theorem dispatch_attributes {trace : Bool} {cmd : Cmd} {s : Driver × Record}
    (h : Kept s.1 s.2) : Attributes (dispatch trace cmd) s := by
  cases cmd with
  | startXfer => exact startTransfer_attributes h
  | finishXfer => exact waitForTransfer_attributes h
  | xfer =>
    apply Always.bind Drifts.refl
    exact (startTransfer_attributes h).mono (fun _ _ => id) fun _ _ => waitForTransfer_attributes
  | showBuflen =>
    refine attributes_of_only ?_ h
    apply Only.mono _ (showBuflen_only trace)
    rintro _ ⟨i, _, rfl⟩
    simp [Plain]
  | unknown => exact attributes_of_only (p := .ret ()) trivial h

theorem ioctl_attributes {trace : Bool} {cmd : Cmd} {arg : Int} {s : Driver × Record}
    (h : Kept s.1 s.2) : Attributes (ioctl trace cmd arg) s := by
  rw [ioctl]
  refine attributes_ask (by simp [Plain]) h fun _ copied s₁ _ _ _ h₁ => ?_
  split
  · exact attributes_of_only (p := .ret (-einval)) trivial h₁
  · apply Always.bind Drifts.refl
    exact (dispatch_attributes h₁).mono (fun _ _ => id) fun _ _ hOld =>
      attributes_of_only (p := .ret (0 : Int)) trivial hOld

/-! ## The whole session -/

structure LoggedSession.Inv (w : LoggedSession) : Prop where
  kept : Kept w.session.driver w.record
  attributes : Attributes w.session.current (w.session.driver, w.record)

theorem drifts_engine {d d' : Driver} {r : Record} {event : EngineEvent}
    (hTime : ∀ k, event = .callback k → ∀ t ∈ d.transfers[k]?,
      r.phase t.bd = .idle ∨ r.phase t.bd = .started k)
    (hStep : d.engineStep event = some d') : Drifts (d, r) (d', r.moved d event) where
  kept h := h.engine hTime hStep
  phase := by
    cases event with
    | complete ok => rfl
    | callback k =>
      simp only [Record.moved]
      split <;> rfl
  ended _ _ hEnded := engine_ended hStep hEnded

theorem logged_step {platform : Platform} {w next : LoggedSession} {label : Label} (h : w.Inv)
    (hAlternates : Alternates w label) (hTime : InTime w label)
    (hStep : w.step platform label = some next) : next.Inv := by
  obtain ⟨session, hSession, rfl⟩ := Option.map_eq_some_iff.mp hStep
  have hDrifted : ∀ d r, Drifts (w.session.driver, w.record) (d, r) →
      LoggedSession.Inv ⟨{ w.session with driver := d }, r⟩ := by
    intro d r hDrift
    exact ⟨hDrift.kept h.kept, h.attributes.moved Drifts.trans hDrift⟩
  cases label with
  | ioctl cmd arg =>
    simp only [Session.step] at hSession
    split at hSession <;> cases hSession
    exact ⟨h.kept, ioctl_attributes h.kept⟩
  | mmap count pgoff =>
    cases hSession
    exact h
  | writeLength bd length =>
    cases hSession
    refine hDrifted _ _ ⟨fun hKept => ?_, rfl, fun _ _ => id⟩
    exact hKept.of_same (hKept.consistent.of_same rfl rfl fun _ => rfl) rfl rfl fun _ => rfl
  | engine event =>
    obtain ⟨d, hEngine, rfl⟩ := Option.map_eq_some_iff.mp hSession
    refine hDrifted d _ (drifts_engine ?_ hEngine)
    rintro k rfl
    exact hTime
  | advance reply =>
    obtain ⟨⟨d, current, arg⟩, record⟩ := w
    cases current with
    | ret value => cases hSession
    | call e rest =>
      obtain ⟨⟨answer, d'⟩, hPerform, rfl⟩ := Option.map_eq_some_iff.mp hSession
      have hAnswer : recordedAnswers e (d, record) answer (d', record.called d reply e) :=
        ⟨reply, hPerform, hAlternates e rfl, rfl⟩
      have hCall : AttributedCall e (d, record) := h.attributes.safe_call Drifts.refl
      exact ⟨answer_kept hCall hAnswer, h.attributes.answered Drifts.refl hAnswer⟩

theorem logged_attributed {w : LoggedSession} {label : Label} (h : w.Inv)
    (hAlternates : Alternates w label) : Attributed w label := by
  cases label with
  | advance reply =>
    obtain ⟨⟨d, current, arg⟩, record⟩ := w
    cases current with
    | ret value => trivial
    | call e rest =>
      obtain ⟨hKept, -, hNoError, hError⟩ := h.attributes.safe_call Drifts.refl
      simp only [Attributed, head]
      split
      · rename_i bd hHead
        intro hDone
        have hWaits : record.phase bd ≠ .idle := by
          have hAdmits : record.Admits reply e := hAlternates e rfl
          rwa [Option.some.inj hHead] at hAdmits
        obtain ⟨k, hPhase, hSignal, -⟩ := hKept.signal hWaits hDone
        rw [hPhase, hSignal]
        rfl
      · rename_i bd hHead
        exact hNoError bd (Option.some.inj hHead)
      · rename_i bd hHead
        exact hError bd (Option.some.inj hHead)
      · trivial
  | _ => trivial

/-- In every session whose starts and waits alternate on each BD, with all starts accepted, every
wait consumes the signal of its own start where no transfer calls back after its BD has been
started again. -/
theorem attribution_sound (platform : Platform) (pBdTable : Int → ProxyBd)
    (pBufferTable : Int → ChannelBuffer) (bufferPhysAddr : Nat) (labels : List Label)
    (hAlternates : Along (LoggedSession.step platform) Alternates
      (.opened pBdTable pBufferTable bufferPhysAddr) labels)
    (hTime : Along (LoggedSession.step platform) InTime
      (.opened pBdTable pBufferTable bufferPhysAddr) labels) :
    Along (LoggedSession.step platform) Attributed
      (.opened pBdTable pBufferTable bufferPhysAddr) labels := by
  have hKept : Kept (Session.opened pBdTable pBufferTable bufferPhysAddr).driver
      ⟨fun _ => [], fun _ => .idle⟩ :=
    ⟨consistent_opened pBdTable pBufferTable bufferPhysAddr,
      fun t hMem => absurd hMem List.not_mem_nil, fun _ => .idle rfl⟩
  apply Along.of_invariant (I := LoggedSession.Inv) _ _ _ (hAlternates.and hTime)
  · exact fun w label next hInv hGuard hStep => logged_step hInv hGuard.1 hGuard.2 hStep
  · exact fun w label hInv hGuard => logged_attributed hInv hGuard.1
  · exact ⟨hKept, attributes_of_only (p := .ret (0 : Int)) trivial hKept⟩

/-- A start whose transfer completes with an error after the wait for it has timed out, and the
next start of the BD. -/
def lateRound : List Label :=
  startAccepted 3 7 ++ finish 3 ++ [.engine (.complete false), .engine (.callback 0)] ++
    startAccepted 3 8 ++ engineDone 1 ++ finish 3

theorem attribution_sound_late :
    Along (LoggedSession.step quietPlatform) Attributed (.opened zeroedBds emptyBuffers 0)
      lateRound :=
  attribution_sound quietPlatform zeroedBds emptyBuffers 0 lateRound (by decide) (by decide)

/-- The same with the late callback after the next start: its wait consumes the signal and takes
the transfer that is still in progress for one that has failed. -/
theorem attribution_unsound :
    Along (LoggedSession.step quietPlatform) Alternates (.opened zeroedBds emptyBuffers 0)
        (startAccepted 3 7 ++ finish 3 ++ startAccepted 3 8 ++ engineDone 0 ++ finish 3) ∧
      ¬ Along (LoggedSession.step quietPlatform) Attributed (.opened zeroedBds emptyBuffers 0)
        (startAccepted 3 7 ++ finish 3 ++ startAccepted 3 8 ++ engineDone 0 ++ finish 3) ∧
      (run (LoggedSession.step quietPlatform) (.opened zeroedBds emptyBuffers 0)
        (startAccepted 3 7 ++ finish 3 ++ startAccepted 3 8 ++ engineDone 0 ++ finish 3)).map
          (fun w => (w.session.driver.pBufferTable 3).status) = some .error := by
  refine ⟨?_, ?_, ?_⟩ <;> decide

end SoftwarePrototypes.DmaProxy
