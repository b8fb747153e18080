import SoftwarePrototypes.DmaProxy.Session

/-! # What a reported success means

`wait_for_transfer` tells success by two things the channel keeps for a BD: a signal of its
completion and the cookie of its last submission. They belong to the latest start of the BD
only when that start got as far as a descriptor; a start that does not leaves both as they were.
-/

namespace SoftwarePrototypes.DmaProxy

open Interaction Interaction.Runs Interaction.Prog

/-! ## The latest start of a BD -/

def Driver.latestStart (d : Driver) (bd : Int) : Option StartResult :=
  (d.starts.find? (·.bd = bd)).map (·.result)

def Driver.latestTransfer (d : Driver) (bd : Int) : Option Transfer :=
  match d.latestStart bd with
  | some (.accepted k) => d.transfers[k]?
  | _ => none

/-- The latest start of the BD was accepted, and its transfer has completed with the outcome. -/
def Driver.Ended (d : Driver) (bd : Int) (ok : Bool) : Prop :=
  ∃ t, d.latestTransfer bd = some t ∧ t.bd = bd ∧ t.outcome = some ok

/-- The latest start of the BD was accepted, and its transfer has completed without error. -/
def Driver.Succeeded (d : Driver) (bd : Int) : Prop := d.Ended bd true

/-- The latest start of the BD was given a descriptor, so that it reset the completion and
stored the cookie. -/
def Driver.Armed (d : Driver) (bd : Int) : Prop :=
  match d.latestStart bd with
  | some .submitError | some (.accepted _) => True
  | _ => False

instance (d : Driver) (bd : Int) : Decidable (d.Armed bd) := by
  unfold Driver.Armed
  split <;> infer_instance

instance (d : Driver) (bd : Int) (ok : Bool) : Decidable (d.Ended bd ok) :=
  match h : d.latestTransfer bd with
  | none => isFalse fun ⟨t, ht, _⟩ => by rw [h] at ht; cases ht
  | some t =>
    decidable_of_iff (t.bd = bd ∧ t.outcome = some ok)
      ⟨fun ht => ⟨t, h, ht⟩, fun ⟨t', h', ht⟩ => by rw [h] at h'; cases h'; exact ht⟩

instance (d : Driver) (bd : Int) : Decidable (d.Succeeded bd) :=
  inferInstanceAs (Decidable (d.Ended bd true))

/-! ## The two laws of a session -/

/-- Whenever `PROXY_NO_ERROR` is about to be stored, the latest start has succeeded. -/
def SuccessSound (w : Session) : Label → Prop
  | .advance _ =>
    match w.current.head with
    | some (.setStatus bd .noError) => w.driver.Succeeded bd
    | _ => True
  | _ => True

/-- A wait finds a signal to consume only on a BD whose latest start was given a descriptor. -/
def SignalArmed (w : Session) : Label → Prop
  | .advance _ =>
    match w.current.head with
    | some (.waitForCompletionTimeout bd) => 0 < (w.driver.pBdTable bd).done → w.driver.Armed bd
    | _ => True
  | _ => True

instance (w : Session) (label : Label) : Decidable (SuccessSound w label) := by
  unfold SuccessSound
  split
  · split <;> infer_instance
  · infer_instance

instance (w : Session) (label : Label) : Decidable (SignalArmed w label) := by
  unfold SignalArmed
  split
  · split <;> infer_instance
  · infer_instance

/-! ## The channel keeps its cookies straight -/

/-- The BD and the cookie of every accepted transfer; the engine never changes them. -/
def Driver.ids (d : Driver) : List (Int × Int) := d.transfers.map fun t => (t.bd, t.cookie)

/-- The cookies of accepted transfers are positive and distinct, and a BD holds the cookie of
its latest start. -/
structure Consistent (d : Driver) : Prop where
  positive : ∀ id ∈ d.ids, 0 < id.2
  distinct : (d.ids.map Prod.snd).Nodup
  refused : ∀ bd, d.latestStart bd = some .submitError → (d.pBdTable bd).cookie < 0
  accepted : ∀ bd k, d.latestStart bd = some (.accepted k) →
    d.ids[k]? = some (bd, (d.pBdTable bd).cookie)

theorem latestStart_record (d : Driver) (bd bd' : Int) (result : StartResult) :
    (d.record bd result).latestStart bd' =
      if bd = bd' then some result else d.latestStart bd' := by
  unfold Driver.latestStart Driver.record
  by_cases h : bd = bd' <;> simp [h]

theorem consistent_opened (pBdTable : Int → ProxyBd) (pBufferTable : Int → ChannelBuffer)
    (bufferPhysAddr : Nat) :
    Consistent (Session.opened pBdTable pBufferTable bufferPhysAddr).driver where
  positive := by simp [Session.opened, Driver.ids]
  distinct := List.nodup_nil
  refused := by simp [Session.opened, Driver.latestStart]
  accepted := by simp [Session.opened, Driver.latestStart]

theorem Consistent.of_same {d d' : Driver} (h : Consistent d) (hIds : d'.ids = d.ids)
    (hStarts : d'.starts = d.starts)
    (hCookie : ∀ bd, (d'.pBdTable bd).cookie = (d.pBdTable bd).cookie) : Consistent d' := by
  have hLatest : ∀ bd, d'.latestStart bd = d.latestStart bd := by
    intro bd
    rw [Driver.latestStart, hStarts, Driver.latestStart]
  constructor
  · rw [hIds]
    exact h.positive
  · rw [hIds]
    exact h.distinct
  · intro bd hLast
    rw [hCookie]
    exact h.refused bd (by rwa [← hLatest])
  · intro bd k hLast
    rw [hIds, hCookie]
    exact h.accepted bd k (by rwa [← hLatest])

theorem updateBd_cookie {d : Driver} {bd : Int} {f : ProxyBd → ProxyBd}
    (hf : ∀ b, (f b).cookie = b.cookie) (bd' : Int) :
    ((d.updateBd bd f).pBdTable bd').cookie = (d.pBdTable bd').cookie := by
  by_cases h : bd' = bd
  · subst h
    simp [Driver.updateBd, hf]
  · simp [Driver.updateBd, h]

theorem Consistent.updateBd {d : Driver} (h : Consistent d) (bd : Int) {f : ProxyBd → ProxyBd}
    (hf : ∀ b, (f b).cookie = b.cookie) : Consistent (d.updateBd bd f) :=
  h.of_same rfl rfl (updateBd_cookie hf)

theorem Consistent.noDescriptor {d : Driver} (h : Consistent d) (bd : Int) :
    Consistent (d.record bd .noDescriptor) := by
  refine ⟨h.positive, h.distinct, ?_, ?_⟩
  · intro bd' hLast
    rw [latestStart_record] at hLast
    split at hLast
    · cases hLast
    · exact h.refused bd' hLast
  · intro bd' k hLast
    rw [latestStart_record] at hLast
    split at hLast
    · cases hLast
    · exact h.accepted bd' k hLast

theorem storeCookie_cookie (d : Driver) (bd cookie bd' : Int) :
    ((d.storeCookie bd cookie).pBdTable bd').cookie =
      if bd = bd' then cookie else (d.pBdTable bd').cookie := by
  by_cases h : bd = bd'
  · subst h
    simp [Driver.storeCookie, Driver.updateBd]
  · simp [Driver.storeCookie, Driver.updateBd, Function.update_of_ne (Ne.symm h), h]

theorem Consistent.submitError {d : Driver} (h : Consistent d) {bd cookie : Int}
    (hNegative : cookie < 0) : Consistent ((d.storeCookie bd cookie).record bd .submitError) := by
  refine ⟨h.positive, h.distinct, ?_, ?_⟩
  · intro bd' hLast
    change ((d.storeCookie bd cookie).pBdTable bd').cookie < 0
    rw [latestStart_record] at hLast
    rw [storeCookie_cookie]
    split
    · exact hNegative
    · rename_i hNe
      rw [if_neg hNe] at hLast
      exact h.refused bd' hLast
  · intro bd' k hLast
    change d.ids[k]? = some (bd', ((d.storeCookie bd cookie).pBdTable bd').cookie)
    rw [latestStart_record] at hLast
    rw [storeCookie_cookie]
    split at hLast
    · cases hLast
    · rename_i hNe
      rw [if_neg hNe]
      exact h.accepted bd' k hLast

theorem Consistent.accept {d : Driver} (h : Consistent d) {bd cookie : Int}
    (hPositive : 0 < cookie) (hNew : ∀ t ∈ d.transfers, t.cookie ≠ cookie) :
    Consistent ((d.storeCookie bd cookie).accept bd cookie) := by
  have hIds : ((d.storeCookie bd cookie).accept bd cookie).ids = d.ids ++ [(bd, cookie)] :=
    List.map_append
  have hLength : (d.storeCookie bd cookie).transfers.length = d.ids.length := by
    rw [Driver.ids, List.length_map]
    rfl
  have hFresh : cookie ∉ d.ids.map Prod.snd := by
    simp only [Driver.ids, List.map_map, List.mem_map, Function.comp_apply, not_exists, not_and]
    exact hNew
  refine ⟨?_, ?_, ?_, ?_⟩
  · intro id hId
    rw [hIds, List.mem_append, List.mem_singleton] at hId
    rcases hId with hId | rfl
    · exact h.positive id hId
    · exact hPositive
  · rw [hIds, List.map_append, List.map_singleton, ← List.concat_eq_append]
    exact h.distinct.concat hFresh
  · intro bd' hLast
    change ((d.storeCookie bd cookie).pBdTable bd').cookie < 0
    rw [Driver.accept, latestStart_record] at hLast
    rw [storeCookie_cookie]
    split at hLast
    · cases hLast
    · rename_i hNe
      rw [if_neg hNe]
      exact h.refused bd' hLast
  · intro bd' k hLast
    change _ = some (bd', ((d.storeCookie bd cookie).pBdTable bd').cookie)
    rw [hIds, storeCookie_cookie]
    rw [Driver.accept, latestStart_record] at hLast
    split at hLast
    · rename_i hEq
      cases hLast
      rw [if_pos hEq, hLength, List.getElem?_append_right le_rfl, Nat.sub_self, hEq]
      rfl
    · rename_i hNe
      have hOld := h.accepted bd' k hLast
      have hBound : k < d.ids.length := (List.getElem?_eq_some_iff.mp hOld).1
      rw [if_neg hNe, List.getElem?_append_left hBound, hOld]

theorem Consistent.submit {d d' : Driver} (h : Consistent d) {bd cookie : Int}
    (hSubmit : d.submit bd cookie = some d') : Consistent d' := by
  unfold Driver.submit at hSubmit
  split at hSubmit
  · rename_i hNegative
    cases hSubmit
    exact h.submitError hNegative
  · split at hSubmit
    · rename_i hNew
      cases hSubmit
      exact h.accept hNew.1 hNew.2
    · cases hSubmit

theorem Consistent.perform {d d' : Driver} (h : Consistent d) {e : Call} {reply : Reply}
    {answer : Answer e} (hPerform : perform e reply d = some (answer, d')) : Consistent d' := by
  cases e with
  | dmaengineSubmit bd desc =>
    obtain ⟨d₁, hSubmit, hEq⟩ := Option.map_eq_some_iff.mp hPerform
    cases hEq
    exact h.submit hSubmit
  | devicePrepSlaveSg bd =>
    simp only [DmaProxy.perform] at hPerform
    split at hPerform <;> cases hPerform
    · exact h
    · exact h.noDescriptor bd
  | waitForCompletionTimeout bd =>
    simp only [DmaProxy.perform] at hPerform
    split at hPerform <;> cases hPerform
    · exact h.updateBd bd fun _ => rfl
    · exact h
  | sgInitTable bd => cases hPerform; exact h.updateBd bd fun _ => rfl
  | setSgDmaAddress bd => cases hPerform; exact h.updateBd bd fun _ => rfl
  | setSgDmaLen bd => cases hPerform; exact h.updateBd bd fun _ => rfl
  | initCompletion bd => cases hPerform; exact h.updateBd bd fun _ => rfl
  | copyFromUser arg => cases hPerform; exact h.of_same rfl rfl fun _ => rfl
  | dmaAsyncIssuePending => cases hPerform; exact h.of_same rfl rfl fun _ => rfl
  | setStatus bd status => cases hPerform; exact h.of_same rfl rfl fun _ => rfl
  | readBdindex => cases hPerform; exact h
  | readLength bd => cases hPerform; exact h
  | readCookie bd => cases hPerform; exact h
  | dmaAsyncIsTxComplete bd => cases hPerform; exact h

/-! ## What may happen between two calls -/

/-- The moves of the engine and of user space leave the record of starts alone and never take
back a success. -/
structure Moves (d d' : Driver) : Prop where
  consistent : Consistent d → Consistent d'
  starts : d'.starts = d.starts
  succeeded : ∀ bd, d.Succeeded bd → d'.Succeeded bd

theorem Moves.refl (d : Driver) : Moves d d := ⟨id, rfl, fun _ => id⟩

theorem Moves.trans (d d' d'' : Driver) (h : Moves d d') (h' : Moves d' d'') : Moves d d'' :=
  ⟨h'.consistent ∘ h.consistent, h'.starts.trans h.starts,
    fun bd hBd => h'.succeeded bd (h.succeeded bd hBd)⟩

theorem Moves.armed {d d' : Driver} (h : Moves d d') {bd : Int} (hArmed : d.Armed bd) :
    d'.Armed bd := by
  rwa [Driver.Armed, Driver.latestStart, h.starts]

theorem ids_set {l : List Transfer} {k : Nat} {t t' : Transfer} (hGet : l[k]? = some t)
    (hBd : t'.bd = t.bd) (hCookie : t'.cookie = t.cookie) :
    (l.set k t').map (fun t => (t.bd, t.cookie)) = l.map fun t => (t.bd, t.cookie) := by
  have hId : (l.map fun t => (t.bd, t.cookie))[k]? = some (t'.bd, t'.cookie) := by
    rw [List.getElem?_map, hGet, hBd, hCookie]
    rfl
  obtain ⟨hBound, hValue⟩ := List.getElem?_eq_some_iff.mp hId
  rw [List.map_set, ← hValue, List.set_getElem_self]

theorem ended_set {d d' : Driver} {k : Nat} {t t' : Transfer} {bd : Int} {ok : Bool}
    (hTransfers : d'.transfers = d.transfers.set k t') (hStarts : d'.starts = d.starts)
    (hGet : d.transfers[k]? = some t) (hBd : t'.bd = t.bd)
    (hOutcome : t.outcome = some ok → t'.outcome = some ok) (h : d.Ended bd ok) :
    d'.Ended bd ok := by
  obtain ⟨s, hLatest, hs⟩ := h
  have hStart : d'.latestStart bd = d.latestStart bd := by
    rw [Driver.latestStart, hStarts, Driver.latestStart]
  unfold Driver.latestTransfer at hLatest
  split at hLatest
  · rename_i j hAccepted
    unfold Driver.Ended Driver.latestTransfer
    rw [hStart, hAccepted]
    by_cases hk : k = j
    · subst hk
      rw [hGet] at hLatest
      cases hLatest
      have hBound : k < d.transfers.length := (List.getElem?_eq_some_iff.mp hGet).1
      exact ⟨t', by simp [hTransfers, hBound], hBd.trans hs.1, hOutcome hs.2⟩
    · exact ⟨s, by simpa [hTransfers, List.getElem?_set_ne hk] using hLatest, hs⟩
  · cases hLatest

/-- No move of the engine takes an outcome back. -/
theorem engine_ended {d d' : Driver} {event : EngineEvent} {bd : Int} {ok : Bool}
    (h : d.engineStep event = some d') (hEnded : d.Ended bd ok) : d'.Ended bd ok := by
  obtain ⟨ok', t, -, hGet, -, hPending, rfl⟩ | ⟨k, t, -, hGet, -, -, rfl⟩ := engineStep_cases h
  · have hSet : (d.complete t ok').transfers =
        d.transfers.set d.completed { t with outcome := some ok' } := rfl
    refine ended_set hSet rfl hGet rfl (fun hDone => ?_) hEnded
    rw [hPending] at hDone
    cases hDone
  · have hSet : (d.syncCallback k t).transfers = d.transfers.set k { t with fired := true } := rfl
    exact ended_set hSet rfl hGet rfl id hEnded

theorem engine_starts {d d' : Driver} {event : EngineEvent} (h : d.engineStep event = some d') :
    d'.starts = d.starts := by
  obtain ⟨_, _, -, -, -, -, rfl⟩ | ⟨_, _, -, -, -, -, rfl⟩ := engineStep_cases h
  · rfl
  · rfl

theorem engine_consistent {d d' : Driver} {event : EngineEvent}
    (h : d.engineStep event = some d') (hOld : Consistent d) : Consistent d' := by
  obtain ⟨_, t, -, hGet, -, -, rfl⟩ | ⟨k, t, -, hGet, -, -, rfl⟩ := engineStep_cases h
  · exact hOld.of_same (ids_set hGet rfl rfl) rfl fun _ => rfl
  · let ran : Driver := { d with transfers := d.transfers.set k { t with fired := true } }
    have hIds : ran.ids = d.ids :=
      ids_set hGet (show ({ t with fired := true } : Transfer).bd = t.bd from rfl) rfl
    have hRan : Consistent ran := hOld.of_same hIds rfl fun _ => rfl
    exact hRan.updateBd t.bd (f := fun b => { b with done := b.done + 1 }) fun _ => rfl

theorem moves_engine {d d' : Driver} {event : EngineEvent} (h : d.engineStep event = some d') :
    Moves d d' :=
  ⟨engine_consistent h, engine_starts h, fun _ hSucceeded => engine_ended h hSucceeded⟩

theorem moves_writeLength (d : Driver) (bd : Int) (length : BitVec 32) :
    Moves d (d.updateBuffer bd fun b => { b with length := length }) :=
  ⟨fun h => h.of_same rfl rfl fun _ => rfl, rfl, fun _ => id⟩

/-! ## One request -/

def armedAnswers : Sem Call Answer Driver := fun e d answer d' =>
  (∃ reply, perform e reply d = some (answer, d')) ∧
    ∀ bd, e = .waitForCompletionTimeout bd → 0 < (d.pBdTable bd).done → d.Armed bd

def SoundCall (e : Call) (d : Driver) : Prop :=
  Consistent d ∧ ∀ bd, e = .setStatus bd .noError → d.Succeeded bd

/-- Only the latest transfer of a BD has the cookie that the BD holds. -/
theorem Consistent.latest_of_cookie {d : Driver} (h : Consistent d) {bd : Int} {j k : Nat}
    {t : Transfer} (hLast : d.latestStart bd = some (.accepted k)) (hGet : d.transfers[j]? = some t)
    (hCookie : t.cookie = (d.pBdTable bd).cookie) : j = k ∧ t.bd = bd := by
  have hIdj : d.ids[j]? = some (t.bd, t.cookie) := by
    rw [Driver.ids, List.getElem?_map, hGet]
    rfl
  have hIdk := h.accepted bd k hLast
  have hj : (d.ids.map Prod.snd)[j]? = some (d.pBdTable bd).cookie := by
    rw [List.getElem?_map, hIdj, ← hCookie]
    rfl
  have hk : (d.ids.map Prod.snd)[k]? = some (d.pBdTable bd).cookie := by
    rw [List.getElem?_map, hIdk]
    rfl
  obtain ⟨hBound, _⟩ := List.getElem?_eq_some_iff.mp hj
  have hjk : j = k := (List.getElem?_inj hBound h.distinct).mp (hj.trans hk.symm)
  subst hjk
  exact ⟨rfl, (Prod.mk.inj (Option.some.inj (hIdj.symm.trans hIdk))).1⟩

/-- A complete status of the cookie of an armed BD is the status of its latest transfer. -/
theorem Consistent.succeeded {d : Driver} (h : Consistent d) {bd : Int} (hArmed : d.Armed bd)
    (hStatus : d.isTxComplete (d.pBdTable bd).cookie = .complete) : d.Succeeded bd := by
  obtain ⟨t, hFind, hOutcome⟩ : ∃ t,
      d.transfers.find? (·.cookie = (d.pBdTable bd).cookie) = some t ∧
        t.outcome = some true := by
    unfold Driver.isTxComplete at hStatus
    split at hStatus
    · rename_i hFind
      exact ⟨_, hFind, rfl⟩
    · cases hStatus
    · cases hStatus
  have hCookie : t.cookie = (d.pBdTable bd).cookie := by simpa using List.find?_some hFind
  obtain ⟨j, hj⟩ := List.mem_iff_getElem?.mp (List.mem_of_find?_eq_some hFind)
  unfold Driver.Armed at hArmed
  split at hArmed
  · rename_i hLast
    have hNegative := h.refused bd hLast
    have hPositive : 0 < t.cookie :=
      h.positive (t.bd, t.cookie) (List.mem_map_of_mem (List.mem_of_getElem? hj))
    omega
  · rename_i k hLast
    obtain ⟨rfl, hBd⟩ := h.latest_of_cookie hLast hj hCookie
    exact ⟨t, by rw [Driver.latestTransfer, hLast]; exact hj, hBd, hOutcome⟩
  · exact hArmed.elim

theorem armedAnswers_consistent {e : Call} {d d' : Driver} {answer : Answer e}
    (h : Consistent d) (hSem : armedAnswers e d answer d') : Consistent d' := by
  obtain ⟨⟨reply, hPerform⟩, _⟩ := hSem
  exact h.perform hPerform

theorem startTransfer_only (trace : Bool) :
    Only (fun e => ∀ bd, e ≠ .setStatus bd .noError) (startTransfer trace) := by
  rw [startTransfer, only_ask_bind]
  refine ⟨by simp, fun bdindex => Only.bind ?_ fun _ => ?_⟩
  · cases trace <;> simp [traceStart]
  · simp only [only_ask_bind, ne_eq, reduceCtorEq, not_false_eq_true, implies_true, true_and]
    intro _ _ _ chanDesc
    cases chanDesc with
    | none => trivial
    | some desc =>
      simp only [only_ask_bind, reduceCtorEq, not_false_eq_true, implies_true, true_and]
      intro _ _ cookie
      split <;> simp

abbrev Holds {α : Type} (p : Program α) (d : Driver) : Prop :=
  Always Moves armedAnswers SoundCall (fun _ d' => Consistent d') p d

theorem holds_of_only {α : Type} {p : Program α} {d : Driver}
    (hOnly : Only (fun e => ∀ bd, e ≠ .setStatus bd .noError) p) (h : Consistent d) :
    Holds p d := by
  apply Always.of_invariant _ _ _ hOnly h
  · exact fun _ _ hOld hMove => hMove.consistent hOld
  · exact fun _ _ _ _ _ hOld hSem => armedAnswers_consistent hOld hSem
  · exact fun e d hAllowed hOld => ⟨hOld, fun bd hEq => absurd hEq (hAllowed bd)⟩

theorem startTransfer_holds {trace : Bool} {d : Driver} (h : Consistent d) :
    Holds (startTransfer trace) d := holds_of_only (startTransfer_only trace) h

theorem waitForTransfer_holds {d : Driver} (h : Consistent d) : Holds waitForTransfer d := by
  rw [waitForTransfer]
  refine Always.ask_bind fun d₁ hMove₁ => ⟨⟨hMove₁.consistent h, by simp⟩, ?_⟩
  intro bd d₁' hRead
  have h₁ := armedAnswers_consistent (hMove₁.consistent h) hRead
  refine Always.ask_bind fun d₂ hMove₂ => ⟨⟨hMove₂.consistent h₁, by simp⟩, ?_⟩
  intro _ d₂' hBusy
  have h₂ := armedAnswers_consistent (hMove₂.consistent h₁) hBusy
  refine Always.ask_bind fun d₃ hMove₃ => ⟨⟨hMove₃.consistent h₂, by simp⟩, ?_⟩
  intro timeLeft d₃' hWait
  have h₃ := armedAnswers_consistent (hMove₃.consistent h₂) hWait
  -- a consumed signal was there, and the guard says whose
  have hArmed : timeLeft = true → d₃'.Armed bd := by
    intro hLeft
    obtain ⟨⟨reply, hPerform⟩, hGuard⟩ := hWait
    simp only [perform] at hPerform
    split at hPerform
    · rename_i hDone
      cases hPerform
      exact hGuard bd rfl hDone
    · cases hPerform
      cases hLeft
  refine Always.ask_bind fun d₄ hMove₄ => ⟨⟨hMove₄.consistent h₃, by simp⟩, ?_⟩
  intro status d₄' hStatus
  have h₄ := armedAnswers_consistent (hMove₄.consistent h₃) hStatus
  have hSucceeded : timeLeft = true → status = .complete → d₄'.Succeeded bd := by
    intro hLeft hComplete
    obtain ⟨⟨reply, hPerform⟩, _⟩ := hStatus
    cases hPerform
    exact h₄.succeeded (hMove₄.armed (hArmed hLeft)) hComplete
  have hStore : ∀ result, (result = .noError → d₄'.Succeeded bd) →
      Holds (ask (.setStatus bd result)) d₄' := by
    intro result hResult
    refine Always.ask fun d₅ hMove₅ => ⟨⟨hMove₅.consistent h₄, ?_⟩, ?_⟩
    · rintro bd' ⟨⟩
      exact hMove₅.succeeded bd (hResult rfl)
    · intro _ d₅' hSet d₆ hMove₆
      exact hMove₆.consistent (armedAnswers_consistent (hMove₅.consistent h₄) hSet)
  split
  · exact hStore .timeout (by simp)
  · split
    · exact hStore .error (by simp)
    · rename_i hLeft hStatus
      exact hStore .noError fun _ => hSucceeded (by simpa using hLeft) (by simpa using hStatus)

theorem showBuflen_silent (trace : Bool) :
    Only (fun e => ∀ bd, e ≠ .setStatus bd .noError) (showBuflen trace) := by
  apply Only.mono _ (showBuflen_only trace)
  rintro _ ⟨i, _, rfl⟩
  simp

theorem dispatch_holds {trace : Bool} {cmd : Cmd} {d : Driver} (h : Consistent d) :
    Holds (dispatch trace cmd) d := by
  cases cmd with
  | startXfer => exact startTransfer_holds h
  | finishXfer => exact waitForTransfer_holds h
  | xfer =>
    apply Always.bind Moves.refl
    exact (startTransfer_holds h).mono (fun _ _ => id) fun _ _ => waitForTransfer_holds
  | showBuflen => exact holds_of_only (showBuflen_silent trace) h
  | unknown => exact holds_of_only trivial h

theorem ioctl_holds {trace : Bool} {cmd : Cmd} {arg : Int} {d : Driver} (h : Consistent d) :
    Holds (ioctl trace cmd arg) d := by
  rw [ioctl]
  refine Always.ask_bind fun d₁ hMove₁ => ⟨⟨hMove₁.consistent h, by simp⟩, ?_⟩
  intro copied d₁' hCopy
  have h₁ := armedAnswers_consistent (hMove₁.consistent h) hCopy
  split
  · exact holds_of_only trivial h₁
  · apply Always.bind Moves.refl
    exact (dispatch_holds h₁).mono (fun _ _ => id) fun _ _ hOld =>
      holds_of_only (p := .ret (0 : Int)) trivial hOld

/-! ## The whole session -/

structure Session.Inv (w : Session) : Prop where
  consistent : Consistent w.driver
  holds : Holds w.current w.driver

theorem inv_step {platform : Platform} {w next : Session} {label : Label} (h : w.Inv)
    (hArmed : SignalArmed w label) (hStep : w.step platform label = some next) : next.Inv := by
  have hMoved : ∀ d, Moves w.driver d → Session.Inv { w with driver := d } := by
    intro d hMove
    exact ⟨hMove.consistent h.consistent, h.holds.moved Moves.trans hMove⟩
  cases label with
  | ioctl cmd arg =>
    simp only [Session.step] at hStep
    split at hStep <;> cases hStep
    exact ⟨h.consistent, ioctl_holds h.consistent⟩
  | mmap count pgoff =>
    cases hStep
    exact h
  | writeLength bd length =>
    cases hStep
    exact hMoved _ (moves_writeLength _ _ _)
  | engine event =>
    obtain ⟨d, hEngine, hEq⟩ := Option.map_eq_some_iff.mp hStep
    cases hEq
    exact hMoved d (moves_engine hEngine)
  | advance reply =>
    obtain ⟨d, current⟩ := w
    cases current with
    | ret value => cases hStep
    | call e rest =>
      obtain ⟨⟨answer, d'⟩, hPerform, hEq⟩ := Option.map_eq_some_iff.mp hStep
      cases hEq
      refine ⟨h.consistent.perform hPerform, h.holds.answered Moves.refl ⟨⟨reply, hPerform⟩, ?_⟩⟩
      rintro bd rfl
      exact hArmed

theorem inv_sound {w : Session} {label : Label} (h : w.Inv) : SuccessSound w label := by
  cases label with
  | advance reply =>
    obtain ⟨d, current⟩ := w
    cases current with
    | ret value => trivial
    | call e rest =>
      have hSafe := (h.holds.safe_call Moves.refl).2
      simp only [SuccessSound, head]
      split
      · rename_i bd hHead
        exact hSafe bd (Option.some.inj hHead)
      · trivial
  | _ => trivial

/-- Success is sound in every session whose waits find only signals of armed BDs, whatever the
table of BDs held at first. -/
theorem success_sound (platform : Platform) (pBdTable : Int → ProxyBd)
    (pBufferTable : Int → ChannelBuffer) (bufferPhysAddr : Nat) (labels : List Label)
    (h : Along (Session.step platform) SignalArmed
      (.opened pBdTable pBufferTable bufferPhysAddr) labels) :
    Along (Session.step platform) SuccessSound
      (.opened pBdTable pBufferTable bufferPhysAddr) labels := by
  have hOpened := consistent_opened pBdTable pBufferTable bufferPhysAddr
  apply Along.of_invariant (I := Session.Inv) _ _ _ h
  · exact fun w label next hInv hArmed hStep => inv_step hInv hArmed hStep
  · exact fun w label hInv _ => inv_sound hInv
  · exact ⟨hOpened, holds_of_only trivial hOpened⟩

/-! ## Two sessions on a platform without trace -/

def quietPlatform : Platform := ⟨false, 4096, by decide⟩

def emptyBuffers : Int → ChannelBuffer := fun _ => ⟨.noError, 1024⟩

def zeroedBds : Int → ProxyBd := fun _ => ⟨0, 0, 0, 0, 0⟩

/-- A BD table as `devm_kmalloc` may leave it: counts and cookies that are not zero. -/
def dirtyBds : Int → ProxyBd := fun _ => ⟨1, 1, 0, 0, 0⟩

/-- The next call of the request returns, and none fails. -/
def callSucceeds : Label := .advance ⟨true, 0⟩

def startAccepted (bd cookie : Int) : List Label :=
  .ioctl .startXfer bd :: List.replicate 7 callSucceeds ++
    [.advance ⟨true, cookie⟩, callSucceeds, callSucceeds]

def startRefused (bd : Int) : List Label :=
  .ioctl .startXfer bd :: List.replicate 5 callSucceeds ++ [.advance ⟨false, 0⟩]

def finish (bd : Int) : List Label := .ioctl .finishXfer bd :: List.replicate 6 callSucceeds

def engineDone (k : Nat) : List Label := [.engine (.complete true), .engine (.callback k)]

/-- A start, its completion and a finish: the guard and the law hold, and a success is stored. -/
theorem success_sound_one_transfer :
    Along (Session.step quietPlatform) SuccessSound (.opened zeroedBds emptyBuffers 0)
        (startAccepted 3 7 ++ engineDone 0 ++ finish 3) ∧
      (run (Session.step quietPlatform) (.opened zeroedBds emptyBuffers 0)
        (startAccepted 3 7 ++ engineDone 0 ++ finish 3)).map
          (fun w => (w.driver.pBufferTable 3).status) = some .noError :=
  ⟨success_sound quietPlatform zeroedBds emptyBuffers 0 _ (by decide), by decide⟩

/-- Neither a start without a descriptor nor a BD that was never started is told from a success:
the signal and the cookie are those of an earlier transfer, or of the allocation. -/
theorem success_unsound :
    ¬ Along (Session.step quietPlatform) SuccessSound (.opened zeroedBds emptyBuffers 0)
        (startAccepted 3 7 ++ engineDone 0 ++ startRefused 3 ++ finish 3) ∧
      ¬ Along (Session.step quietPlatform) SuccessSound (.opened dirtyBds emptyBuffers 0)
        (startAccepted 3 1 ++ engineDone 0 ++ finish 5) := by
  constructor <;> decide

end SoftwarePrototypes.DmaProxy
