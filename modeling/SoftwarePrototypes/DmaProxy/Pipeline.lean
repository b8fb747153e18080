import SoftwarePrototypes.DmaProxy.Attribution
import SoftwarePrototypes.DmaProxy.Confinement
import SoftwarePrototypes.Interaction.Rings

/-! # A channel driven round a ring

The BDs of a ring are started in order, each after its transfer before has been finished, and
finished in the same order. Then every request is served by the transfer it stands for, as long
as the calls of the kernel succeed and no wait runs out of time.
-/

namespace SoftwarePrototypes.DmaProxy

open Interaction Interaction.Prog

/-! ## The transfers of a ring -/

/-- Transfer `k` of a ring, of which `f` are finished. While it is not, it is that of the latest
start of its BD, whose completion holds the signal of its callback. -/
structure Carried (r : Ring) (f : Nat) (d : Driver) (k : Nat) (t : Transfer) : Prop where
  bd : t.bd = r.slot k
  outcome : t.outcome = if k < d.completed then some true else none
  unfired : d.completed ≤ k → t.fired = false
  consumed : k < f → t.fired = true
  armed : f ≤ k → d.latestStart (r.slot k) = some (.accepted k) ∧
    (d.pBdTable (r.slot k)).done = t.fired.toNat

/-- `n` transfers have been accepted. -/
structure Carries (r : Ring) (f n : Nat) (d : Driver) : Prop where
  length : d.transfers.length = n
  consistent : Consistent d
  finished_le : f ≤ d.completed
  completed_le : d.completed ≤ d.issued
  issued_le : d.issued ≤ n
  room : n ≤ f + r.slots
  carried : ∀ k t, d.transfers[k]? = some t → Carried r f d k t

def Free (r : Ring) (f n : Nat) (bd : Int) : Prop := ∀ k, f ≤ k → k < n → (r.slot k : Int) ≠ bd

section Ring

variable {r : Ring} {f n k : Nat} {d d' : Driver} {t : Transfer} {bd : Int}

theorem slot_apart {i j : Nat} (hi : f ≤ i) (hj : f ≤ j) (hi' : i < f + r.slots)
    (hj' : j < f + r.slots) (h : i ≠ j) : (r.slot i : Int) ≠ r.slot j := by
  rw [Ne, Int.ofNat_inj]
  rcases Nat.lt_or_gt_of_ne h with hLt | hGt
  · exact r.slot_ne hLt (by omega)
  · exact (r.slot_ne hGt (by omega)).symm

theorem free_next (hRoom : n < f + r.slots) : Free r f n (r.slot n) :=
  fun _ hLow hHigh => slot_apart hLow (by omega) (by omega) hRoom (by omega)

theorem Carries.lt (h : Carries r f n d) (hGet : d.transfers[k]? = some t) : k < n := by
  rw [← h.length]
  exact (List.getElem?_eq_some_iff.mp hGet).1

theorem Carries.exists_transfer (h : Carries r f n d) (hk : k < n) :
    ∃ t, d.transfers[k]? = some t :=
  ⟨_, List.getElem?_eq_getElem (h.length ▸ hk)⟩

theorem Carries.of_same (h : Carries r f n d) (hConsistent : Consistent d')
    (hTransfers : d'.transfers = d.transfers) (hStarts : d'.starts = d.starts)
    (hIssued : d'.issued = d.issued) (hCompleted : d'.completed = d.completed)
    (hDone : ∀ k, f ≤ k → k < n →
      (d'.pBdTable (r.slot k)).done = (d.pBdTable (r.slot k)).done) : Carries r f n d' := by
  obtain ⟨hLength, -, hFinished, hLe, hIssuedLe, hRoom, hCarried⟩ := h
  refine ⟨by rw [hTransfers, hLength], hConsistent, by rwa [hCompleted],
    by rwa [hCompleted, hIssued], by rwa [hIssued], hRoom, fun k t hGet => ?_⟩
  rw [hTransfers] at hGet
  have hBound : k < n := hLength ▸ (List.getElem?_eq_some_iff.mp hGet).1
  obtain ⟨hBd, hOutcome, hUnfired, hConsumed, hArmed⟩ := hCarried k t hGet
  refine ⟨hBd, by rwa [hCompleted], by rwa [hCompleted], hConsumed, fun hLow => ?_⟩
  rw [Driver.latestStart, hStarts, hDone k hLow hBound]
  exact hArmed hLow

theorem updateBd_self (g : ProxyBd → ProxyBd) :
    (d.updateBd bd g).pBdTable bd = g (d.pBdTable bd) := Function.update_self bd _ _

theorem Carries.updateBd (h : Carries r f n d) (hFree : Free r f n bd) {g : ProxyBd → ProxyBd}
    (hg : ∀ b, (g b).cookie = b.cookie) : Carries r f n (d.updateBd bd g) := by
  refine h.of_same (h.consistent.updateBd bd hg) rfl rfl rfl rfl fun k hLow hHigh => ?_
  rw [updateBd_other (hFree k hLow hHigh)]

theorem Carries.unfinished (h : Carries r f n d) (hGet : d.transfers[k]? = some t)
    (hFresh : t.fired = false) : f ≤ k := by
  by_contra hEarly
  rw [(h.carried k t hGet).consumed (by omega)] at hFresh
  cases hFresh

/-! ### Moves of the engine -/

theorem Carries.complete (h : Carries r f n d) (hPending : d.completed < d.issued)
    (hGet : d.transfers[d.completed]? = some t) (hConsistent : Consistent (d.complete t true)) :
    Carries r f n (d.complete t true) := by
  have hBound : d.completed < d.transfers.length := (List.getElem?_eq_some_iff.mp hGet).1
  obtain ⟨hLength, -, hFinished, hLe, hIssued, hRoom, hCarried⟩ := h
  obtain ⟨hBd, hOutcome, hUnfired, hConsumed, hArmed⟩ := hCarried _ t hGet
  refine ⟨?_, hConsistent, Nat.le_succ_of_le hFinished, hPending, hIssued, hRoom, fun k u hu => ?_⟩
  · simp only [Driver.complete, List.length_set, hLength]
  · rcases eq_or_ne d.completed k with rfl | hOther
    · simp only [Driver.complete, List.getElem?_set_self hBound, Option.some.injEq] at hu
      subst hu
      refine ⟨hBd, ?_, fun hLe => absurd hLe (Nat.not_succ_le_self _), fun hk => ?_, hArmed⟩
      · exact (if_pos (Nat.lt_succ_self _)).symm
      · exact absurd hFinished (Nat.not_le.mpr hk)
    · simp only [Driver.complete, List.getElem?_set_ne hOther] at hu
      obtain ⟨hBd, hOutcome, hUnfired, hConsumed, hArmed⟩ := hCarried k u hu
      refine ⟨hBd, ?_, fun hk => hUnfired (Nat.le_of_succ_le hk), hConsumed, hArmed⟩
      rw [hOutcome]
      simp only [Driver.complete]
      congr 1
      rw [eq_iff_iff]
      omega

/-- The transfer that calls back is not finished, and its BD has no signal yet. -/
theorem Carries.callback (h : Carries r f n d) (hGet : d.transfers[k]? = some t)
    (hDone : t.outcome.isSome = true) (hFresh : t.fired = false)
    (hConsistent : Consistent (d.syncCallback k t)) : Carries r f n (d.syncCallback k t) := by
  have hBound : k < d.transfers.length := (List.getElem?_eq_some_iff.mp hGet).1
  have hWithin := h.lt hGet
  have hOpen := h.unfinished hGet hFresh
  obtain ⟨hLength, -, hFinished, hLe, hIssued, hRoom, hCarried⟩ := h
  obtain ⟨hBd, hOutcome, hUnfired, hConsumed, hArmed⟩ := hCarried k t hGet
  have hCompleted : k < d.completed := by
    by_contra hLater
    rw [hOutcome, if_neg hLater] at hDone
    cases hDone
  refine ⟨?_, hConsistent, hFinished, hLe, hIssued, hRoom, fun j u hu => ?_⟩
  · change (d.transfers.set k _).length = n
    rw [List.length_set, hLength]
  · change (d.transfers.set k { t with fired := true })[j]? = some u at hu
    rcases eq_or_ne k j with rfl | hOther
    · rw [List.getElem?_set_self hBound, Option.some.injEq] at hu
      subst hu
      refine ⟨hBd, hOutcome, fun hLater => absurd hLater (Nat.not_le.mpr hCompleted), fun _ => rfl,
        fun _ => ?_⟩
      obtain ⟨hLatest, hSignals⟩ := hArmed hOpen
      refine ⟨hLatest, ?_⟩
      rw [Driver.syncCallback, hBd, updateBd_self]
      change (d.pBdTable (r.slot k)).done + 1 = 1
      rw [hSignals, hFresh]
      rfl
    · rw [List.getElem?_set_ne hOther] at hu
      have hWithin' : j < n := hLength ▸ (List.getElem?_eq_some_iff.mp hu).1
      obtain ⟨hBd', hOutcome', hUnfired', hConsumed', hArmed'⟩ := hCarried j u hu
      refine ⟨hBd', hOutcome', hUnfired', hConsumed', fun hLow => ?_⟩
      have hApart : (r.slot j : Int) ≠ r.slot k :=
        slot_apart hLow hOpen (by omega) (by omega) (Ne.symm hOther)
      refine ⟨(hArmed' hLow).1, ?_⟩
      rw [Driver.syncCallback, hBd, updateBd_other hApart]
      exact (hArmed' hLow).2

end Ring

/-! ## What the engine leaves alone -/

/-- The engine completes transfers without error and calls back. -/
structure Proceeds (d d' : Driver) : Prop extends Keeps d d' where
  carries : ∀ r f n, Carries r f n d → Carries r f n d'
  free : ∀ r f n bd, Carries r f n d → Free r f n bd →
    (d'.pBdTable bd).done = (d.pBdTable bd).done
  starts : d'.starts = d.starts
  issued : d'.issued = d.issued
  buffers : d'.pBufferTable = d.pBufferTable

theorem Proceeds.refl (d : Driver) : Proceeds d d :=
  ⟨.refl d, fun _ _ _ => id, fun _ _ _ _ _ _ => rfl, rfl, rfl, rfl⟩

theorem Proceeds.trans (d d' d'' : Driver) (h : Proceeds d d') (h' : Proceeds d' d'') :
    Proceeds d d'' where
  toKeeps := h.toKeeps.trans d d' d'' h'.toKeeps
  carries r f n hCarries := h'.carries r f n (h.carries r f n hCarries)
  free r f n bd hCarries hFree :=
    (h'.free r f n bd (h.carries r f n hCarries) hFree).trans (h.free r f n bd hCarries hFree)
  starts := h'.starts.trans h.starts
  issued := h'.issued.trans h.issued
  buffers := h'.buffers.trans h.buffers

theorem proceeds_complete {d d' : Driver} (h : d.engineStep (.complete true) = some d') :
    Proceeds d d' := by
  have hKeeps := keeps_engine h
  have hConsistent := engine_consistent h
  obtain ⟨ok, t, hEvent, hGet, hPending, -, rfl⟩ | ⟨_, _, hEvent, -⟩ := engineStep_cases h
  · cases hEvent
    refine ⟨hKeeps, fun r f n hCarries => ?_, fun _ _ _ _ _ _ => rfl, rfl, rfl, rfl⟩
    exact hCarries.complete hPending hGet (hConsistent hCarries.consistent)
  · cases hEvent

theorem proceeds_callback {d d' : Driver} {k : Nat} (h : d.engineStep (.callback k) = some d') :
    Proceeds d d' := by
  have hKeeps := keeps_engine h
  have hConsistent := engine_consistent h
  obtain ⟨_, _, hEvent, -⟩ | ⟨j, t, hEvent, hGet, hDone, hFresh, rfl⟩ := engineStep_cases h
  · cases hEvent
  cases hEvent
  refine ⟨hKeeps, fun r f n hCarries => ?_, fun r f n bd hCarries hFree => ?_, rfl, rfl, rfl⟩
  · exact hCarries.callback hGet hDone hFresh (hConsistent hCarries.consistent)
  · have hOther : bd ≠ t.bd := by
      rw [(hCarries.carried k t hGet).bd]
      exact (hFree k (hCarries.unfinished hGet hFresh) (hCarries.lt hGet)).symm
    rw [Driver.syncCallback, updateBd_other hOther]

/-! ## One request -/

/-- The calls of the kernel succeed, and a wait ends with a signal. -/
def Works (reply : Reply) (d : Driver) : Call → Prop
  | .copyFromUser _ | .devicePrepSlaveSg _ => reply.ok = true
  | .dmaengineSubmit _ _ => 0 ≤ reply.value
  | .waitForCompletionTimeout bd => 0 < (d.pBdTable bd).done
  | _ => True

instance Works.decidable (reply : Reply) (d : Driver) : ∀ e, Decidable (Works reply d e)
  | .copyFromUser _ | .devicePrepSlaveSg _ => inferInstanceAs (Decidable (reply.ok = true))
  | .dmaengineSubmit _ _ => inferInstanceAs (Decidable (0 ≤ reply.value))
  | .waitForCompletionTimeout bd => inferInstanceAs (Decidable (0 < (d.pBdTable bd).done))
  | .readBdindex | .readLength _ | .sgInitTable _ | .setSgDmaAddress _ | .setSgDmaLen _
  | .initCompletion _ | .readCookie _ | .dmaAsyncIssuePending | .setStatus _ _
  | .dmaAsyncIsTxComplete _ => inferInstanceAs (Decidable True)

def workingAnswers : Sem Call Answer Driver := fun e d answer d' =>
  ∃ reply, perform e reply d = some (answer, d') ∧ Works reply d e

theorem exists_cookie (transfers : List Transfer) :
    ∃ cookie : Int, 0 < cookie ∧ ∀ t ∈ transfers, t.cookie < cookie := by
  induction transfers with
  | nil => exact ⟨1, Int.one_pos, fun _ hMem => absurd hMem List.not_mem_nil⟩
  | cons t transfers ih =>
    obtain ⟨cookie, hPos, hAbove⟩ := ih
    refine ⟨max cookie (t.cookie + 1), lt_max_of_lt_left hPos, ?_⟩
    refine List.forall_mem_cons.mpr ⟨lt_max_of_lt_right (Int.lt_succ t.cookie), ?_⟩
    exact fun u hu => lt_max_of_lt_left (hAbove u hu)

/-- Every call can succeed, a wait once it is signalled. -/
theorem exists_working (d : Driver) (e : Call)
    (hSignal : ∀ bd, e = .waitForCompletionTimeout bd → 0 < (d.pBdTable bd).done) :
    ∃ reply result, perform e reply d = some result ∧ Works reply d e := by
  cases e with
  | dmaengineSubmit bd desc =>
    obtain ⟨cookie, hPos, hAbove⟩ := exists_cookie d.transfers
    have hNew : ∀ t ∈ d.transfers, t.cookie ≠ cookie := fun t ht => (hAbove t ht).ne
    have hSubmit : d.submit bd cookie = some ((d.storeCookie bd cookie).accept bd cookie) := by
      rw [Driver.submit, if_neg (not_lt.mpr hPos.le), if_pos ⟨hPos, hNew⟩]
    exact ⟨⟨true, cookie⟩, _, congrArg (Option.map _) hSubmit, hPos.le⟩
  | waitForCompletionTimeout bd => exact ⟨⟨true, 0⟩, _, if_pos (hSignal bd rfl), hSignal bd rfl⟩
  | copyFromUser arg | devicePrepSlaveSg bd => exact ⟨⟨true, 0⟩, _, rfl, rfl⟩
  | _ => exact ⟨⟨true, 0⟩, _, rfl, trivial⟩

/-- The next BD of the ring is being started, with the descriptor of its buffer. -/
structure Preparing (r : Ring) (f n : Nat) (desc : Descriptor) (d : Driver) : Prop where
  carries : Carries r f n d
  issued : d.issued = n
  room : n < f + r.slots
  handle : (d.pBdTable (r.slot n)).dmaHandle = desc.address
  length : (d.pBufferTable (r.slot n)).length = desc.length

/-- The transfer has been accepted and waits to be issued. -/
structure Submitted (r : Ring) (f n : Nat) (d : Driver) : Prop where
  carries : Carries r f (n + 1) d
  issued : d.issued = n

structure Started (r : Ring) (f n : Nat) (d : Driver) : Prop where
  carries : Carries r f (n + 1) d
  issued : d.issued = n + 1

/-- A request to start submits the descriptor of its buffer, and then issues it. -/
def Starting (r : Ring) (f n : Nat) (desc : Descriptor) : Call → Driver → Prop
  | .dmaengineSubmit bd desc', d => bd = r.slot n ∧ desc' = desc ∧ Preparing r f n desc d
  | .dmaAsyncIssuePending, d => Submitted r f n d
  | .waitForCompletionTimeout _, _ => False
  | _, _ => True

/-- The next BD of the ring is being waited for. -/
structure Waiting (r : Ring) (f n : Nat) (d : Driver) : Prop where
  carries : Carries r f n d
  issued : d.issued = n
  started : f < n

/-- The wait has consumed the signal of its transfer. -/
structure Consumed (r : Ring) (f n : Nat) (d : Driver) : Prop where
  carries : Carries r (f + 1) n d
  issued : d.issued = n
  latest : d.latestStart (r.slot f) = some (.accepted f)

structure Finished (r : Ring) (f n : Nat) (d : Driver) : Prop where
  carries : Carries r (f + 1) n d
  issued : d.issued = n
  status : (d.pBufferTable (r.slot f)).status = .noError

/-- A request to finish waits for the oldest transfer. -/
def Finishing (r : Ring) (f n : Nat) : Call → Driver → Prop
  | .dmaengineSubmit _ _, _ | .dmaAsyncIssuePending, _ => False
  | .waitForCompletionTimeout bd, d => bd = r.slot f ∧ Waiting r f n d
  | _, _ => True

abbrev Follows {α : Type} (safe : Call → Driver → Prop) (post : α → Driver → Prop)
    (p : Program α) (d : Driver) : Prop := Always Proceeds workingAnswers safe post p d

section Request

variable {r : Ring} {f n : Nat} {desc : Descriptor} {d d' : Driver}

theorem Preparing.moved (h : Preparing r f n desc d) (hMove : Proceeds d d') :
    Preparing r f n desc d' where
  carries := hMove.carries r f n h.carries
  issued := hMove.issued.trans h.issued
  room := h.room
  handle := (hMove.handle _).trans h.handle
  length := by rw [hMove.buffers]; exact h.length

theorem Submitted.moved (h : Submitted r f n d) (hMove : Proceeds d d') : Submitted r f n d' :=
  ⟨hMove.carries r f (n + 1) h.carries, hMove.issued.trans h.issued⟩

theorem Started.moved (h : Started r f n d) (hMove : Proceeds d d') : Started r f n d' :=
  ⟨hMove.carries r f (n + 1) h.carries, hMove.issued.trans h.issued⟩

theorem Consumed.moved (h : Consumed r f n d) (hMove : Proceeds d d') : Consumed r f n d' where
  carries := hMove.carries r (f + 1) n h.carries
  issued := hMove.issued.trans h.issued
  latest := by rw [Driver.latestStart, hMove.starts]; exact h.latest

theorem Finished.moved (h : Finished r f n d) (hMove : Proceeds d d') : Finished r f n d' where
  carries := hMove.carries r (f + 1) n h.carries
  issued := hMove.issued.trans h.issued
  status := by rw [hMove.buffers]; exact h.status

theorem Preparing.free (h : Preparing r f n desc d) : Free r f n (r.slot n) := free_next h.room

theorem Preparing.updateBd (h : Preparing r f n desc d) {g : ProxyBd → ProxyBd}
    (hCookie : ∀ b, (g b).cookie = b.cookie) (hHandle : ∀ b, (g b).dmaHandle = b.dmaHandle) :
    Preparing r f n desc (d.updateBd (r.slot n) g) where
  carries := h.carries.updateBd h.free hCookie
  issued := h.issued
  room := h.room
  handle := (updateBd_handle hHandle _).trans h.handle
  length := h.length

/-- The transfer accepted is the next of the ring. -/
theorem Preparing.submit (h : Preparing r f n desc d) (hDone : (d.pBdTable (r.slot n)).done = 0)
    {cookie : Int} (hAccepted : 0 ≤ cookie) (hSubmit : d.submit (r.slot n) cookie = some d') :
    Submitted r f n d' := by
  have hConsistent := h.carries.consistent.submit hSubmit
  have hFree := h.free
  obtain ⟨⟨hLength, -, hFinished, hLe, hIssued, hRoom, hCarried⟩, rfl, hNext, -, -⟩ := h
  unfold Driver.submit at hSubmit
  rw [if_neg (not_lt.mpr hAccepted)] at hSubmit
  split at hSubmit
  case isFalse => cases hSubmit
  cases hSubmit
  refine ⟨⟨?_, hConsistent, hFinished, hLe, Nat.le_succ _, hNext, fun k t hGet => ?_⟩, rfl⟩
  · change (d.transfers ++ [_]).length = _
    rw [List.length_append, hLength]
    rfl
  · change (d.transfers ++ [⟨r.slot d.issued, cookie, none, false⟩])[k]? = some t at hGet
    rcases Nat.lt_or_ge k d.transfers.length with hOld | hLast
    · rw [List.getElem?_append_left hOld] at hGet
      obtain ⟨hBd, hOutcome, hUnfired, hConsumed, hArmed⟩ := hCarried k t hGet
      refine ⟨hBd, hOutcome, hUnfired, hConsumed, fun hLow => ?_⟩
      have hOther : (r.slot k : Int) ≠ r.slot d.issued := hFree k hLow (by omega)
      rw [Driver.accept, latestStart_record, if_neg hOther.symm]
      exact ⟨(hArmed hLow).1, (storeCookie_done _ cookie _).trans (hArmed hLow).2⟩
    · rw [List.getElem?_append_right hLast, List.getElem?_singleton] at hGet
      split at hGet
      case isFalse => cases hGet
      cases hGet
      obtain rfl : k = d.issued := by omega
      refine ⟨rfl, (if_neg (Nat.not_lt.mpr hLe)).symm, fun _ => rfl,
        fun hEarly => absurd hEarly (by omega), fun _ => ⟨?_, ?_⟩⟩
      · rw [Driver.accept, latestStart_record, if_pos rfl]
        exact congrArg (fun k => some (StartResult.accepted k)) hLength
      · exact (storeCookie_done _ cookie _).trans hDone

/-- The rule for a call in a state that the engine leaves. -/
theorem follows_ask {α : Type} {safe : Call → Driver → Prop} {post : α → Driver → Prop}
    {P : Driver → Prop} (h : P d) (hStable : ∀ d d', P d → Proceeds d d' → P d') {e : Call}
    {rest : Answer e → Program α} (hSafe : ∀ d, P d → safe e d)
    (hNext : ∀ d reply answer d', P d → Works reply d e → perform e reply d = some (answer, d') →
      Follows safe post (rest answer) d') :
    Follows safe post (ask e >>= rest) d := by
  refine Always.ask_bind fun d₁ hMove => ?_
  have hHere := hStable d d₁ h hMove
  refine ⟨hSafe d₁ hHere, ?_⟩
  rintro answer d₂ ⟨reply, hPerform, hWorks⟩
  exact hNext d₁ reply answer d₂ hHere hWorks hPerform

theorem follows_ret {α : Type} {safe : Call → Driver → Prop} {post : α → Driver → Prop}
    {P : Driver → Prop} (h : P d) (hStable : ∀ d d', P d → Proceeds d d' → P d') {value : α}
    (hPost : ∀ d, P d → post value d) : Follows safe post (.ret value) d :=
  fun d' hMove => hPost d' (hStable d d' h hMove)

theorem Submitted.issue (h : Submitted r f n d) :
    Started r f n { d with issued := d.transfers.length } := by
  obtain ⟨⟨hLength, hConsistent, hFinished, hLe, hIssued, hRoom, hCarried⟩, hEq⟩ := h
  refine ⟨⟨hLength, ?_, hFinished, ?_, hLength.le, hRoom, fun k t hGet => ?_⟩, hLength⟩
  · exact hConsistent.of_same rfl rfl fun _ => rfl
  · exact hLe.trans (hIssued.trans hLength.ge)
  · obtain ⟨hBd, hOutcome, hUnfired, hConsumed, hArmed⟩ := hCarried k t hGet
    exact ⟨hBd, hOutcome, hUnfired, hConsumed, hArmed⟩

theorem Submitted.cookie_pos (h : Submitted r f n d) : 0 < (d.pBdTable (r.slot n)).cookie := by
  obtain ⟨t, hGet⟩ := h.carries.exists_transfer (Nat.lt_succ_self n)
  have hOpen : f ≤ n := by
    have hFinished := h.carries.finished_le
    have hLe := h.carries.completed_le
    have hIssued := h.issued
    omega
  have hLatest := ((h.carries.carried n t hGet).armed hOpen).1
  have hId := h.carries.consistent.accepted _ n hLatest
  exact h.carries.consistent.positive _ (List.mem_of_getElem? hId)

/-- From the submission on. -/
theorem submitted_follows (h : Submitted r f n d) :
    Follows (Starting r f n desc) (fun _ => Started r f n) (do
      let cookie ← ask (.readCookie (r.slot n))
      if cookie < 0 then pure () else ask .dmaAsyncIssuePending) d := by
  refine follows_ask h (fun _ _ => Submitted.moved) (fun _ _ => trivial) ?_
  rintro d _ _ _ h - ⟨⟩
  rw [if_neg (not_lt.mpr h.cookie_pos.le)]
  refine Always.ask fun d₁ hMove => ⟨h.moved hMove, ?_⟩
  rintro _ _ ⟨_, ⟨⟩, -⟩ d₂ hMove'
  exact (h.moved hMove).issue.moved hMove'

theorem traceStart_follows (h : Preparing r f n desc d) (trace : Bool) :
    Follows (Starting r f n desc) (fun _ => Preparing r f n desc)
      (traceStart trace (r.slot n)) d := by
  cases trace with
  | false => exact follows_ret h (fun _ _ => Preparing.moved) fun _ => id
  | true =>
    refine follows_ask h (fun _ _ => Preparing.moved) (fun _ _ => trivial) ?_
    rintro d _ _ _ h - ⟨⟩
    exact follows_ret h (fun _ _ => Preparing.moved) fun _ => id

/-! The address of the buffer comes from its handle, the length from user space, and right before
the submission the completion has no signals. -/

theorem Preparing.unset (h : Preparing r f n desc d) : Preparing r f n desc
    (d.updateBd (r.slot n) fun b => { b with sgAddress := 0, sgLength := 0 }) :=
  h.updateBd (fun _ => rfl) fun _ => rfl

theorem Preparing.setAddress (h : Preparing r f n desc d) :
    let d' := d.updateBd (r.slot n) fun b => { b with sgAddress := b.dmaHandle }
    Preparing r f n desc d' ∧ (d'.sgDescriptor (r.slot n)).address = desc.address := by
  refine ⟨h.updateBd (fun _ => rfl) fun _ => rfl, ?_⟩
  rw [Driver.sgDescriptor, updateBd_self]
  exact h.handle

theorem Preparing.setLength (h : Preparing r f n desc d)
    (hAddress : (d.sgDescriptor (r.slot n)).address = desc.address) :
    let d' := d.updateBd (r.slot n) fun b => { b with
      sgLength := (d.pBufferTable (r.slot n)).length }
    Preparing r f n desc d' ∧ d'.sgDescriptor (r.slot n) = desc := by
  refine ⟨h.updateBd (fun _ => rfl) fun _ => rfl, ?_⟩
  rw [Driver.sgDescriptor, updateBd_self, h.length]
  exact congrArg (Descriptor.mk · desc.length) hAddress

theorem Preparing.initCompletion (h : Preparing r f n desc d) :
    let d' := d.updateBd (r.slot n) fun b => { b with done := 0 }
    Preparing r f n desc d' ∧ (d'.pBdTable (r.slot n)).done = 0 := by
  refine ⟨h.updateBd (fun _ => rfl) fun _ => rfl, ?_⟩
  rw [updateBd_self]

theorem submit_follows
    (h : Preparing r f n desc d ∧ d.sgDescriptor (r.slot n) = desc) :
    Follows (Starting r f n desc) (fun _ => Started r f n) (do
      ask (.initCompletion (r.slot n))
      ask (.dmaengineSubmit (r.slot n) desc)
      let cookie ← ask (.readCookie (r.slot n))
      if cookie < 0 then pure () else ask .dmaAsyncIssuePending) d := by
  refine follows_ask h.1 (fun _ _ => Preparing.moved) (fun _ _ => trivial) ?_
  rintro d _ _ _ h - ⟨⟩
  refine follows_ask (P := fun d => Preparing r f n desc d ∧ (d.pBdTable (r.slot n)).done = 0)
    h.initCompletion ?_ (fun d h => ⟨rfl, rfl, h.1⟩) ?_
  · intro d d' h hMove
    rw [hMove.free r f n _ h.1.carries h.1.free]
    exact ⟨h.1.moved hMove, h.2⟩
  · rintro d reply _ d' ⟨h, hDone⟩ hAccepted hSubmit
    obtain ⟨d₁, hSubmitted, hEq⟩ := Option.map_eq_some_iff.mp hSubmit
    cases hEq
    exact submitted_follows (h.submit hDone hAccepted hSubmitted)

theorem startTransfer_follows (h : Preparing r f n desc d) (hIndex : d.bdindex = r.slot n)
    (trace : Bool) :
    Follows (Starting r f n desc) (fun _ => Started r f n) (startTransfer trace) d := by
  rw [startTransfer]
  refine follows_ask (P := fun d => Preparing r f n desc d ∧ d.bdindex = r.slot n) ⟨h, hIndex⟩
    (fun _ _ h hMove => ⟨h.1.moved hMove, hMove.bdindex.trans h.2⟩) (fun _ _ => trivial) ?_
  rintro d _ _ _ ⟨h, hIndex⟩ - ⟨⟩
  rw [hIndex]
  apply Always.bind Proceeds.refl
  apply (traceStart_follows h trace).mono (fun _ _ => id)
  intro _ d h
  refine follows_ask h (fun _ _ => Preparing.moved) (fun _ _ => trivial) ?_
  rintro d _ _ _ h - ⟨⟩
  refine follows_ask h.unset (fun _ _ => Preparing.moved) (fun _ _ => trivial) ?_
  rintro d _ _ _ h - ⟨⟩
  refine follows_ask (P := fun d => Preparing r f n desc d ∧
    (d.sgDescriptor (r.slot n)).address = desc.address) h.setAddress ?_ (fun _ _ => trivial) ?_
  · intro d d' h hMove
    rw [hMove.scatter]
    exact ⟨h.1.moved hMove, h.2⟩
  rintro d _ _ _ ⟨h, hAddress⟩ - ⟨⟩
  have hStable : ∀ d d', Preparing r f n desc d ∧ d.sgDescriptor (r.slot n) = desc →
      Proceeds d d' → Preparing r f n desc d' ∧ d'.sgDescriptor (r.slot n) = desc := by
    intro d d' h hMove
    rw [hMove.scatter]
    exact ⟨h.1.moved hMove, h.2⟩
  refine follows_ask (h.setLength hAddress) hStable (fun _ _ => trivial) ?_
  rintro d reply answer _ h hOk hPrep
  have hOk : reply.ok = true := hOk
  simp only [perform, hOk, if_true, h.2] at hPrep
  cases hPrep
  exact submit_follows h

/-! ### Finishing -/

/-- The wait finds the signal of the transfer of its BD. -/
theorem Carries.wait (h : Carries r f n d) (hStarted : f < n)
    (hSignal : 0 < (d.pBdTable (r.slot f)).done) :
    Carries r (f + 1) n (d.updateBd (r.slot f) fun b => { b with done := b.done - 1 }) := by
  obtain ⟨t, hGet⟩ := h.exists_transfer hStarted
  have hOwn := h.carried f t hGet
  have hFired : t.fired = true := by
    rw [(hOwn.armed le_rfl).2] at hSignal
    cases hCase : t.fired with
    | true => rfl
    | false =>
      rw [hCase] at hSignal
      cases hSignal
  have hCompleted : f < d.completed := by
    by_contra hLater
    rw [hOwn.unfired (Nat.not_lt.mp hLater)] at hFired
    cases hFired
  have hConsistent : Consistent (d.updateBd (r.slot f) fun b => { b with done := b.done - 1 }) :=
    h.consistent.updateBd _ fun _ => rfl
  obtain ⟨hLength, -, hFinished, hLe, hIssued, hRoom, hCarried⟩ := h
  refine ⟨hLength, hConsistent, hCompleted, hLe, hIssued, by omega, fun k u hu => ?_⟩
  have hBound : k < n := hLength ▸ (List.getElem?_eq_some_iff.mp hu).1
  obtain ⟨hBd, hOutcome, hUnfired, hConsumed, hArmed⟩ := hCarried k u hu
  refine ⟨hBd, hOutcome, hUnfired, fun hk => ?_, fun hk => ?_⟩
  · rcases Nat.lt_succ_iff_lt_or_eq.mp hk with hOld | rfl
    · exact hConsumed hOld
    · obtain rfl : u = t := Option.some.inj (hu.symm.trans hGet)
      exact hFired
  · have hOther : (r.slot k : Int) ≠ r.slot f :=
      slot_apart (Nat.le_of_succ_le hk) le_rfl (by omega) (by omega) (by omega)
    refine ⟨(hArmed (Nat.le_of_succ_le hk)).1, ?_⟩
    rw [updateBd_other hOther]
    exact (hArmed (Nat.le_of_succ_le hk)).2

theorem Consumed.complete (h : Consumed r f n d) :
    d.isTxComplete (d.pBdTable (r.slot f)).cookie = .complete := by
  have hCompleted := h.carries.finished_le
  have hLe := h.carries.completed_le
  have hIssued := h.carries.issued_le
  obtain ⟨t, hGet⟩ := h.carries.exists_transfer (show f < n by omega)
  have hOwn := h.carries.carried f t hGet
  have hEnded : d.Ended (r.slot f) true := by
    refine ⟨t, ?_, hOwn.bd, ?_⟩
    · rw [Driver.latestTransfer, h.latest]
      exact hGet
    · rw [hOwn.outcome, if_pos (by omega)]
  rw [h.carries.consistent.status_of_ended hEnded, if_pos rfl]

theorem Carries.updateBuffer (h : Carries r f n d) (bd : Int) (g : ChannelBuffer → ChannelBuffer) :
    Carries r f n (d.updateBuffer bd g) :=
  h.of_same (h.consistent.of_same rfl rfl fun _ => rfl) rfl rfl rfl rfl fun _ _ _ => rfl

theorem Waiting.moved (h : Waiting r f n d) (hMove : Proceeds d d') : Waiting r f n d' :=
  ⟨hMove.carries r f n h.carries, hMove.issued.trans h.issued, h.started⟩

theorem waitForTransfer_follows (h : Waiting r f n d) (hIndex : d.bdindex = r.slot f) :
    Follows (Finishing r f n) (fun _ => Finished r f n) waitForTransfer d := by
  rw [waitForTransfer]
  refine follows_ask (P := fun d => Waiting r f n d ∧ d.bdindex = r.slot f) ⟨h, hIndex⟩
    (fun _ _ h hMove => ⟨h.1.moved hMove, hMove.bdindex.trans h.2⟩) (fun _ _ => trivial) ?_
  rintro d _ _ _ ⟨h, hIndex⟩ - ⟨⟩
  rw [hIndex]
  refine follows_ask h (fun _ _ => Waiting.moved) (fun _ _ => trivial) ?_
  rintro d _ _ _ h - ⟨⟩
  refine follows_ask ⟨h.carries.updateBuffer _ _, h.issued, h.started⟩ (fun _ _ => Waiting.moved)
    (fun _ h => ⟨rfl, h⟩) ?_
  rintro d reply timeLeft _ h hSignal hWait
  have hSignal : 0 < (d.pBdTable (r.slot f)).done := hSignal
  obtain ⟨t, hGet⟩ := h.carries.exists_transfer h.started
  have hLatest := ((h.carries.carried f t hGet).armed le_rfl).1
  simp only [perform, if_pos hSignal] at hWait
  cases hWait
  refine follows_ask ⟨h.carries.wait h.started hSignal, h.issued, hLatest⟩
    (fun _ _ => Consumed.moved) (fun _ _ => trivial) ?_
  rintro d _ _ _ h - ⟨⟩
  rw [if_neg Bool.false_ne_true.symm, h.complete, if_neg (not_not.mpr rfl)]
  refine Always.ask fun d₁ hMove => ⟨trivial, ?_⟩
  rintro _ _ ⟨_, ⟨⟩, -⟩ d₂ hMove'
  have h₁ := h.moved hMove
  refine Finished.moved ⟨h₁.carries.updateBuffer _ _, h₁.issued, ?_⟩ hMove'
  simp [Driver.updateBuffer]

/-- Without a signal, and with none to come, the oldest transfer has not completed. -/
theorem Waiting.completed (h : Waiting r f n d) (hSignal : (d.pBdTable (r.slot f)).done = 0)
    (hCallback : d.engineStep (.callback f) = none) : d.completed = f := by
  obtain ⟨t, hGet⟩ := h.carries.exists_transfer h.started
  have hOwn := h.carries.carried f t hGet
  have hFresh : t.fired = false := by
    rw [(hOwn.armed le_rfl).2] at hSignal
    exact Bool.toNat_eq_zero.mp hSignal
  rcases h.carries.finished_le.eq_or_lt with hEq | hLater
  · exact hEq.symm
  · have hDone : t.outcome.isSome = true := by
      rw [hOwn.outcome, if_pos hLater]
      rfl
    simp only [Driver.engineStep, hGet] at hCallback
    rw [if_pos ⟨hDone, hFresh⟩] at hCallback
    cases hCallback

theorem Carries.engine (h : Carries r f n d) (hPending : d.completed < d.issued) :
    ∃ d', d.engineStep (.complete true) = some d' := by
  obtain ⟨t, hGet⟩ := h.exists_transfer (hPending.trans_le h.issued_le)
  have hOpen : t.outcome = none := by
    rw [(h.carried _ t hGet).outcome, if_neg (Nat.lt_irrefl _)]
  refine ⟨d.complete t true, ?_⟩
  simp only [Driver.engineStep, hGet]
  exact if_pos ⟨hPending, hOpen⟩

/-! ### The two requests -/

theorem Carries.setIndex (h : Carries r f n d) (bd : Int) :
    Carries r f n { d with bdindex := bd } :=
  h.of_same (h.consistent.of_same rfl rfl fun _ => rfl) rfl rfl rfl rfl fun _ _ _ => rfl

/-- A request whose argument is copied is that of its program on the BD. -/
theorem ioctl_follows {safe : Call → Driver → Prop} {post : Driver → Prop} {P : Driver → Prop}
    {cmd : Cmd} {arg : Int} (trace : Bool) (h : P d)
    (hStable : ∀ d d', P d → Proceeds d d' → P d')
    (hPost : ∀ d d', post d → Proceeds d d' → post d') (hSafe : ∀ d, safe (.copyFromUser arg) d)
    (hIndex : ∀ d, P d → P { d with bdindex := arg })
    (hRest : ∀ d, P d → d.bdindex = arg → Follows safe (fun _ => post) (dispatch trace cmd) d) :
    Follows safe (fun _ => post) (ioctl trace cmd arg) d := by
  rw [ioctl]
  refine follows_ask h hStable (fun d _ => hSafe d) ?_
  rintro d reply copied _ h hOk ⟨⟩
  have hOk : reply.ok = true := hOk
  simp only [hOk, if_true, Bool.true_eq_false, if_false]
  apply Always.bind Proceeds.refl
  apply (hRest _ (hIndex d h) rfl).mono (fun _ _ => id)
  exact fun _ _ hDone => follows_ret hDone hPost fun _ => id

theorem start_follows (h : Preparing r f n desc d) (trace : Bool) :
    Follows (Starting r f n desc) (fun _ => Started r f n)
      (ioctl trace .startXfer (r.slot n)) d := by
  refine ioctl_follows trace h (fun _ _ => Preparing.moved) (fun _ _ => Started.moved)
    (fun _ => trivial) ?_ fun d h hIndex => startTransfer_follows h hIndex trace
  exact fun d h => ⟨h.carries.setIndex _, h.issued, h.room, h.handle, h.length⟩

theorem finish_follows (h : Waiting r f n d) (trace : Bool) :
    Follows (Finishing r f n) (fun _ => Finished r f n) (ioctl trace .finishXfer (r.slot f)) d := by
  refine ioctl_follows trace h (fun _ _ => Waiting.moved) (fun _ _ => Finished.moved)
    (fun _ => trivial) ?_ fun d h hIndex => waitForTransfer_follows h hIndex
  exact fun d h => ⟨h.carries.setIndex _, h.issued, h.started⟩

end Request

/-! ### How many calls a request makes -/

/-- Of a start with its trace line; a finish makes fewer. -/
def ioctlCalls : Nat := 11

theorem startTransfer_within (trace : Bool) : (startTransfer trace).Within 10 := by
  refine within_ask_bind fun bdindex => ?_
  have hTrace : (traceStart trace bdindex).Within 1 := by
    cases trace with
    | false => trivial
    | true => exact within_ask_bind fun _ => trivial
  refine hTrace.bind (m := 8) fun _ => ?_
  refine within_ask_bind fun _ => within_ask_bind fun _ => within_ask_bind fun _ => ?_
  refine within_ask_bind fun chanDesc => ?_
  cases chanDesc with
  | none => trivial
  | some chanDesc =>
    refine within_ask_bind fun _ => within_ask_bind fun _ => within_ask_bind fun cookie => ?_
    exact within_ite trivial (within_ask _)

theorem waitForTransfer_within : waitForTransfer.Within 5 := by
  refine within_ask_bind fun bdindex => within_ask_bind fun _ => within_ask_bind fun timeLeft => ?_
  refine within_ask_bind fun status => ?_
  exact within_ite (within_ask _) (within_ite (within_ask _) (within_ask _))

theorem ioctl_within {cmd : Cmd} (h : cmd = .startXfer ∨ cmd = .finishXfer) (trace : Bool)
    (arg : Int) : (ioctl trace cmd arg).Within ioctlCalls := by
  have hDispatch : (dispatch trace cmd).Within 10 := by
    rcases h with rfl | rfl
    · exact startTransfer_within trace
    · exact waitForTransfer_within.mono (by decide)
  refine within_ask_bind fun copied => within_ite trivial ?_
  exact hDispatch.bind (m := 0) fun _ => trivial

end SoftwarePrototypes.DmaProxy
