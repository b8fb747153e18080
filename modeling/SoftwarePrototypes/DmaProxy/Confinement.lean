import SoftwarePrototypes.DmaProxy.Layout
import SoftwarePrototypes.DmaProxy.SuccessSoundness

/-! # What user requests can reach

An index, a length word and the size of a mapping come from user space unchecked. With each of
them in its range, the requests of a session stay inside the allocation of the channel, and
every transfer inside the buffer it was asked for.
-/

namespace SoftwarePrototypes.DmaProxy

open Interaction Interaction.Runs Interaction.Prog

/-- The handles of the BDs are set as `create_channel` sets them, and the allocation starts on a
page. -/
structure Initialised (platform : Platform) (d : Driver) : Prop where
  handle : ∀ bd, InTable bd → (d.pBdTable bd).dmaHandle = dmaHandle d.bufferPhysAddr bd.toNat
  page : platform.pageSize ∣ d.bufferPhysAddr

def Descriptor.Inside (desc : Descriptor) (physAddr : Nat) (bd : Int) : Prop :=
  dmaHandle physAddr bd.toNat ≤ desc.address ∧
    desc.address + desc.length.toNat ≤ dmaHandle physAddr bd.toNat + bufferSize

def Pages.Inside (pages : Pages) (pageSize physAddr : Nat) : Prop :=
  physAddr / pageSize ≤ pages.first ∧
    pages.first + pages.count ≤
      physAddr / pageSize + pageAlign pageSize allocationSize / pageSize

instance (desc : Descriptor) (physAddr : Nat) (bd : Int) : Decidable (desc.Inside physAddr bd) :=
  inferInstanceAs (Decidable (_ ∧ _))

instance (pages : Pages) (pageSize physAddr : Nat) :
    Decidable (pages.Inside pageSize physAddr) := inferInstanceAs (Decidable (_ ∧ _))

/-! ## The two laws of a session -/

/-- A call uses only indices of the tables, and submits only a range inside the buffer that the
request asked for. -/
def ConfinedCall (physAddr : Nat) (arg : Int) (e : Call) : Prop :=
  (∀ bd ∈ e.touches, InTable bd) ∧
    match e with
    | .dmaengineSubmit bd desc => bd = arg ∧ desc.Inside physAddr bd
    | _ => True

def Confined (platform : Platform) (w : Session) : Label → Prop
  | .advance _ => ∀ e ∈ w.current.head, ConfinedCall w.driver.bufferPhysAddr w.arg e
  | .mmap count pgoff => ∀ pages ∈ w.driver.mmap platform.pageSize count pgoff,
      pages.Inside platform.pageSize w.driver.bufferPhysAddr
  | _ => True

def RangedCall (d : Driver) : Call → Prop
  | .setSgDmaLen bd => (d.pBufferTable bd).length.toNat ≤ bufferSize
  | _ => True

/-- The index of a request is one of the tables, the length word it reads is at most the size of
a buffer, and a mapping from the start is no longer than the allocation. -/
def InRange (platform : Platform) (w : Session) : Label → Prop
  | .ioctl cmd arg => 0 < cmd.reads → InTable arg
  | .advance _ => ∀ e ∈ w.current.head, RangedCall w.driver e
  | .mmap count pgoff => pgoff = 0 →
      count ≤ pageAlign platform.pageSize allocationSize / platform.pageSize
  | _ => True

instance (physAddr : Nat) (arg : Int) (e : Call) : Decidable (ConfinedCall physAddr arg e) := by
  unfold ConfinedCall
  refine @instDecidableAnd _ _ inferInstance ?_
  split <;> infer_instance

instance (d : Driver) (e : Call) : Decidable (RangedCall d e) := by
  unfold RangedCall
  split <;> infer_instance

instance (platform : Platform) (w : Session) :
    (label : Label) → Decidable (Confined platform w label)
  | .advance _ => inferInstanceAs (Decidable (∀ e ∈ w.current.head, ConfinedCall _ _ e))
  | .mmap _ _ => inferInstanceAs (Decidable (∀ pages ∈ Driver.mmap _ _ _ _, pages.Inside _ _))
  | .ioctl _ _ | .writeLength _ _ | .engine _ => inferInstanceAs (Decidable True)

instance (platform : Platform) (w : Session) :
    (label : Label) → Decidable (InRange platform w label)
  | .ioctl _ _ => inferInstanceAs (Decidable (_ → InTable _))
  | .advance _ => inferInstanceAs (Decidable (∀ e ∈ w.current.head, RangedCall _ e))
  | .mmap _ _ => inferInstanceAs (Decidable (_ = 0 → _ ≤ _))
  | .writeLength _ _ | .engine _ => inferInstanceAs (Decidable True)

/-! ## Mappings -/

theorem pageAlign_mul {pageSize : Nat} (h : 0 < pageSize) (count : Nat) :
    pageAlign pageSize (count * pageSize) / pageSize = count := by
  have hDiv : (count * pageSize + pageSize - 1) / pageSize = count := by
    rw [Nat.add_sub_assoc h, Nat.add_comm, Nat.add_mul_div_right _ _ h,
      Nat.div_eq_of_lt (Nat.sub_lt h Nat.one_pos), Nat.zero_add]
  rw [pageAlign, hDiv, Nat.mul_div_cancel _ h]

/-- The driver passes the length of the request as the size of the allocation, so any request
at offset zero is granted and any other is refused. -/
theorem mmap_eq_some_iff {platform : Platform} {d : Driver} {count pgoff : Nat} {pages : Pages} :
    d.mmap platform.pageSize count pgoff = some pages ↔
      pgoff = 0 ∧ 0 < count ∧ pages = ⟨d.bufferPhysAddr / platform.pageSize, count⟩ := by
  rw [Driver.mmap, dmaMmapCoherent]
  simp only [pageAlign_mul platform.pageSize_pos]
  split
  · rename_i hRefused
    simp only [reduceCtorEq, false_iff, not_and]
    omega
  · rename_i hGranted
    have hZero : pgoff = 0 := by omega
    subst hZero
    have hCount : 0 < count := by omega
    simp [hCount, eq_comm]

theorem mmap_confined {platform : Platform} {w : Session} {count pgoff : Nat}
    (h : InRange platform w (.mmap count pgoff)) : Confined platform w (.mmap count pgoff) := by
  intro pages hPages
  obtain ⟨hZero, _, rfl⟩ := mmap_eq_some_iff.mp hPages
  exact ⟨le_rfl, Nat.add_le_add_left (h hZero) _⟩

/-! ## What stays of a channel while others act -/

/-- The engine and user space leave the addresses of a channel and its index alone. -/
structure Keeps (d d' : Driver) : Prop where
  physAddr : d'.bufferPhysAddr = d.bufferPhysAddr
  bdindex : d'.bdindex = d.bdindex
  handle : ∀ bd, (d'.pBdTable bd).dmaHandle = (d.pBdTable bd).dmaHandle
  scatter : ∀ bd, d'.sgDescriptor bd = d.sgDescriptor bd

theorem Keeps.refl (d : Driver) : Keeps d d := ⟨rfl, rfl, fun _ => rfl, fun _ => rfl⟩

theorem Keeps.trans (d d' d'' : Driver) (h : Keeps d d') (h' : Keeps d' d'') : Keeps d d'' where
  physAddr := h'.physAddr.trans h.physAddr
  bdindex := h'.bdindex.trans h.bdindex
  handle := fun bd => (h'.handle bd).trans (h.handle bd)
  scatter := fun bd => (h'.scatter bd).trans (h.scatter bd)

theorem keeps_updateBd (d : Driver) (bd : Int) {f : ProxyBd → ProxyBd}
    (hHandle : ∀ b, (f b).dmaHandle = b.dmaHandle) (hAddress : ∀ b, (f b).sgAddress = b.sgAddress)
    (hLength : ∀ b, (f b).sgLength = b.sgLength) : Keeps d (d.updateBd bd f) := by
  refine ⟨rfl, rfl, fun bd' => ?_, fun bd' => ?_⟩
  · by_cases h : bd' = bd
    · subst h
      simp [Driver.updateBd, hHandle]
    · simp [Driver.updateBd, h]
  · by_cases h : bd' = bd
    · subst h
      simp [Driver.sgDescriptor, Driver.updateBd, hAddress, hLength]
    · simp [Driver.sgDescriptor, Driver.updateBd, h]

theorem keeps_engine {d d' : Driver} {event : EngineEvent} (h : d.engineStep event = some d') :
    Keeps d d' := by
  obtain ⟨_, _, -, -, -, -, rfl⟩ | ⟨k, t, -, -, -, -, rfl⟩ := engineStep_cases h
  · exact ⟨rfl, rfl, fun _ => rfl, fun _ => rfl⟩
  · let ran : Driver := { d with transfers := d.transfers.set k { t with fired := true } }
    have hRan : Keeps ran (d.syncCallback k t) :=
      keeps_updateBd ran t.bd (f := fun b => { b with done := b.done + 1 }) (fun _ => rfl)
        (fun _ => rfl) fun _ => rfl
    exact ⟨hRan.physAddr, hRan.bdindex, hRan.handle, hRan.scatter⟩

theorem keeps_writeLength (d : Driver) (bd : Int) (length : BitVec 32) :
    Keeps d (d.updateBuffer bd fun b => { b with length := length }) :=
  ⟨rfl, rfl, fun _ => rfl, fun _ => rfl⟩

def Call.Prepares : Call → Prop
  | .copyFromUser _ | .sgInitTable _ | .setSgDmaAddress _ | .setSgDmaLen _ => True
  | _ => False

theorem keeps_submit {d d' : Driver} {bd cookie : Int} (h : d.submit bd cookie = some d') :
    Keeps d d' := by
  have hStore : Keeps d (d.storeCookie bd cookie) :=
    keeps_updateBd d bd (fun _ => rfl) (fun _ => rfl) fun _ => rfl
  unfold Driver.submit at h
  split at h
  · cases h
    exact ⟨hStore.physAddr, hStore.bdindex, hStore.handle, hStore.scatter⟩
  · split at h <;> cases h
    exact ⟨hStore.physAddr, hStore.bdindex, hStore.handle, hStore.scatter⟩

theorem keeps_perform {d d' : Driver} {e : Call} {reply : Reply} {answer : Answer e}
    (h : perform e reply d = some (answer, d')) (hCall : ¬ e.Prepares) : Keeps d d' := by
  cases e with
  | copyFromUser _ | sgInitTable _ | setSgDmaAddress _ | setSgDmaLen _ =>
    exact absurd trivial hCall
  | dmaengineSubmit bd desc =>
    obtain ⟨d₁, hSubmit, hEq⟩ := Option.map_eq_some_iff.mp h
    cases hEq
    exact keeps_submit hSubmit
  | devicePrepSlaveSg bd =>
    simp only [perform] at h
    split at h <;> cases h <;> exact ⟨rfl, rfl, fun _ => rfl, fun _ => rfl⟩
  | waitForCompletionTimeout bd =>
    simp only [perform] at h
    split at h <;> cases h
    · exact keeps_updateBd d bd (fun _ => rfl) (fun _ => rfl) fun _ => rfl
    · exact Keeps.refl d
  | initCompletion bd =>
    cases h
    exact keeps_updateBd d bd (fun _ => rfl) (fun _ => rfl) fun _ => rfl
  | _ =>
    cases h
    exact ⟨rfl, rfl, fun _ => rfl, fun _ => rfl⟩

theorem Initialised.of_keeps {platform : Platform} {d d' : Driver} (h : Initialised platform d)
    (hKeeps : Keeps d d') : Initialised platform d' := by
  constructor
  · intro bd hBd
    rw [hKeeps.handle, hKeeps.physAddr]
    exact h.handle bd hBd
  · rw [hKeeps.physAddr]
    exact h.page

/-! ## One request -/

/-- A channel that works on the buffer `arg` of the allocation at `physAddr`. -/
structure Serves (platform : Platform) (physAddr : Nat) (arg : Int) (d : Driver) : Prop
    extends Initialised platform d where
  physAddr_eq : d.bufferPhysAddr = physAddr
  bdindex_eq : d.bdindex = arg

/-- The answers of kernel and engine where every length word read is in range. -/
def rangedAnswers : Sem Call Answer Driver := fun e d answer d' =>
  (∃ reply, perform e reply d = some (answer, d')) ∧ RangedCall d e

abbrev Stays {α : Type} (platform : Platform) (physAddr : Nat) (arg : Int) (p : Program α)
    (d : Driver) : Prop :=
  Always Keeps rangedAnswers (fun e _ => ConfinedCall physAddr arg e)
    (fun _ => Serves platform physAddr arg) p d

section Request

variable {platform : Platform} {physAddr : Nat} {arg : Int} {d d' : Driver}

theorem Serves.of_keeps (h : Serves platform physAddr arg d) (hKeeps : Keeps d d') :
    Serves platform physAddr arg d' :=
  ⟨h.toInitialised.of_keeps hKeeps, hKeeps.physAddr.trans h.physAddr_eq,
    hKeeps.bdindex.trans h.bdindex_eq⟩

theorem updateBd_handle {bd : Int} {f : ProxyBd → ProxyBd}
    (hf : ∀ b, (f b).dmaHandle = b.dmaHandle) (bd' : Int) :
    ((d.updateBd bd f).pBdTable bd').dmaHandle = (d.pBdTable bd').dmaHandle := by
  by_cases h : bd' = bd
  · subst h
    simp [Driver.updateBd, hf]
  · simp [Driver.updateBd, h]

theorem Serves.updateBd (h : Serves platform physAddr arg d) (bd : Int) {f : ProxyBd → ProxyBd}
    (hf : ∀ b, (f b).dmaHandle = b.dmaHandle) :
    Serves platform physAddr arg (d.updateBd bd f) := by
  refine ⟨⟨fun bd' hBd => ?_, h.page⟩, h.physAddr_eq, h.bdindex_eq⟩
  rw [updateBd_handle hf]
  exact h.handle bd' hBd

/-- A stretch of program that makes confined calls only, none of which prepares a transfer. -/
theorem stays_of_only {α : Type} {p : Program α} (h : Serves platform physAddr arg d)
    (hOnly : Only (fun e => ConfinedCall physAddr arg e ∧ ¬ e.Prepares) p) :
    Stays platform physAddr arg p d := by
  apply Always.of_invariant (I := Serves platform physAddr arg) _ _ _ hOnly h
  · exact fun _ _ hOld hKeeps => hOld.of_keeps hKeeps
  · rintro e s answer s' ⟨_, hCall⟩ hOld ⟨⟨reply, hPerform⟩, _⟩
    exact hOld.of_keeps (keeps_perform hPerform hCall)
  · exact fun e s hAllowed _ => hAllowed.1

theorem stays_read {α : Type} {rest : Int → Program α} (h : Serves platform physAddr arg d)
    (hRest : ∀ d', Serves platform physAddr arg d' → Stays platform physAddr arg (rest arg) d') :
    Stays platform physAddr arg (ask .readBdindex >>= rest) d := by
  refine Always.ask_bind fun d₁ hKeeps => ⟨⟨by simp [Call.touches], trivial⟩, ?_⟩
  rintro _ _ ⟨⟨reply, hPerform⟩, _⟩
  cases hPerform
  have h₁ := h.of_keeps hKeeps
  rw [h₁.bdindex_eq]
  exact hRest d₁ h₁

theorem confinedCall_own {e : Call} (hArg : InTable arg) (hTouches : e.touches = some arg)
    (hCall : ∀ bd desc, e ≠ .dmaengineSubmit bd desc) : ConfinedCall physAddr arg e := by
  refine ⟨by simpa [hTouches] using hArg, ?_⟩
  split
  · rename_i bd desc
    exact absurd rfl (hCall bd desc)
  · trivial

theorem stays_submit {desc : Descriptor} (h : Serves platform physAddr arg d)
    (hArg : InTable arg) (hDesc : desc.Inside physAddr arg) :
    Stays platform physAddr arg (do
      ask (.initCompletion arg)
      ask (.dmaengineSubmit arg desc)
      let cookie ← ask (.readCookie arg)
      if cookie < 0 then pure () else ask .dmaAsyncIssuePending) d := by
  apply stays_of_only h
  simp only [only_ask_bind]
  refine ⟨⟨confinedCall_own hArg rfl (by simp), id⟩, fun _ =>
    ⟨⟨⟨by simpa [Call.touches] using hArg, rfl, hDesc⟩, id⟩, fun _ =>
    ⟨⟨confinedCall_own hArg rfl (by simp), id⟩, fun cookie => ?_⟩⟩⟩
  split
  · trivial
  · simp only [only_ask]
    exact ⟨⟨by simp [Call.touches], trivial⟩, id⟩

theorem traceStart_stays {trace : Bool} (h : Serves platform physAddr arg d)
    (hArg : InTable arg) : Stays platform physAddr arg (traceStart trace arg) d := by
  apply stays_of_only h
  cases trace with
  | false => trivial
  | true =>
    exact ⟨⟨confinedCall_own hArg rfl (by simp), id⟩, fun _ => trivial⟩

theorem startTransfer_stays {trace : Bool} (h : Serves platform physAddr arg d)
    (hArg : InTable arg) : Stays platform physAddr arg (startTransfer trace) d := by
  rw [startTransfer]
  refine stays_read h fun d₀ h₀ => Always.bind Keeps.refl ?_
  refine (traceStart_stays h₀ hArg).mono (fun _ _ => id) fun _ d₁ h₁ => ?_
  refine Always.ask_bind fun d₂ hKeeps₂ => ⟨confinedCall_own hArg rfl (by simp), ?_⟩
  rintro _ _ ⟨⟨_, ⟨⟩⟩, _⟩
  have h₂ := (h₁.of_keeps hKeeps₂).updateBd arg
    (f := fun b => { b with sgAddress := 0, sgLength := 0 }) fun _ => rfl
  refine Always.ask_bind fun d₃ hKeeps₃ => ⟨confinedCall_own hArg rfl (by simp), ?_⟩
  rintro _ _ ⟨⟨_, ⟨⟩⟩, _⟩
  have h₃ := (h₂.of_keeps hKeeps₃).updateBd arg
    (f := fun b => { b with sgAddress := b.dmaHandle }) fun _ => rfl
  have hAddress₃ : ((d₃.updateBd arg fun b => { b with sgAddress := b.dmaHandle }).sgDescriptor
      arg).address = dmaHandle physAddr arg.toNat := by
    have hHandle := (h₂.of_keeps hKeeps₃).handle arg hArg
    rw [(h₂.of_keeps hKeeps₃).physAddr_eq] at hHandle
    simpa [Driver.sgDescriptor, Driver.updateBd] using hHandle
  refine Always.ask_bind fun d₄ hKeeps₄ => ⟨confinedCall_own hArg rfl (by simp), ?_⟩
  rintro _ _ ⟨⟨_, ⟨⟩⟩, hLength⟩
  have h₄ := (h₃.of_keeps hKeeps₄).updateBd arg
    (f := fun b => { b with sgLength := (d₄.pBufferTable arg).length }) fun _ => rfl
  have hInside₄ : ((d₄.updateBd arg fun b => { b with
      sgLength := (d₄.pBufferTable arg).length }).sgDescriptor arg).Inside physAddr arg := by
    have hAddress₄ : (d₄.sgDescriptor arg).address = dmaHandle physAddr arg.toNat := by
      rw [hKeeps₄.scatter]
      exact hAddress₃
    have hAddress : (d₄.pBdTable arg).sgAddress = dmaHandle physAddr arg.toNat := hAddress₄
    have hBound : (d₄.pBufferTable arg).length.toNat ≤ bufferSize := hLength
    simp only [Descriptor.Inside, Driver.sgDescriptor, Driver.updateBd, Function.update_self,
      hAddress]
    omega
  refine Always.ask_bind fun d₅ hKeeps₅ => ⟨confinedCall_own hArg rfl (by simp), ?_⟩
  rintro chanDesc d₆ ⟨⟨reply, hPrep⟩, _⟩
  have h₆ := (h₄.of_keeps hKeeps₅).of_keeps (keeps_perform hPrep id)
  cases chanDesc with
  | none => exact fun d₇ hKeeps₇ => h₆.of_keeps hKeeps₇
  | some desc =>
    apply stays_submit h₆ hArg
    simp only [perform] at hPrep
    split at hPrep <;> cases hPrep
    rw [hKeeps₅.scatter]
    exact hInside₄

theorem waitForTransfer_stays (h : Serves platform physAddr arg d) (hArg : InTable arg) :
    Stays platform physAddr arg waitForTransfer d := by
  rw [waitForTransfer]
  refine stays_read h fun d₁ h₁ => stays_of_only h₁ ?_
  simp only [only_ask_bind]
  refine ⟨⟨confinedCall_own hArg rfl (by simp), id⟩, fun _ =>
    ⟨⟨confinedCall_own hArg rfl (by simp), id⟩, fun timeLeft =>
    ⟨⟨confinedCall_own hArg rfl (by simp), id⟩, fun status => ?_⟩⟩⟩
  split
  · exact (only_ask _).mpr ⟨confinedCall_own hArg rfl (by simp), id⟩
  · split <;> exact (only_ask _).mpr ⟨confinedCall_own hArg rfl (by simp), id⟩

theorem showBuflen_confined (trace : Bool) :
    Only (fun e => ConfinedCall physAddr arg e ∧ ¬ e.Prepares) (showBuflen trace) := by
  apply Only.mono _ (showBuflen_only trace)
  rintro _ ⟨i, hBound, rfl⟩
  have hTable : InTable i := ⟨Int.natCast_nonneg i, by omega⟩
  exact ⟨⟨by simpa [Call.touches] using hTable, trivial⟩, id⟩

theorem dispatch_stays {trace : Bool} {cmd : Cmd} (h : Serves platform physAddr arg d)
    (hArg : 0 < cmd.reads → InTable arg) :
    Stays platform physAddr arg (dispatch trace cmd) d := by
  cases cmd with
  | startXfer => exact startTransfer_stays h (hArg (by decide))
  | finishXfer => exact waitForTransfer_stays h (hArg (by decide))
  | xfer =>
    apply Always.bind Keeps.refl
    exact (startTransfer_stays h (hArg (by decide))).mono (fun _ _ => id)
      fun _ _ h' => waitForTransfer_stays h' (hArg (by decide))
  | showBuflen => exact stays_of_only h (showBuflen_confined trace)
  | unknown => exact stays_of_only h trivial

end Request

theorem ioctl_confined {platform : Platform} {trace : Bool} {cmd : Cmd} {arg : Int} {d : Driver}
    (h : Initialised platform d) (hArg : 0 < cmd.reads → InTable arg) :
    Always Keeps rangedAnswers (fun e _ => ConfinedCall d.bufferPhysAddr arg e)
      (fun _ _ => True) (ioctl trace cmd arg) d := by
  rw [ioctl]
  refine Always.ask_bind fun d₁ hKeeps => ⟨⟨by simp [Call.touches], trivial⟩, ?_⟩
  rintro copied _ ⟨⟨reply, ⟨⟩⟩, _⟩
  split
  · exact fun _ _ => trivial
  · rename_i hCopied
    have hServes : Serves platform d.bufferPhysAddr arg
        { d₁ with bdindex := if reply.ok then arg else reply.value } :=
      have hInit := h.of_keeps hKeeps
      ⟨⟨hInit.handle, hInit.page⟩, hKeeps.physAddr, if_pos (by simpa using hCopied)⟩
    apply Always.bind Keeps.refl
    exact (dispatch_stays hServes hArg).mono (fun _ _ => id) fun _ _ _ _ _ => trivial

/-! ## The whole session -/

theorem perform_initialised {platform : Platform} {d d' : Driver} {e : Call} {reply : Reply}
    {answer : Answer e} (h : Initialised platform d)
    (hPerform : perform e reply d = some (answer, d')) :
    Initialised platform d' ∧ d'.bufferPhysAddr = d.bufferPhysAddr := by
  by_cases hCall : e.Prepares
  · cases e with
    | copyFromUser arg =>
      cases hPerform
      exact ⟨⟨h.handle, h.page⟩, rfl⟩
    | sgInitTable bd | setSgDmaAddress bd | setSgDmaLen bd =>
      cases hPerform
      refine ⟨⟨fun bd' hBd => ?_, h.page⟩, rfl⟩
      rw [updateBd_handle]
      · exact h.handle bd' hBd
      · exact fun _ => rfl
    | _ => exact hCall.elim
  · have hKeeps := keeps_perform hPerform hCall
    exact ⟨h.of_keeps hKeeps, hKeeps.physAddr⟩

structure Session.InvConfined (platform : Platform) (w : Session) : Prop where
  initialised : Initialised platform w.driver
  stays : Always Keeps rangedAnswers (fun e _ => ConfinedCall w.driver.bufferPhysAddr w.arg e)
    (fun _ _ => True) w.current w.driver

theorem invConfined_step {platform : Platform} {w next : Session} {label : Label}
    (h : w.InvConfined platform) (hRange : InRange platform w label)
    (hStep : w.step platform label = some next) : next.InvConfined platform := by
  have hMoved : ∀ d, Keeps w.driver d → Session.InvConfined platform { w with driver := d } := by
    intro d hKeeps
    refine ⟨h.initialised.of_keeps hKeeps, ?_⟩
    have hStays := h.stays.moved Keeps.trans hKeeps
    rwa [← hKeeps.physAddr] at hStays
  cases label with
  | ioctl cmd arg =>
    simp only [Session.step] at hStep
    split at hStep <;> cases hStep
    exact ⟨h.initialised, ioctl_confined h.initialised hRange⟩
  | mmap count pgoff =>
    cases hStep
    exact h
  | writeLength bd length =>
    cases hStep
    exact hMoved _ (keeps_writeLength _ _ _)
  | engine event =>
    obtain ⟨d, hEngine, hEq⟩ := Option.map_eq_some_iff.mp hStep
    cases hEq
    exact hMoved d (keeps_engine hEngine)
  | advance reply =>
    obtain ⟨d, current, arg⟩ := w
    cases current with
    | ret value => cases hStep
    | call e rest =>
      obtain ⟨⟨answer, d'⟩, hPerform, hEq⟩ := Option.map_eq_some_iff.mp hStep
      cases hEq
      obtain ⟨hInit, hPhys⟩ := perform_initialised h.initialised hPerform
      refine ⟨hInit, ?_⟩
      have hAnswer : rangedAnswers e d answer d' := ⟨⟨reply, hPerform⟩, hRange e rfl⟩
      simpa only [hPhys] using h.stays.answered Keeps.refl hAnswer

theorem invConfined_confined {platform : Platform} {w : Session} {label : Label}
    (h : w.InvConfined platform) (hRange : InRange platform w label) :
    Confined platform w label := by
  cases label with
  | mmap count pgoff => exact mmap_confined hRange
  | advance reply =>
    obtain ⟨d, current, arg⟩ := w
    cases current with
    | ret value => exact fun e hHead => absurd hHead (Option.not_mem_none e)
    | call e rest =>
      rintro _ ⟨⟩
      exact h.stays.safe_call Keeps.refl
  | _ => trivial

/-! ## Ranges inside their buffers -/

theorem Descriptor.Inside.span_subset {desc : Descriptor} {physAddr : Nat} {bd : Int}
    (h : desc.Inside physAddr bd) :
    span desc.address desc.length.toNat ⊆ bufferField physAddr bd.toNat :=
  DmaProxy.span_subset h.1 h.2

/-- Ranges inside the buffers of two BDs are apart, and no range covers a status or length
word. -/
theorem inside_disjoint {desc desc' : Descriptor} {physAddr : Nat} {bd bd' : Int}
    (h : desc.Inside physAddr bd) (h' : desc'.Inside physAddr bd') (hBd : InTable bd)
    (hBd' : InTable bd') (hNe : bd ≠ bd') :
    Disjoint (span desc.address desc.length.toNat) (span desc'.address desc'.length.toNat) := by
  have hNat : bd.toNat ≠ bd'.toNat := by
    have := hBd.1
    have := hBd'.1
    omega
  exact (bufferField_disjoint physAddr hNat).mono h.span_subset h'.span_subset

theorem inside_words {desc : Descriptor} {physAddr : Nat} {bd : Int}
    (h : desc.Inside physAddr bd) (i : Nat) :
    Disjoint (span desc.address desc.length.toNat) (statusWord physAddr i) ∧
      Disjoint (span desc.address desc.length.toNat) (lengthWord physAddr i) :=
  ⟨(bufferField_statusWord physAddr bd.toNat i).mono_left h.span_subset,
    (bufferField_lengthWord physAddr bd.toNat i).mono_left h.span_subset⟩

/-- Every request of a session stays inside the channel when its index, the length word it
reads and the size of a mapping are in range; and ranges so confined do not meet one another, a
status word or a length word. -/
theorem requests_confined (platform : Platform) (w : Session) (labels : List Label)
    (hInit : Initialised platform w.driver) (hIdle : w.current.head = none)
    (h : Along (Session.step platform) (InRange platform) w labels) :
    Along (Session.step platform) (Confined platform) w labels ∧
      ∀ (physAddr : Nat) (bd : Int) (desc : Descriptor),
        ConfinedCall physAddr bd (.dmaengineSubmit bd desc) →
          (∀ bd' desc', bd ≠ bd' → ConfinedCall physAddr bd' (.dmaengineSubmit bd' desc') →
            Disjoint (span desc.address desc.length.toNat)
              (span desc'.address desc'.length.toNat)) ∧
          ∀ i, Disjoint (span desc.address desc.length.toNat) (statusWord physAddr i) ∧
            Disjoint (span desc.address desc.length.toNat) (lengthWord physAddr i) := by
  constructor
  · apply Along.of_invariant (I := Session.InvConfined platform) _ _ _ h
    · exact fun w label next hInv hRange hStep => invConfined_step hInv hRange hStep
    · exact fun w label hInv hRange => invConfined_confined hInv hRange
    · refine ⟨hInit, ?_⟩
      cases hCurrent : w.current with
      | ret value => exact fun _ _ => trivial
      | call e rest =>
        rw [hCurrent] at hIdle
        cases hIdle
  · rintro physAddr bd desc ⟨hTouches, _, hInside⟩
    refine ⟨?_, inside_words hInside⟩
    rintro bd' desc' hNe ⟨hTouches', _, hInside'⟩
    exact inside_disjoint hInside hInside' (hTouches bd rfl) (hTouches' bd' rfl) hNe

/-! ## A channel at one megabyte -/

def oneMegabyte : Nat := 0x100000

def bufferChannel : Session :=
  .opened (fun bd => ⟨0, 0, dmaHandle oneMegabyte bd.toNat, 0, 0⟩) (fun _ => ⟨.noError, 0⟩)
    oneMegabyte

theorem bufferChannel_initialised : Initialised quietPlatform bufferChannel.driver :=
  ⟨fun _ _ => rfl, ⟨256, rfl⟩⟩

theorem requests_confined_whole_buffer :
    Along (Session.step quietPlatform) (Confined quietPlatform) bufferChannel
      ([.mmap 1025 0, .writeLength 31 131072] ++ startAccepted 31 1) :=
  (requests_confined quietPlatform bufferChannel _ bufferChannel_initialised rfl (by decide)).1

/-- An index past the tables is used, a length word past the buffer is submitted, and a mapping
longer than the allocation is granted. -/
theorem requests_unconfined :
    ¬ Along (Session.step quietPlatform) (Confined quietPlatform) bufferChannel (finish 32) ∧
      ¬ Along (Session.step quietPlatform) (Confined quietPlatform) bufferChannel
        (.writeLength 0 0xFFFFFFFF :: startAccepted 0 1) ∧
      ¬ Along (Session.step quietPlatform) (Confined quietPlatform) bufferChannel
        [.mmap 1026 0] := by
  refine ⟨?_, ?_, ?_⟩ <;> decide

end SoftwarePrototypes.DmaProxy
