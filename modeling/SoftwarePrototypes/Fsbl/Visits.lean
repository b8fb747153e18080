import SoftwarePrototypes.Fsbl.Walks
import SoftwarePrototypes.Interaction.Traces

/-! # The partitions visited in a run

A trace of the boot loader is cut at each `HeaderDump` into visits of partitions. `Visited` says
what one visit can do to the flags and which calls it makes; `Toured` strings visits together.
-/

namespace SoftwarePrototypes.Fsbl

open Interaction Interaction.Prog

abbrev Event : Type := Sigma Answer

/-- A partition visited, with the calls made for it, the earliest first. -/
structure Visit where
  header : PartHeader
  calls : List Event

def recordVisit (V : List Visit) (event : Event) : List Visit :=
  match event.1, V with
  | .headerDump h, V => ⟨h, []⟩ :: V
  | _, [] => []
  | _, v :: V => { v with calls := v.calls ++ [event] } :: V

/-- The partitions visited along a trace, the latest first. -/
def visits (L : List Event) : List Visit := L.foldl recordVisit []

theorem recordVisit_handles {event : Event} (h : event.1.Handles) (v : Visit) (V : List Visit) :
    recordVisit (v :: V) event = { v with calls := v.calls ++ [event] } :: V := by
  obtain ⟨e, answer⟩ := event
  cases e <;> first | rfl | cases h

theorem recordVisit_first {event : Event} (h : event.1.Handles) : recordVisit [] event = [] := by
  obtain ⟨e, answer⟩ := event
  cases e <;> first | rfl | cases h

theorem foldl_recordVisit {L : List Event} (h : ∀ event ∈ L, event.1.Handles) (v : Visit)
    (V : List Visit) : L.foldl recordVisit (v :: V) = { v with calls := v.calls ++ L } :: V := by
  induction L generalizing v with
  | nil => simp
  | cons event L ih =>
    obtain ⟨hHead, hRest⟩ := List.forall_mem_cons.mp h
    rw [List.foldl_cons, recordVisit_handles hHead, ih hRest, List.append_assoc]
    rfl

theorem visits_prelude {L : List Event} (h : ∀ event ∈ L, event.1.Handles) : visits L = [] := by
  unfold visits
  induction L with
  | nil => rfl
  | cons event L ih =>
    obtain ⟨hHead, hRest⟩ := List.forall_mem_cons.mp h
    rw [List.foldl_cons, recordVisit_first hHead]
    exact ih hRest

theorem mem_recordVisit {V : List Visit} {event first : Event} {u : Visit}
    (hMem : u ∈ recordVisit V first) (hEvent : event ∈ u.calls) :
    event = first ∨ ∃ u ∈ V, event ∈ u.calls := by
  unfold recordVisit at hMem
  split at hMem
  · rw [List.mem_cons] at hMem
    obtain rfl | hMem := hMem
    · cases hEvent
    · exact .inr ⟨u, hMem, hEvent⟩
  · cases hMem
  · rename_i v V _
    rw [List.mem_cons] at hMem
    obtain rfl | hMem := hMem
    · obtain hOld | hNew := List.mem_append.mp hEvent
      · exact .inr ⟨v, List.mem_cons_self, hOld⟩
      · exact .inl (List.mem_singleton.mp hNew)
    · exact .inr ⟨u, List.mem_cons_of_mem _ hMem, hEvent⟩

theorem mem_of_mem_visits {L : List Event} {V : List Visit} {v : Visit}
    (hMem : v ∈ L.foldl recordVisit V) {event : Event} (hEvent : event ∈ v.calls) :
    event ∈ L ∨ ∃ u ∈ V, event ∈ u.calls := by
  induction L generalizing V with
  | nil => exact .inr ⟨v, hMem, hEvent⟩
  | cons first L ih =>
    obtain hLater | ⟨u, hU, hIn⟩ := ih hMem
    · exact .inl (List.mem_cons_of_mem _ hLater)
    · rw [List.mem_cons]
      obtain hFirst | hOld := mem_recordVisit hU hIn
      · exact .inl (.inl hFirst)
      · exact .inr hOld

theorem mem_recordVisit_old {V : List Visit} {event : Event} (first : Event)
    (h : ∃ v ∈ V, event ∈ v.calls) : ∃ v ∈ recordVisit V first, event ∈ v.calls := by
  obtain ⟨v, hMem, hEvent⟩ := h
  unfold recordVisit
  split
  · exact ⟨v, List.mem_cons_of_mem _ hMem, hEvent⟩
  · cases hMem
  · obtain rfl | hOld := List.mem_cons.mp hMem
    · exact ⟨_, List.mem_cons_self, List.mem_append_left _ hEvent⟩
    · exact ⟨v, List.mem_cons_of_mem _ hOld, hEvent⟩

theorem mem_foldl_old {V : List Visit} {event : Event} (h : ∃ v ∈ V, event ∈ v.calls)
    (L : List Event) : ∃ v ∈ L.foldl recordVisit V, event ∈ v.calls := by
  induction L generalizing V with
  | nil => exact h
  | cons first L ih => exact ih (mem_recordVisit_old first h)

/-! ## Taking the parts of a partition apart -/

section Returns

theorem fallback_not_returns {α : Type} {code : FailCode} {L : List Event} {value : α} :
    ¬ Returns (fallback code : Loader α) L value := by
  intro h
  obtain ⟨_, _, _, hRest⟩ := returns_ask_bind h
  obtain ⟨never, _⟩ := returns_ask_bind hRest
  exact nomatch never

theorem returns_require {status : Status} {code : FailCode} {L : List Event}
    (h : Returns (require status code) L ()) : status = .success ∧ L = [] := by
  rw [require] at h
  split at h
  · exact ⟨‹_›, (returns_ret.mp h).1⟩
  · exact (fallback_not_returns h).elim

theorem returns_ask_require {e : Op} {toStatus : Answer e → Status} {code : FailCode}
    {L : List Event}
    (h : Returns (op e >>= fun answer => require (toStatus answer) code) L ()) :
    ∃ answer, toStatus answer = .success ∧ L = [⟨e, answer⟩] := by
  obtain ⟨answer, M, rfl, hRest⟩ := returns_ask_bind h
  obtain ⟨hSuccess, rfl⟩ := returns_require hRest
  exact ⟨answer, hSuccess, rfl⟩

theorem returns_readInto {destination : Destination} {source bytes : U32} {L : List Event}
    {result : Option destination.Data} (h : Returns (readInto destination source bytes) L result) :
    ∃ status data, L = [⟨.moveImage source destination bytes, (status, data)⟩] ∧
      result = if status = .success then some data else none := by
  obtain ⟨⟨status, data⟩, M, rfl, hRest⟩ := returns_ask_bind h
  obtain ⟨rfl, rfl⟩ := returns_ret.mp hRest
  exact ⟨status, data, rfl, rfl⟩

/-- A read that has to succeed for the result. -/
theorem returns_read {α : Type} {destination : Destination} {source bytes : U32}
    {rest : Option destination.Data → Loader α} {L : List Event} {value failed : α}
    (h : Returns (readInto destination source bytes >>= rest) L value)
    (hNone : rest none = pure failed) (hOther : value ≠ failed) :
    ∃ data M, L = ⟨.moveImage source destination bytes, (.success, data)⟩ :: M ∧
      Returns (rest (some data)) M value := by
  obtain ⟨result, _, M, rfl, hRead, hRest⟩ := returns_bind h
  obtain ⟨status, data, rfl, rfl⟩ := returns_readInto hRead
  cases status with
  | success => exact ⟨data, M, rfl, hRest⟩
  | failure =>
    rw [if_neg nofun, hNone] at hRest
    exact absurd (returns_ret.mp hRest).2 hOther

end Returns

/-! ## One visit -/

section Visit

variable (f : Setup) (imageStartAddress : U32)

/-- The flags once the PL attribute has been looked at. -/
def typeFlags (h : PartHeader) (w : Walk) : Walk :=
  if hasPlImage f h then
    { w with plPartitionFlag := true, psPartitionFlag := false, bitstreamFlag := true }
  else w

/-- The flags that the load-address check sees. -/
def loadFlags (h : PartHeader) (w : Walk) : Walk := attrFlags f h (psFlags f h (typeFlags f h w))

/-- The reset reason register shows a watchdog reset. -/
def showsReset : Event → Bool
  | ⟨.xilIn32 addr, reason⟩ => addr == 0xF800702C && decide ((reason : U32) &&& 0x80000000 ≠ 0)
  | _ => false

def Visit.skipped (v : Visit) : Bool := v.calls.any showsReset

/-- What a visit of a partition with a valid header does, by the calls it makes. -/
inductive Visited (h : PartHeader) (w : Walk) : List Event → Step → Prop where
  | passedOver (hOther : ownedByFsbl f h = false) : Visited h w [] (.next w)
  | late (hOwned : ownedByFsbl f h = true) (hPl : hasPlImage f h = true)
      (hLate : w.applicationFlag = true) : Visited h w [] (.stop (typeFlags f h w))
  | skipped {calls : List Event} (hOwned : ownedByFsbl f h = true) (hPl : hasPlImage f h = true)
      (hEarly : w.applicationFlag = false) (hReset : calls.any showsReset = true)
      (hWarm : Returns (watchdogReset f) calls true) :
      Visited h w calls (.next { typeFlags f h w with bitstreamFlag := false })
  | taken {reset calls : List Event} {step : Step} (hOwned : ownedByFsbl f h = true)
      (hEarly : hasPlImage f h = true →
        w.applicationFlag = false ∧ Returns (watchdogReset f) reset false)
      (hPlain : hasPlImage f h = false → reset = [])
      (hLoad : Returns (loadPartition f imageStartAddress h (typeFlags f h w)) calls step) :
      Visited h w (reset ++ calls) step

variable {f imageStartAddress} {h : PartHeader} {w : Walk} {L : List Event} {step : Step}

theorem returns_watchdogReset {warm : Bool} (hReset : Returns (watchdogReset f) L warm) :
    L.any showsReset = warm := by
  rw [watchdogReset] at hReset
  split at hReset
  · obtain ⟨rfl, rfl⟩ := returns_ret.mp hReset
    rfl
  · obtain ⟨reason, M, rfl, hRest⟩ := returns_ask_bind hReset
    obtain ⟨rfl, rfl⟩ := returns_ret.mp hRest
    simp [showsReset]

theorem partition_returns (hRun : Returns (partition f imageStartAddress h w) L step) :
    validateHeader h = .success ∧ ∃ calls, L = ⟨.headerDump h, ()⟩ :: calls ∧
      Visited f imageStartAddress h w calls step := by
  obtain ⟨_, M, rfl, hAfter⟩ := returns_ask_bind hRun
  obtain ⟨_, R, N, rfl, hRequire, hRest⟩ := returns_bind hAfter
  obtain ⟨hValid, rfl⟩ := returns_require hRequire
  refine ⟨hValid, N, rfl, ?_⟩
  split at hRest
  · obtain ⟨rfl, rfl⟩ := returns_ret.mp hRest
    exact .passedOver ‹_›
  rename_i hOwned
  rw [Bool.not_eq_false] at hOwned
  split at hRest
  · rename_i hPl
    have hTyped : typeFlags f h w =
        { w with plPartitionFlag := true, psPartitionFlag := false, bitstreamFlag := true } :=
      if_pos hPl
    rw [plPartition, ← hTyped] at hRest
    have hApp : (typeFlags f h w).applicationFlag = w.applicationFlag := by rw [hTyped]
    split at hRest
    · rename_i hLate
      obtain ⟨rfl, rfl⟩ := returns_ret.mp hRest
      exact .late hOwned hPl (hApp ▸ hLate)
    rename_i hEarly
    rw [Bool.not_eq_true, hApp] at hEarly
    obtain ⟨warm, reset, calls, rfl, hReset, hLoad⟩ := returns_bind hRest
    have hAny := returns_watchdogReset hReset
    cases warm with
    | true =>
      obtain ⟨rfl, rfl⟩ := returns_ret.mp hLoad
      rw [List.append_nil]
      exact .skipped hOwned hPl hEarly hAny hReset
    | false =>
      apply Visited.taken hOwned (fun _ => ⟨hEarly, hReset⟩) _ hLoad
      intro hPlain
      rw [hPl] at hPlain
      cases hPlain
  · rename_i hPlain
    rw [← List.nil_append N]
    apply Visited.taken hOwned (fun hPl => absurd hPl hPlain) (fun _ => rfl)
    rw [typeFlags, if_neg hPlain]
    exact hRest

theorem movePartition_returns {fl : Flags} {L : List Event}
    (hRun : Returns (movePartition f imageStartAddress h fl) L ()) :
    Returns (partitionMove f imageStartAddress h fl) L .success := by
  obtain ⟨status, M, N, rfl, hMove, hRequire⟩ := returns_bind hRun
  obtain ⟨rfl, rfl⟩ := returns_require hRequire
  rw [List.append_nil]
  exact hMove

/-- The load address is below the DDR. -/
def lowLoad (f : Setup) (h : PartHeader) : Bool := f.ddr && decide (h.loadAddr < f.ddrStartAddr)

theorem checkLoadAddr_returns (hRun : Returns (checkLoadAddr f imageStartAddress h w) L step) :
    (lowLoad f h = true ∧ w.psPartitionFlag = true ∧ h.loadAddr = 0 ∧
        w.signedPartitionFlag = false ∧ w.encryptedPartitionFlag = false ∧ L = [] ∧
        step = .stop w) ∨
      (w.psPartitionFlag = true → lowLoad f h = false) ∧
        Returns (handlePartition f imageStartAddress h w) L step := by
  rw [checkLoadAddr] at hRun
  split at hRun
  · rename_i hLow
    split at hRun
    · rename_i hZero
      obtain ⟨rfl, rfl⟩ := returns_ret.mp hRun
      simp only [Bool.and_eq_true, decide_eq_true_eq, Bool.not_eq_true', Bool.or_eq_false_iff]
        at hLow hZero
      have hBelow : lowLoad f h = true := by simp [lowLoad, hLow]
      exact .inl ⟨hBelow, hLow.1.2, hZero.1, hZero.2.1, hZero.2.2, rfl, rfl⟩
    · exact (fallback_not_returns hRun).elim
  rename_i hHigh
  split at hRun
  · exact (fallback_not_returns hRun).elim
  refine .inr ⟨fun hPs => ?_, hRun⟩
  rw [hPs, Bool.and_true, Bool.not_eq_true] at hHigh
  exact hHigh

theorem handlePartition_returns
    (hRun : Returns (handlePartition f imageStartAddress h w) L step) :
    step = .next (latchExecAddr h w) ∧ ∃ before placing checking after,
      L = before ++ (placing ++ (checking ++ after)) ∧
      Returns (beforeHook w.toFlags) before () ∧
      Returns (placePartition f imageStartAddress h w.toFlags) placing () ∧
      Returns (checkPartition f imageStartAddress (partitionStartAddr f imageStartAddress h) h
        w.toFlags) checking () ∧
      Returns (afterHook w.toFlags) after () := by
  rw [handlePartition] at hRun
  simp only [latchExecAddr_toFlags] at hRun
  obtain ⟨_, before, _, rfl, hBefore, hRun⟩ := returns_bind hRun
  obtain ⟨_, placing, _, rfl, hPlacing, hRun⟩ := returns_bind hRun
  obtain ⟨_, checking, _, rfl, hChecking, hRun⟩ := returns_bind hRun
  obtain ⟨_, after, _, rfl, hAfter, hRun⟩ := returns_bind hRun
  obtain ⟨rfl, rfl⟩ := returns_ret.mp hRun
  rw [List.append_nil]
  exact ⟨rfl, before, placing, checking, after, rfl, hBefore, hPlacing, hChecking, hAfter⟩

theorem partition_handles {q : Loader Step} {answer : Answer (.headerDump h)} {calls : List Event}
    (hRun : Steps (partition f imageStartAddress h w) (⟨.headerDump h, answer⟩ :: calls) q) :
    ∀ event ∈ calls, event.1.Handles := by
  refine (Only.steps ?_ (steps_ask_cons hRun)).1
  have hLoad : ∀ w', Only Op.Handles (loadPartition f imageStartAddress h w') :=
    fun w' => (loadPartition_only _ w').mono fun _ => Op.Loads.handles
  refine Only.bind (require_only (fun _ => trivial) trivial _ _) fun _ => ?_
  refine only_ite (fun _ => trivial) fun _ => ?_
  refine only_ite (fun _ => ?_) fun _ => hLoad _
  refine only_ite (fun _ => trivial) fun _ => ?_
  refine Only.bind ((watchdogReset_only f).mono fun _ => Op.Idle.handles) fun _ => ?_
  exact only_ite (fun _ => trivial) fun _ => hLoad _

/-- A run of a partition adds one visit. -/
theorem foldl_partition {q : Loader Step} {answer : Answer (.headerDump h)} {calls : List Event}
    (hRun : Steps (partition f imageStartAddress h w) (⟨.headerDump h, answer⟩ :: calls) q)
    (V : List Visit) :
    (⟨.headerDump h, answer⟩ :: calls : List Event).foldl recordVisit V = ⟨h, calls⟩ :: V :=
  foldl_recordVisit (partition_handles hRun) ⟨h, []⟩ V

end Visit

/-! ## The walk -/

section Walk

variable (f : Setup) (imageStartAddress : U32) (table : Table)

/-- The visits so far, the number of the next partition and the flags it finds. -/
inductive Toured : List Visit → Nat → Walk → Prop where
  | start : Toured [] (firstPartition f) initialWalk
  | visit {V : List Visit} {num : Nat} {w w' : Walk} {calls : List Event}
      (hTour : Toured V num w) (hMore : num < table.partitionCount)
      (hValid : validateHeader (table.partitionHeader num) = .success)
      (hVisit : Visited f imageStartAddress (table.partitionHeader num) w calls (.next w')) :
      Toured (⟨table.partitionHeader num, calls⟩ :: V) (num + 1) w'

/-- All visits of a walk that has ended, and the flags it leaves. -/
inductive Ended : List Visit → Walk → Prop where
  | done {V : List Visit} {num : Nat} {w : Walk} (hTour : Toured f imageStartAddress table V num w)
      (hDone : table.partitionCount ≤ num) : Ended V w
  | stopped {V : List Visit} {num : Nat} {w w' : Walk} {calls : List Event}
      (hTour : Toured f imageStartAddress table V num w) (hMore : num < table.partitionCount)
      (hValid : validateHeader (table.partitionHeader num) = .success)
      (hVisit : Visited f imageStartAddress (table.partitionHeader num) w calls (.stop w')) :
      Ended (⟨table.partitionHeader num, calls⟩ :: V) w'

/-- A visit that has come to a call. -/
inductive Visiting (e : Op) : List Visit → Prop where
  | dump {V : List Visit} {num : Nat} {w : Walk}
      (hTour : Toured f imageStartAddress table V num w) (hMore : num < table.partitionCount)
      (hDump : e = .headerDump (table.partitionHeader num)) : Visiting e V
  | amid {V : List Visit} {num : Nat} {w : Walk} {calls : List Event}
      {next : Answer e → Loader Step} (hTour : Toured f imageStartAddress table V num w)
      (hMore : num < table.partitionCount)
      (hVisit : Steps (partition f imageStartAddress (table.partitionHeader num) w)
        (⟨.headerDump (table.partitionHeader num), ()⟩ :: calls) (.call e next)) :
      Visiting e (⟨table.partitionHeader num, calls⟩ :: V)

variable {f imageStartAddress table} {V : List Visit} {num : Nat} {w : Walk} {L : List Event}

theorem walk_returns (fuel : Nat) {w' : Walk} (hTour : Toured f imageStartAddress table V num w)
    (hFuel : table.partitionCount ≤ num + fuel)
    (hRun : Returns (walk f imageStartAddress table fuel num w) L w') :
    Ended f imageStartAddress table (L.foldl recordVisit V) w' := by
  induction fuel generalizing V num w L with
  | zero =>
    obtain ⟨rfl, rfl⟩ := returns_ret.mp hRun
    exact .done hTour hFuel
  | succ fuel ih =>
    rw [walk] at hRun
    split at hRun
    · rename_i hMore
      obtain ⟨step, M, N, rfl, hPartition, hRest⟩ := returns_bind hRun
      obtain ⟨hValid, calls, rfl, hVisit⟩ := partition_returns hPartition
      rw [List.foldl_append, foldl_partition hPartition]
      cases step with
      | next w₁ => exact ih (.visit hTour hMore hValid hVisit) (by omega) hRest
      | stop w₁ =>
        obtain ⟨rfl, rfl⟩ := returns_ret.mp hRest
        exact .stopped hTour hMore hValid hVisit
    · obtain ⟨rfl, rfl⟩ := returns_ret.mp hRun
      exact .done hTour (by omega)

theorem walk_at_call (fuel : Nat) {e : Op} {next : Answer e → Loader Walk}
    (hTour : Toured f imageStartAddress table V num w)
    (hRun : Steps (walk f imageStartAddress table fuel num w) L (.call e next)) :
    Visiting f imageStartAddress table e (L.foldl recordVisit V) := by
  induction fuel generalizing V num w L with
  | zero => cases (steps_ret.mp hRun).2
  | succ fuel ih =>
    rw [walk] at hRun
    split at hRun
    · rename_i hMore
      obtain ⟨next', hPartition⟩ | ⟨step, M, N, rfl, hPartition, hRest⟩ := calls_bind hRun
      · cases hPartition with
        | refl => exact .dump hTour hMore rfl
        | call hRest =>
          rw [foldl_partition (.call hRest)]
          exact .amid hTour hMore (.call hRest)
      · obtain ⟨hValid, calls, rfl, hVisit⟩ := partition_returns hPartition
        rw [List.foldl_append, foldl_partition hPartition]
        cases step with
        | next w₁ => exact ih (.visit hTour hMore hValid hVisit) hRest
        | stop w₁ => cases (steps_ret.mp hRest).2
    · cases (steps_ret.mp hRun).2

end Walk

/-! ## The whole boot -/

section Boot

variable (f : Setup)

/-- Whether the boot goes on to the walk, with the headers authenticated if they are to be. -/
def secureHeaders (imageStartAddress : U32) (table : Table) : Loader Bool :=
  if f.siliconVersion ≠ f.siliconVersion1 ∧ f.siliconVersion ≠ f.siliconVersion2 then do
    match ← efuseStatus f imageStartAddress table with
    | none => pure false
    | some (status, fsblLength) => do
      authenticateHeaders f imageStartAddress table status fsblLength
      pure true
  else pure true

/-- `LoadBootImage` before the walk; none when it gives up. -/
def prepareWalk : Loader (Option (U32 × Table)) := do
  let imageStartAddress ← imageStart f
  match ← getPartitionHeaderInfo f imageStartAddress with
  | none => fallback .getHeaderInfo
  | some table => do
    let ready ← secureHeaders f imageStartAddress table
    pure (if ready then some (imageStartAddress, table) else none)

def afterPrepare : Option (U32 × Table) → Loader Boot
  | none => pure ⟨xstFailure, initialWalk.toFlags⟩
  | some (imageStartAddress, table) => walkTable f imageStartAddress table

theorem fallback_bind {α β : Type} (code : FailCode) (rest : α → Loader β) :
    fallback code >>= rest = fallback code :=
  congrArg (Prog.call _) (funext fun _ =>
    congrArg (Prog.call _) (funext fun never => nomatch never))

theorem secureBoot_eq (imageStartAddress : U32) (table : Table) :
    secureBoot f imageStartAddress table = secureHeaders f imageStartAddress table >>= fun ready =>
      afterPrepare f (if ready then some (imageStartAddress, table) else none) := by
  rw [secureBoot, secureHeaders]
  split
  · rw [bind_assoc]
    congr 1
    funext status
    cases status with
    | none => rfl
    | some status =>
      change _ = authenticateHeaders f _ _ _ _ >>= _ >>= _
      rw [bind_assoc]
      rfl
  · rfl

theorem loadBootImage_eq : loadBootImage f = prepareWalk f >>= afterPrepare f := by
  rw [loadBootImage, prepareWalk, bind_assoc]
  congr 1
  funext imageStartAddress
  rw [bind_assoc]
  congr 1
  funext table
  cases table with
  | none => exact (fallback_bind _ _).symm
  | some table =>
    change secureBoot f imageStartAddress table =
      secureHeaders f imageStartAddress table >>= _ >>= _
    rw [bind_assoc]
    exact secureBoot_eq f imageStartAddress table

theorem getPartitionHeaderInfo_only (imageBaseAddress : U32) :
    Only Op.Fetches (getPartitionHeaderInfo f imageBaseAddress) := by
  refine Only.bind (readInto_only trivial) fun fsblLength => ?_
  cases fsblLength with
  | none => trivial
  | some fsblLength =>
    refine Only.bind (readInto_only trivial) fun offset => ?_
    cases offset with
    | none => trivial
    | some offset =>
      refine Only.bind (readInto_only trivial) fun header => ?_
      cases header <;> trivial

theorem prepareWalk_only : Only Op.Prepares (prepareWalk f) := by
  have hFetches : ∀ {α : Type} {p : Loader α}, Only Op.Fetches p → Only Op.Prepares p :=
    fun hOnly => hOnly.mono fun _ h => h.reads.prepares
  refine Only.bind (hFetches (imageStart_only f)) fun imageStartAddress => ?_
  refine Only.bind (hFetches (getPartitionHeaderInfo_only f imageStartAddress)) fun table => ?_
  cases table with
  | none => exact fallback_only (fun _ => trivial) trivial _
  | some table =>
    refine Only.bind ?_ fun _ => trivial
    refine only_ite (fun _ => ?_) fun _ => trivial
    refine Only.bind (efuseStatus_only f _ _) fun status => ?_
    cases status with
    | none => trivial
    | some status =>
      have hHeaders := authenticateHeaders_only f imageStartAddress table status.1 status.2
      exact Only.bind (hHeaders.mono fun _ => Op.Reads.prepares) fun _ => trivial

variable {f} {L : List Event}

/-- A walk starts after a table has been read and the headers have been let pass. -/
theorem prepareWalk_returns {imageStartAddress : U32} {table : Table}
    (hRun : Returns (prepareWalk f) L (some (imageStartAddress, table))) :
    ∃ start reading securing, L = start ++ (reading ++ securing) ∧
      Returns (imageStart f) start imageStartAddress ∧
      Returns (getPartitionHeaderInfo f imageStartAddress) reading (some table) ∧
      Returns (secureHeaders f imageStartAddress table) securing true := by
  obtain ⟨address, start, _, rfl, hStart, hRest⟩ := returns_bind hRun
  obtain ⟨result, reading, _, rfl, hTable, hRest⟩ := returns_bind hRest
  cases result with
  | none => exact (fallback_not_returns hRest).elim
  | some table' =>
    obtain ⟨ready, securing, _, rfl, hReady, hLast⟩ := returns_bind hRest
    obtain ⟨rfl, hSome⟩ := returns_ret.mp hLast
    cases ready with
    | false => cases hSome
    | true =>
      cases hSome
      rw [List.append_nil]
      exact ⟨start, reading, securing, rfl, hStart, hTable, hReady⟩

theorem visits_of_prepares (hOnly : ∀ event ∈ L, event.1.Prepares) : visits L = [] :=
  visits_prelude fun event hMem => (hOnly event hMem).handles

/-- A run that returns has given up before the walk, or walked the table to an end. -/
theorem loadBootImage_returns {boot : Boot} (hRun : Returns (loadBootImage f) L boot) :
    (Returns (prepareWalk f) L none ∧ visits L = [] ∧
        boot = ⟨xstFailure, initialWalk.toFlags⟩) ∨
      ∃ imageStartAddress table M N w, L = M ++ N ∧
        Returns (prepareWalk f) M (some (imageStartAddress, table)) ∧
        Returns (walkTable f imageStartAddress table) N boot ∧
        Ended f imageStartAddress table (visits L) w ∧ boot = ⟨w.execAddress, w.toFlags⟩ := by
  rw [loadBootImage_eq] at hRun
  obtain ⟨start, M, N, rfl, hPrepare, hRest⟩ := returns_bind hRun
  have hNone := visits_of_prepares ((prepareWalk_only f).steps hPrepare).1
  cases start with
  | none =>
    obtain ⟨rfl, rfl⟩ := returns_ret.mp hRest
    rw [List.append_nil]
    exact .inl ⟨hPrepare, hNone, rfl⟩
  | some start =>
    refine .inr ⟨start.1, start.2, M, N, ?_⟩
    obtain ⟨w, N, _, rfl, hWalk, hLast⟩ := returns_bind hRest
    obtain ⟨rfl, rfl⟩ := returns_ret.mp hLast
    refine ⟨w, rfl, hPrepare, hRest, ?_, rfl⟩
    rw [List.append_nil, visits, List.foldl_append, ← visits, hNone]
    exact walk_returns _ .start (Nat.le_add_left _ _) hWalk

/-- A call is made before the walk or in a visit. -/
theorem loadBootImage_at_call {e : Op} {next : Answer e → Loader Boot}
    (hRun : Steps (loadBootImage f) L (.call e next)) :
    (e.Prepares ∧ visits L = []) ∨ ∃ imageStartAddress table M N, L = M ++ N ∧
      Returns (prepareWalk f) M (some (imageStartAddress, table)) ∧
      Visiting f imageStartAddress table e (visits L) := by
  rw [loadBootImage_eq] at hRun
  obtain ⟨next', hPrepare⟩ | ⟨start, M, N, rfl, hPrepare, hRest⟩ := calls_bind hRun
  · have hCalls := (prepareWalk_only f).steps hPrepare
    exact .inl ⟨hCalls.2.1, visits_of_prepares hCalls.1⟩
  · have hNone := visits_of_prepares ((prepareWalk_only f).steps hPrepare).1
    cases start with
    | none => cases (steps_ret.mp hRest).2
    | some start =>
      refine .inr ⟨start.1, start.2, M, N, rfl, hPrepare, ?_⟩
      rw [visits, List.foldl_append, ← visits, hNone]
      obtain ⟨next', hWalk⟩ | ⟨w, N₁, N₂, rfl, hWalk, hLast⟩ := calls_bind hRest
      · exact walk_at_call _ .start hWalk
      · cases (steps_ret.mp hLast).2

/-- A call that is not made before the walk is made in some visit. -/
theorem mem_visits {q : Loader Boot} {event : Event} (hRun : Steps (loadBootImage f) L q)
    (hMem : event ∈ L) (hHandles : event.1.Handles) (hWalk : ¬ event.1.Prepares) :
    ∃ v ∈ visits L, event ∈ v.calls := by
  obtain ⟨M, N, rfl⟩ := List.append_of_mem hMem
  obtain ⟨next, hBefore, -⟩ := hRun.split
  obtain ⟨hPrepares, -⟩ | ⟨_, _, _, _, -, -, hVisiting⟩ := loadBootImage_at_call hBefore
  · exact absurd hPrepares hWalk
  rw [visits, List.foldl_append, List.foldl_cons, ← visits]
  apply mem_foldl_old
  generalize visits M = V at hVisiting
  cases hVisiting with
  | dump _ _ hDump =>
    rw [hDump] at hHandles
    exact hHandles.elim
  | amid =>
    rw [recordVisit_handles hHandles]
    exact ⟨_, List.mem_cons_self, List.mem_append_right _ List.mem_cons_self⟩

end Boot

end SoftwarePrototypes.Fsbl
