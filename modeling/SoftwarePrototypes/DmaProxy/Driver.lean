import Mathlib.Logic.Function.Basic
import SoftwarePrototypes.DmaProxy.Interface
import SoftwarePrototypes.Interaction.Programs

/-! # The ioctl path of the DMA proxy driver

`start_transfer`, `wait_for_transfer`, `show_buflen` and `ioctl` of `dma-proxy.c`, for one
channel. Every access to the channel and every kernel call is one call of the program, so that
other openers and the DMA engine can come in between any two of them. The tables are total
functions of the index: outside `InTable` they show whatever memory lies there.
-/

namespace SoftwarePrototypes.DmaProxy

open Interaction Interaction.Prog

/-- `struct proxy_bd`; `done` is the count of signals of its completion `cmp`. -/
structure ProxyBd where
  done : Nat
  cookie : Int
  dmaHandle : Nat
  sgAddress : Nat
  sgLength : BitVec 32

/-- The words of `struct channel_buffer` that the driver reads or writes. -/
structure ChannelBuffer where
  status : ProxyStatus
  length : BitVec 32

/-- The address range of a descriptor, taken from the scatter list when it is prepared. -/
structure Descriptor where
  address : Nat
  length : BitVec 32

structure Transfer where
  bd : Int
  cookie : Int
  outcome : Option Bool
  fired : Bool

inductive StartResult where
  | noDescriptor | submitError | accepted (transfer : Nat)
  deriving DecidableEq, Repr

structure StartRecord where
  bd : Int
  result : StartResult

/-- One channel with its DMA engine. `transfers` are in the order of acceptance, the first
`completed` of them have completed and the first `issued` may. `starts` records the outcome of
every call of `start_transfer`, the latest first; the driver keeps no such record. -/
structure Driver where
  pBufferTable : Int → ChannelBuffer
  bufferPhysAddr : Nat
  pBdTable : Int → ProxyBd
  bdindex : Int
  transfers : List Transfer
  issued : Nat
  completed : Nat
  starts : List StartRecord

inductive DmaStatus where
  | complete | inProgress | error
  deriving DecidableEq, Repr

inductive Call where
  | copyFromUser (arg : Int)
  | readBdindex
  | readLength (bd : Int)
  | sgInitTable (bd : Int)
  | setSgDmaAddress (bd : Int)
  | setSgDmaLen (bd : Int)
  | devicePrepSlaveSg (bd : Int)
  | initCompletion (bd : Int)
  | dmaengineSubmit (bd : Int) (desc : Descriptor)
  | readCookie (bd : Int)
  | dmaAsyncIssuePending
  | setStatus (bd : Int) (status : ProxyStatus)
  | waitForCompletionTimeout (bd : Int)
  | dmaAsyncIsTxComplete (bd : Int)

/-- What a call returns: `copy_from_user` whether it copied all, `device_prep_slave_sg` a
descriptor or `NULL`, `wait_for_completion_timeout` whether time was left. -/
abbrev Answer : Call → Type
  | .copyFromUser _ | .waitForCompletionTimeout _ => Bool
  | .readBdindex | .readCookie _ => Int
  | .readLength _ => BitVec 32
  | .devicePrepSlaveSg _ => Option Descriptor
  | .dmaAsyncIsTxComplete _ => DmaStatus
  | _ => Unit

abbrev Program (α : Type) : Type := Prog Call Answer α

abbrev ask (e : Call) : Program (Answer e) := Prog.ask e

/-! ## The driver functions -/

/-- The trace line of `start_transfer` prints the length word. -/
def traceStart (trace : Bool) (bdindex : Int) : Program Unit :=
  if trace then do
    let _ ← ask (.readLength bdindex)
  else pure ()

def startTransfer (trace : Bool) : Program Unit := do
  let bdindex ← ask .readBdindex
  traceStart trace bdindex
  ask (.sgInitTable bdindex)
  ask (.setSgDmaAddress bdindex)
  ask (.setSgDmaLen bdindex)
  let chanDesc ← ask (.devicePrepSlaveSg bdindex)
  match chanDesc with
  | none => pure ()
  | some chanDesc =>
    ask (.initCompletion bdindex)
    ask (.dmaengineSubmit bdindex chanDesc)
    let cookie ← ask (.readCookie bdindex)
    -- dma_submit_error
    if cookie < 0 then pure () else ask .dmaAsyncIssuePending

def waitForTransfer : Program Unit := do
  let bdindex ← ask .readBdindex
  ask (.setStatus bdindex .busy)
  let timeLeft ← ask (.waitForCompletionTimeout bdindex)
  let status ← ask (.dmaAsyncIsTxComplete bdindex)
  if timeLeft = false then
    ask (.setStatus bdindex .timeout)
  else if status ≠ .complete then
    ask (.setStatus bdindex .error)
  else
    ask (.setStatus bdindex .noError)

def showBuflen (trace : Bool) : Program Unit :=
  if trace then
    (List.range bufferCount).forM fun i => do
      let _ ← ask (.readLength i)
  else pure ()

def einval : Int := 22

def dispatch (trace : Bool) : Cmd → Program Unit
  | .startXfer => startTransfer trace
  | .finishXfer => waitForTransfer
  | .xfer => do
    startTransfer trace
    waitForTransfer
  | .showBuflen => showBuflen trace
  | .unknown => pure ()

def ioctl (trace : Bool) (cmd : Cmd) (arg : Int) : Program Int := do
  let copied ← ask (.copyFromUser arg)
  if copied = false then
    pure (-einval)
  else do
    dispatch trace cmd
    pure 0

/-- The BD whose entries of the two tables a call works on. -/
def Call.touches : Call → Option Int
  | .readLength bd | .sgInitTable bd | .setSgDmaAddress bd | .setSgDmaLen bd
  | .devicePrepSlaveSg bd | .initCompletion bd | .dmaengineSubmit bd _ | .readCookie bd
  | .setStatus bd _ | .waitForCompletionTimeout bd | .dmaAsyncIsTxComplete bd => some bd
  | .copyFromUser _ | .readBdindex | .dmaAsyncIssuePending => none

def Cmd.reads : Cmd → Nat
  | .startXfer | .finishXfer => 1
  | .xfer => 2
  | .showBuflen | .unknown => 0

/-! ## Kernel and engine -/

/-- The choices of the surroundings at one call: whether it succeeds, and the cookie handed
out or the value that a failed copy leaves behind. -/
structure Reply where
  ok : Bool
  value : Int

def Driver.updateBd (d : Driver) (bd : Int) (f : ProxyBd → ProxyBd) : Driver :=
  { d with pBdTable := Function.update d.pBdTable bd (f (d.pBdTable bd)) }

def Driver.updateBuffer (d : Driver) (bd : Int) (f : ChannelBuffer → ChannelBuffer) : Driver :=
  { d with pBufferTable := Function.update d.pBufferTable bd (f (d.pBufferTable bd)) }

def Driver.record (d : Driver) (bd : Int) (result : StartResult) : Driver :=
  { d with starts := ⟨bd, result⟩ :: d.starts }

def Driver.accept (d : Driver) (bd cookie : Int) : Driver :=
  let queued : Driver := { d with transfers := d.transfers ++ [⟨bd, cookie, none, false⟩] }
  queued.record bd (.accepted d.transfers.length)

def Driver.storeCookie (d : Driver) (bd cookie : Int) : Driver :=
  d.updateBd bd fun b => { b with cookie := cookie }

/-- `dmaengine_submit` and the store of its cookie: a negative cookie is an error, a positive one
is new to the channel. -/
def Driver.submit (d : Driver) (bd cookie : Int) : Option Driver :=
  if cookie < 0 then some ((d.storeCookie bd cookie).record bd .submitError)
  else if 0 < cookie ∧ ∀ t ∈ d.transfers, t.cookie ≠ cookie then
    some ((d.storeCookie bd cookie).accept bd cookie)
  else none

def Driver.sgDescriptor (d : Driver) (bd : Int) : Descriptor :=
  ⟨(d.pBdTable bd).sgAddress, (d.pBdTable bd).sgLength⟩

/-- The status of the transfer with a cookie; of no transfer it is never complete. -/
def Driver.isTxComplete (d : Driver) (cookie : Int) : DmaStatus :=
  match d.transfers.find? (·.cookie = cookie) with
  | some ⟨_, _, some true, _⟩ => .complete
  | some ⟨_, _, some false, _⟩ => .error
  | _ => .inProgress

def perform : (e : Call) → Reply → Driver → Option (Answer e × Driver)
  | .copyFromUser arg, reply, d =>
    some (reply.ok, { d with bdindex := if reply.ok then arg else reply.value })
  | .readBdindex, _, d => some (d.bdindex, d)
  | .readLength bd, _, d => some ((d.pBufferTable bd).length, d)
  | .sgInitTable bd, _, d =>
    some ((), d.updateBd bd fun b => { b with sgAddress := 0, sgLength := 0 })
  | .setSgDmaAddress bd, _, d =>
    some ((), d.updateBd bd fun b => { b with sgAddress := b.dmaHandle })
  | .setSgDmaLen bd, _, d =>
    some ((), d.updateBd bd fun b => { b with sgLength := (d.pBufferTable bd).length })
  | .devicePrepSlaveSg bd, reply, d =>
    if reply.ok then some (some (d.sgDescriptor bd), d)
    else some (none, d.record bd .noDescriptor)
  | .initCompletion bd, _, d => some ((), d.updateBd bd fun b => { b with done := 0 })
  | .dmaengineSubmit bd _, reply, d => (d.submit bd reply.value).map fun d => ((), d)
  | .readCookie bd, _, d => some ((d.pBdTable bd).cookie, d)
  | .dmaAsyncIssuePending, _, d => some ((), { d with issued := d.transfers.length })
  | .setStatus bd status, _, d => some ((), d.updateBuffer bd fun b => { b with status })
  | .waitForCompletionTimeout bd, _, d =>
    if 0 < (d.pBdTable bd).done then
      some (true, d.updateBd bd fun b => { b with done := b.done - 1 })
    else some (false, d)
  | .dmaAsyncIsTxComplete bd, _, d => some (d.isTxComplete (d.pBdTable bd).cookie, d)

inductive EngineEvent where
  | complete (ok : Bool)
  | callback (transfer : Nat)

def Driver.complete (d : Driver) (t : Transfer) (ok : Bool) : Driver :=
  { d with
    transfers := d.transfers.set d.completed { t with outcome := some ok }
    completed := d.completed + 1 }

/-- `sync_callback` of transfer `k`: signal the completion of its BD. -/
def Driver.syncCallback (d : Driver) (k : Nat) (t : Transfer) : Driver :=
  let ran : Driver := { d with transfers := d.transfers.set k { t with fired := true } }
  ran.updateBd t.bd fun b => { b with done := b.done + 1 }

def Driver.engineStep (d : Driver) : EngineEvent → Option Driver
  | .complete ok =>
    match d.transfers[d.completed]? with
    | some t =>
      if d.completed < d.issued ∧ t.outcome = none then some (d.complete t ok) else none
    | none => none
  | .callback k =>
    match d.transfers[k]? with
    | some t => if t.outcome.isSome ∧ t.fired = false then some (d.syncCallback k t) else none
    | none => none

/-! ## What single functions and calls do -/

theorem showBuflen_only (trace : Bool) :
    Only (fun e => ∃ i : Nat, i < bufferCount ∧ e = .readLength i) (showBuflen trace) := by
  cases trace with
  | false => trivial
  | true =>
    apply Only.forM
    intro i hi
    exact ⟨⟨i, List.mem_range.mp hi, rfl⟩, fun _ => trivial⟩

theorem perform_bdindex {d d' : Driver} {e : Call} {reply : Reply} {answer : Answer e}
    (h : perform e reply d = some (answer, d')) (hCopy : ∀ a, e ≠ .copyFromUser a) :
    d'.bdindex = d.bdindex := by
  cases e with
  | copyFromUser arg => exact absurd rfl (hCopy arg)
  | dmaengineSubmit bd desc =>
    obtain ⟨d₁, hSubmit, hEq⟩ := Option.map_eq_some_iff.mp h
    cases hEq
    unfold Driver.submit at hSubmit
    split at hSubmit
    · cases hSubmit
      rfl
    · split at hSubmit <;> cases hSubmit
      rfl
  | devicePrepSlaveSg bd =>
    simp only [perform] at h
    split at h <;> cases h <;> rfl
  | waitForCompletionTimeout bd =>
    simp only [perform] at h
    split at h <;> cases h <;> rfl
  | _ => cases h; rfl

/-- The engine completes the next transfer, or a completed one calls back. -/
theorem engineStep_cases {d d' : Driver} {event : EngineEvent}
    (h : d.engineStep event = some d') :
    (∃ ok t, event = .complete ok ∧ d.transfers[d.completed]? = some t ∧
      d.completed < d.issued ∧ t.outcome = none ∧ d' = d.complete t ok) ∨
    ∃ k t, event = .callback k ∧ d.transfers[k]? = some t ∧ t.outcome.isSome = true ∧
      t.fired = false ∧ d' = d.syncCallback k t := by
  cases event with
  | complete ok =>
    simp only [Driver.engineStep] at h
    split at h
    · rename_i t hGet
      split at h
      · rename_i hPending
        exact .inl ⟨ok, t, rfl, hGet, hPending.1, hPending.2, (Option.some.inj h).symm⟩
      · cases h
    · cases h
  | callback k =>
    simp only [Driver.engineStep] at h
    split at h
    · rename_i t hGet
      split at h
      · rename_i hPending
        exact .inr ⟨k, t, rfl, hGet, hPending.1, hPending.2, (Option.some.inj h).symm⟩
      · cases h
    · cases h

theorem engine_bdindex {d d' : Driver} {event : EngineEvent}
    (h : d.engineStep event = some d') : d'.bdindex = d.bdindex := by
  obtain ⟨_, _, -, -, -, -, rfl⟩ | ⟨_, _, -, -, -, -, rfl⟩ := engineStep_cases h
  · rfl
  · rfl

end SoftwarePrototypes.DmaProxy
