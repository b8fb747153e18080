import SoftwarePrototypes.TripCounter.Programs

/-! # The Linux application on the A72 and the PLM

`libmetal-linux-ipi-demo.c` and `user_ipi_demo.c` in all their builds. With
`A72_TO_PLM_UNIDIRECTIONAL` the A72 sends its trip counter to the PLM in commands; with
`PLM_2_A72_UNIDIRECT` the PLM sends its own to the A72, whose interrupt handler answers in the
response buffer of the same message.
-/

namespace SoftwarePrototypes.TripCounter.Linux

open Interaction Interaction.Threads

/-- `A72_TO_PLM_UNIDIRECTIONAL`, `PLM_2_A72_UNIDIRECT` and `A72_ERROR`. -/
structure Build where
  a72ToPlm : Bool
  plmToA72 : Bool
  a72Error : Bool

/-! ## The PLM -/

/-- `increment` adds one to the trip counter of the A72. -/
inductive PlmOp where
  | r5 (e : TripCounter.PlmOp)
  | ipiWrite
  | ipiTrigger
  | ipiPollForAck
  | ipiRead
  | increment
  | xilPrintf (text : String)

abbrev PlmAnswer : PlmOp → Type
  | .r5 e => TripCounter.PlmAnswer e
  | .ipiWrite | .ipiTrigger | .ipiPollForAck | .ipiRead => Status
  | .increment | .xilPrintf _ => Unit

abbrev Plm (α : Type) : Type := Prog PlmOp PlmAnswer α

abbrev plmOp (e : PlmOp) : Plm (PlmAnswer e) := Prog.ask e

def r5Part {α : Type} : TripCounter.Plm α → Plm α
  | .ret value => .ret value
  | .call e next => .call (.r5 e) fun answer => r5Part (next answer)

def reportUnless (status : Status) (text : String) : Plm Unit :=
  if status ≠ .success then plmOp (.xilPrintf text) else pure ()

/-- The static variables of `UserTask`. -/
structure Statics where
  executionCount : Int
  waiting : Bool

def fiveSeconds : U32 := 5000 / taskPeriodMs

def reportWaiting (b : Build) (st : Statics) : Plm Unit :=
  if b.a72Error ∧ st.waiting ∧ Due st.executionCount fiveSeconds then
    plmOp (.xilPrintf "UserTask: PLM IPI ERROR A72 did not respond\n")
  else pure ()

def sendToA72 (b : Build) (st : Statics) : Plm Unit := do
  reportWaiting b st
  let status ← plmOp .ipiWrite
  reportUnless status "UserTask: PLM IPI ERROR writing to A72 IPI request buffer\n"
  let status ← plmOp .ipiTrigger
  reportUnless status "UserTask: PLM IPI ERROR triggering IPI to A72 CPU\n"

/-- One try for the response; `Waiting` after it. -/
def receiveFromA72 : Plm Bool := do
  let status ← plmOp .ipiPollForAck
  if status = .success then do
    let status ← plmOp .ipiRead
    reportUnless status "UserTask: PLM IPI ERROR triggering IPI to A72 CPU\n"
    plmOp .increment
    pure false
  else pure true

def waitingPart (waiting : Bool) : Plm Bool :=
  if waiting then receiveFromA72 else pure false

/-- The part of `UserTask` for the A72; `Waiting` after it. -/
def a72Part (b : Build) (st : Statics) : Plm Bool :=
  if Due st.executionCount (msgPeriodMs / taskPeriodMs) then do
    sendToA72 b st
    waitingPart true
  else waitingPart st.waiting

/-- The message to the R5 comes first, at the same rate. -/
def userTask (b : Build) (st : Statics) : Plm Statics := do
  let executionCount ← r5Part (TripCounter.userTask st.executionCount)
  if b.plmToA72 then do
    let waiting ← a72Part b st
    pure ⟨executionCount, waiting⟩
  else pure ⟨executionCount, st.waiting⟩

/-! ## The A72 -/

/-- `ff360000.ipi` and `ff3f0000.ipi_buf`. -/
inductive Device where
  | ipi | ipiBuf
  deriving DecidableEq

def Device.name : Device → String
  | .ipi => "ff360000.ipi"
  | .ipiBuf => "ff3f0000.ipi_buf"

def remoteIpiMask : U32 := 0x2

def ipiTrigOffset : U32 := 0x0

def ipiObsOffset : U32 := 0x4

def ipiIsrOffset : U32 := 0x10

def ipiIerOffset : U32 := 0x18

def ipiIdrOffset : U32 := 0x1C

def plmToIpi3ReqOffset : U32 := 0x340

def ipi3ToPlmReqOffset : U32 := 0xA40

def plmModuleId : U32 := 0xD

def msgRateMs : Nat := 100

/-- `COUNTS_PER_SECOND`. -/
def countsPerSecond : U32 := BitVec.ofNat 32 (1000 / msgRateMs * 2)

def enodev : Int := 19

/-- `deviceIoRegion` tells whether the region is not `NULL`, `irqInfo` reads the number of the
interrupt of the opened device. -/
inductive MetalOp where
  | init
  | finish
  | deviceOpen (device : Device)
  | deviceIoRegion (device : Device)
  | deviceClose (device : Device)
  | irqInfo
  | irqEnable (irq : Int)
  | irqDisable (irq : Int)
  | irqRegister (irq : Int)
  | irqUnregister (irq : Int)
  | write32 (device : Device) (offset value : U32)
  | read32 (device : Device) (offset : U32)
  | printf (text : String)
  | printCounter (format : String) (seconds payload : U32)
  | usleep (usec : Nat)

abbrev MetalAnswer : MetalOp → Type
  | .init | .deviceOpen _ | .irqInfo => Int
  | .deviceIoRegion _ => Bool
  | .read32 _ _ => U32
  | _ => Unit

abbrev A72 (α : Type) : Type := Prog MetalOp MetalAnswer α

abbrev metal (e : MetalOp) : A72 (MetalAnswer e) := Prog.ask e

def printCounter (format : String) (counter : U32) : A72 Unit :=
  if counter % countsPerSecond = 0 then
    metal (.printCounter format (counter / countsPerSecond) counter)
  else pure ()

/-- Where `main` stands: at the top of its loop, in the wait of `send_ipi_msg`, or at its end. -/
inductive Point where
  | top (tripCounter : U32)
  | observing
  | returned (ret : Int)
  deriving DecidableEq

/-- `send_ipi_msg`, up to the wait. -/
def sendIpiMsg (counter : U32) : A72 Point := do
  metal (.write32 .ipiBuf ipi3ToPlmReqOffset (plmModuleId <<< 8 ||| 1))
  metal (.write32 .ipiBuf (ipi3ToPlmReqOffset + 4) counter)
  metal (.write32 .ipi ipiTrigOffset remoteIpiMask)
  pure .observing

/-- One round of the wait, and from its end to the top of the loop of `main`. -/
def observe : A72 Point := do
  let val ← metal (.read32 .ipi ipiObsOffset)
  if val &&& remoteIpiMask = 0 then do
    let tripCounter ← metal (.read32 .ipiBuf (ipi3ToPlmReqOffset + 32 + 4))
    printCounter "On A72: Seconds: %d: Payload: %d\n" tripCounter
    metal (.usleep (msgRateMs * 1000))
    pure (.top tripCounter)
  else pure .observing

def mainLoop (b : Build) : Point → A72 Point
  | .top tripCounter =>
    if b.a72ToPlm then sendIpiMsg (tripCounter + 1) else pure (.top tripCounter)
  | .observing => observe
  | .returned ret => pure (.returned ret)

def ipiIrqHandler : A72 Unit := do
  let val ← metal (.read32 .ipiBuf plmToIpi3ReqOffset)
  metal (.write32 .ipiBuf (plmToIpi3ReqOffset + 32) (val + 1))
  let val2 ← metal (.read32 .ipi ipiIsrOffset)
  if val2 &&& remoteIpiMask ≠ 0 then metal (.write32 .ipi ipiIsrOffset remoteIpiMask)
  printCounter "On A72: Seconds: %d Payload: %d\r\n" val

/-- Which of `ipi_dev`, `ipi_io` and `ipi_buf_dev` are not `NULL`, and `ipi_irq`. -/
structure Globals where
  ipiDev : Bool
  ipiIo : Bool
  ipiBufDev : Bool
  ipiIrq : Int

def initIpi : A72 (Int × Globals) := do
  let ret ← metal (.deviceOpen .ipiBuf)
  if ret ≠ 0 then do
    metal (.printf ("Failed to open device " ++ Device.ipiBuf.name ++ ".\n"))
    pure (ret, ⟨false, false, false, 0⟩)
  else do
  let ipiIoBuffer ← metal (.deviceIoRegion .ipiBuf)
  if ipiIoBuffer = false then do
    metal (.printf ("Failed to map io buffer region for " ++ Device.ipiBuf.name ++ ".\n"))
    metal (.deviceClose .ipiBuf)
    pure (-enodev, ⟨false, false, true, 0⟩)
  else do
  let ret ← metal (.deviceOpen .ipi)
  if ret ≠ 0 then do
    metal (.printf ("Failed to open device " ++ Device.ipi.name ++ ".\n"))
    pure (ret, ⟨false, false, true, 0⟩)
  else do
  let ipiIo ← metal (.deviceIoRegion .ipi)
  if ipiIo = false then do
    metal (.printf ("Failed to map io region for " ++ Device.ipi.name ++ ".\n"))
    metal (.deviceClose .ipiBuf)
    metal (.deviceClose .ipi)
    pure (-enodev, ⟨true, false, true, 0⟩)
  else do
  let ipiIrq ← metal .irqInfo
  metal (.write32 .ipi ipiIdrOffset remoteIpiMask)
  metal (.irqDisable ipiIrq)
  metal (.irqRegister ipiIrq)
  pure (0, ⟨true, true, true, ipiIrq⟩)

def disableIpi (ipiIo : Bool) : A72 Unit :=
  if ipiIo then metal (.write32 .ipi ipiIdrOffset remoteIpiMask) else pure ()

def closeDevice (isOpen : Bool) (device : Device) : A72 Unit :=
  if isOpen then metal (.deviceClose device) else pure ()

def deinitIpi (g : Globals) : A72 Unit := do
  disableIpi g.ipiIo
  metal (.irqDisable g.ipiIrq)
  metal (.irqUnregister g.ipiIrq)
  closeDevice g.ipiDev .ipi
  closeDevice g.ipiBufDev .ipiBuf

/-- From the label `out` on. -/
def out (ret : Int) (g : Globals) : A72 Point := do
  deinitIpi g
  metal .finish
  pure (.returned ret)

/-- `main` up to its loop, or to its end. -/
def main : A72 Point := do
  let ret ← metal .init
  if ret ≠ 0 then do
    metal (.printf "Metal initialization failure\r\n")
    out ret ⟨false, false, false, 0⟩
  else do
  let (ret, g) ← initIpi
  if ret ≠ 0 then out ret g
  else do
  metal (.irqEnable g.ipiIrq)
  metal (.write32 .ipi ipiIerOffset remoteIpiMask)
  pure (.top 0)

/-! ## All together -/

/-- `irq` runs the interrupt handler that the application has registered. -/
inductive Thread where
  | plm | linux | irq
  deriving DecidableEq

abbrev Call : Thread → Type
  | .plm => PlmOp
  | .linux | .irq => MetalOp

abbrev CallAnswer : (i : Thread) → Call i → Type
  | .plm => PlmAnswer
  | .linux | .irq => MetalAnswer

abbrev Result : Thread → Type
  | .plm => Statics
  | .linux => Point
  | .irq => Unit

/-- With `mayFail` the calls of the PLM to its driver may fail. -/
structure Board extends Build where
  irqInfo : Int
  mayFail : Bool

/-- The registers are those of IPI 3; `observed` is its bit in the status register of the PLM, and
`message` the message buffers by their offset. The fields from `returned` on look on: what
`send_ipi_msg` has returned, the counter of the A72 after each of its commands and after each of
its responses, the latest first, and what has been done with the devices. -/
structure State where
  tripCounter : ApiId → U32
  r5Request : U32
  r5Pending : Bool
  message : U32 → U32
  observed : Bool
  isr : U32
  enabled : U32
  irqEnabled : Int → Bool
  registered : Int → Bool
  returned : List U32
  trips : List U32
  accepted : List U32
  opened : Device → Nat
  closed : Device → Nat
  mapped : Device → Bool
  unmapped : Bool

/-- What a thread is given to do, what an open answers, or what reaches IPI 3 from another CPU. -/
inductive Choice where
  | proceed (ok : Bool)
  | result (ret : Int)
  | userTask
  | command
  | r5Command (payload : U32)
  | interrupt
  | trigger (mask : U32)

def State.load (s : State) : Device → U32 → U32
  | .ipi, offset =>
    if offset = ipiObsOffset then if s.observed then remoteIpiMask else 0
    else if offset = ipiIsrOffset then s.isr
    else 0
  | .ipiBuf, offset => s.message offset

def State.store (s : State) (value : U32) : Device → U32 → State
  | .ipi, offset =>
    if offset = ipiTrigOffset then
      { s with observed := s.observed || value &&& remoteIpiMask ≠ 0 }
    else if offset = ipiIsrOffset then { s with isr := s.isr &&& ~~~value }
    else if offset = ipiIerOffset then { s with enabled := s.enabled ||| value }
    else if offset = ipiIdrOffset then { s with enabled := s.enabled &&& ~~~value }
    else s
  | .ipiBuf, offset => { s with message := Function.update s.message offset value }

/-- A read of the response to `send_ipi_msg` is noted. -/
def State.note (s : State) (device : Device) (offset : U32) : State :=
  if device = .ipiBuf ∧ offset = ipi3ToPlmReqOffset + 32 + 4 then
    { s with returned := s.message offset :: s.returned }
  else s

def metalServe (b : Board) :
    (e : MetalOp) → Choice → State → Option (MetalAnswer e × State)
  | .init, .result ret, s => some (ret, s)
  | .deviceOpen device, .result ret, s =>
    some (ret, if ret = 0 then
      { s with opened := Function.update s.opened device (s.opened device + 1) } else s)
  | .deviceIoRegion device, .proceed ok, s =>
    some (ok, if ok then { s with mapped := Function.update s.mapped device true }
      else { s with unmapped := true })
  | .deviceClose device, .proceed _, s =>
    some ((), { s with closed := Function.update s.closed device (s.closed device + 1) })
  | .irqInfo, .proceed _, s => some (b.irqInfo, s)
  | .irqEnable irq, .proceed _, s =>
    some ((), { s with irqEnabled := Function.update s.irqEnabled irq true })
  | .irqDisable irq, .proceed _, s =>
    some ((), { s with irqEnabled := Function.update s.irqEnabled irq false })
  | .irqRegister irq, .proceed _, s =>
    some ((), { s with registered := Function.update s.registered irq true })
  | .irqUnregister irq, .proceed _, s =>
    some ((), { s with registered := Function.update s.registered irq false })
  | .write32 device offset value, .proceed _, s => some ((), s.store value device offset)
  | .read32 device offset, .proceed _, s => some (s.load device offset, s.note device offset)
  | .finish, .proceed _, s | .printf _, .proceed _, s | .printCounter _ _ _, .proceed _, s
  | .usleep _, .proceed _, s => some ((), s)
  | _, _, _ => none

def State.isPending (s : State) : Bool := s.isr &&& remoteIpiMask ≠ 0

def statusOf (ok : Bool) : Status := if ok then .success else .failure

def plmServe (ok : Bool) : (e : PlmOp) → State → PlmAnswer e × State
  | .r5 .ipiWrite, s => (statusOf ok, if ok then { s with r5Request := s.tripCounter .r5 } else s)
  | .r5 .ipiTrigger, s => (statusOf ok, if ok then { s with r5Pending := true } else s)
  | .r5 (.xilPrintf _), s => ((), s)
  | .ipiWrite, s =>
    (statusOf ok, if ok then
      { s with
        message := Function.update s.message plmToIpi3ReqOffset (s.tripCounter .a72) } else s)
  | .ipiTrigger, s => (statusOf ok, if ok then { s with isr := s.isr ||| remoteIpiMask } else s)
  | .ipiPollForAck, s => (statusOf (ok && !s.isPending), s)
  | .ipiRead, s =>
    (statusOf ok, if ok then
      { s with tripCounter :=
          Function.update s.tripCounter .a72 (s.message (plmToIpi3ReqOffset + 32)) } else s)
  | .increment, s =>
    let counter := s.tripCounter .a72 + 1
    ((), { s with
      tripCounter := Function.update s.tripCounter .a72 counter
      accepted := counter :: s.accepted })
  | .xilPrintf _, s => ((), s)

/-- A command of the A72, when the PLM comes to it: the response, then the acknowledgement. -/
def State.handle (s : State) : State :=
  let result := processCmd (s.message ipi3ToPlmReqOffset) (s.message (ipi3ToPlmReqOffset + 4))
    s.tripCounter
  let response := result.2.2.getD (s.message (ipi3ToPlmReqOffset + 32 + 4))
  { s with
    tripCounter := result.2.1
    message := Function.update (Function.update s.message (ipi3ToPlmReqOffset + 32) result.1.word)
      (ipi3ToPlmReqOffset + 32 + 4) response
    observed := false
    trips := result.2.1 .a72 :: s.trips }

/-- The PLM runs each task and each command to its end before the next. Linux calls the handler
while an enabled interrupt is pending, once it is registered. -/
def demo (b : Board) : System CallAnswer Result Choice State where
  perform
    | .plm, e, .proceed ok, s => if ok || b.mayFail then some (plmServe ok e s) else none
    | .linux, e, choice, s | .irq, e, choice, s => metalServe b e choice s
    | _, _, _, _ => none
  again
    | .plm, st, .userTask, s => some (userTask b.toBuild st, s)
    | .plm, st, .command, s => if s.observed then some (.ret st, s.handle) else none
    | .plm, st, .r5Command payload, s =>
      some (.ret st, { s with
        tripCounter := (processCmd (ApiId.command .r5) payload s.tripCounter).2.1 })
    | .linux, .top tripCounter, _, s => some (mainLoop b.toBuild (.top tripCounter), s)
    | .linux, .observing, _, s => some (mainLoop b.toBuild .observing, s)
    | .irq, (), .interrupt, s =>
      if s.registered b.irqInfo ∧ s.irqEnabled b.irqInfo ∧ s.isr &&& s.enabled ≠ 0 then
        some (ipiIrqHandler, s)
      else none
    | _, _, _, _ => none
  surroundings
    | .trigger mask, s => some { s with isr := s.isr ||| mask &&& ~~~remoteIpiMask }
    | _, _ => none

/-- The counters are 0 and no interrupt is pending; the message buffers hold anything. -/
def started (message : U32 → U32) : Config CallAnswer Result State where
  shared := {
    tripCounter := fun _ => 0
    r5Request := 0
    r5Pending := false
    message := message
    observed := false
    isr := 0
    enabled := 0
    irqEnabled := fun _ => false
    registered := fun _ => false
    returned := []
    trips := []
    accepted := []
    opened := fun _ => 0
    closed := fun _ => 0
    mapped := fun _ => false
    unmapped := false }
  code
    | .plm => .ret ⟨0, false⟩
    | .linux => main
    | .irq => .ret ()

end SoftwarePrototypes.TripCounter.Linux
