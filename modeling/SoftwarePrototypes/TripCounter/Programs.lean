import Mathlib.Algebra.Group.Nat.Defs
import Mathlib.Data.Int.Init
import Mathlib.Logic.Function.Basic
import SoftwarePrototypes.Interaction.Threads

/-! # The PLM module and the R5 application

`user_ipi_demo.c`, built without `PLM_2_A72_UNIDIRECT`, and `xilmailbox_example.c`. The PLM sends
its trip counter to the R5 at a fixed rate. The R5 sends back the counter that it receives, plus
one, in a command, which the PLM answers by adding one again.
-/

namespace SoftwarePrototypes.TripCounter

open Interaction Interaction.Prog Interaction.Threads

abbrev U32 : Type := BitVec 32

inductive Status where
  | success | failure | invalidParam
  deriving DecidableEq

/-- What the PLM writes into the first word of a response. -/
def Status.word : Status → U32
  | .success => 0
  | .failure => 1
  | .invalidParam => 15

inductive ApiId where
  | r5 | a72
  deriving DecidableEq

/-- `XUSER_R5` and `XUSER_A72`. -/
def ApiId.word : ApiId → U32
  | .r5 => 0
  | .a72 => 1

def moduleUserId : U32 := 13

/-- The first word of a command: the module in the second byte, the API in the first. -/
def ApiId.command (api : ApiId) : U32 := moduleUserId <<< 8 ||| api.word

/-! ## The PLM -/

/-- `ipiWrite` writes the trip counter of the R5 into its request buffer. -/
inductive PlmOp where
  | ipiWrite
  | ipiTrigger
  | xilPrintf (text : String)

abbrev PlmAnswer : PlmOp → Type
  | .ipiWrite | .ipiTrigger => Status
  | .xilPrintf _ => Unit

abbrev Plm (α : Type) : Type := Prog PlmOp PlmAnswer α

abbrev plmOp (e : PlmOp) : Plm (PlmAnswer e) := Prog.ask e

def msgPeriodMs : U32 := 100

def taskPeriodMs : U32 := 10

/-- `ExecutionCount % period == 0`. The periods are unsigned, so the remainder is that of the
count converted to unsigned. -/
def Due (executionCount : Int) (period : U32) : Prop := BitVec.ofInt 32 executionCount % period = 0

instance Due.decidable (executionCount : Int) (period : U32) :
    Decidable (Due executionCount period) := inferInstanceAs (Decidable (_ = _))

def reportUnless (status : Status) (text : String) : Plm Unit :=
  if status ≠ .success then plmOp (.xilPrintf text) else pure ()

/-- `UserTask`, from one value of `ExecutionCount` to the next. -/
def userTask (executionCount : Int) : Plm Int :=
  if Due executionCount (msgPeriodMs / taskPeriodMs) then do
    let status ← plmOp .ipiWrite
    reportUnless status "UserTask: PLM IPI ERROR writing to R5 IPI request buffer\n"
    let status ← plmOp .ipiTrigger
    reportUnless status "UserTask: PLM IPI ERROR triggering IPI to R5 CPU\n"
    pure ((executionCount + 1).bmod (2 ^ 32))
  else pure ((executionCount + 1).bmod (2 ^ 32))

/-- `ProcessCmd`: the status, the counters and the second word of the response. -/
def processCmd (cmdId payload : U32) (tripCounter : ApiId → U32) :
    Status × (ApiId → U32) × Option U32 :=
  if cmdId &&& 0xFF = ApiId.word .r5 then
    (.success, Function.update tripCounter .r5 (payload + 1), some (payload + 1))
  else if cmdId &&& 0xFF = ApiId.word .a72 then
    (.success, Function.update tripCounter .a72 (payload + 1), some (payload + 1))
  else (.invalidParam, tripCounter, none)

/-! ## The R5 -/

/-- The two words of `RequestBuffer`. -/
abbrev Words : Type := U32 × U32

/-- A blocking `XMailbox_SendData` sends, and then waits until the command has been handled. -/
inductive R5Op where
  | clearErrorStatus
  | clearRecvDone
  | readErrorStatus
  | readRecvDone
  | recvRequest
  | sendData (words : Words)
  | awaitHandled
  | recvResponse
  | xilPrintf (format : String) (args : List U32)
  deriving DecidableEq

abbrev R5Answer : R5Op → Type
  | .readErrorStatus | .readRecvDone => U32
  | .recvRequest => Status × Words
  | .awaitHandled => Status
  | .recvResponse => Status × U32
  | _ => Unit

abbrev R5 (α : Type) : Type := Prog R5Op R5Answer α

abbrev r5Op (e : R5Op) : R5 (R5Answer e) := Prog.ask e

/-- Where the main loop stands, with the contents of `RequestBuffer`. -/
inductive Point where
  | top (requestBuffer : Words)
  | waiting (requestBuffer : Words)
  | exited

def oneSecond : U32 := 20

def printSeconds (trip : U32) : R5 Unit :=
  if trip % oneSecond = 0 then
    r5Op (.xilPrintf "On R5: Seconds: %d Payload: %d\r\n" [trip / oneSecond, trip])
  else pure ()

def exitWith (text : String) : R5 Point := do
  r5Op (.xilPrintf text [])
  pure .exited

/-- The end of the loop body, after a command has been handled. -/
def checkResponse (requestBuffer : Words) : R5 Point := do
  let (status, response) ← r5Op .recvResponse
  if status ≠ .success then exitWith "Reading an IPI Req message Failed\n\r" else do
  if response ≠ Status.word .success then do
    r5Op (.xilPrintf "Command failure, Status: 0x%08X\r\n" [response])
    pure (.top requestBuffer)
  else pure (.top requestBuffer)

/-- From the message in `RequestBuffer` to the end of the loop body. -/
def sendBack (requestBuffer : Words) : R5 Point := do
  printSeconds requestBuffer.1
  let requestBuffer := (ApiId.command .r5, requestBuffer.1 + 1)
  r5Op (.sendData requestBuffer)
  let status ← r5Op .awaitHandled
  if status ≠ .success then exitWith "Sending Req Message Failed\n\r"
  else checkResponse requestBuffer

def receive : R5 Point := do
  let (status, requestBuffer) ← r5Op .recvRequest
  if status ≠ .success then exitWith "Reading an IPI Resp message Failed\n\r"
  else sendBack requestBuffer

/-- `main` from one point to the next; each look at the two flags is a round of the waiting. -/
def mainLoop : Point → R5 Point
  | .top requestBuffer =>
    if requestBuffer.1 ≠ 0 then do
      r5Op .clearErrorStatus
      r5Op .clearRecvDone
      pure (.waiting requestBuffer)
    else sendBack requestBuffer
  | .waiting requestBuffer => do
    let errorStatus ← r5Op .readErrorStatus
    if errorStatus ≠ 0 then receive else do
    let recvDone ← r5Op .readRecvDone
    if recvDone ≠ 0 then receive else pure (.waiting requestBuffer)
  | .exited => pure .exited

/-! ## Both together -/

inductive Cpu where
  | plm | r5
  deriving DecidableEq

abbrev Call : Cpu → Type
  | .plm => PlmOp
  | .r5 => R5Op

abbrev CallAnswer : (i : Cpu) → Call i → Type
  | .plm => PlmAnswer
  | .r5 => R5Answer

abbrev Result : Cpu → Type
  | .plm => Int
  | .r5 => Point

/-- The last three fields look on: the trip values that the R5 has received and the counter after
each of its commands, the latest first, and whether `UserTask` has written the request buffer since
the last of these commands. -/
structure State where
  tripCounter : ApiId → U32
  request : Words
  pending : Bool
  recvDone : U32
  errorStatus : U32
  command : Option Words
  response : U32
  received : List U32
  trips : List U32
  fresh : Bool

/-- What the PLM does next, or what reaches one of the two CPUs. -/
inductive Choice where
  | proceed (ok : Bool)
  | userTask
  | command
  | a72Command (payload : U32)
  | done
  | error (mask : U32)

def plmServe (ok : Bool) : (e : PlmOp) → State → PlmAnswer e × State
  | .ipiWrite, s =>
    if ok then (.success, { s with request := (s.tripCounter .r5, s.request.2), fresh := true })
    else (.failure, s)
  | .ipiTrigger, s => if ok then (.success, { s with pending := true }) else (.failure, s)
  | .xilPrintf _, s => ((), s)

def r5Serve : (e : R5Op) → State → Option (R5Answer e × State)
  | .clearErrorStatus, s => some ((), { s with errorStatus := 0 })
  | .clearRecvDone, s => some ((), { s with recvDone := 0 })
  | .readErrorStatus, s => some (s.errorStatus, s)
  | .readRecvDone, s => some (s.recvDone, s)
  | .recvRequest, s =>
    some ((.success, s.request), { s with received := s.request.1 :: s.received })
  | .sendData words, s => some ((), { s with command := some words })
  | .awaitHandled, s => if s.command.isNone then some (.success, s) else none
  | .recvResponse, s => some ((.success, s.response), s)
  | .xilPrintf _ _, s => some ((), s)

/-- A command of the R5, when the PLM comes to it. -/
def State.handle (s : State) (words : Words) : State :=
  let result := processCmd words.1 words.2 s.tripCounter
  { s with
    tripCounter := result.2.1
    command := none
    response := result.1.word
    trips := result.2.1 .r5 :: s.trips
    fresh := false }

/-- The PLM runs each task and each command to its end before the next. -/
def demo : System CallAnswer Result Choice State where
  perform
    | .plm, e, .proceed ok, s => some (plmServe ok e s)
    | .r5, e, .proceed _, s => r5Serve e s
    | _, _, _, _ => none
  again
    | .plm, executionCount, .userTask, s => some (userTask executionCount, s)
    | .plm, executionCount, .command, s =>
      s.command.map fun words => (.ret executionCount, s.handle words)
    | .plm, executionCount, .a72Command payload, s =>
      some (.ret executionCount, { s with
        tripCounter := (processCmd (ApiId.command .a72) payload s.tripCounter).2.1 })
    | .r5, .top requestBuffer, _, s => some (mainLoop (.top requestBuffer), s)
    | .r5, .waiting requestBuffer, _, s => some (mainLoop (.waiting requestBuffer), s)
    | _, _, _, _ => none
  surroundings
    | .done, s => if s.pending then some { s with pending := false, recvDone := 1 } else none
    | .error mask, s => some { s with errorStatus := mask }
    | _, _ => none

/-- All counters and buffers are 0. -/
def started : Config CallAnswer Result State where
  shared := {
    tripCounter := fun _ => 0
    request := (0, 0)
    pending := false
    recvDone := 0
    errorStatus := 0
    command := none
    response := 0
    received := []
    trips := []
    fresh := false }
  code
    | .plm => .ret 0
    | .r5 => .ret (.top (0, 0))

end SoftwarePrototypes.TripCounter
