import SoftwarePrototypes.IpiMessaging.Handlers

/-! # The custom module of the PMU firmware

`xpfw_mod_custom.c`: every five seconds the PMU sends the number of the round to each CPU, waits
for it to be acknowledged and checks the response.
-/

namespace SoftwarePrototypes.IpiMessaging

open Interaction Interaction.Prog

inductive Status where
  | success | failure
  deriving DecidableEq

/-- The lines that `XPfw_SendIpi` prints. -/
inductive Line where
  | sendMessage (cnt : U32) (ch : Channel)
  | writeMessageFailed
  | triggerFailed (ch : Channel)
  | pollForAckTimeout (ch : Channel)
  | readResponseFailed (ch : Channel)
  | responseInvalid (ch : Channel)
  | receivedMessage (cnt : U32) (ch : Channel)
  deriving DecidableEq

/-- The calls of the firmware's IPI manager; a channel stands for its mask. Messages and responses
are of one word. -/
inductive PmuOp where
  | ipiWriteMessage (ch : Channel) (value : U32)
  | ipiTrigger (ch : Channel)
  | ipiPollForAck (ch : Channel) (timeOut : Nat)
  | ipiReadResponse (ch : Channel)
  | printf (line : Line)
  deriving DecidableEq

abbrev PmuAnswer : PmuOp → Type
  | .ipiWriteMessage _ _ | .ipiTrigger _ | .ipiPollForAck _ _ => Status
  | .ipiReadResponse _ => Status × U32
  | .printf _ => Unit

abbrev Pmu (α : Type) : Type := Prog PmuOp PmuAnswer α

abbrev pmuOp (e : PmuOp) : Pmu (PmuAnswer e) := Prog.ask e

/-- The channels in the order of the table. -/
def channels : List Channel := [.rpu0, .rpu1, .mb0, .mb1, .apu]

/-- The body of the loop of `XPfw_SendIpi`; each failure is a `break`. -/
def sendTo (cnt : U32) (ch : Channel) : Pmu Bool := do
  pmuOp (.printf (.sendMessage cnt ch))
  let status ← pmuOp (.ipiWriteMessage ch cnt)
  if status ≠ .success then do
    pmuOp (.printf .writeMessageFailed)
    pure false
  else do
  let status ← pmuOp (.ipiTrigger ch)
  if status ≠ .success then do
    pmuOp (.printf (.triggerFailed ch))
    pure false
  else do
  let status ← pmuOp (.ipiPollForAck ch 100)
  if status ≠ .success then do
    pmuOp (.printf (.pollForAckTimeout ch))
    pure false
  else do
  let (status, resp) ← pmuOp (.ipiReadResponse ch)
  if status ≠ .success then do
    pmuOp (.printf (.readResponseFailed ch))
    pure false
  else do
  if resp &&& 0xFFFF ≠ cnt then do
    pmuOp (.printf (.responseInvalid ch))
    pure false
  else do
  pmuOp (.printf (.receivedMessage cnt ch))
  pure true

def sendAll (cnt : U32) : List Channel → Pmu Unit
  | [] => pure ()
  | ch :: rest => do
    let going ← sendTo cnt ch
    if going then sendAll cnt rest else pure ()

/-- `XPfw_SendIpi`, from one value of the counter to the next. -/
def sendIpi (init : Channel → U32) (cnt : U32) : Pmu U32 :=
  if ∃ ch ∈ channels, init ch = 0 then pure cnt else do
  sendAll cnt channels
  pure (cnt + 1)

/-- The masks of the R5 cores, from the headers of the firmware. -/
structure RpuMasks where
  rpu0 : U32
  rpu1 : U32

def Channel.mask (m : RpuMasks) : Channel → U32
  | .rpu0 => m.rpu0
  | .rpu1 => m.rpu1
  | .mb0 => 1 <<< 24
  | .mb1 => 1 <<< 25
  | .apu => 1 <<< 27

/-- `IpiHandler`. -/
def ipiHandler (m : RpuMasks) (srcMask : U32) (init : Channel → U32) (ch : Channel) : U32 :=
  if ch.mask m = srcMask ∧ init ch = 0 then 1 else init ch

/-- What the PMU does to the port of a channel: it is the source with the bit `pmu`. -/
def pmuServe (ok : Bool) : (e : PmuOp) → (Channel → Port) → PmuAnswer e × (Channel → Port)
  | .ipiWriteMessage ch value, ports =>
    if ok then (.success, Function.update ports ch ((ports ch).send pmu value))
    else (.failure, ports)
  | .ipiTrigger ch, ports =>
    if ok then (.success, Function.update ports ch ((ports ch).trigger pmu)) else (.failure, ports)
  | .ipiPollForAck ch _, ports =>
    if ok ∧ (ports ch).pending pmu = false then (.success, ports) else (.failure, ports)
  | .ipiReadResponse ch, ports =>
    if ok then
      ((.success, (ports ch).response pmu),
        Function.update ports ch ((ports ch).note (.taken pmu ((ports ch).response pmu))))
    else ((.failure, 0), ports)
  | .printf (.receivedMessage cnt ch), ports =>
    ((), Function.update ports ch ((ports ch).note (.received cnt)))
  | .printf _, ports => ((), ports)

/-- The event that a call of the PMU leaves in the log of a channel. -/
def Leaves : PmuOp → Channel → Event → Prop
  | .ipiWriteMessage ch value, ch', event => ch' = ch ∧ event = .sent pmu value
  | .ipiTrigger ch, ch', event => ch' = ch ∧ event = .trigger pmu
  | .ipiPollForAck _ _, _, _ => False
  | .ipiReadResponse ch, ch', event => ch' = ch ∧ ∃ value, event = .taken pmu value
  | .printf line, ch', event => ∃ cnt, line = .receivedMessage cnt ch' ∧ event = .received cnt

theorem mem_update_log {ports : Channel → Port} {ch ch' : Channel} {p : Port} {event event' : Event}
    (hLog : p.log = event' :: (ports ch).log)
    (hMem : event ∈ (Function.update ports ch p ch').log) :
    event ∈ (ports ch').log ∨ ch' = ch ∧ event = event' := by
  rcases eq_or_ne ch' ch with rfl | hOther
  · rw [Function.update_self, hLog] at hMem
    exact (List.mem_cons.mp hMem).symm.imp_right fun hEvent => ⟨rfl, hEvent⟩
  · rw [Function.update_of_ne hOther] at hMem
    exact .inl hMem

theorem pmuServe_log {e : PmuOp} {ok : Bool} {ports : Channel → Port} {ch : Channel}
    {event : Event} (hMem : event ∈ ((pmuServe ok e ports).2 ch).log) :
    event ∈ (ports ch).log ∨ Leaves e ch event := by
  cases e with
  | ipiWriteMessage ch' value =>
    cases ok with
    | false => exact .inl hMem
    | true => exact mem_update_log rfl hMem
  | ipiTrigger ch' =>
    cases ok with
    | false => exact .inl hMem
    | true => exact mem_update_log rfl hMem
  | ipiPollForAck ch' timeOut =>
    simp only [pmuServe] at hMem
    split at hMem
    · exact .inl hMem
    · exact .inl hMem
  | ipiReadResponse ch' =>
    cases ok with
    | false => exact .inl hMem
    | true => exact (mem_update_log rfl hMem).imp_right fun ⟨hEq, hEvent⟩ => ⟨hEq, _, hEvent⟩
  | printf line =>
    cases line with
    | receivedMessage cnt ch' =>
      refine (mem_update_log rfl hMem).imp_right ?_
      rintro ⟨rfl, rfl⟩
      exact ⟨cnt, rfl, rfl⟩
    | _ => exact .inl hMem

end SoftwarePrototypes.IpiMessaging
