import Mathlib.Data.List.FinRange
import Mathlib.Logic.Function.Basic
import SoftwarePrototypes.Interaction.Programs

/-! # The interrupt handlers of the remote CPUs

`main_r5_0.c`, `main_r5_1.c`, `main_mb0.c`, `main_mb1.c` and `testapp.c`, over the IPI port of their
CPU: an interrupt status register, and a request and a response buffer for each source CPU, of
which the first word is used. The port keeps a log of what is done with it.
-/

namespace SoftwarePrototypes.IpiMessaging

open Interaction Interaction.Prog

abbrev U32 : Type := BitVec 32

/-- The CPUs that the PMU sends to, as in its table of channels. -/
inductive Channel where
  | rpu0 | rpu1 | mb0 | mb1 | apu
  deriving DecidableEq

/-- A source CPU, by its bit in the interrupt registers. -/
abbrev Source : Type := Fin 32

def Source.mask (i : Source) : U32 := BitVec.twoPow 32 i

def pmu : Source := 16

/-- `XPAR_XIPIPS_TARGET_PSU_PMU_0_CH0_MASK`. -/
def pmuMask : U32 := 0x10000

/-- `XIPIPSU_ALL_MASK` and `REMOTE_IPI_MASK`, which all but the mailbox library enable. -/
def allMask : U32 := 0x0F0F0301

/-! ## The handlers -/

inductive Op where
  | read32 (addr : U32)
  | write32 (addr value : U32)
  | getInterruptStatus
  | readMessage (mask : U32)
  | writeMessage (mask value : U32)
  | clearInterruptStatus (mask : U32)
  | recv (mask : U32)
  | sendData (mask value : U32)
  | xilPrintf (text : String)
  deriving DecidableEq

/-- A read that fails leaves the buffer of its caller as it was. -/
abbrev Answer : Op → Type
  | .read32 _ | .getInterruptStatus => U32
  | .readMessage _ | .recv _ => Option U32
  | .sendData _ _ => Bool
  | _ => Unit

abbrev Handler (α : Type) : Type := Prog Op Answer α

abbrev op (e : Op) : Handler (Answer e) := Prog.ask e

/-- What the Microblaze and the Linux handler know of their port. -/
structure Addresses where
  reqBuff : U32
  resBuff : U32
  isr : U32
  resBuff_ne : resBuff ≠ reqBuff
  isr_ne : isr ≠ reqBuff ∧ isr ≠ resBuff

def mb0Addresses : Addresses where
  reqBuff := 0xff990EC0
  resBuff := 0xff990EE0
  isr := 0xff340010
  resBuff_ne := by decide
  isr_ne := by decide

def mb1Addresses : Addresses where
  reqBuff := 0xff990F00
  resBuff := 0xff990F20
  isr := 0xff350010
  resBuff_ne := by decide
  isr_ne := by decide

/-- Offsets in the devices `ff990000.ipi_buf` and `ff370000.ipi`. -/
def apuAddresses : Addresses where
  reqBuff := 0xff990000 + 0xF80
  resBuff := 0xff990000 + 0xFA0
  isr := 0xff370000 + 0x10
  resBuff_ne := by decide
  isr_ne := by decide

/-- `InterruptHandler` of the Microblazes and `ipi_irq_handler`. Both copy loops are of one word. -/
def echoHandler (a : Addresses) : Handler Unit := do
  let tmp ← op (.read32 a.reqBuff)
  op (.write32 a.resBuff tmp)
  op (.write32 a.isr (~~~0))

def mb0InterruptHandler : Handler Unit := echoHandler mb0Addresses

def mb1InterruptHandler : Handler Unit := echoHandler mb1Addresses

def ipiIrqHandler : Handler Unit := echoHandler apuAddresses

/-- The loop of `IpiIntrHandler` over the masks in `TargetList`. -/
def pollSources (ipiSrcMask : U32) : List U32 → U32 → Handler Unit
  | [], _ => pure ()
  | mask :: targets, tmp =>
    if ipiSrcMask &&& mask ≠ 0 then do
      let message ← op (.readMessage mask)
      let tmp := message.getD tmp
      op (.writeMessage mask tmp)
      op (.clearInterruptStatus mask)
      pollSources ipiSrcMask targets tmp
    else pollSources ipiSrcMask targets tmp

def ipiIntrHandler (targetList : List U32) : Handler Unit := do
  let ipiSrcMask ← op .getInterruptStatus
  pollSources ipiSrcMask targetList 0

/-- The callback of RPU 1; its mailbox library acknowledges. -/
def mailboxHandler : Handler Unit := do
  match ← op (.recv pmuMask) with
  | none => op (.xilPrintf "Reading an IPI Resp message Failed\n\r")
  | some tmp => do
    let sent ← op (.sendData pmuMask tmp)
    if sent then pure () else op (.xilPrintf "Sending Req Message Failed\n\r")

/-- `targets` are the sources in the driver configuration of RPU 0, each with a mask of its own. -/
def handler (targets : List Source) : Channel → Handler Unit
  | .rpu0 => ipiIntrHandler (targets.map Source.mask)
  | .rpu1 => mailboxHandler
  | .mb0 => mb0InterruptHandler
  | .mb1 => mb1InterruptHandler
  | .apu => ipiIrqHandler

/-! ## The port -/

inductive Event where
  | sent (i : Source) (value : U32)
  | trigger (i : Source)
  | enter
  | read (i : Source) (value : U32)
  | respond (i : Source) (value : U32)
  | clear (mask : U32)
  | taken (i : Source) (value : U32)
  | received (value : U32)
  deriving DecidableEq

/-- The log starts with the latest event. -/
structure Port where
  isr : U32
  request : Source → U32
  response : Source → U32
  log : List Event

def newPort : Port where
  isr := 0
  request _ := 0
  response _ := 0
  log := []

def Port.note (p : Port) (event : Event) : Port := { p with log := event :: p.log }

def Port.pending (p : Port) (i : Source) : Bool := p.isr.getLsbD i

/-- A source writes its request. -/
def Port.send (p : Port) (i : Source) (value : U32) : Port :=
  { p with request := Function.update p.request i value, log := .sent i value :: p.log }

def Port.trigger (p : Port) (i : Source) : Port :=
  { p with isr := p.isr ||| i.mask, log := .trigger i :: p.log }

def Port.respond (p : Port) (i : Source) (value : U32) : Port :=
  { p with response := Function.update p.response i value, log := .respond i value :: p.log }

/-- A bit of the status register is cleared by writing a one to it. -/
def Port.clear (p : Port) (mask : U32) : Port :=
  { p with isr := p.isr &&& ~~~mask, log := .clear mask :: p.log }

inductive Register where
  | isr
  | request (i : Source)
  | response (i : Source)
  deriving DecidableEq

def Addresses.decode (a : Addresses) (addr : U32) : Option Register :=
  if addr = a.reqBuff then some (.request pmu)
  else if addr = a.resBuff then some (.response pmu)
  else if addr = a.isr then some .isr
  else none

def Channel.addresses : Channel → Option Addresses
  | .mb0 => some mb0Addresses
  | .mb1 => some mb1Addresses
  | .apu => some apuAddresses
  | .rpu0 | .rpu1 => none

def Channel.decode (ch : Channel) (addr : U32) : Option Register :=
  ch.addresses.bind fun a => a.decode addr

/-- The source that a mask of the driver stands for. -/
def sourceOf (mask : U32) : Option Source := (List.finRange 32).find? fun i => mask = i.mask

def Port.load (p : Port) : Option Register → U32 × Port
  | some .isr => (p.isr, p)
  | some (.request i) => (p.request i, p.note (.read i (p.request i)))
  | some (.response i) => (p.response i, p)
  | none => (0, p)

def Port.store (p : Port) (value : U32) : Option Register → Port
  | some .isr => p.clear value
  | some (.request i) => p.send i value
  | some (.response i) => p.respond i value
  | none => p

/-- The drivers find the buffers of a source by its mask. `ok` says whether a call of the mailbox
library succeeds. -/
def serve (ch : Channel) (ok : Bool) : (e : Op) → Port → Answer e × Port
  | .read32 addr, p => p.load (ch.decode addr)
  | .write32 addr value, p => ((), p.store value (ch.decode addr))
  | .getInterruptStatus, p => (p.isr, p)
  | .readMessage mask, p =>
    match sourceOf mask with
    | none => (none, p)
    | some i => (some (p.request i), p.note (.read i (p.request i)))
  | .writeMessage mask value, p => ((), p.store value ((sourceOf mask).map .response))
  | .clearInterruptStatus mask, p => ((), p.clear mask)
  | .recv mask, p =>
    match ok, sourceOf mask with
    | true, some i => (some (p.request i), p.note (.read i (p.request i)))
    | _, _ => (none, p)
  | .sendData mask value, p =>
    if ok then (true, p.store value ((sourceOf mask).map .response)) else (false, p)
  | .xilPrintf _, p => ((), p)

section Port

variable {p : Port} {i j : Source} {value mask : U32} {a : Addresses} {ch : Channel}

@[simp] theorem pending_note (event : Event) : (p.note event).pending i = p.pending i := rfl

@[simp] theorem pending_send : (p.send j value).pending i = p.pending i := rfl

@[simp] theorem pending_respond : (p.respond j value).pending i = p.pending i := rfl

@[simp] theorem request_send : (p.send i value).request i = value := by simp [Port.send]

@[simp] theorem response_respond : (p.respond i value).response i = value := by
  simp [Port.respond]

theorem mask_getLsbD : j.mask.getLsbD i = decide (i = j) := by
  simp [Source.mask, Fin.ext_iff]

@[simp] theorem pending_trigger : (p.trigger j).pending i = (p.pending i || decide (i = j)) := by
  simp only [Port.pending, Port.trigger, BitVec.getLsbD_or, mask_getLsbD]

@[simp] theorem pending_clear : (p.clear mask).pending i = (p.pending i && !mask.getLsbD i) := by
  simp [Port.pending, Port.clear]

@[simp] theorem sourceOf_mask : sourceOf i.mask = some i := by
  revert i
  decide

theorem and_mask_ne_zero {status : U32} : status &&& i.mask ≠ 0 ↔ status.getLsbD i = true := by
  have hOne : i.mask ≠ 0#32 := by
    clear status
    revert i
    decide
  unfold Source.mask at hOne ⊢
  rw [BitVec.and_twoPow]
  cases hBit : status.getLsbD i with
  | true => simpa using hOne
  | false => simp

theorem allOnes_getLsbD : ∀ i : Source, (~~~0 : U32).getLsbD i = true := by decide

theorem pmuMask_eq : pmuMask = pmu.mask := by decide

@[simp] theorem decode_reqBuff (h : ch.addresses = some a) :
    ch.decode a.reqBuff = some (.request pmu) := by
  rw [Channel.decode, h, Option.bind_some, Addresses.decode, if_pos rfl]

@[simp] theorem decode_resBuff (h : ch.addresses = some a) :
    ch.decode a.resBuff = some (.response pmu) := by
  rw [Channel.decode, h, Option.bind_some, Addresses.decode, if_neg a.resBuff_ne, if_pos rfl]

@[simp] theorem decode_isr (h : ch.addresses = some a) : ch.decode a.isr = some .isr := by
  rw [Channel.decode, h, Option.bind_some, Addresses.decode, if_neg a.isr_ne.1,
    if_neg a.isr_ne.2, if_pos rfl]

theorem read_request (h : ch.addresses = some a) (ok : Bool) :
    serve ch ok (.read32 a.reqBuff) p =
      (p.request pmu, p.note (.read pmu (p.request pmu))) := by
  simp [serve, Port.load, h]

theorem write_response (h : ch.addresses = some a) (ok : Bool) (value : U32) :
    serve ch ok (.write32 a.resBuff value) p = ((), p.respond pmu value) := by
  simp [serve, Port.store, h]

theorem handler_of_addresses (targets : List Source) (h : ch.addresses = some a) :
    handler targets ch = echoHandler a := by
  cases ch with
  | rpu0 => cases h
  | rpu1 => cases h
  | mb0 =>
    cases h
    rfl
  | mb1 =>
    cases h
    rfl
  | apu =>
    cases h
    rfl

end Port

end SoftwarePrototypes.IpiMessaging
