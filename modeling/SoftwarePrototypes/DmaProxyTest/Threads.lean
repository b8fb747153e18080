import Mathlib.Data.Int.Init
import SoftwarePrototypes.DmaProxy.Interface
import SoftwarePrototypes.Interaction.Loops

/-! # The threads of the DMA proxy test application

`tx_thread` and `rx_thread` of `dma-proxy-test.c`. One call of a thread is one ioctl, one access
to a buffer, or one read or write of `num_transfers` or `stop`; everything else is local.
-/

namespace SoftwarePrototypes.DmaProxyTest

open Interaction Interaction.Prog
open SoftwarePrototypes.DmaProxy (ProxyStatus)

/-- The constants of the header and the arguments of the application; `testSize` is `test_size` as
a `size_t`, which has at least the bits of an `int`. -/
structure Config where
  txBufferCount : Nat
  rxBufferCount : Nat
  bufferIncrement : Nat
  verify : Bool
  testSize : Nat

/-- Where a thread compares a count with `num_transfers`: after a start of the first loop, after
a finished transfer, and before it starts a buffer again. -/
inductive Test where
  | fill | done | refill
  deriving DecidableEq

/-- The two ioctls also show `in_progress_count` at the moment they are issued; the driver does
not see it. -/
inductive Op where
  | setLength (bufferId : Nat) (length : BitVec 32)
  | writeWord (bufferId i : Nat) (value : BitVec 32)
  | startXfer (bufferId : Nat) (inProgressCount : Int)
  | finishXfer (bufferId : Nat) (inProgressCount : Int)
  | reachedNumTransfers (test : Test) (count : Int)
  | readStop
  | writeNumTransfers (value : Int)
  | readWord (bufferId i : Nat)
  | printTransferError
  | printNotEqual (i : Nat) (data : BitVec 32) (expected : Int)

abbrev Answer : Op → Type
  | .finishXfer _ _ => ProxyStatus
  | .reachedNumTransfers _ _ | .readStop => Bool
  | .readWord _ _ => BitVec 32
  | _ => Unit

abbrev Thread (α : Type) : Type := Prog Op Answer α

abbrev op (e : Op) : Thread (Answer e) := Prog.ask e

/-- The local variables of the second loop; only `tx_thread` has `stop_in_progress`. -/
structure Locals where
  bufferId : Nat
  inProgressCount : Int
  counter : Int
  stopInProgress : Bool

inductive Next where
  | fill (bufferId : Nat) (inProgressCount : Int)
  | loop (l : Locals)
  | returned (inProgressCount : Int)
  | exited

def wordCount (cfg : Config) : Nat := cfg.testSize / 4

def int32 (value : Int) : Int := value.bmod (2 ^ 32)

/-- The condition of the first loop, and what stands before the second. -/
def afterFill (bufferCount bufferId : Nat) (inProgressCount : Int) : Next :=
  if bufferId < bufferCount then .fill bufferId inProgressCount
  else .loop ⟨0, inProgressCount, 0, false⟩

/-- `test_size` as an `unsigned int`. -/
def storedLength (cfg : Config) : BitVec 32 := BitVec.ofNat 32 cfg.testSize

/-! ## The transmit thread -/

/-- Only the first word is initialized before the first start of a buffer. -/
def txInit (cfg : Config) (bufferId : Nat) (inProgressCount : Int) : Thread Unit :=
  if cfg.verify then op (.writeWord bufferId 0 (BitVec.ofInt 32 (0 + inProgressCount)))
  else pure ()

def txFill (cfg : Config) (bufferId : Nat) (inProgressCount : Int) : Thread Next := do
  op (.setLength bufferId (storedLength cfg))
  txInit cfg bufferId inProgressCount
  op (.startXfer bufferId inProgressCount)
  let done ← op (.reachedNumTransfers .fill (inProgressCount + 1))
  if done then pure (.loop ⟨0, inProgressCount + 1, 0, false⟩) else
  pure (afterFill cfg.txBufferCount (bufferId + cfg.bufferIncrement) (inProgressCount + 1))

def txReport (status : ProxyStatus) : Thread Unit :=
  if status ≠ .noError then op .printTransferError else pure ()

/-- A requested stop rewrites `num_transfers`, once. -/
def txStop (cfg : Config) (counter : Int) (stopInProgress : Bool) : Thread Bool := do
  let stop ← op .readStop
  if stop && !stopInProgress then do
    op (.writeNumTransfers (int32 (counter + cfg.rxBufferCount)))
    pure true
  else pure stopInProgress

def txValue (cfg : Config) (i : Nat) (counter : Int) : BitVec 32 :=
  BitVec.ofInt 32 (i + ((cfg.txBufferCount / cfg.bufferIncrement : Nat) - 1) + counter)

def txWords (cfg : Config) (bufferId : Nat) (counter : Int) : Thread Unit :=
  if cfg.verify then
    (List.range (wordCount cfg)).forM fun i =>
      op (.writeWord bufferId i (txValue cfg i counter))
  else pure ()

def nextBuffer (bufferCount increment bufferId : Nat) : Nat := (bufferId + increment) % bufferCount

def txLoop (cfg : Config) (l : Locals) : Thread Next := do
  let status ← op (.finishXfer l.bufferId l.inProgressCount)
  txReport status
  let done ← op (.reachedNumTransfers .done (l.counter + 1))
  if done then pure (.returned (l.inProgressCount - 1)) else do
  let stopInProgress ← txStop cfg (l.counter + 1) l.stopInProgress
  let full ← op (.reachedNumTransfers .refill (l.counter + 1 + (l.inProgressCount - 1)))
  let bufferId := nextBuffer cfg.txBufferCount cfg.bufferIncrement l.bufferId
  if full then pure (.loop ⟨bufferId, l.inProgressCount - 1, l.counter + 1, stopInProgress⟩) else do
  txWords cfg l.bufferId (l.counter + 1)
  op (.startXfer l.bufferId (l.inProgressCount - 1))
  pure (.loop ⟨bufferId, l.inProgressCount, l.counter + 1, stopInProgress⟩)

def txThread (cfg : Config) : Next → Thread Next
  | .fill bufferId inProgressCount => txFill cfg bufferId inProgressCount
  | .loop l => txLoop cfg l
  | left => pure left

/-! ## The receive thread -/

def rxFill (cfg : Config) (bufferId : Nat) (inProgressCount : Int) : Thread Next := do
  op (.setLength bufferId (storedLength cfg))
  op (.startXfer bufferId inProgressCount)
  let done ← op (.reachedNumTransfers .fill (inProgressCount + 1))
  if done then pure (.loop ⟨0, inProgressCount + 1, 0, false⟩) else
  pure (afterFill cfg.rxBufferCount (bufferId + cfg.bufferIncrement) (inProgressCount + 1))

/-- Only the first word of a received buffer is checked. -/
def rxVerify (cfg : Config) (bufferId : Nat) (rxCounter : Int) : Thread Unit :=
  if cfg.verify then do
    let data ← op (.readWord bufferId 0)
    if data ≠ BitVec.ofInt 32 (0 + rxCounter) then op (.printNotEqual 0 data (0 + rxCounter))
    else pure ()
  else pure ()

def rxLoop (cfg : Config) (l : Locals) : Thread Next := do
  let status ← op (.finishXfer l.bufferId l.inProgressCount)
  if status ≠ .noError then do
    op .printTransferError
    pure .exited
  else do
  rxVerify cfg l.bufferId l.counter
  let done ← op (.reachedNumTransfers .done (l.counter + 1))
  if done then pure (.returned (l.inProgressCount - 1)) else do
  let full ← op (.reachedNumTransfers .refill (l.counter + 1 + (l.inProgressCount - 1)))
  let bufferId := nextBuffer cfg.rxBufferCount cfg.bufferIncrement l.bufferId
  if full then pure (.loop ⟨bufferId, l.inProgressCount - 1, l.counter + 1, false⟩) else do
  op (.startXfer l.bufferId (l.inProgressCount - 1))
  pure (.loop ⟨bufferId, l.inProgressCount, l.counter + 1, false⟩)

def rxThread (cfg : Config) : Next → Thread Next
  | .fill bufferId inProgressCount => rxFill cfg bufferId inProgressCount
  | .loop l => rxLoop cfg l
  | left => pure left

end SoftwarePrototypes.DmaProxyTest
