import Mathlib.Data.BitVec
import SoftwarePrototypes.Interaction.Programs

/-! # Programming the Si5381 clock generator

`Si5381A-programming.c`: register access over I2C, where a page command selects the page of the
registers that follow, and the initialization of the device from a register table.
-/

namespace SoftwarePrototypes.Si5381

open Interaction

abbrev Byte : Type := BitVec 8

inductive Status where
  | success | failure
  deriving DecidableEq

def i2cMuxaddr : Int := 0x74

def si5381Muxval : Byte := 0x2

def si5381Addr : Int := 0x68

def si5381Id : BitVec 32 := 0x5381

def i2cSclkRateI2cmux : Nat := 400000

def preambleSize : Nat := 3

def postambleSize : Nat := 5

def oneMsInUsec : Nat := 1000

def pageCmd : Byte := 1

def partNumCmd : BitVec 32 := 2

def bufLen : Nat := 2

/-- The lines that the functions print. -/
inductive Line where
  | settingPageFailed (slaveAddr : Int) (page : Byte)
  | writeRegisterFailed (reg : BitVec 32) (page : Byte)
  | setRegisterForReadFailed
  | polledRecvFailed
  | initializationFailure (step : Nat)
  | clockSetFailure
  | setMuxFailure
  | muxIsSet
  | identifierIncorrect (id : BitVec 32)
  | registerWriteFailure
  | registerReadFailure
  | readbackFailure (read expected : Byte)
  | configured
  deriving DecidableEq

/-- The calls of the I2C driver; `waitBus` comes back once `XIicPs_BusIsBusy` is no longer true. -/
inductive Op where
  | lookupConfig
  | cfgInitialize
  | setSClk (rate : Nat)
  | masterSendPolled (bytes : List Byte) (slaveAddr : Int)
  | masterRecvPolled (len : Nat) (slaveAddr : Int)
  | waitBus
  | usleep (usec : Nat)
  | print (line : Line)

/-- `XIicPs_LookupConfig` finds a configuration or not; a receive leaves bytes in the buffer
whether it succeeds or not. -/
abbrev Answer : Op → Type
  | .lookupConfig => Bool
  | .cfgInitialize | .setSClk _ | .masterSendPolled _ _ => Status
  | .masterRecvPolled len _ => Status × (Fin len → Byte)
  | _ => Unit

abbrev I2c (α : Type) : Type := Prog Op Answer α

abbrev op (e : Op) : I2c (Answer e) := Prog.ask e

/-! ## Register access -/

def pageOf (reg : BitVec 32) : Byte := (reg >>> 8).setWidth 8

def offsetOf (reg : BitVec 32) : Byte := reg.setWidth 8

/-- The static variables of `WriteSi538xRegister`. -/
structure Statics where
  lastPage : Int
  lastSlaveAddr : Int
  deriving DecidableEq

def Statics.initial : Statics := ⟨-1, -1⟩

/-- The page and the slave address are those of the last pass. -/
def Statics.Holds (st : Statics) (slaveAddr : Int) (page : Byte) : Prop :=
  page.toNat = st.lastPage ∧ slaveAddr = st.lastSlaveAddr

instance (st : Statics) (slaveAddr : Int) (page : Byte) : Decidable (st.Holds slaveAddr page) :=
  inferInstanceAs (Decidable (_ ∧ _))

/-- The page command, if it is needed. -/
def setPage (st : Statics) (slaveAddr : Int) (page : Byte) : I2c (Status × Statics) :=
  if st.Holds slaveAddr page then pure (.success, st) else do
  let status ← op (.masterSendPolled [pageCmd, page] slaveAddr)
  if status ≠ .success then do
    op (.print (.settingPageFailed slaveAddr page))
    pure (.failure, st)
  else do
  op .waitBus
  pure (.success, ⟨page.toNat, slaveAddr⟩)

def writeData (slaveAddr : Int) (reg : BitVec 32) (writedata : List Byte) : I2c Status := do
  let status ← op (.masterSendPolled (offsetOf reg :: writedata) slaveAddr)
  if status ≠ .success then do
    op (.print (.writeRegisterFailed reg (pageOf reg)))
    pure .failure
  else do
  op .waitBus
  pure status

def writeSi538xRegister (st : Statics) (slaveAddr : Int) (reg : BitVec 32)
    (writedata : List Byte) : I2c (Status × Statics) := do
  let set ← setPage st slaveAddr (pageOf reg)
  if set.1 ≠ .success then pure (.failure, set.2) else do
  let status ← writeData slaveAddr reg writedata
  pure (status, set.2)

/-- The first bytes of a buffer, written over. -/
def fill {len : Nat} (data : Fin len → Byte) (buffer : Nat → Byte) : Nat → Byte :=
  fun i => if h : i < len then data ⟨i, h⟩ else buffer i

structure ReadResult where
  status : Status
  readbuf : Nat → Byte
  statics : Statics

def readSi538xRegister (st : Statics) (slaveAddr : Int) (reg : BitVec 32) (readbuf : Nat → Byte)
    (len : Nat) : I2c ReadResult := do
  let addressed ← writeSi538xRegister st slaveAddr reg []
  if addressed.1 ≠ .success then do
    op (.print .setRegisterForReadFailed)
    pure ⟨.failure, readbuf, addressed.2⟩
  else do
  let received ← op (.masterRecvPolled len slaveAddr)
  if received.1 ≠ .success then do
    op (.print .polledRecvFailed)
    pure ⟨.failure, fill received.2 readbuf, addressed.2⟩
  else do
  op .waitBus
  pure ⟨received.1, fill received.2 readbuf, addressed.2⟩

/-! ## The initialization of the device -/

/-- `si5381a_reve_register_t`. -/
structure Entry where
  address : BitVec 32
  value : Byte
  deriving DecidableEq

/-- A register table; one shorter than its preamble and postamble has no registers to read back. -/
structure RegisterTable where
  entries : List Entry
  complete : preambleSize + postambleSize ≤ entries.length

/-- The entries between the preamble and the postamble. -/
def RegisterTable.middle (table : RegisterTable) : List Entry :=
  (table.entries.take (table.entries.length - postambleSize)).drop preambleSize

/-- A time delay is needed after the preamble. -/
def preambleDelay (i : Nat) : I2c Unit :=
  if i = preambleSize - 1 then op (.usleep (625 * oneMsInUsec)) else pure ()

/-- Write the entries, the first of which has index `i`. -/
def writeRegisters (i : Nat) : List Entry → Statics → I2c (Status × Statics)
  | [], st => pure (.success, st)
  | entry :: entries, st => do
    let written ← writeSi538xRegister st si5381Addr entry.address [entry.value]
    if written.1 ≠ .success then do
      op (.print .registerWriteFailure)
      pure (.failure, written.2)
    else do
    preambleDelay i
    writeRegisters (i + 1) entries written.2

def compareRegister (entry : Entry) (read : Byte) : I2c Unit :=
  if read ≠ entry.value then op (.print (.readbackFailure read entry.value)) else pure ()

/-- Read the entries back; a value that differs is printed. -/
def readbackRegisters : List Entry → (Nat → Byte) → Statics → I2c (Status × Statics)
  | [], _, st => do
    op (.print .configured)
    pure (.success, st)
  | entry :: entries, readBuffer, st => do
    let result ← readSi538xRegister st si5381Addr entry.address readBuffer 1
    if result.status ≠ .success then do
      op (.print .registerReadFailure)
      pure (.failure, result.statics)
    else do
    compareRegister entry (result.readbuf 0)
    readbackRegisters entries result.readbuf result.statics

def initializeI2c : I2c Status := do
  let found ← op .lookupConfig
  if found = false then do
    op (.print (.initializationFailure 1))
    pure .failure
  else do
  let status ← op .cfgInitialize
  if status ≠ .success then do
    op (.print (.initializationFailure 2))
    pure .failure
  else do
  let status ← op (.setSClk i2cSclkRateI2cmux)
  if status ≠ .success then do
    op (.print .clockSetFailure)
    pure .failure
  else do
  let status ← op (.masterSendPolled [si5381Muxval] i2cMuxaddr)
  if status ≠ .success then do
    op (.print .setMuxFailure)
    pure .failure
  else do
  op .waitBus
  op (.print .muxIsSet)
  pure .success

def identifier (readBuffer : Nat → Byte) : BitVec 32 :=
  (readBuffer 1).setWidth 32 <<< 8 ||| (readBuffer 0).setWidth 32

/-- The status of the read of the identifier is not looked at. -/
def programSi5381 (table : RegisterTable) (st : Statics) : I2c (Status × Statics) := do
  let status ← initializeI2c
  if status ≠ .success then pure (.failure, st) else do
  let part ← readSi538xRegister st si5381Addr partNumCmd (fun _ => 0) bufLen
  if identifier part.readbuf ≠ si5381Id then do
    op (.print (.identifierIncorrect (identifier part.readbuf)))
    pure (.failure, part.statics)
  else do
  let written ← writeRegisters 0 table.entries part.statics
  if written.1 ≠ .success then pure (.failure, written.2) else
  readbackRegisters table.middle part.readbuf written.2

end SoftwarePrototypes.Si5381
