import SoftwarePrototypes.Interaction.Traces
import SoftwarePrototypes.Si5381.Driver

/-! # What a successful initialization has verified

The calls of a successful run of `ProgramSi5381` are those of a device that is identified, written
and read back, as far as the run prints no failure.
-/

namespace SoftwarePrototypes.Si5381

open Interaction Interaction.Prog

abbrev Event : Type := Sigma Answer

/-! ## The calls of a device that is as it should be -/

def sent (bytes : List Byte) (slaveAddr : Int) : List Event :=
  [⟨.masterSendPolled bytes slaveAddr, Status.success⟩, ⟨.waitBus, ()⟩]

def pageEvents (st : Statics) (slaveAddr : Int) (page : Byte) : List Event :=
  if st.Holds slaveAddr page then [] else sent [pageCmd, page] slaveAddr

/-- What the driver remembers after an access. -/
def Statics.at (slaveAddr : Int) (reg : BitVec 32) : Statics := ⟨(pageOf reg).toNat, slaveAddr⟩

def writeEvents (st : Statics) (slaveAddr : Int) (reg : BitVec 32) (data : List Byte) :
    List Event :=
  pageEvents st slaveAddr (pageOf reg) ++ sent (offsetOf reg :: data) slaveAddr

def readEvents (st : Statics) (slaveAddr : Int) (reg : BitVec 32) {len : Nat}
    (received : Fin len → Byte) : List Event :=
  writeEvents st slaveAddr reg [] ++
    [⟨.masterRecvPolled len slaveAddr, (Status.success, received)⟩, ⟨.waitBus, ()⟩]

def delayEvents (i : Nat) : List Event :=
  if i = preambleSize - 1 then [⟨.usleep (625 * oneMsInUsec), ()⟩] else []

/-- All entries are written, in table order. -/
def writtenEvents (i : Nat) : List Entry → Statics → List Event
  | [], _ => []
  | entry :: entries, st => writeEvents st si5381Addr entry.address [entry.value] ++
      (delayEvents i ++ writtenEvents (i + 1) entries (.at si5381Addr entry.address))

def writtenStatics : List Entry → Statics → Statics
  | [], st => st
  | entry :: entries, _ => writtenStatics entries (.at si5381Addr entry.address)

/-- All entries are read back with the value of the table. -/
def readbackEvents : List Entry → Statics → List Event
  | [], _ => []
  | entry :: entries, st =>
    readEvents st si5381Addr entry.address (fun _ : Fin 1 => entry.value) ++
      readbackEvents entries (.at si5381Addr entry.address)

def initializeEvents : List Event :=
  [⟨.lookupConfig, true⟩, ⟨.cfgInitialize, Status.success⟩,
    ⟨.setSClk i2cSclkRateI2cmux, Status.success⟩] ++
    sent [si5381Muxval] i2cMuxaddr ++ [⟨.print .muxIsSet, ()⟩]

/-- The device has been identified by a read that succeeded, all entries have been written in
table order by transfers that succeeded, and those between the preamble and the postamble have
then been read back with the values of the table. -/
def Verified (table : RegisterTable) (st : Statics) (L : List Event) : Prop :=
  ∃ received : Fin bufLen → Byte, identifier (fill received fun _ => 0) = si5381Id ∧
    L = initializeEvents ++ (readEvents st si5381Addr partNumCmd received ++
      (writtenEvents 0 table.entries (.at si5381Addr partNumCmd) ++
        (readbackEvents table.middle
            (writtenStatics table.entries (.at si5381Addr partNumCmd)) ++
          [⟨.print .configured, ()⟩])))

/-! ## What the device answers -/

/-- The answer to a receive, with its bytes. -/
def reception : Event → Option (Status × List Byte)
  | ⟨.masterRecvPolled _ _, answer⟩ => some (answer.1, List.ofFn answer.2)
  | _ => none

def receptions (L : List Event) : List (Status × List Byte) := L.filterMap reception

/-- The entries with the values that the table has for them. -/
def expected (entries : List Entry) : List (Status × List Byte) :=
  entries.map fun entry => (.success, [entry.value])

/-- The device answers the read of its identifier with success, and the reads of the entries
between the preamble and the postamble with the values of the table. -/
def Answered (table : RegisterTable) (L : List Event) : Prop :=
  ∃ received, receptions L = (.success, received) :: expected table.middle

theorem receptions_append (L M : List Event) :
    receptions (L ++ M) = receptions L ++ receptions M := List.filterMap_append

@[simp] theorem receptions_writeEvents (st : Statics) (slaveAddr : Int) (reg : BitVec 32)
    (data : List Byte) : receptions (writeEvents st slaveAddr reg data) = [] := by
  rw [writeEvents, receptions_append, pageEvents]
  split <;> rfl

@[simp] theorem receptions_readEvents (st : Statics) (slaveAddr : Int) (reg : BitVec 32) {len : Nat}
    (received : Fin len → Byte) :
    receptions (readEvents st slaveAddr reg received) = [(.success, List.ofFn received)] := by
  rw [readEvents, receptions_append, receptions_writeEvents]
  rfl

@[simp] theorem receptions_initialize : receptions initializeEvents = [] := rfl

@[simp] theorem receptions_delay (i : Nat) : receptions (delayEvents i) = [] := by
  rw [delayEvents]
  split <;> rfl

@[simp] theorem receptions_writtenEvents (i : Nat) (entries : List Entry) (st : Statics) :
    receptions (writtenEvents i entries st) = [] := by
  induction entries generalizing i st with
  | nil => rfl
  | cons entry entries ih => simp [writtenEvents, receptions_append, ih]

@[simp] theorem receptions_readbackEvents (entries : List Entry) (st : Statics) :
    receptions (readbackEvents entries st) = expected entries := by
  induction entries generalizing st with
  | nil => rfl
  | cons entry entries ih =>
    rw [readbackEvents, receptions_append, receptions_readEvents, ih]
    rfl

/-! ## Register access -/

section Access

variable {st st' : Statics} {slaveAddr : Int} {page : Byte} {reg : BitVec 32} {L : List Event}

/-- A transfer that is waited for, or a failure that is printed. -/
theorem send_returns {α : Type} {bytes : List Byte} {line : Line} {failed value : α}
    {rest : Status → I2c α}
    (h : Returns (do
      let status ← op (.masterSendPolled bytes slaveAddr)
      if status ≠ .success then do
        op (.print line)
        pure failed
      else do
      op .waitBus
      rest status) L value) (hValue : value ≠ failed) :
    ∃ M, L = sent bytes slaveAddr ++ M ∧ Returns (rest .success) M value := by
  obtain ⟨status, M, rfl, hSending⟩ := returns_ask_bind h
  split at hSending
  · obtain ⟨_, _, _, hFailed⟩ := returns_ask_bind hSending
    exact absurd (returns_ret.mp hFailed).2 hValue
  · rename_i hSent
    obtain ⟨_, M, rfl, hRest⟩ := returns_ask_bind hSending
    obtain rfl : status = .success := not_not.mp hSent
    exact ⟨M, rfl, hRest⟩

theorem setPage_returns (h : Returns (setPage st slaveAddr page) L (.success, st')) :
    L = pageEvents st slaveAddr page ∧ st' = ⟨page.toNat, slaveAddr⟩ := by
  rw [setPage] at h
  rw [pageEvents]
  split at h
  · rename_i hHolds
    obtain ⟨rfl, hEq⟩ := returns_ret.mp h
    obtain ⟨hPage, hSlave⟩ := hHolds
    cases hEq
    exact ⟨(if_pos ⟨hPage, hSlave⟩).symm, by rw [hPage, hSlave]⟩
  · rename_i hNot
    obtain ⟨M, rfl, hLast⟩ := send_returns h (by simp)
    obtain ⟨rfl, hEq⟩ := returns_ret.mp hLast
    cases hEq
    rw [if_neg hNot, List.append_nil]
    exact ⟨rfl, rfl⟩

theorem writeData_returns {data : List Byte}
    (h : Returns (writeData slaveAddr reg data) L .success) :
    L = sent (offsetOf reg :: data) slaveAddr := by
  obtain ⟨M, rfl, hLast⟩ := send_returns h (by decide)
  rw [(returns_ret.mp hLast).1, List.append_nil]

theorem write_returns {data : List Byte}
    (h : Returns (writeSi538xRegister st slaveAddr reg data) L (.success, st')) :
    L = writeEvents st slaveAddr reg data ∧ st' = .at slaveAddr reg := by
  obtain ⟨⟨status, st₁⟩, M, N, rfl, hSet, hRest⟩ := returns_bind h
  split at hRest
  · cases (returns_ret.mp hRest).2
  · rename_i hStatus
    obtain rfl : status = .success := not_not.mp hStatus
    obtain ⟨rfl, rfl⟩ := setPage_returns hSet
    obtain ⟨written, N, _, rfl, hData, hLast⟩ := returns_bind hRest
    obtain ⟨rfl, hEq⟩ := returns_ret.mp hLast
    cases hEq
    rw [writeData_returns hData, List.append_nil]
    exact ⟨rfl, rfl⟩

/-- A read has its bytes from the device, or it fails. -/
theorem read_returns {readbuf : Nat → Byte} {len : Nat} {result : ReadResult}
    (h : Returns (readSi538xRegister st slaveAddr reg readbuf len) L result) :
    (∃ received : Fin len → Byte, L = readEvents st slaveAddr reg received ∧
        result = ⟨.success, fill received readbuf, .at slaveAddr reg⟩) ∨
      result.status = .failure ∧
        (result.readbuf = readbuf ∨ ∃ bytes, receptions L = [(.failure, bytes)]) := by
  obtain ⟨⟨status, st₁⟩, M, N, rfl, hWrite, hRest⟩ := returns_bind h
  split at hRest
  · obtain ⟨_, _, _, hFailed⟩ := returns_ask_bind hRest
    obtain ⟨-, rfl⟩ := returns_ret.mp hFailed
    exact .inr ⟨rfl, .inl rfl⟩
  · rename_i hStatus
    obtain rfl : status = .success := not_not.mp hStatus
    obtain ⟨rfl, rfl⟩ := write_returns hWrite
    obtain ⟨⟨status, received⟩, N, rfl, hReceived⟩ := returns_ask_bind hRest
    split at hReceived
    · rename_i hFailed
      obtain ⟨_, N, rfl, hLast⟩ := returns_ask_bind hReceived
      obtain ⟨rfl, rfl⟩ := returns_ret.mp hLast
      cases status with
      | success => exact absurd rfl hFailed
      | failure =>
        refine .inr ⟨rfl, .inr ⟨List.ofFn received, ?_⟩⟩
        rw [receptions_append, receptions_writeEvents]
        rfl
    · rename_i hStatus
      obtain rfl : status = .success := not_not.mp hStatus
      obtain ⟨_, N, rfl, hLast⟩ := returns_ask_bind hReceived
      obtain ⟨rfl, rfl⟩ := returns_ret.mp hLast
      exact .inl ⟨received, rfl, rfl⟩

end Access

/-! ## The initialization of the device -/

section Initialization

variable {table : RegisterTable} {st st' : Statics} {L : List Event}

theorem delay_returns {i : Nat} (h : Returns (preambleDelay i) L ()) : L = delayEvents i := by
  rw [preambleDelay] at h
  rw [delayEvents]
  split at h
  · rename_i hLast
    rw [if_pos hLast]
    exact returns_ask.mp h
  · rename_i hOther
    rw [if_neg hOther]
    exact (returns_ret.mp h).1

theorem writeRegisters_returns {i : Nat} {entries : List Entry}
    (h : Returns (writeRegisters i entries st) L (.success, st')) :
    L = writtenEvents i entries st ∧ st' = writtenStatics entries st := by
  induction entries generalizing i st L with
  | nil =>
    obtain ⟨rfl, hEq⟩ := returns_ret.mp h
    cases hEq
    exact ⟨rfl, rfl⟩
  | cons entry entries ih =>
    obtain ⟨⟨status, st₁⟩, M, N, rfl, hWrite, hRest⟩ := returns_bind h
    split at hRest
    · obtain ⟨_, _, _, hFailed⟩ := returns_ask_bind hRest
      cases (returns_ret.mp hFailed).2
    · rename_i hStatus
      obtain rfl : status = .success := not_not.mp hStatus
      obtain ⟨rfl, rfl⟩ := write_returns hWrite
      obtain ⟨_, N₁, N₂, rfl, hDelay, hLater⟩ := returns_bind hRest
      obtain ⟨rfl, rfl⟩ := ih hLater
      rw [delay_returns hDelay]
      exact ⟨rfl, rfl⟩

theorem compare_returns {entry : Entry} {read : Byte}
    (h : Returns (compareRegister entry read) L ()) :
    receptions L = [] ∧ (read = entry.value → L = []) := by
  rw [compareRegister] at h
  split at h
  · rename_i hDiffers
    rw [returns_ask.mp h]
    exact ⟨rfl, fun hSame => absurd hSame hDiffers⟩
  · obtain ⟨rfl, -⟩ := returns_ret.mp h
    exact ⟨rfl, fun _ => rfl⟩

/-- Where the device answers with the values of the table, nothing else is done than reading. -/
theorem readback_returns {entries : List Entry} {readBuffer : Nat → Byte}
    (h : Returns (readbackRegisters entries readBuffer st) L (.success, st'))
    (hAnswered : receptions L = expected entries) :
    L = readbackEvents entries st ++ [⟨.print .configured, ()⟩] := by
  induction entries generalizing readBuffer st L with
  | nil =>
    obtain ⟨_, M, rfl, hLast⟩ := returns_ask_bind h
    obtain ⟨rfl, -⟩ := returns_ret.mp hLast
    rfl
  | cons entry entries ih =>
    obtain ⟨result, M, N, rfl, hRead, hRest⟩ := returns_bind h
    split at hRest
    · obtain ⟨_, _, _, hFailed⟩ := returns_ask_bind hRest
      cases (returns_ret.mp hFailed).2
    · rename_i hStatus
      obtain ⟨received, rfl, rfl⟩ | ⟨hFailed, -⟩ := read_returns hRead
      · obtain ⟨_, N₁, N₂, rfl, hCompare, hLater⟩ := returns_bind hRest
        obtain ⟨hQuiet, hSame⟩ := compare_returns hCompare
        rw [receptions_append, receptions_append, receptions_readEvents, hQuiet] at hAnswered
        obtain ⟨hFirst, hOthers⟩ := List.cons.inj hAnswered
        have hValue : received 0 = entry.value := by simpa using hFirst
        have hReceived : received = fun _ => entry.value := by
          funext i
          rw [Subsingleton.elim i 0, hValue]
        rw [hSame hValue, List.nil_append, ih hLater hOthers, hReceived, readbackEvents,
          List.append_assoc]
      · rw [hFailed] at hStatus
        exact absurd nofun hStatus

theorem initialize_returns (h : Returns initializeI2c L .success) : L = initializeEvents := by
  obtain ⟨found, M, rfl, hConfig⟩ := returns_ask_bind h
  split at hConfig
  · obtain ⟨_, _, _, hFailed⟩ := returns_ask_bind hConfig
    cases (returns_ret.mp hFailed).2
  rename_i hFound
  obtain ⟨status, M, rfl, hClock⟩ := returns_ask_bind hConfig
  split at hClock
  · obtain ⟨_, _, _, hFailed⟩ := returns_ask_bind hClock
    cases (returns_ret.mp hFailed).2
  rename_i hInitialized
  obtain ⟨clock, M, rfl, hMux⟩ := returns_ask_bind hClock
  split at hMux
  · obtain ⟨_, _, _, hFailed⟩ := returns_ask_bind hMux
    cases (returns_ret.mp hFailed).2
  rename_i hSet
  obtain ⟨mux, M, rfl, hWait⟩ := returns_ask_bind hMux
  split at hWait
  · obtain ⟨_, _, _, hFailed⟩ := returns_ask_bind hWait
    cases (returns_ret.mp hFailed).2
  rename_i hSent
  obtain ⟨_, M, rfl, hPrint⟩ := returns_ask_bind hWait
  obtain ⟨_, M, rfl, hLast⟩ := returns_ask_bind hPrint
  obtain ⟨rfl, -⟩ := returns_ret.mp hLast
  rw [Bool.not_eq_false] at hFound
  rw [hFound, not_not.mp hInitialized, not_not.mp hSet, not_not.mp hSent]
  rfl

theorem receptions_verified (h : Verified table st L) : Answered table L := by
  obtain ⟨received, -, rfl⟩ := h
  refine ⟨List.ofFn received, ?_⟩
  simp only [receptions_append, receptions_initialize, receptions_readEvents,
    receptions_writtenEvents, receptions_readbackEvents]
  simp [receptions, reception]

/-- A run of `ProgramSi5381` that succeeds has verified the device exactly where the device has
answered with the values of the table and no receive has failed. -/
theorem programming_verified_iff (hRun : Returns (programSi5381 table st) L (.success, st')) :
    Verified table st L ↔ Answered table L := by
  refine ⟨receptions_verified, fun ⟨bytes, hAnswered⟩ => ?_⟩
  obtain ⟨status, M, N, rfl, hInitialize, hRest⟩ := returns_bind hRun
  split at hRest
  · cases (returns_ret.mp hRest).2
  rename_i hStatus
  obtain rfl : status = .success := not_not.mp hStatus
  rw [initialize_returns hInitialize] at hAnswered ⊢
  obtain ⟨part, M, N, rfl, hPart, hIdentified⟩ := returns_bind hRest
  split at hIdentified
  · obtain ⟨_, _, _, hFailed⟩ := returns_ask_bind hIdentified
    cases (returns_ret.mp hFailed).2
  rename_i hIdentifier
  obtain ⟨⟨status, st₁⟩, N₁, N₂, rfl, hWrite, hReadback⟩ := returns_bind hIdentified
  split at hReadback
  · cases (returns_ret.mp hReadback).2
  rename_i hStatus
  obtain rfl : status = .success := not_not.mp hStatus
  obtain ⟨rfl, rfl⟩ := writeRegisters_returns hWrite
  rw [receptions_append, receptions_append, receptions_append, receptions_initialize,
    receptions_writtenEvents] at hAnswered
  obtain ⟨received, rfl, rfl⟩ | ⟨-, hUnchanged | ⟨failed, hFailed⟩⟩ := read_returns hPart
  · rw [receptions_readEvents] at hAnswered
    obtain ⟨-, hOthers⟩ := List.cons.inj hAnswered
    rw [readback_returns hReadback hOthers]
    exact ⟨received, not_not.mp hIdentifier, rfl⟩
  · rw [hUnchanged] at hIdentifier
    exact absurd (by decide) hIdentifier
  · rw [hFailed] at hAnswered
    cases (List.cons.inj hAnswered).1

end Initialization

/-! ### A register that reads back otherwise -/

/-- The preamble, one register of the configuration and the postamble. -/
def benchTable : RegisterTable where
  entries := [⟨0x0B24, 0xC0⟩, ⟨0x0B25, 0x04⟩, ⟨0x0540, 0x01⟩, ⟨0x0006, 0x00⟩, ⟨0x0514, 0x01⟩,
    ⟨0x001C, 0x01⟩, ⟨0x0540, 0x00⟩, ⟨0x0B24, 0xC3⟩, ⟨0x0B25, 0x06⟩]
  complete := by decide

/-- All transfers are done, and every byte read back has the given value. -/
def benchAnswer (value : Byte) : (e : Op) → Option (Answer e)
  | .lookupConfig => some true
  | .cfgInitialize | .setSClk _ | .masterSendPolled _ _ => some .success
  | .masterRecvPolled 1 _ => some (.success, fun _ => value)
  | .masterRecvPolled _ _ => some (.success, fun i => if i.val = 0 then 0x81 else 0x53)
  | .waitBus | .usleep _ | .print _ => some ()

def benchRun (value : Byte) : List Event × I2c (Status × Statics) :=
  play (benchAnswer value) 80 (programSi5381 benchTable .initial)

theorem benchRun_succeeds (value : Byte) (hValue : value = 0 ∨ value = 1) :
    Returns (programSi5381 benchTable .initial) (benchRun value).1
      (.success, .at si5381Addr 0x0006) := by
  obtain rfl | rfl := hValue <;> exact returns_play (by decide)

theorem benchRun_verified : Verified benchTable .initial (benchRun 0).1 :=
  (programming_verified_iff (benchRun_succeeds 0 (.inl rfl))).mpr ⟨[0x81, 0x53], by decide⟩

/-- The run succeeds though the register reads back as one. -/
theorem verified_failure : Returns (programSi5381 benchTable .initial) (benchRun 1).1
      (.success, .at si5381Addr 0x0006) ∧
    ¬ Verified benchTable .initial (benchRun 1).1 := by
  refine ⟨benchRun_succeeds 1 (.inr rfl), fun hVerified => ?_⟩
  obtain ⟨received, hReceived⟩ := receptions_verified hVerified
  exact absurd (List.cons.inj hReceived).2 (by decide)

end SoftwarePrototypes.Si5381
