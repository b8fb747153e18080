import SoftwarePrototypes.Si5381.PageCache
import SoftwarePrototypes.Si5381.Programming

/-! # The device after its programming

`ProgramSi5381` is called again and again, each time on a bus whose transfers are done or lost. A
call that succeeds has left exactly its table in the registers of the device, whatever page the
device was on and however the calls before it ended.
-/

namespace SoftwarePrototypes.Si5381

open Interaction Interaction.Runs Interaction.Prog

/-! ## What the calls leave -/

def Entry.At (entry : Entry) (page offset : Byte) : Prop :=
  pageOf entry.address = page ∧ offsetOf entry.address = offset

instance (entry : Entry) (page offset : Byte) : Decidable (entry.At page offset) :=
  inferInstanceAs (Decidable (_ ∧ _))

/-- The last entry for a register counts. -/
def written (entries : List Entry) (regs : Byte → Byte → Byte) (page offset : Byte) : Byte :=
  match entries.reverse.find? (·.At page offset) with
  | some entry => entry.value
  | none => regs page offset

/-- The failures that the readback prints: the entries whose register holds another value. -/
def mismatches (entries : List Entry) (regs : Byte → Byte → Byte) : List Line :=
  (entries.filter fun entry =>
      regs (pageOf entry.address) (offsetOf entry.address) ≠ entry.value).map
    fun entry => .readbackFailure (regs (pageOf entry.address) (offsetOf entry.address)) entry.value

def printed : Event → Option Line
  | ⟨.print line, _⟩ => some line
  | _ => none

def lines (L : List Event) : List Line := L.filterMap printed

/-- A call of `ProgramSi5381`, with what becomes of its transfers. -/
structure Programming where
  table : RegisterTable
  replies : List Reply
  plain : ∀ entry ∈ table.entries, offsetOf entry.address ≠ pageCmd

def System.ready (w : System) (c : Programming) : Bus := { w.bus with replies := c.replies }

def System.programmed (w : System) (c : Programming) : (Status × Statics) × Bus :=
  exec perform (programSi5381 c.table w.statics) (w.ready c)

def System.calls (w : System) (c : Programming) : List Event :=
  trace perform (programSi5381 c.table w.statics) (w.ready c)

def System.program (w : System) (c : Programming) : Option System :=
  some ⟨(w.programmed c).1.2, (w.programmed c).2⟩

/-- The device shows the identifier. -/
def Identified (regs : Byte → Byte → Byte) : Prop :=
  identifier (fun i => regs (pageOf partNumCmd) (offsetOf partNumCmd + BitVec.ofNat 8 i)) = si5381Id

/-- The table is in the device and nothing else has changed. The lines tell whether the device has
been identified, as the status of that read is not looked at, and which entries do not hold. -/
structure Configured (table : RegisterTable) (before after : Bus) (L : List Event) : Prop where
  mux : (after.devices i2cMuxaddr).pointer = si5381Muxval
  registers : after.registers = Function.update before.registers si5381Addr
    (written table.entries (before.registers si5381Addr))
  lines : ∃ failures, lines L = .muxIsSet ::
      (failures ++ (mismatches table.middle (after.registers si5381Addr) ++ [.configured])) ∧
    (failures = [] ∧ Identified (before.registers si5381Addr) ∨ failures = [.polledRecvFailed])

def ConfiguredOnSuccess (w : System) (c : Programming) : Prop :=
  (w.programmed c).1.1 = .success → Configured c.table w.bus (w.programmed c).2 (w.calls c)

/-- No transfer is done and reported as failed. -/
def Reported (replies : List Reply) : Prop := .unreported ∉ replies

instance (replies : List Reply) : Decidable (Reported replies) :=
  inferInstanceAs (Decidable (¬ _))

/-- The page that the driver remembers for the device is its page. -/
def Remembers (st : Statics) (bus : Bus) : Prop :=
  ∀ page : Byte, st.Holds si5381Addr page → (bus.devices si5381Addr).page = page

/-! ## Transfers -/

section Transfers

variable {st st' : Statics} {bus bus' : Bus} {reg : BitVec 32} {data : List Byte}

structure Settled (st : Statics) (bus : Bus) : Prop where
  reported : Reported bus.replies
  remembers : Remembers st bus

theorem put_apply (regs : Byte → Byte → Byte) (page offset value page' offset' : Byte) :
    put regs page offset value page' offset' =
      if page = page' ∧ offset = offset' then value else regs page' offset' := by
  simp only [put, Function.update_apply]
  by_cases hPage : page' = page
  · subst hPage
    by_cases hOffset : offset' = offset
    · subst hOffset
      simp
    · simp [hOffset, Ne.symm hOffset]
  · simp [hPage, Ne.symm hPage]

theorem written_cons (entry : Entry) (entries : List Entry) (regs : Byte → Byte → Byte) :
    written (entry :: entries) regs =
      written entries (put regs (pageOf entry.address) (offsetOf entry.address) entry.value) := by
  funext page offset
  rw [written, written, List.reverse_cons, List.find?_append]
  cases entries.reverse.find? (·.At page offset) with
  | some later => rfl
  | none =>
    rw [put_apply]
    by_cases hAt : entry.At page offset
    · simp [List.find?, hAt, hAt.1, hAt.2]
    · have hNot : ¬ (pageOf entry.address = page ∧ offsetOf entry.address = offset) := hAt
      simp [List.find?, hAt, if_neg hNot]

theorem Bus.update_other {slaveAddr other : Int} (h : other ≠ slaveAddr) (f : Device → Device) :
    (bus.update slaveAddr f).devices other = bus.devices other := by
  simp only [Bus.update]
  split
  · rfl
  · exact Function.update_of_ne h _ _

theorem mux_ne : i2cMuxaddr ≠ si5381Addr := by decide

theorem failed_ne : Status.failure ≠ .success := by decide

theorem Reported.tail {replies : List Reply} (h : Reported replies) : Reported replies.tail :=
  fun hMem => h (List.mem_of_mem_tail hMem)

/-- A transfer that is not done is lost. -/
theorem Reported.lost (h : Reported bus.replies) (hReply : bus.reply ≠ .done) :
    bus.reply = .lost := by
  cases hCase : bus.reply with
  | done => exact absurd hCase hReply
  | lost => rfl
  | unreported =>
    cases hReplies : bus.replies with
    | nil => simp [Bus.reply, hReplies] at hCase
    | cons reply replies =>
      rw [Bus.reply, hReplies] at hCase
      rw [hReplies] at h
      exact absurd (List.mem_cons.mpr (.inl hCase.symm)) h

theorem Settled.send (h : Settled st bus)
    (hSpared : ∀ i < data.length, offsetOf reg + BitVec.ofNat 8 i ≠ pageCmd) :
    Settled st (bus.send si5381Addr (offsetOf reg :: data)) where
  reported := h.reported.tail
  remembers page hHolds := (Bus.sendData_page hSpared).trans (h.remembers page hHolds)

theorem Settled.recv (h : Settled st bus) (len : Nat) : Settled st (bus.recv si5381Addr len) where
  reported := h.reported.tail
  remembers page hHolds := (Bus.recv_page len).trans (h.remembers page hHolds)

/-- Where a page command is lost, the driver goes on remembering the page before. -/
theorem setPage_spec (h : Settled st bus) (page : Byte) : ∃ status st' bus',
    exec perform (setPage st si5381Addr page) bus = ((status, st'), bus') ∧ Settled st' bus' ∧
      bus'.devices i2cMuxaddr = bus.devices i2cMuxaddr ∧ bus'.registers = bus.registers ∧
      (status = .success → (bus'.devices si5381Addr).page = page) := by
  by_cases hHolds : st.Holds si5381Addr page
  · exact ⟨_, _, _, setPage_held hHolds, h, rfl, rfl, fun _ => h.remembers page hHolds⟩
  have hSent : exec perform (setPage st si5381Addr page) bus =
      (_, bus.send si5381Addr [pageCmd, page]) := setPage_sent hHolds
  have hMux : (bus.send si5381Addr [pageCmd, page]).devices i2cMuxaddr =
      bus.devices i2cMuxaddr := Bus.update_other mux_ne (·.send [pageCmd, page])
  by_cases hDone : bus.reply = .done
  · rw [if_pos hDone] at hSent
    have hPage : ((bus.send si5381Addr [pageCmd, page]).devices si5381Addr).page = page := by
      simp [Bus.send, Bus.update, hDone, Device.send_page]
    refine ⟨_, _, _, hSent, ⟨h.reported.tail, ?_⟩, hMux, Bus.command_registers, fun _ => hPage⟩
    rintro page' ⟨hSame, -⟩
    rw [hPage]
    exact (BitVec.eq_of_toNat_eq (Int.ofNat.inj hSame)).symm
  · rw [if_neg hDone] at hSent
    have hLost := h.reported.lost hDone
    refine ⟨_, _, _, hSent, ⟨h.reported.tail, ?_⟩, hMux, Bus.command_registers, ?_⟩
    · intro page' hHolds'
      simp only [Bus.send, Bus.update, hLost, if_true]
      exact h.remembers page' hHolds'
    · intro hSuccess
      cases hSuccess

theorem write_spec (h : Settled st bus)
    (hSpared : ∀ i < data.length, offsetOf reg + BitVec.ofNat 8 i ≠ pageCmd) :
    ∃ status st' bus', exec perform (writeSi538xRegister st si5381Addr reg data) bus =
      ((status, st'), bus') ∧ Settled st' bus' ∧
        bus'.devices i2cMuxaddr = bus.devices i2cMuxaddr ∧
        (status = .success → bus'.registers = Function.update bus.registers si5381Addr
          (putAll (bus.registers si5381Addr) (pageOf reg) (offsetOf reg) data)) := by
  obtain ⟨status, st₁, bus₁, hSet, hSettled, hMux, hSame, hPage⟩ := setPage_spec h (pageOf reg)
  cases status with
  | failure => exact ⟨_, _, _, write_unset hSet data, hSettled, hMux, nofun⟩
  | success =>
    have hMux' : (bus₁.send si5381Addr (offsetOf reg :: data)).devices i2cMuxaddr =
        bus₁.devices i2cMuxaddr := Bus.update_other mux_ne (·.send (offsetOf reg :: data))
    refine ⟨_, _, _, write_set hSet data, hSettled.send hSpared, hMux'.trans hMux, ?_⟩
    intro hSuccess
    rw [Bus.sendData_registers (eq_done_of_status hSuccess) hSpared, hPage rfl, hSame]

theorem Bus.address_registers (offset : Byte) (slaveAddr : Int) :
    (bus.send slaveAddr [offset]).registers = bus.registers :=
  Bus.update_registers (f := (·.send [offset])) fun _ => rfl

/-- A read that is addressed has the bytes from the page and the offset of its register. -/
theorem read_spec (h : Settled st bus) (reg : BitVec 32) (readbuf : Nat → Byte) (len : Nat) :
    ∃ result bus', exec perform (readSi538xRegister st si5381Addr reg readbuf len) bus =
        (result, bus') ∧ Settled result.statics bus' ∧
      bus'.devices i2cMuxaddr = bus.devices i2cMuxaddr ∧ bus'.registers = bus.registers ∧
      (result.status = .failure ∧ result.readbuf = readbuf ∨ ∀ i < len, result.readbuf i =
        bus.registers si5381Addr (pageOf reg) (offsetOf reg + BitVec.ofNat 8 i)) := by
  obtain ⟨status, st₁, bus₁, hSet, hSettled, hMux, hSame, hPage⟩ := setPage_spec h (pageOf reg)
  cases status with
  | failure =>
    have hRead : exec perform (readSi538xRegister st si5381Addr reg readbuf len) bus =
        (⟨.failure, readbuf, st₁⟩, bus₁) := by
      simp only [readSi538xRegister]
      rw [exec_bind, write_unset hSet, if_pos failed_ne]
      rfl
    exact ⟨_, _, hRead, hSettled, hMux, hSame, .inl ⟨rfl, rfl⟩⟩
  | success =>
    have hSent := hSettled.send (spared_nil (offsetOf reg))
    have hMux' : (bus₁.send si5381Addr [offsetOf reg]).devices i2cMuxaddr =
        bus.devices i2cMuxaddr :=
      (Bus.update_other mux_ne (·.send [offsetOf reg])).trans hMux
    have hSame' := (Bus.address_registers (offsetOf reg) si5381Addr).trans hSame
    have hRead := read_set hSet readbuf len
    by_cases hDone : bus₁.reply.status = .success
    · rw [if_neg (not_not.mpr hDone)] at hRead
      refine ⟨_, _, hRead, hSent.recv len, ?_, (Bus.recv_registers len).trans hSame', .inr ?_⟩
      · exact (Bus.update_other mux_ne _).trans hMux'
      · intro i hi
        simp only [fill]
        rw [dif_pos hi, Bus.received_at (eq_done_of_status hDone) len ⟨i, hi⟩, hPage rfl, hSame]
    · rw [if_pos hDone] at hRead
      exact ⟨_, _, hRead, hSent, hMux', hSame', .inl ⟨rfl, rfl⟩⟩

end Transfers

/-! ## Lines -/

section Lines

variable {st st' : Statics} {slaveAddr : Int} {reg : BitVec 32} {L : List Event}

theorem returns_events {α : Type} (p : I2c α) (bus : Bus) :
    Returns p (trace perform p bus) (exec perform p bus).1 := returns_trace p bus

theorem lines_append (L M : List Event) : lines (L ++ M) = lines L ++ lines M :=
  List.filterMap_append

@[simp] theorem lines_writeEvents (data : List Byte) :
    lines (writeEvents st slaveAddr reg data) = [] := by
  rw [writeEvents, lines_append, pageEvents]
  split <;> rfl

@[simp] theorem lines_readEvents {len : Nat} (received : Fin len → Byte) :
    lines (readEvents st slaveAddr reg received) = [] := by
  rw [readEvents, lines_append, lines_writeEvents]
  rfl

@[simp] theorem lines_delay (i : Nat) : lines (delayEvents i) = [] := by
  rw [delayEvents]
  split <;> rfl

@[simp] theorem lines_writtenEvents (i : Nat) (entries : List Entry) :
    lines (writtenEvents i entries st) = [] := by
  induction entries generalizing i st with
  | nil => rfl
  | cons entry entries ih => simp [writtenEvents, lines_append, ih]

/-- A read that has left something in the buffer prints nothing but the failure of its receive. -/
theorem read_lines {readbuf : Nat → Byte} {len : Nat} {result : ReadResult}
    (h : Returns (readSi538xRegister st slaveAddr reg readbuf len) L result)
    (hRead : result.readbuf ≠ readbuf) :
    lines L = if result.status = .success then [] else [.polledRecvFailed] := by
  obtain ⟨⟨status, st₁⟩, M, N, rfl, hWrite, hRest⟩ := returns_bind h
  split at hRest
  · obtain ⟨_, _, _, hFailed⟩ := returns_ask_bind hRest
    obtain ⟨-, rfl⟩ := returns_ret.mp hFailed
    exact absurd rfl hRead
  rename_i hStatus
  obtain rfl : status = .success := not_not.mp hStatus
  obtain ⟨rfl, rfl⟩ := write_returns hWrite
  rw [lines_append, lines_writeEvents, List.nil_append]
  obtain ⟨⟨status, received⟩, N, rfl, hReceived⟩ := returns_ask_bind hRest
  split at hReceived
  · obtain ⟨_, N, rfl, hLast⟩ := returns_ask_bind hReceived
    obtain ⟨rfl, rfl⟩ := returns_ret.mp hLast
    rfl
  · rename_i hStatus
    obtain ⟨_, N, rfl, hLast⟩ := returns_ask_bind hReceived
    obtain ⟨rfl, rfl⟩ := returns_ret.mp hLast
    rw [if_pos (not_not.mp hStatus)]
    rfl

theorem compare_lines (bus : Bus) (entry : Entry) (read : Byte) :
    lines (trace perform (compareRegister entry read) bus) =
      if read ≠ entry.value then [.readbackFailure read entry.value] else [] := by
  rw [compareRegister]
  split <;> rfl

end Lines

/-! ## The initialization of the device -/

section Initialization

variable {st : Statics} {bus : Bus} {entries : List Entry}

theorem delay_exec (i : Nat) : exec perform (preambleDelay i) bus = ((), bus) := by
  rw [preambleDelay]
  split <;> rfl

theorem compare_exec (entry : Entry) (read : Byte) :
    exec perform (compareRegister entry read) bus = ((), bus) := by
  rw [compareRegister]
  split <;> rfl

theorem spared_single {offset : Byte} (h : offset ≠ pageCmd) (value : Byte) :
    ∀ i < [value].length, offset + BitVec.ofNat 8 i ≠ pageCmd := by
  intro i hi
  obtain rfl : i = 0 := Nat.lt_one_iff.mp hi
  rwa [Memory.add_ofNat_zero]

theorem writeRegisters_spec (h : Settled st bus)
    (hPlain : ∀ entry ∈ entries, offsetOf entry.address ≠ pageCmd) (i : Nat) :
    ∃ status st' bus', exec perform (writeRegisters i entries st) bus = ((status, st'), bus') ∧
      Settled st' bus' ∧ bus'.devices i2cMuxaddr = bus.devices i2cMuxaddr ∧
      (status = .success → bus'.registers = Function.update bus.registers si5381Addr
        (written entries (bus.registers si5381Addr))) := by
  induction entries generalizing i st bus with
  | nil => exact ⟨_, _, _, rfl, h, rfl, fun _ => (Function.update_eq_self _ _).symm⟩
  | cons entry entries ih =>
    obtain ⟨hFirst, hOthers⟩ := List.forall_mem_cons.mp hPlain
    obtain ⟨status, st₁, bus₁, hWrite, hSettled, hMux, hStored⟩ :=
      write_spec h (spared_single hFirst entry.value)
    rw [writeRegisters, exec_bind, hWrite]
    cases status with
    | failure => exact ⟨_, _, _, rfl, hSettled, hMux, nofun⟩
    | success =>
      obtain ⟨status, st₂, bus₂, hRest, hLast, hMux', hWritten⟩ := ih hSettled hOthers (i + 1)
      rw [if_neg (fun hNe => hNe rfl), exec_bind, delay_exec, hRest]
      refine ⟨_, _, _, rfl, hLast, hMux'.trans hMux, fun hSuccess => ?_⟩
      rw [hWritten hSuccess, hStored rfl, Function.update_self, Function.update_idem, written_cons]
      rfl

theorem mismatches_cons (entry : Entry) (regs : Byte → Byte → Byte) :
    mismatches (entry :: entries) regs =
      (if regs (pageOf entry.address) (offsetOf entry.address) ≠ entry.value then
        [.readbackFailure (regs (pageOf entry.address) (offsetOf entry.address)) entry.value]
      else []) ++ mismatches entries regs := by
  rw [mismatches, mismatches, List.filter_cons]
  split <;> simp_all

theorem readbackRegisters_spec (h : Settled st bus) (entries : List Entry)
    (readBuffer : Nat → Byte) :
    ∃ status st' bus', exec perform (readbackRegisters entries readBuffer st) bus =
        ((status, st'), bus') ∧ Settled st' bus' ∧
      bus'.devices i2cMuxaddr = bus.devices i2cMuxaddr ∧ bus'.registers = bus.registers ∧
      (status = .success → lines (trace perform (readbackRegisters entries readBuffer st) bus) =
        mismatches entries (bus.registers si5381Addr) ++ [.configured]) := by
  induction entries generalizing readBuffer st bus with
  | nil => exact ⟨_, _, _, rfl, h, rfl, rfl, fun _ => rfl⟩
  | cons entry entries ih =>
    obtain ⟨result, bus₁, hRead, hSettled, hMux, hSame, hBytes⟩ :=
      read_spec h entry.address readBuffer 1
    have hRan := returns_events
      (readSi538xRegister st si5381Addr entry.address readBuffer 1) bus
    simp only [readbackRegisters]
    rw [trace_bind, exec_bind, hRead]
    rw [hRead] at hRan
    by_cases hStatus : result.status = .success
    · rw [if_neg (not_not.mpr hStatus), trace_bind, exec_bind, compare_exec]
      obtain ⟨status, st₂, bus₂, hRest, hLast, hMux', hSame', hLines⟩ := ih hSettled result.readbuf
      rw [hRest]
      refine ⟨_, _, _, rfl, hLast, hMux'.trans hMux, hSame'.trans hSame, fun hSuccess => ?_⟩
      obtain ⟨received, hEvents, -⟩ | ⟨hFailed, -⟩ := read_returns hRan
      · obtain ⟨hFailed, -⟩ | hThere := hBytes
        · rw [hFailed] at hStatus
          cases hStatus
        · have hByte := hThere 0 Nat.one_pos
          rw [Memory.add_ofNat_zero] at hByte
          rw [lines_append, lines_append, hEvents, lines_readEvents, compare_lines,
            hLines hSuccess, hSame, hByte, mismatches_cons, List.nil_append, List.append_assoc]
      · rw [hFailed] at hStatus
        cases hStatus
    · rw [if_pos hStatus]
      exact ⟨_, _, _, rfl, hSettled, hMux, hSame, nofun⟩

theorem initializeI2c_spec (h : Settled st bus) : ∃ status bus',
    exec perform initializeI2c bus = (status, bus') ∧ Settled st bus' ∧
      bus'.registers = bus.registers ∧
      (status = .success → (bus'.devices i2cMuxaddr).pointer = si5381Muxval ∧
        lines (trace perform initializeI2c bus) = [.muxIsSet]) := by
  have hRan := returns_events initializeI2c bus
  have hExec : exec perform initializeI2c bus =
      (bus.reply.status, bus.send i2cMuxaddr [si5381Muxval]) := by
    cases hReply : bus.reply <;> simp [initializeI2c, perform, hReply, Reply.status]
  rw [hExec] at hRan
  have hSettled : Settled st (bus.send i2cMuxaddr [si5381Muxval]) := by
    refine ⟨h.reported.tail, fun page hHolds => ?_⟩
    rw [Bus.sendData_page (spared_nil si5381Muxval)]
    exact h.remembers page hHolds
  refine ⟨_, _, hExec, hSettled, Bus.address_registers si5381Muxval i2cMuxaddr, fun hDone => ?_⟩
  constructor
  · simp [Bus.send, Bus.update, eq_done_of_status hDone, Device.send, Device.store]
  · rw [hDone] at hRan
    rw [initialize_returns hRan]
    rfl

theorem zeros_not_identified : identifier (fun _ => 0) ≠ si5381Id := by decide

theorem identifier_congr {buffer buffer' : Nat → Byte} (h : ∀ i < bufLen, buffer i = buffer' i) :
    identifier buffer = identifier buffer' := by
  rw [identifier, identifier, h 0 (by decide), h 1 (by decide)]

/-- The buffer holds the identifier only where the device shows it. -/
theorem part_spec (h : Settled st bus) : ∃ part bus',
    exec perform (readSi538xRegister st si5381Addr partNumCmd (fun _ => 0) bufLen) bus =
        (part, bus') ∧ Settled part.statics bus' ∧
      bus'.devices i2cMuxaddr = bus.devices i2cMuxaddr ∧ bus'.registers = bus.registers ∧
      (identifier part.readbuf = si5381Id → ∃ failures, lines (trace perform
          (readSi538xRegister st si5381Addr partNumCmd (fun _ => 0) bufLen) bus) = failures ∧
        (failures = [] ∧ Identified (bus.registers si5381Addr) ∨
          failures = [.polledRecvFailed])) := by
  obtain ⟨part, bus', hRead, hSettled, hMux, hSame, hBytes⟩ :=
    read_spec h partNumCmd (fun _ => 0) bufLen
  have hRan := returns_events
    (readSi538xRegister st si5381Addr partNumCmd (fun _ => 0) bufLen) bus
  rw [hRead] at hRan
  refine ⟨part, bus', hRead, hSettled, hMux, hSame, fun hId => ?_⟩
  have hWritten : part.readbuf ≠ fun _ => 0 := fun hZeros => zeros_not_identified (hZeros ▸ hId)
  refine ⟨_, read_lines hRan hWritten, ?_⟩
  by_cases hStatus : part.status = .success
  · obtain ⟨-, hZeros⟩ | hThere := hBytes
    · exact absurd hZeros hWritten
    · refine .inl ⟨if_pos hStatus, ?_⟩
      rw [Identified, ← identifier_congr hThere, hId]
  · exact .inr (if_neg hStatus)

theorem programSi5381_spec (h : Settled st bus) (table : RegisterTable)
    (hPlain : ∀ entry ∈ table.entries, offsetOf entry.address ≠ pageCmd) :
    ∃ status st' bus', exec perform (programSi5381 table st) bus = ((status, st'), bus') ∧
      Settled st' bus' ∧ (status = .success →
        Configured table bus bus' (trace perform (programSi5381 table st) bus)) := by
  obtain ⟨status, bus₁, hInitialize, hSettled, hSame, hMux⟩ := initializeI2c_spec h
  rw [programSi5381, trace_bind, exec_bind, hInitialize]
  cases status with
  | failure => exact ⟨_, _, _, rfl, hSettled, nofun⟩
  | success =>
  obtain ⟨hPointer, hLines₁⟩ := hMux rfl
  obtain ⟨part, bus₂, hRead, hSettled₂, hMux₂, hSame₂, hPart⟩ := part_spec hSettled
  rw [if_neg (fun hNe => hNe rfl), trace_bind, exec_bind, hRead]
  by_cases hId : identifier part.readbuf = si5381Id
  · obtain ⟨failures, hLines₂, hIdentified⟩ := hPart hId
    obtain ⟨status, st₃, bus₃, hWrite, hSettled₃, hMux₃, hWritten⟩ :=
      writeRegisters_spec hSettled₂ hPlain 0
    have hRan := returns_events
      (writeRegisters 0 table.entries part.statics) bus₂
    rw [if_neg (not_not.mpr hId), trace_bind, exec_bind]
    rw [hWrite] at hRan ⊢
    cases status with
    | failure => exact ⟨_, _, _, rfl, hSettled₃, nofun⟩
    | success =>
    obtain ⟨status, st₄, bus₄, hReadback, hSettled₄, hMux₄, hSame₄, hLines₄⟩ :=
      readbackRegisters_spec hSettled₃ table.middle part.readbuf
    rw [if_neg (fun hNe => hNe rfl), hReadback]
    refine ⟨_, _, _, rfl, hSettled₄, fun hSuccess => ⟨?_, ?_, failures, ?_, ?_⟩⟩
    · rw [hMux₄, hMux₃, hMux₂, hPointer]
    · rw [hSame₄, hWritten rfl, hSame₂, hSame]
    · rw [lines_append, lines_append, lines_append, hLines₁, hLines₂,
        (writeRegisters_returns hRan).1, lines_writtenEvents, hLines₄ hSuccess, hSame₄]
      rfl
    · rwa [hSame] at hIdentified
  · rw [if_pos hId]
    exact ⟨_, _, _, rfl, hSettled₂, nofun⟩

end Initialization

/-! ## Sequences of calls -/

theorem remembers_initial (bus : Bus) : Remembers .initial bus := by
  rintro page ⟨hPage, -⟩
  simp [Statics.initial] at hPage

theorem settled_ready {w : System} {c : Programming} (h : Remembers w.statics w.bus)
    (hReported : Reported c.replies) : Settled w.statics (w.ready c) := ⟨hReported, h⟩

/-- Whatever page the device is on and however the calls before ended, a call of `ProgramSi5381`
that succeeds has left exactly its table in the registers of the device, with the last entry for a
register, and tells which entries do not hold. -/
theorem programmed_configured (devices : Int → Device) (calls : List Programming)
    (hReported : ∀ c ∈ calls, Reported c.replies) :
    Along System.program ConfiguredOnSuccess (started devices) calls := by
  apply Along.of_invariant (I := fun w => Remembers w.statics w.bus)
    (P := fun _ c => Reported c.replies) _ _ _ (Along.of_labels hReported _)
  · intro w c next h hReported hStep
    cases hStep
    obtain ⟨status, st', bus', hExec, hSettled, -⟩ :=
      programSi5381_spec (settled_ready h hReported) c.table c.plain
    simp only [System.programmed, hExec]
    exact hSettled.remembers
  · intro w c h hReported hSuccess
    obtain ⟨status, st', bus', hExec, -, hConfigured⟩ :=
      programSi5381_spec (settled_ready h hReported) c.table c.plain
    rw [System.programmed, hExec] at hSuccess ⊢
    obtain ⟨hMux, hRegisters, hLines⟩ := hConfigured hSuccess
    exact ⟨hMux, hRegisters, hLines⟩
  · exact remembers_initial _

/-! ### A call after one that has failed -/

/-- A device that shows the identifier and is on page 5. -/
def benchDevices : Int → Device := fun _ =>
  ⟨5, 0, fun page offset => if page = 0 then if offset = 2 then 0x81 else 0x53 else 0⟩

def benchProgramming (replies : List Reply) : Programming where
  table := benchTable
  replies := replies
  plain := by decide

/-- The first call loses a page command after two entries. -/
def benchCalls : List Programming :=
  [benchProgramming (List.replicate 7 .done), benchProgramming (List.replicate 40 .done)]

/-- The second call succeeds. -/
theorem programmed_configured_retried :
    (run System.program (started benchDevices) [benchProgramming (List.replicate 7 .done)]).map
        (fun w => (w.programmed (benchProgramming (List.replicate 40 .done))).1.1) =
      some .success ∧
    Along System.program ConfiguredOnSuccess (started benchDevices) benchCalls :=
  ⟨by decide +kernel, programmed_configured benchDevices benchCalls (by decide)⟩

end SoftwarePrototypes.Si5381
