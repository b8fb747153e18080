import Mathlib.Logic.Function.Basic
import SoftwarePrototypes.Interaction.Memory
import SoftwarePrototypes.Interaction.Runs
import SoftwarePrototypes.Si5381.Driver

/-! # The page that the driver remembers

`WriteSi538xRegister` leaves the page command out when page and slave are those of its last pass.
What it remembers is right unless a page command that took effect has been reported as failed.
-/

namespace SoftwarePrototypes.Si5381

open Interaction Interaction.Runs Interaction.Prog

/-! ## The slaves on the bus -/

/-- A slave with its current page, the register a transfer has come to, and all its registers by
page and offset. -/
structure Device where
  page : Byte
  pointer : Byte
  regs : Byte → Byte → Byte

def put (regs : Byte → Byte → Byte) (page offset value : Byte) : Byte → Byte → Byte :=
  Function.update regs page (Function.update (regs page) offset value)

/-- Register 1 sets the page; all others are on the current page. -/
def Device.put (d : Device) (offset value : Byte) : Device :=
  if offset = pageCmd then { d with page := value }
  else { d with regs := Si5381.put d.regs d.page offset value }

def Device.store (d : Device) (offset : Byte) : List Byte → Device
  | [] => { d with pointer := offset }
  | value :: data => (d.put offset value).store (offset + 1) data

/-- The first byte sent is an offset. -/
def Device.send (d : Device) : List Byte → Device
  | [] => d
  | offset :: data => d.store offset data

/-- What the registers of a page show; register 1 shows the page. -/
def Device.shown (d : Device) (page offset : Byte) : Byte :=
  if offset = pageCmd then page else d.regs page offset

def Device.received (d : Device) (len : Nat) : Fin len → Byte :=
  fun i => d.shown d.page (d.pointer + BitVec.ofNat 8 i)

/-- What becomes of a transfer: it is done, it fails, or it is done and reported as failed. -/
inductive Reply where
  | done | lost | unreported
  deriving DecidableEq

def Reply.status : Reply → Status
  | .done => .success
  | .lost | .unreported => .failure

structure Sent where
  slaveAddr : Int
  bytes : List Byte
  reply : Reply

/-- `log` lists the bytes sent, the latest first, and `replies` what becomes of the next
transfers. -/
structure Bus where
  devices : Int → Device
  log : List Sent
  replies : List Reply

def Bus.reply (bus : Bus) : Reply := bus.replies.headD .lost

def Bus.update (bus : Bus) (slaveAddr : Int) (f : Device → Device) : Bus where
  devices := if bus.reply = .lost then bus.devices
    else Function.update bus.devices slaveAddr (f (bus.devices slaveAddr))
  log := bus.log
  replies := bus.replies.tail

def Bus.send (bus : Bus) (slaveAddr : Int) (bytes : List Byte) : Bus :=
  { bus.update slaveAddr (·.send bytes) with log := ⟨slaveAddr, bytes, bus.reply⟩ :: bus.log }

def Bus.recv (bus : Bus) (slaveAddr : Int) (len : Nat) : Bus :=
  bus.update slaveAddr fun d => { d with pointer := d.pointer + BitVec.ofNat 8 len }

def perform : (e : Op) → Bus → Answer e × Bus
  | .lookupConfig, bus => (true, bus)
  | .cfgInitialize, bus | .setSClk _, bus => (.success, bus)
  | .masterSendPolled bytes slaveAddr, bus => (bus.reply.status, bus.send slaveAddr bytes)
  | .masterRecvPolled len slaveAddr, bus =>
    ((bus.reply.status, (bus.devices slaveAddr).received len), bus.recv slaveAddr len)
  | .waitBus, bus | .usleep _, bus | .print _, bus => ((), bus)

/-! ## Sequences of calls -/

inductive Access where
  | write (data : List Byte)
  | read (readbuf : Nat → Byte) (len : Nat)

def Access.data : Access → List Byte
  | .write data => data
  | .read _ _ => []

def Access.len : Access → Nat
  | .write _ => 0
  | .read _ len => len

def Access.transfers : Access → Nat
  | .write _ => 1
  | .read _ _ => 2

/-- A call of one of the two functions, with what becomes of its transfers. The page register is
not among the registers accessed, and the bytes written fit in the buffer of the driver. -/
structure Request where
  slaveAddr : Int
  reg : BitVec 32
  access : Access
  replies : List Reply
  notPage : offsetOf reg ≠ pageCmd
  spared : ∀ i < access.data.length, offsetOf reg + BitVec.ofNat 8 i ≠ pageCmd
  fits : access.data.length ≤ bufLen

def Request.program (r : Request) (st : Statics) : I2c ReadResult :=
  match r.access with
  | .write data => do
    let written ← writeSi538xRegister st r.slaveAddr r.reg data
    pure ⟨written.1, fun _ => 0, written.2⟩
  | .read readbuf len => readSi538xRegister st r.slaveAddr r.reg readbuf len

structure System where
  statics : Statics
  bus : Bus

def System.offered (w : System) (r : Request) : Bus := { w.bus with replies := r.replies }

def System.called (w : System) (r : Request) : ReadResult × Bus :=
  exec perform (r.program w.statics) (w.offered r)

def System.after (w : System) (r : Request) : System :=
  ⟨(w.called r).1.statics, (w.called r).2⟩

def System.step (w : System) (r : Request) : Option System := some (w.after r)

def started (devices : Int → Device) : System := ⟨.initial, ⟨devices, [], []⟩⟩

/-! ## The two laws of a sequence of calls -/

/-- The registers of all slaves, by page and offset. -/
def Bus.registers (bus : Bus) (slaveAddr : Int) : Byte → Byte → Byte :=
  (bus.devices slaveAddr).shown

def putAll (regs : Byte → Byte → Byte) (page offset : Byte) : List Byte → Byte → Byte → Byte
  | [] => regs
  | value :: data => putAll (put regs page offset value) page (offset + 1) data

/-- The slave is on the page of the register, exactly the given bytes have been stored there, and
the bytes read are those found there. -/
structure Accessed (r : Request) (before after : Bus) (readbuf : Nat → Byte) : Prop where
  page : (after.devices r.slaveAddr).page = pageOf r.reg
  stored : after.registers = Function.update before.registers r.slaveAddr
    (putAll (before.registers r.slaveAddr) (pageOf r.reg) (offsetOf r.reg) r.access.data)
  fetched : ∀ i < r.access.len, readbuf i =
    before.registers r.slaveAddr (pageOf r.reg) (offsetOf r.reg + BitVec.ofNat 8 i)

/-- A call that returns `XST_SUCCESS` has accessed the page and the offset of its register. -/
def Coherent (w : System) (r : Request) : Prop :=
  (w.called r).1.status = .success → Accessed r w.bus (w.called r).2 (w.called r).1.readbuf

/-- The bytes sent have set the page of the slave. -/
def Sent.setsPage (sent : Sent) (slaveAddr : Int) : Bool :=
  sent.slaveAddr == slaveAddr && sent.bytes.head? == some pageCmd &&
    decide (1 < sent.bytes.length) && decide (sent.reply ≠ .lost)

/-- What was reported of the command that has set the page of the slave last. -/
def Bus.pageSetBy (bus : Bus) (slaveAddr : Int) : Option Reply :=
  (bus.log.find? (·.setsPage slaveAddr)).map (·.reply)

/-- Where the page command is left out and the transfers of the call are done, the slave has not
been put on its page by a command that was reported as failed. -/
def PageReported (w : System) (r : Request) : Prop :=
  w.statics.Holds r.slaveAddr (pageOf r.reg) →
    r.replies.take r.access.transfers = List.replicate r.access.transfers .done →
      w.bus.pageSetBy r.slaveAddr ≠ some .unreported

instance (w : System) (r : Request) : Decidable (PageReported w r) :=
  inferInstanceAs (Decidable (_ → _ → _))

/-! ## What a transfer does to a slave -/

section Transfers

variable {d : Device} {offset page : Byte} {data : List Byte}

theorem Device.put_of_ne (h : offset ≠ pageCmd) (value : Byte) :
    d.put offset value = { d with regs := Si5381.put d.regs d.page offset value } := if_neg h

theorem Device.put_shown (h : offset ≠ pageCmd) (value : Byte) :
    (d.put offset value).shown = Si5381.put d.shown d.page offset value := by
  rw [Device.put_of_ne h]
  funext p o
  simp only [Device.shown, Si5381.put]
  by_cases hPage : p = d.page
  · subst hPage
    by_cases hOffset : o = offset
    · subst hOffset
      simp [h]
    · simp [Device.shown, hOffset]
  · simp [Device.shown, hPage]

theorem spared_nil (offset : Byte) :
    ∀ i < ([] : List Byte).length, offset + BitVec.ofNat 8 i ≠ pageCmd :=
  fun _ hi => absurd hi (Nat.not_lt_zero _)

theorem spared_tail {value : Byte}
    (h : ∀ i < (value :: data).length, offset + BitVec.ofNat 8 i ≠ pageCmd) :
    offset ≠ pageCmd ∧ ∀ i < data.length, offset + 1 + BitVec.ofNat 8 i ≠ pageCmd := by
  constructor
  · have hFirst := h 0 (Nat.succ_pos data.length)
    rwa [Memory.add_ofNat_zero] at hFirst
  · intro i hi
    rw [Memory.add_one_ofNat]
    exact h (i + 1) (Nat.succ_lt_succ hi)

/-- Bytes stored off the page register stay on the page. -/
theorem Device.store_spared (h : ∀ i < data.length, offset + BitVec.ofNat 8 i ≠ pageCmd) :
    (d.store offset data).page = d.page ∧
      (d.store offset data).shown = putAll d.shown d.page offset data := by
  induction data generalizing d offset with
  | nil => exact ⟨rfl, rfl⟩
  | cons value data ih =>
    obtain ⟨hFirst, hRest⟩ := spared_tail h
    have hPage : (d.put offset value).page = d.page := by rw [Device.put_of_ne hFirst]
    obtain ⟨hSame, hShown⟩ := ih (d := d.put offset value) hRest
    refine ⟨hSame.trans hPage, ?_⟩
    rw [Device.store, hShown, hPage, Device.put_shown hFirst, putAll]

theorem Device.send_page (d : Device) (page : Byte) : (d.send [pageCmd, page]).page = page := by
  simp [Device.send, Device.store, Device.put]

variable {bus : Bus} {slaveAddr slaveAddr' : Int} {page page' : Byte}

theorem Bus.pageSetBy_send (bytes : List Byte) :
    (bus.send slaveAddr' bytes).pageSetBy slaveAddr =
      if (Sent.mk slaveAddr' bytes bus.reply).setsPage slaveAddr then some bus.reply
      else bus.pageSetBy slaveAddr := by
  simp only [Bus.pageSetBy, Bus.send, List.find?_cons]
  split <;> simp_all

theorem setsPage_data {reply : Reply} (h : offset ≠ pageCmd) :
    (Sent.mk slaveAddr' (offset :: data) reply).setsPage slaveAddr = false := by
  simp [Sent.setsPage, h]

theorem setsPage_command {reply : Reply} :
    (Sent.mk slaveAddr' [pageCmd, page] reply).setsPage slaveAddr = true ↔
      slaveAddr' = slaveAddr ∧ reply ≠ .lost := by
  simp [Sent.setsPage]

/-- Whether the slave is on the page by which command its page was last set. -/
def Bus.Tracks (bus : Bus) (slaveAddr : Int) (page : Byte) : Prop :=
  (bus.pageSetBy slaveAddr = some .done ∧ (bus.devices slaveAddr).page = page) ∨
    (bus.pageSetBy slaveAddr = some .unreported ∧ (bus.devices slaveAddr).page ≠ page)

theorem Bus.Tracks.of_same {bus' : Bus} (h : bus.Tracks slaveAddr page)
    (hSet : bus'.pageSetBy slaveAddr = bus.pageSetBy slaveAddr)
    (hPage : (bus'.devices slaveAddr).page = (bus.devices slaveAddr).page) :
    bus'.Tracks slaveAddr page := by
  rwa [Bus.Tracks, hSet, hPage]

theorem Bus.update_page {f : Device → Device} (hPage : ∀ d : Device, (f d).page = d.page) :
    ((bus.update slaveAddr' f).devices slaveAddr).page = (bus.devices slaveAddr).page := by
  simp only [Bus.update]
  split
  · rfl
  · by_cases hSame : slaveAddr = slaveAddr'
    · subst hSame
      rw [Function.update_self, hPage]
    · rw [Function.update_of_ne hSame]

theorem Bus.sendData_page (hSpared : ∀ i < data.length, offset + BitVec.ofNat 8 i ≠ pageCmd) :
    ((bus.send slaveAddr' (offset :: data)).devices slaveAddr).page =
      (bus.devices slaveAddr).page :=
  Bus.update_page (f := (·.send (offset :: data))) fun _ => (Device.store_spared hSpared).1

theorem Bus.recv_page (len : Nat) :
    ((bus.recv slaveAddr' len).devices slaveAddr).page = (bus.devices slaveAddr).page :=
  Bus.update_page fun _ => rfl

theorem Bus.Tracks.recv (h : bus.Tracks slaveAddr page) (len : Nat) :
    (bus.recv slaveAddr' len).Tracks slaveAddr page :=
  h.of_same rfl (Bus.recv_page len)

theorem Bus.Tracks.sendData (h : bus.Tracks slaveAddr page) (hOffset : offset ≠ pageCmd)
    (hSpared : ∀ i < data.length, offset + BitVec.ofNat 8 i ≠ pageCmd) :
    (bus.send slaveAddr' (offset :: data)).Tracks slaveAddr page := by
  apply h.of_same
  · rw [Bus.pageSetBy_send, setsPage_data hOffset, if_neg Bool.false_ne_true]
  · exact Bus.sendData_page hSpared

theorem Bus.tracks_selected (hDone : bus.reply = .done) :
    (bus.send slaveAddr [pageCmd, page]).Tracks slaveAddr page := by
  refine .inl ⟨?_, ?_⟩
  · rw [Bus.pageSetBy_send, if_pos (setsPage_command.mpr ⟨rfl, by rw [hDone]; decide⟩), hDone]
  · simp [Bus.send, Bus.update, hDone, Device.send_page]

/-- A page command that fails leaves the slave on its page, or off it and reported as failed. -/
theorem Bus.Tracks.failed (h : bus.Tracks slaveAddr page) (hFailed : bus.reply ≠ .done)
    (hOther : slaveAddr' = slaveAddr → page' ≠ page) :
    (bus.send slaveAddr' [pageCmd, page']).Tracks slaveAddr page := by
  by_cases hSets : slaveAddr' = slaveAddr ∧ bus.reply ≠ .lost
  · obtain ⟨rfl, hEffect⟩ := hSets
    have hReply : bus.reply = .unreported := by
      cases hCase : bus.reply with
      | done => exact absurd hCase hFailed
      | lost => exact absurd hCase hEffect
      | unreported => rfl
    refine .inr ⟨?_, ?_⟩
    · rw [Bus.pageSetBy_send, if_pos (setsPage_command.mpr ⟨rfl, hEffect⟩), hReply]
    · simp [Bus.send, Bus.update, hReply, Device.send_page, hOther]
  · apply h.of_same
    · rw [Bus.pageSetBy_send, if_neg (mt setsPage_command.mp hSets)]
    · simp only [Bus.send, Bus.update]
      split
      · rfl
      · rename_i hEffect
        have hNe : slaveAddr ≠ slaveAddr' := fun hSame => hSets ⟨hSame.symm, hEffect⟩
        rw [Function.update_of_ne hNe]

theorem Bus.sendData_registers (hDone : bus.reply = .done)
    (hSpared : ∀ i < data.length, offset + BitVec.ofNat 8 i ≠ pageCmd) :
    (bus.send slaveAddr (offset :: data)).registers = Function.update bus.registers slaveAddr
      (putAll (bus.registers slaveAddr) (bus.devices slaveAddr).page offset data) := by
  funext other
  simp only [Bus.registers, Bus.send, Bus.update, hDone, reduceCtorEq, if_false]
  by_cases hSame : other = slaveAddr
  · subst hSame
    rw [Function.update_self, Function.update_self]
    exact (Device.store_spared hSpared).2
  · rw [Function.update_of_ne hSame, Function.update_of_ne hSame]
    rfl

theorem Bus.update_registers {f : Device → Device}
    (hf : ∀ d : Device, (f d).shown = d.shown) :
    (bus.update slaveAddr f).registers = bus.registers := by
  funext other
  simp only [Bus.registers, Bus.update]
  split
  · rfl
  · by_cases hSame : other = slaveAddr
    · subst hSame
      rw [Function.update_self]
      exact hf _
    · rw [Function.update_of_ne hSame]

theorem Bus.recv_registers (len : Nat) : (bus.recv slaveAddr len).registers = bus.registers :=
  Bus.update_registers fun _ => rfl

theorem Bus.command_registers :
    (bus.send slaveAddr [pageCmd, page]).registers = bus.registers :=
  Bus.update_registers (f := (·.send [pageCmd, page])) fun _ => rfl

/-- A receive goes on where the offset sent before it points. -/
theorem Bus.received_at (hDone : bus.reply = .done) (len : Nat) (i : Fin len) :
    ((bus.send slaveAddr [offset]).devices slaveAddr).received len i =
      bus.registers slaveAddr (bus.devices slaveAddr).page (offset + BitVec.ofNat 8 i) := by
  simp [Bus.send, Bus.update, hDone, Bus.registers, Device.received, Device.send, Device.store,
    Device.shown]

theorem reply_done : bus.reply.status = .success ↔ bus.replies.take 1 = [.done] := by
  unfold Bus.reply
  cases bus.replies with
  | nil => simp [Reply.status]
  | cons reply replies => cases reply <;> simp [Reply.status]

theorem replies_done : bus.reply.status = .success ∧
    (bus.send slaveAddr [offset]).reply.status = .success ↔
      bus.replies.take 2 = [.done, .done] := by
  rw [reply_done, reply_done]
  simp only [Bus.send, Bus.update]
  cases bus.replies with
  | nil => simp
  | cons reply replies =>
    cases replies with
    | nil => simp
    | cons next replies => simp

theorem eq_done_of_status {reply : Reply} (h : reply.status = .success) : reply = .done := by
  cases reply <;> first | rfl | cases h

end Transfers

/-! ## One call -/

section Call

variable {st : Statics} {bus : Bus} {slaveAddr : Int} {page : Byte} {r : Request}

theorem setPage_held (h : st.Holds slaveAddr page) :
    exec perform (setPage st slaveAddr page) bus = ((.success, st), bus) := by
  rw [setPage, if_pos h]
  rfl

theorem setPage_sent (h : ¬ st.Holds slaveAddr page) :
    exec perform (setPage st slaveAddr page) bus =
      (if bus.reply = .done then (.success, ⟨page.toNat, slaveAddr⟩) else (.failure, st),
        bus.send slaveAddr [pageCmd, page]) := by
  rw [setPage, if_neg h, exec_ask_bind]
  cases hReply : bus.reply <;> simp [perform, hReply, Reply.status]

theorem writeData_exec (reg : BitVec 32) (data : List Byte) :
    exec perform (writeData slaveAddr reg data) bus =
      (bus.reply.status, bus.send slaveAddr (offsetOf reg :: data)) := by
  rw [writeData, exec_ask_bind]
  cases hReply : bus.reply <;> simp [perform, hReply, Reply.status]

theorem write_set {bus' : Bus} {st' : Statics} {reg : BitVec 32}
    (h : exec perform (setPage st slaveAddr (pageOf reg)) bus = ((.success, st'), bus'))
    (data : List Byte) : exec perform (writeSi538xRegister st slaveAddr reg data) bus =
      ((bus'.reply.status, st'), bus'.send slaveAddr (offsetOf reg :: data)) := by
  rw [writeSi538xRegister, exec_bind, h, if_neg (fun hNe => hNe rfl), exec_bind, writeData_exec]
  rfl

theorem write_unset {bus' : Bus} {st' : Statics} {reg : BitVec 32}
    (h : exec perform (setPage st slaveAddr (pageOf reg)) bus = ((.failure, st'), bus'))
    (data : List Byte) :
    exec perform (writeSi538xRegister st slaveAddr reg data) bus = ((.failure, st'), bus') := by
  rw [writeSi538xRegister, exec_bind, h, if_pos nofun]
  rfl

/-- A read sends its offset before it receives the bytes. -/
theorem read_set {bus' : Bus} {st' : Statics} {reg : BitVec 32}
    (h : exec perform (setPage st slaveAddr (pageOf reg)) bus = ((.success, st'), bus'))
    (readbuf : Nat → Byte) (len : Nat) :
    exec perform (readSi538xRegister st slaveAddr reg readbuf len) bus =
      if bus'.reply.status ≠ .success then
        (⟨.failure, readbuf, st'⟩, bus'.send slaveAddr [offsetOf reg])
      else
        (⟨(bus'.send slaveAddr [offsetOf reg]).reply.status,
          fill (((bus'.send slaveAddr [offsetOf reg]).devices slaveAddr).received len) readbuf,
          st'⟩, (bus'.send slaveAddr [offsetOf reg]).recv slaveAddr len) := by
  simp only [readSi538xRegister]
  rw [exec_bind, write_set h, exec_ite]
  split
  · rfl
  · rw [exec_ask_bind, exec_ite]
    cases hReply : (bus'.send slaveAddr [offsetOf reg]).reply <;>
      simp [perform, hReply, Reply.status]

/-- A call whose page command fails gives up. -/
theorem program_unset {bus' : Bus} {st' : Statics}
    (h : exec perform (setPage st r.slaveAddr (pageOf r.reg)) bus = ((.failure, st'), bus')) :
    (exec perform (r.program st) bus).1.status = .failure ∧
      (exec perform (r.program st) bus).1.statics = st' ∧
      (exec perform (r.program st) bus).2 = bus' := by
  unfold Request.program
  cases r.access with
  | write data =>
    rw [exec_bind, write_unset h]
    exact ⟨rfl, rfl, rfl⟩
  | read readbuf len =>
    simp only [readSi538xRegister]
    rw [exec_bind, write_unset h, if_pos nofun]
    exact ⟨rfl, rfl, rfl⟩

/-- What a call leaves once its page is set. -/
structure Carried (r : Request) (bus bus' : Bus) (st : Statics) (result : ReadResult) : Prop where
  statics : result.statics = st
  tracks : ∀ slaveAddr page, bus.Tracks slaveAddr page → bus'.Tracks slaveAddr page
  page : (bus'.devices r.slaveAddr).page = (bus.devices r.slaveAddr).page
  status : result.status = .success ↔
    bus.replies.take r.access.transfers = List.replicate r.access.transfers .done
  accessed : result.status = .success →
    (bus.devices r.slaveAddr).page = pageOf r.reg → Accessed r bus bus' result.readbuf

theorem carried_write {data : List Byte} (hAccess : r.access = .write data) :
    Carried r bus (bus.send r.slaveAddr (offsetOf r.reg :: data)) st
      ⟨bus.reply.status, fun _ => 0, st⟩ := by
  have hData : r.access.data = data := by rw [hAccess, Access.data]
  have hSpared := hData ▸ r.spared
  refine ⟨rfl, fun _ _ h => h.sendData r.notPage hSpared, Bus.sendData_page hSpared, ?_, ?_⟩
  · rw [hAccess]
    exact reply_done
  · intro hSuccess hPage
    refine ⟨(Bus.sendData_page hSpared).trans hPage, ?_, ?_⟩
    · rw [Bus.sendData_registers (eq_done_of_status hSuccess) hSpared, hPage, hData]
    · intro i hi
      rw [hAccess] at hi
      cases hi

theorem carried_unread {readbuf : Nat → Byte} {len : Nat} (hAccess : r.access = .read readbuf len)
    (hFailed : bus.reply.status ≠ .success) :
    Carried r bus (bus.send r.slaveAddr [offsetOf r.reg]) st ⟨.failure, readbuf, st⟩ := by
  have hSpared := spared_nil (offsetOf r.reg)
  refine ⟨rfl, fun _ _ h => h.sendData r.notPage hSpared, Bus.sendData_page hSpared, ?_, nofun⟩
  rw [hAccess]
  constructor
  · exact nofun
  · intro hDone
    have hBoth : bus.reply.status = .success ∧
        (bus.send r.slaveAddr [offsetOf r.reg]).reply.status = .success := replies_done.mpr hDone
    exact absurd hBoth.1 hFailed

theorem carried_read {readbuf : Nat → Byte} {len : Nat} (hAccess : r.access = .read readbuf len)
    (hSent : bus.reply.status = .success) :
    Carried r bus ((bus.send r.slaveAddr [offsetOf r.reg]).recv r.slaveAddr len) st
      ⟨(bus.send r.slaveAddr [offsetOf r.reg]).reply.status,
        fill (((bus.send r.slaveAddr [offsetOf r.reg]).devices r.slaveAddr).received len) readbuf,
        st⟩ := by
  have hSpared := spared_nil (offsetOf r.reg)
  have hDone := eq_done_of_status hSent
  refine ⟨rfl, fun _ _ h => (h.sendData r.notPage hSpared).recv len,
    (Bus.recv_page len).trans (Bus.sendData_page hSpared), ?_, ?_⟩
  · rw [hAccess]
    exact (and_iff_right hSent).symm.trans replies_done
  · intro _ hPage
    refine ⟨((Bus.recv_page len).trans (Bus.sendData_page hSpared)).trans hPage, ?_, ?_⟩
    · rw [Bus.recv_registers, Bus.sendData_registers hDone hSpared, hAccess]
      rfl
    · intro i hi
      rw [hAccess] at hi
      simp only [fill]
      rw [dif_pos (show i < len from hi), Bus.received_at hDone len ⟨i, hi⟩, hPage]

theorem program_set {bus' : Bus} {st' : Statics}
    (h : exec perform (setPage st r.slaveAddr (pageOf r.reg)) bus = ((.success, st'), bus')) :
    Carried r bus' (exec perform (r.program st) bus).2 st'
      (exec perform (r.program st) bus).1 := by
  cases hAccess : r.access with
  | write data =>
    simp only [Request.program, hAccess]
    rw [exec_bind, write_set h]
    exact carried_write hAccess
  | read readbuf len =>
    simp only [Request.program, hAccess]
    rw [read_set h]
    split
    · exact carried_unread hAccess ‹_›
    · rename_i hSent
      exact carried_read hAccess (not_not.mp hSent)

end Call

/-! ## Sequences of calls -/

section Calls

variable {w : System} {r : Request}

/-- What the driver remembers was once right, and the slave has since left that page only by a
command reported as failed. -/
def Mirrored (w : System) : Prop :=
  w.statics = .initial ∨ ∃ page : Byte, w.statics.lastPage = page.toNat ∧
    w.bus.Tracks w.statics.lastSlaveAddr page

theorem Mirrored.tracks {page : Byte} {slaveAddr : Int} (h : Mirrored w)
    (hHolds : w.statics.Holds slaveAddr page) : w.bus.Tracks slaveAddr page := by
  obtain ⟨hPage, rfl⟩ := hHolds
  obtain hInitial | ⟨page', hPage', hTracks⟩ := h
  · rw [hInitial] at hPage
    simp [Statics.initial] at hPage
  · have hSame : page = page' := by
      apply BitVec.eq_of_toNat_eq
      exact Int.ofNat.inj (hPage.trans hPage')
    rwa [hSame]

theorem Bus.Tracks.page_iff {bus : Bus} {slaveAddr : Int} {page : Byte}
    (h : bus.Tracks slaveAddr page) :
    (bus.devices slaveAddr).page = page ↔ bus.pageSetBy slaveAddr ≠ some .unreported := by
  obtain ⟨hSet, hPage⟩ | ⟨hSet, hPage⟩ := h
  · simp [hSet, hPage]
  · simp [hSet, hPage]

/-- Without a page command, a call that succeeds is right where the page is tracked. -/
theorem step_held (h : Mirrored w) (hHolds : w.statics.Holds r.slaveAddr (pageOf r.reg)) :
    Mirrored (w.after r) ∧ (Coherent w r ↔ PageReported w r) := by
  have hTracks := h.tracks hHolds
  have hSet : exec perform (setPage w.statics r.slaveAddr (pageOf r.reg)) (w.offered r) =
      ((.success, w.statics), w.offered r) := setPage_held hHolds
  have hCarried := program_set hSet
  refine ⟨.inr ⟨pageOf r.reg, ?_, ?_⟩, ?_⟩
  · rw [System.after, System.called, hCarried.statics, hHolds.1]
  · rw [System.after, System.called, hCarried.statics, ← hHolds.2]
    exact hCarried.tracks _ _ hTracks
  · constructor
    · intro hCoherent _ hDone
      have hAccessed := hCoherent (hCarried.status.mpr hDone)
      exact hTracks.page_iff.mp (hCarried.page.symm.trans hAccessed.page)
    · intro hReported hSuccess
      have hPage := hTracks.page_iff.mpr (hReported hHolds (hCarried.status.mp hSuccess))
      have hAccessed := hCarried.accessed hSuccess hPage
      exact ⟨hAccessed.page, hAccessed.stored, hAccessed.fetched⟩

/-- A page command that is done is remembered, and a call that sends it never goes wrong. -/
theorem step_sent (h : Mirrored w) (hNot : ¬ w.statics.Holds r.slaveAddr (pageOf r.reg)) :
    Mirrored (w.after r) ∧ (Coherent w r ↔ PageReported w r) := by
  have hReported : PageReported w r := fun hHolds => absurd hHolds hNot
  have hSent : exec perform (setPage w.statics r.slaveAddr (pageOf r.reg)) (w.offered r) =
      (_, (w.offered r).send r.slaveAddr [pageCmd, pageOf r.reg]) := setPage_sent hNot
  by_cases hDone : (w.offered r).reply = .done
  · rw [if_pos hDone] at hSent
    have hCarried := program_set hSent
    have hSelected : ((w.offered r).send r.slaveAddr [pageCmd, pageOf r.reg]).Tracks r.slaveAddr
        (pageOf r.reg) := Bus.tracks_selected hDone
    refine ⟨.inr ⟨pageOf r.reg, ?_, ?_⟩, iff_of_true (fun hSuccess => ?_) hReported⟩
    · rw [System.after, System.called, hCarried.statics]
    · rw [System.after, System.called, hCarried.statics]
      exact hCarried.tracks _ _ hSelected
    · have hPage : (((w.offered r).send r.slaveAddr [pageCmd, pageOf r.reg]).devices
          r.slaveAddr).page = pageOf r.reg := by
        simp [Bus.send, Bus.update, hDone, Device.send_page]
      obtain ⟨hThere, hStored, hFetched⟩ := hCarried.accessed hSuccess hPage
      rw [Bus.command_registers] at hStored hFetched
      exact ⟨hThere, hStored, hFetched⟩
  · rw [if_neg hDone] at hSent
    obtain ⟨hStatus, hStatics, hBus⟩ := program_unset hSent
    refine ⟨?_, iff_of_true (fun hSuccess => ?_) hReported⟩
    · rw [System.after, System.called, hStatics, hBus]
      obtain hInitial | ⟨page, hPage, hTracks⟩ := h
      · exact .inl hInitial
      · refine .inr ⟨page, hPage, ?_⟩
        have hOffered : (w.offered r).Tracks w.statics.lastSlaveAddr page := hTracks
        refine hOffered.failed hDone fun hSlave hSame => hNot ⟨?_, hSlave⟩
        rw [hSame, hPage]
    · rw [System.called, hStatus] at hSuccess
      cases hSuccess

theorem step_spec (h : Mirrored w) :
    Mirrored (w.after r) ∧ (Coherent w r ↔ PageReported w r) := by
  by_cases hHolds : w.statics.Holds r.slaveAddr (pageOf r.reg)
  · exact step_held h hHolds
  · exact step_sent h hHolds

end Calls

/-- In every sequence of calls, those that succeed access the page of their register exactly where
those without a page command find their slave put on its page by a command that was reported. -/
theorem coherent_iff (devices : Int → Device) (requests : List Request) :
    Along System.step Coherent (started devices) requests ↔
      Along System.step PageReported (started devices) requests := by
  apply Along.congr
  apply Along.of_invariant (I := Mirrored) _ _ _ (Along.trivial (started devices) requests)
  · intro w r next hMirrored _ hStep
    cases hStep
    exact (step_spec hMirrored).1
  · exact fun w r hMirrored _ => (step_spec hMirrored).2
  · exact .inl rfl

/-! ### A page command that fails too late -/

def benchWrite (reg : BitVec 32) (value : Byte) (replies : List Reply)
    (hNotPage : offsetOf reg ≠ pageCmd) : Request where
  slaveAddr := si5381Addr
  reg := reg
  access := .write [value]
  replies := replies
  notPage := hNotPage
  spared i hi := by
    obtain rfl : i = 0 := Nat.lt_one_iff.mp hi
    rwa [Memory.add_ofNat_zero]
  fits := by simp [Access.data, bufLen]

def blank : Int → Device := fun _ => ⟨0, 0, fun _ _ => 0⟩

/-- After the first write the page command of the second takes effect and is reported as failed;
the third is made without one. -/
def lateFailure : List Request :=
  [benchWrite 0x0B24 0xC0 [.done, .done] (by decide), benchWrite 0x0540 1 [.unreported] (by decide),
    benchWrite 0x0B25 4 [.done] (by decide)]

/-- The third write succeeds on page 5. -/
theorem coherent_failure : ¬ Along System.step Coherent (started blank) lateFailure := by
  intro hCoherent
  have hThird := ((hCoherent.2 _ rfl).2 _ rfl).1
  have hAccessed := hThird (by decide)
  exact absurd hAccessed.page (by decide)

end SoftwarePrototypes.Si5381
