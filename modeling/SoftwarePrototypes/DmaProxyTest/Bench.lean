import SoftwarePrototypes.DmaProxyTest.Rounds
import SoftwarePrototypes.Interaction.Runs

/-! # The application with a loopback

Both threads, their channels and an engine that moves the oldest started transmit buffer into the
oldest started receive buffer, one step at a time in any order. `FINISH_XFER` blocks until the
engine has moved the transfer; no transfer fails.
-/

namespace SoftwarePrototypes.DmaProxyTest

open Interaction Interaction.Prog
open SoftwarePrototypes.DmaProxy (ProxyStatus)

inductive Side where
  | tx | rx
  deriving DecidableEq

/-- `pending` are the started transfers the engine has not moved yet, `completed` the moved ones
that are not finished yet, both in the order of their start. -/
structure Channel where
  ledger : Ledger
  pending : List Nat
  completed : List Nat
  words : Nat → Nat → BitVec 32

namespace Channel

def start (c : Channel) (bufferId : Nat) : Channel :=
  { c with ledger := c.ledger.started bufferId, pending := c.pending ++ [bufferId] }

/-- A finish with nothing to wait for times out. -/
def finish (c : Channel) (bufferId : Nat) : Option (ProxyStatus × Channel) :=
  let ledger := c.ledger.finished bufferId
  if bufferId ∈ c.completed then
    some (.noError, { c with ledger := ledger, completed := c.completed.erase bufferId })
  else if bufferId ∈ c.pending then none
  else some (.timeout, { c with ledger := ledger })

def write (c : Channel) (bufferId i : Nat) (value : BitVec 32) : Channel :=
  { c with words := Function.update c.words bufferId (Function.update (c.words bufferId) i value) }

def test (c : Channel) (slots : Nat) (test : Test) (count : Int) (reached : Bool) : Channel :=
  { c with ledger := c.ledger.tested slots test count reached }

end Channel

def bufferCount (cfg : Config) : Side → Nat
  | .tx => cfg.txBufferCount
  | .rx => cfg.rxBufferCount

/-- The rounds of the first loop when it is not left early. -/
def slots (cfg : Config) (side : Side) : Nat :=
  (bufferCount cfg side + cfg.bufferIncrement - 1) / cfg.bufferIncrement

def body (cfg : Config) : Side → Next → Thread Next
  | .tx => txThread cfg
  | .rx => rxThread cfg

structure State where
  code : Side → Thread Next
  channel : Side → Channel
  numTransfers : Int
  stop : Bool

def State.set (st : State) (side : Side) (c : Channel) : State :=
  { st with channel := Function.update st.channel side c }

def State.view (st : State) (side : Side) : View :=
  ⟨(st.channel side).ledger, st.numTransfers, st.stop, fun b => (st.channel side).words b 0⟩

section Step

variable (cfg : Config)

/-- One call of a thread; none while it blocks. -/
def serve (side : Side) : (e : Op) → State → Option (Answer e × State)
  | .setLength _ _, st => some ((), st)
  | .writeWord b i value, st => some ((), st.set side ((st.channel side).write b i value))
  | .startXfer b _, st => some ((), st.set side ((st.channel side).start b))
  | .finishXfer b _, st =>
    ((st.channel side).finish b).map fun result => (result.1, st.set side result.2)
  | .reachedNumTransfers test count, st =>
    let reached := decide (st.numTransfers ≤ count)
    some (reached, st.set side ((st.channel side).test (slots cfg side) test count reached))
  | .readStop, st => some (st.stop, st)
  | .writeNumTransfers value, st => some ((), { st with numTransfers := value })
  | .readWord b i, st => some ((st.channel side).words b i, st)
  | .printTransferError, st => some ((), st)
  | .printNotEqual _ _ _, st => some ((), st)

/-- The engine copies the `test_size` bytes of a transfer. -/
def copied (sent received : Nat → BitVec 32) (i : Nat) : BitVec 32 :=
  if i < wordCount cfg then sent i else received i

def engine (st : State) : Option State :=
  match (st.channel .tx).pending, (st.channel .rx).pending with
  | b :: bs, b' :: bs' =>
    let tx := st.channel .tx
    let rx := st.channel .rx
    some ((st.set .tx { tx with pending := bs, completed := tx.completed ++ [b] }).set .rx
      { rx with
        pending := bs'
        completed := rx.completed ++ [b']
        words := Function.update rx.words b' (copied cfg (tx.words b) (rx.words b')) })
  | _, _ => none

inductive Label where
  | thread (side : Side)
  | engine
  | sigint
  deriving DecidableEq

def State.exited (st : State) : Bool :=
  match st.code .rx with
  | .ret .exited => true
  | _ => false

def advanceThread (side : Side) (st : State) : Option State :=
  match st.code side with
  | .ret _ => none
  | .call e rest => (serve cfg side e st).map fun result =>
    { result.2 with
      code := Function.update result.2.code side (settle (body cfg side) (rest result.1)) }

def step (st : State) (label : Label) : Option State :=
  if st.exited then none else
  match label with
  | .thread side => advanceThread cfg side st
  | .engine => engine cfg st
  | .sigint => some { st with stop := true }

def initial (numTransfers : Int) (words : Side → Nat → Nat → BitVec 32) : State where
  code := fun side => body cfg side (afterFill (bufferCount cfg side) 0 0)
  channel := fun side => ⟨⟨[], [], false⟩, [], [], words side⟩
  numTransfers := numTransfers
  stop := false

end Step

/-! ## The state of a channel -/

/-- `s` transfers of the ring are started, `m` moved and `f` finished. -/
structure ChannelOk (t : Setting) (m s f : Nat) (c : Channel) : Prop
    extends Matches t.ring s f c.ledger where
  finished_le : f ≤ m
  le_started : m ≤ s
  room : s ≤ f + t.ring.slots
  pending : c.pending = (List.range' m (s - m)).map t.ring.slot
  completed : c.completed = (List.range' f (m - f)).map t.ring.slot
  sent : t.sends → ∀ j, m ≤ j → j < s → c.words (t.ring.slot j) 0 = BitVec.ofNat 32 j
  arrived : t.receives → ∀ j, f ≤ j → j < m → c.words (t.ring.slot j) 0 = BitVec.ofNat 32 j

section Channels

variable {t : Setting} {m s f : Nat} {c : Channel}

theorem ChannelOk.start (h : ChannelOk t m s f c) (hRoom : s < f + t.ring.slots)
    (hWord : t.sends → c.words (t.ring.slot s) 0 = BitVec.ofNat 32 s) :
    ChannelOk t m (s + 1) f (c.start (t.ring.slot s)) where
  toMatches := h.toMatches.started
  finished_le := h.finished_le
  le_started := Nat.le_succ_of_le h.le_started
  room := hRoom
  pending := by
    have hLe := h.le_started
    have hSub : s + 1 - m = s - m + 1 := by omega
    have hLast : m + (s - m) = s := by omega
    rw [Channel.start, h.pending, hSub, List.range'_1_concat, List.map_append, hLast]
    rfl
  completed := h.completed
  sent := by
    intro hSending j hLow hHigh
    rcases Nat.lt_succ_iff_lt_or_eq.mp hHigh with hOld | rfl
    · exact h.sent hSending j hLow hOld
    · exact hWord hSending
  arrived := h.arrived

theorem mem_slots {r : Ring} {low count b : Nat} :
    b ∈ (List.range' low count).map r.slot ↔ ∃ j, low ≤ j ∧ j < low + count ∧ b = r.slot j := by
  rw [List.mem_map]
  constructor
  · rintro ⟨j, hMem, rfl⟩
    rw [List.mem_range'_1] at hMem
    exact ⟨j, hMem.1, hMem.2, rfl⟩
  · rintro ⟨j, hLow, hHigh, rfl⟩
    exact ⟨j, List.mem_range'_1.mpr ⟨hLow, hHigh⟩, rfl⟩

theorem ChannelOk.finish (h : ChannelOk t m s f c) (hEarly : f < s) {status : ProxyStatus}
    {c' : Channel} (hFinish : c.finish (t.ring.slot f) = some (status, c')) :
    status = .noError ∧ c'.ledger = c.ledger.finished (t.ring.slot f) ∧ c'.words = c.words ∧
      f < m ∧ ChannelOk t m s (f + 1) c' := by
  have hRoom := h.room
  have hLow := h.finished_le
  simp only [Channel.finish] at hFinish
  rcases Nat.lt_or_ge f m with hMoved | hNone
  · have hSplit : m - f = m - (f + 1) + 1 := by omega
    have hHead : c.completed =
        t.ring.slot f :: (List.range' (f + 1) (m - (f + 1))).map t.ring.slot := by
      rw [h.completed, hSplit, List.range'_succ, List.map_cons]
    rw [hHead, if_pos List.mem_cons_self] at hFinish
    obtain ⟨rfl, rfl⟩ := Prod.mk.inj (Option.some.inj hFinish)
    refine ⟨rfl, rfl, rfl, hMoved, h.toMatches.finished, hMoved, h.le_started, by omega,
      h.pending, ?_, h.sent, fun hReceiving j hAfter hBefore =>
        h.arrived hReceiving j (by omega) hBefore⟩
    rw [List.erase_cons_head]
  · have hEq : f = m := by omega
    have hNot : t.ring.slot f ∉ c.completed := by
      rw [h.completed, mem_slots]
      rintro ⟨j, _, _, _⟩
      omega
    have hWaits : t.ring.slot f ∈ c.pending := by
      rw [h.pending, mem_slots]
      exact ⟨f, by omega, by omega, rfl⟩
    rw [if_neg hNot, if_pos hWaits] at hFinish
    cases hFinish

theorem ChannelOk.write (h : ChannelOk t m s f c) (hRoom : s < f + t.ring.slots) (i : Nat)
    (value : BitVec 32) : ChannelOk t m s f (c.write (t.ring.slot s) i value) := by
  have hLow := h.finished_le
  have hHigh := h.le_started
  have hOther : ∀ j, f ≤ j → j < s →
      (c.write (t.ring.slot s) i value).words (t.ring.slot j) = c.words (t.ring.slot j) := by
    intro j hAfter hBefore
    exact Function.update_of_ne (t.ring.slot_ne hBefore (by omega)) _ _
  refine ⟨h.toMatches, hLow, hHigh, h.room, h.pending, h.completed, ?_, ?_⟩
  · intro hSending j hAfter hBefore
    rw [hOther j (by omega) hBefore]
    exact h.sent hSending j hAfter hBefore
  · intro hReceiving j hAfter hBefore
    rw [hOther j hAfter (by omega)]
    exact h.arrived hReceiving j hAfter hBefore

theorem ChannelOk.next (h : ChannelOk t m s f c) {b : Nat} {bs : List Nat}
    (hPending : c.pending = b :: bs) : m < s ∧ b = t.ring.slot m ∧
      bs = (List.range' (m + 1) (s - (m + 1))).map t.ring.slot := by
  have hList := h.pending
  rcases Nat.lt_or_ge m s with hMore | hNone
  · have hSplit : s - m = s - (m + 1) + 1 := by omega
    rw [hPending, hSplit, List.range'_succ, List.map_cons, List.cons.injEq] at hList
    exact ⟨hMore, hList.1, hList.2⟩
  · rw [hPending, Nat.sub_eq_zero_of_le hNone] at hList
    cases hList

theorem ChannelOk.moved (h : ChannelOk t m s f c) (hMore : m < s) {words : Nat → Nat → BitVec 32}
    (hOther : ∀ j, f ≤ j → j < s → j ≠ m → words (t.ring.slot j) = c.words (t.ring.slot j))
    (hWord : t.receives → words (t.ring.slot m) 0 = BitVec.ofNat 32 m) :
    ChannelOk t (m + 1) s f { c with
      pending := (List.range' (m + 1) (s - (m + 1))).map t.ring.slot
      completed := c.completed ++ [t.ring.slot m]
      words := words } := by
  have hLow := h.finished_le
  refine ⟨h.toMatches, by omega, hMore, h.room, rfl, ?_, ?_, ?_⟩
  · have hSub : m + 1 - f = m - f + 1 := by omega
    have hLast : f + (m - f) = m := by omega
    change c.completed ++ [t.ring.slot m] = _
    rw [h.completed, hSub, List.range'_1_concat, List.map_append, hLast]
    rfl
  · intro hSending j hAfter hBefore
    change words (t.ring.slot j) 0 = _
    rw [hOther j (by omega) hBefore (by omega)]
    exact h.sent hSending j (by omega) hBefore
  · intro hReceiving j hAfter hBefore
    rcases Nat.lt_succ_iff_lt_or_eq.mp hBefore with hOld | rfl
    · change words (t.ring.slot j) 0 = _
      rw [hOther j hAfter (by omega) (by omega)]
      exact h.arrived hReceiving j hAfter hOld
    · exact hWord hReceiving

end Channels

end SoftwarePrototypes.DmaProxyTest
