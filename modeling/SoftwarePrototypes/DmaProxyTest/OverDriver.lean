import SoftwarePrototypes.DmaProxy.Pipeline
import SoftwarePrototypes.DmaProxyTest.Bench

/-! # The application over the driver

Both threads as they are, over a channel of the driver each. An ioctl is the program of the driver
for it, whose kernel calls interleave with the other thread, with the engine and with its
callbacks. The engine is a loopback that moves the oldest issued transmit transfer into the
oldest issued receive transfer, by the addresses and lengths of their descriptors.
-/

namespace SoftwarePrototypes.DmaProxyTest

open Interaction Interaction.Prog
open SoftwarePrototypes.DmaProxy (ChannelBuffer Cmd Descriptor Driver ProxyBd ProxyStatus Reply
  bufferSize)

/-- Where the engine finds word `i` of a channel buffer. -/
def wordAddress (physAddr bufferId i : Nat) : Nat := DmaProxy.dmaHandle physAddr bufferId + 4 * i

/-- One side of the application. `request` is what is left of the ioctl that its thread is in, and
`descriptors` are those of the transfers accepted by the engine, in order. `memory` holds the words
of the channel buffers by their address; status and length words are with the driver. -/
structure Lane where
  code : Thread Next
  request : Option (DmaProxy.Program Int)
  driver : Driver
  descriptors : List Descriptor
  memory : Nat → BitVec 32

def Lane.address (w : Lane) (bufferId i : Nat) : Nat :=
  wordAddress w.driver.bufferPhysAddr bufferId i

/-- The store of a thread into a length word. -/
def Lane.setLength (w : Lane) (bufferId : Nat) (length : BitVec 32) : Lane :=
  { w with driver := w.driver.updateBuffer bufferId fun buffer => { buffer with length } }

def Lane.writeWord (w : Lane) (bufferId i : Nat) (value : BitVec 32) : Lane :=
  { w with memory := Function.update w.memory (w.address bufferId i) value }

structure Stack where
  lane : Side → Lane
  numTransfers : Int
  stop : Bool

namespace Stack

def set (m : Stack) (side : Side) (w : Lane) : Stack :=
  { m with lane := Function.update m.lane side w }

def exited (m : Stack) : Bool :=
  match (m.lane .rx).code with
  | .ret .exited => true
  | _ => false

end Stack

/-- The ioctl that a call of a thread is. -/
def Op.ioctl : Op → Option (Cmd × Nat)
  | .startXfer bufferId _ => some (.startXfer, bufferId)
  | .finishXfer bufferId _ => some (.finishXfer, bufferId)
  | _ => none

/-- What a thread has from its ioctl: `FINISH_XFER` is followed by a read of the status word. -/
def Op.result : (e : Op) → Driver → Option (Answer e)
  | .startXfer _ _, _ => some ()
  | .finishXfer bufferId _, d => some (d.pBufferTable bufferId).status
  | _, _ => none

/-- The descriptor of a transfer that the engine accepts. -/
def accepted (reply : Reply) : DmaProxy.Call → List Descriptor
  | .dmaengineSubmit _ desc => if reply.value < 0 then [] else [desc]
  | _ => []

/-- The words of a target with those of a source moved into it, as far as both descriptors go. -/
def moved (source target : Descriptor) (sent kept : Nat → BitVec 32) (address : Nat) : BitVec 32 :=
  if target.address ≤ address ∧ (address - target.address) % 4 = 0 ∧
      address - target.address + 4 ≤ min source.length.toNat target.length.toNat then
    sent (source.address + (address - target.address))
  else kept address

section Step

variable (cfg : Config) (trace : Bool)

/-- The calls of a thread that are no ioctl. -/
def serveUser (side : Side) : (e : Op) → Stack → Option (Answer e × Stack)
  | .setLength bufferId length, m =>
    some ((), m.set side ((m.lane side).setLength bufferId length))
  | .writeWord bufferId i value, m =>
    some ((), m.set side ((m.lane side).writeWord bufferId i value))
  | .reachedNumTransfers _ count, m => some (decide (m.numTransfers ≤ count), m)
  | .readStop, m => some (m.stop, m)
  | .writeNumTransfers value, m => some ((), { m with numTransfers := value })
  | .readWord bufferId i, m =>
    let w := m.lane side
    some (w.memory (w.address bufferId i), m)
  | .printTransferError, m | .printNotEqual _ _ _, m => some ((), m)
  | .startXfer _ _, _ | .finishXfer _ _, _ => none

/-- A thread makes a call, enters an ioctl or comes back from one. -/
def stepUser (side : Side) (m : Stack) : Option Stack :=
  let w := m.lane side
  match w.code with
  | .ret _ => none
  | .call e rest =>
    match w.request, e.ioctl with
    | none, none => (serveUser side e m).map fun result =>
      result.2.set side
        { result.2.lane side with code := settle (body cfg side) (rest result.1) }
    | none, some (cmd, bufferId) =>
      some (m.set side { w with request := some (DmaProxy.ioctl trace cmd bufferId) })
    | some (.ret _), _ => (e.result w.driver).map fun answer =>
      m.set side { w with code := settle (body cfg side) (rest answer), request := none }
    | some (.call _ _), _ => none

/-- A call of the kernel in an ioctl. -/
def stepKernel (side : Side) (reply : Reply) (m : Stack) : Option Stack :=
  let w := m.lane side
  match w.request with
  | some (.call e next) => (DmaProxy.perform e reply w.driver).map fun result =>
    m.set side { w with
      request := some (next result.1)
      driver := result.2
      descriptors := w.descriptors ++ accepted reply e }
  | _ => none

def loopback (m : Stack) : Option Stack := do
  let tx := m.lane .tx
  let rx := m.lane .rx
  let sender ← tx.driver.engineStep (.complete true)
  let receiver ← rx.driver.engineStep (.complete true)
  let source ← tx.descriptors[tx.driver.completed]?
  let target ← rx.descriptors[rx.driver.completed]?
  pure ((m.set .tx { tx with driver := sender }).set .rx
    { rx with driver := receiver, memory := moved source target tx.memory rx.memory })

inductive StackLabel where
  | user (side : Side)
  | kernel (side : Side) (reply : Reply)
  | engine
  | callback (side : Side) (transfer : Nat)
  | sigint

def stackStep (m : Stack) (label : StackLabel) : Option Stack :=
  if m.exited then none else
  match label with
  | .user side => stepUser cfg trace side m
  | .kernel side reply => stepKernel side reply m
  | .engine => loopback m
  | .callback side k => ((m.lane side).driver.engineStep (.callback k)).map fun d =>
    m.set side { m.lane side with driver := d }
  | .sigint => some { m with stop := true }

/-- No stop is requested, the calls of the kernel succeed and no wait runs out of time. -/
def Undisturbed (m : Stack) : StackLabel → Prop
  | .kernel side reply => ∀ p ∈ (m.lane side).request, ∀ e ∈ p.head,
    DmaProxy.Works reply (m.lane side).driver e
  | .sigint => False
  | _ => True

instance Undisturbed.decidable (m : Stack) : ∀ label, Decidable (Undisturbed m label)
  | .kernel side reply => inferInstanceAs (Decidable (∀ p ∈ (m.lane side).request,
    ∀ e ∈ p.head, DmaProxy.Works reply (m.lane side).driver e))
  | .sigint => inferInstanceAs (Decidable False)
  | .user _ | .engine | .callback _ _ => inferInstanceAs (Decidable True)

/-- A channel as `create_channel` leaves it: the BDs have the handles of their buffers, all else
in the tables and the buffers is anything. -/
structure OpenedChannel where
  pBdTable : Int → ProxyBd
  pBufferTable : Int → ChannelBuffer
  bufferPhysAddr : Nat
  memory : Nat → BitVec 32
  handles : ∀ b : Nat, b < DmaProxy.bufferCount →
    (pBdTable b).dmaHandle = DmaProxy.dmaHandle bufferPhysAddr b

def OpenedChannel.driver (c : OpenedChannel) : Driver :=
  (DmaProxy.Session.opened c.pBdTable c.pBufferTable c.bufferPhysAddr).driver

def OpenedChannel.words (c : OpenedChannel) (bufferId i : Nat) : BitVec 32 :=
  c.memory (wordAddress c.bufferPhysAddr bufferId i)

def initialStack (numTransfers : Int) (channels : Side → OpenedChannel) : Stack where
  lane side :=
    { code := body cfg side (afterFill (bufferCount cfg side) 0 0)
      request := none
      driver := (channels side).driver
      descriptors := []
      memory := (channels side).memory }
  numTransfers := numTransfers
  stop := false

end Step

/-! ## What a thread has done to a buffer before it starts it -/

/-- `calls` are those of the round so far. The length stored is that of a transfer, a buffer is
started once its length is stored or its transfer before is finished, a word read is the first of
a finished buffer, and a word written lies in the bytes of a transfer or is the first. -/
def Readied (cfg : Config) : Op → List Op → Prop
  | .setLength _ length, _ => length = storedLength cfg
  | .startXfer b _, calls =>
    (∃ length, .setLength b length ∈ calls) ∨ ∃ count, .finishXfer b count ∈ calls
  | .readWord b i, calls => i = 0 ∧ ∃ count, .finishXfer b count ∈ calls
  | .writeWord _ i _, _ => i < max (wordCount cfg) 1
  | _, _ => True

def calling : Sem Op Answer (List Op) := fun e calls _ calls' => calls' = e :: calls

abbrev Readies {α : Type} (cfg : Config) (post : α → List Op → Prop) (p : Thread α)
    (calls : List Op) : Prop := Always Eq calling (Readied cfg) post p calls

section Readies

variable {cfg : Config} {α : Type} {post : α → List Op → Prop} {calls : List Op}

theorem readies_ask {e : Op} {rest : Answer e → Thread α} (hSafe : Readied cfg e calls)
    (hNext : ∀ answer, Readies cfg post (rest answer) (e :: calls)) :
    Readies cfg post (op e >>= rest) calls := by
  refine Always.ask_bind ?_
  rintro _ rfl
  refine ⟨hSafe, ?_⟩
  rintro answer _ rfl
  exact hNext answer

theorem readies_ret {value : α} (h : post value calls) : Readies cfg post (.ret value) calls := by
  rintro _ rfl
  exact h

/-- Calls that ask for nothing done before. -/
def Plain (cfg : Config) (e : Op) : Prop := ∀ calls, Readied cfg e calls

theorem readies_plain {p : Thread α} {rest : α → Thread Next} (hOnly : Only (Plain cfg) p)
    {last : Next → List Op → Prop}
    (hRest : ∀ value calls', calls ⊆ calls' → Readies cfg last (rest value) calls') :
    Readies cfg last (p >>= rest) calls := by
  apply Always.bind fun _ => rfl
  have hKeep : Readies cfg (fun _ calls' => calls ⊆ calls') p calls := by
    apply Always.of_invariant (I := (calls ⊆ ·)) _ _ _ hOnly (List.Subset.refl calls)
    · rintro _ _ hOld rfl
      exact hOld
    · rintro e s answer _ - hOld rfl
      exact List.subset_cons_of_subset e hOld
    · exact fun e s hPlain _ => hPlain s
  exact hKeep.mono (fun _ _ => id) hRest

theorem txWords_plain (bufferId : Nat) (counter : Int) :
    Only (Plain cfg) (txWords cfg bufferId counter) := by
  rw [txWords]
  apply only_ite
  · intro _
    apply Only.forM
    intro i hi
    exact (only_ask _).mpr fun _ => lt_max_of_lt_left (List.mem_range.mp hi)
  · exact fun _ => trivial

theorem txStop_plain (counter : Int) (stopInProgress : Bool) :
    Only (Plain cfg) (txStop cfg counter stopInProgress) := by
  refine (only_ask_bind _ _).mpr ⟨fun _ => trivial, fun stop => only_ite (fun _ => ?_) ?_⟩
  · exact (only_ask_bind _ _).mpr ⟨fun _ => trivial, fun _ => trivial⟩
  · exact fun _ => trivial

theorem txThread_readies (next : Next) :
    Readies cfg (fun _ _ => True) (txThread cfg next) calls := by
  cases next with
  | fill bufferId inProgressCount =>
    refine readies_ask rfl fun _ => readies_plain ?_ fun _ calls' hCalls => ?_
    · refine only_ite (fun _ => (only_ask _).mpr fun _ => ?_) fun _ => trivial
      exact lt_max_of_lt_right Nat.one_pos
    refine readies_ask (.inl ⟨_, hCalls List.mem_cons_self⟩) fun _ => ?_
    refine readies_ask trivial fun done => ?_
    split <;> exact readies_ret trivial
  | loop l =>
    refine readies_ask trivial fun status => readies_plain ?_ fun _ calls₁ hCalls₁ => ?_
    · exact only_ite (fun _ => (only_ask _).mpr fun _ => trivial) fun _ => trivial
    refine readies_ask trivial fun done => ?_
    split
    · exact readies_ret trivial
    refine readies_plain (txStop_plain _ _) fun stop calls₂ hCalls₂ => readies_ask trivial ?_
    intro full
    split
    · exact readies_ret trivial
    refine readies_plain (txWords_plain _ _) fun _ calls₃ hCalls₃ => ?_
    refine readies_ask (.inr ⟨l.inProgressCount, ?_⟩) fun _ => readies_ret trivial
    have hFinished := hCalls₂ (List.mem_cons_of_mem _ (hCalls₁ List.mem_cons_self))
    exact hCalls₃ (List.mem_cons_of_mem _ hFinished)
  | returned count => exact readies_ret trivial
  | exited => exact readies_ret trivial

theorem rxVerify_readies {b : Nat} {counter : Int} (h : ∃ count, Op.finishXfer b count ∈ calls)
    {rest : Thread Next} {last : Next → List Op → Prop}
    (hRest : ∀ calls', calls ⊆ calls' → Readies cfg last rest calls') :
    Readies cfg last (rxVerify cfg b counter >>= fun _ => rest) calls := by
  rw [rxVerify]
  split
  · rw [bind_assoc]
    refine readies_ask ⟨rfl, h⟩ fun data => ?_
    have hOne : calls ⊆ Op.readWord b 0 :: calls := List.subset_cons_self _ _
    split
    · exact readies_ask trivial fun _ => hRest _ (List.subset_cons_of_subset _ hOne)
    · exact hRest _ hOne
  · exact hRest _ (List.Subset.refl calls)

theorem rxThread_readies (next : Next) :
    Readies cfg (fun _ _ => True) (rxThread cfg next) calls := by
  cases next with
  | fill bufferId inProgressCount =>
    refine readies_ask rfl fun _ => readies_ask (.inl ⟨_, List.mem_cons_self⟩) fun _ => ?_
    refine readies_ask trivial fun done => ?_
    split <;> exact readies_ret trivial
  | loop l =>
    refine readies_ask trivial fun status => ?_
    split
    · exact readies_ask trivial fun _ => readies_ret trivial
    refine rxVerify_readies ⟨l.inProgressCount, List.mem_cons_self⟩ fun calls' hCalls => ?_
    refine readies_ask trivial fun done => ?_
    split
    · exact readies_ret trivial
    refine readies_ask trivial fun full => ?_
    split
    · exact readies_ret trivial
    refine readies_ask (.inr ⟨l.inProgressCount, ?_⟩) fun _ => readies_ret trivial
    exact List.mem_cons_of_mem _ (List.mem_cons_of_mem _ (hCalls List.mem_cons_self))
  | returned count => exact readies_ret trivial
  | exited => exact readies_ret trivial

theorem body_readies (side : Side) (next : Next) :
    Readies cfg (fun _ _ => True) (body cfg side next) calls := by
  cases side with
  | tx => exact txThread_readies next
  | rx => exact rxThread_readies next

end Readies

end SoftwarePrototypes.DmaProxyTest
