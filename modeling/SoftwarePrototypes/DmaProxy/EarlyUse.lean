import SoftwarePrototypes.DmaProxy.ResourceBalance
import SoftwarePrototypes.Interaction.Runs

/-! # Requests while probe is still at work

The device node of a channel is there before `create_channel` has set the fields that requests
use, and stays there when probe fails.
-/

namespace SoftwarePrototypes.DmaProxy

open Interaction Interaction.Prog Interaction.Runs

/-! ## A channel made ready -/

inductive Field where
  | direction
  | pBufferTable
  | bufferPhysAddr
  | dmaHandle (bd : Nat)
  deriving DecidableEq

def Store.sets : Store → Option (Nat × Field)
  | .direction c _ => some (c, .direction)
  | .pBufferTable c _ => some (c, .pBufferTable)
  | .bufferPhysAddr c _ => some (c, .bufferPhysAddr)
  | .dmaHandle c bd _ => some (c, .dmaHandle bd)
  | _ => none

def KernelCall.sets : KernelCall → Option (Nat × Field)
  | .store s => s.sets
  | _ => none

def Machine.HasSet (m : Machine) (channel : Nat) (field : Field) : Prop :=
  some (channel, field) ∈ m.stores.map Store.sets

def ProxyChannel.Valid (ch : ProxyChannel) : Prop :=
  ch.pBufferTable.isErrOrNull = false ∧
    ∀ bd < bufferCount, ch.dmaHandle bd = DmaProxy.dmaHandle ch.bufferPhysAddr bd

/-- `create_channel` has set every field that requests rely on, to the memory it allocated. -/
structure Ready (m : Machine) (channel : Nat) : Prop where
  direction : m.HasSet channel .direction
  pBufferTable : m.HasSet channel .pBufferTable
  bufferPhysAddr : m.HasSet channel .bufferPhysAddr
  dmaHandle : ∀ bd < bufferCount, m.HasSet channel (.dmaHandle bd)
  valid : (m.proxy.channel channel).Valid

/-- The channel that a call works on when it is one of `create_channel` from the creation of
the device node to the last store of a handle. -/
def KernelCall.completes : KernelCall → Option Nat
  | .store (.pProxyDevice c _) | .store (.direction c _) | .dmamAllocCoherent c
  | .store (.bufferPhysAddr c _) | .store (.pBufferTable c _) | .store (.dmaHandle c _ _) => some c
  | _ => none

/-! ## Probe among its users -/

inductive Entry where
  | ioctl | mmap
  deriving DecidableEq

/-- `probe` is what is left of `dma_proxy_probe`, `opened` the channels user space has opened.
A failing probe ends with `devres_release_all`, which frees the memory of the driver. -/
structure Bringup where
  machine : Machine
  probe : Setup Int
  opened : List Nat
  freed : Bool

inductive Event where
  | probe
  | localOpen (channel : Nat)
  | request (channel : Nat) (entry : Entry)
  | devresReleaseAll

def Bringup.step (k : Kernel) (w : Bringup) : Event → Option Bringup
  | .probe =>
    match w.probe with
    | .ret _ => none
    | .call e next =>
      some { w with machine := (k.perform e w.machine).2, probe := next (k.perform e w.machine).1 }
  | .localOpen channel =>
    if channel ∈ w.machine.nodes then some { w with opened := channel :: w.opened } else none
  | .request channel _ => if channel ∈ w.opened then some w else none
  | .devresReleaseAll =>
    match w.probe with
    | .ret rc => if rc ≠ 0 ∧ w.freed = false then some { w with freed := true } else none
    | .call _ _ => none

def Bringup.start (k : Kernel) (internalTest : Bool) : Bringup :=
  ⟨k.booted, dmaProxyProbe internalTest, [], false⟩

/-- Whenever a request runs on a channel, the channel is ready and its memory still there. -/
def RequestsReady (w : Bringup) : Event → Prop
  | .request channel _ => channel ∈ w.opened → w.freed = false ∧ Ready w.machine channel
  | _ => True

/-- No request comes between the creation of its device node and the last store of a handle, none
after the buffers of its channel were refused, and none once a failed probe has been cleaned up. -/
def Timely (k : Kernel) (w : Bringup) : Event → Prop
  | .request channel _ => channel ∈ w.opened → w.freed = false ∧
      (k.answer (.dmamAllocCoherent channel)).1.isErrOrNull = false ∧
      ∀ e ∈ w.probe.head, e.completes ≠ some channel
  | _ => True

instance (m : Machine) (channel : Nat) (field : Field) : Decidable (m.HasSet channel field) :=
  inferInstanceAs (Decidable (_ ∈ _))

instance (ch : ProxyChannel) : Decidable ch.Valid := inferInstanceAs (Decidable (_ ∧ _))

instance (m : Machine) (channel : Nat) : Decidable (Ready m channel) :=
  decidable_of_iff (m.HasSet channel .direction ∧ m.HasSet channel .pBufferTable ∧
      m.HasSet channel .bufferPhysAddr ∧ (∀ bd < bufferCount, m.HasSet channel (.dmaHandle bd)) ∧
      (m.proxy.channel channel).Valid)
    ⟨fun ⟨h₁, h₂, h₃, h₄, h₅⟩ => ⟨h₁, h₂, h₃, h₄, h₅⟩,
      fun ⟨h₁, h₂, h₃, h₄, h₅⟩ => ⟨h₁, h₂, h₃, h₄, h₅⟩⟩

instance (w : Bringup) : (event : Event) → Decidable (RequestsReady w event)
  | .request channel _ => inferInstanceAs (Decidable (channel ∈ w.opened → _ ∧ _))
  | .probe | .localOpen _ | .devresReleaseAll => inferInstanceAs (Decidable True)

/-! ## What one call changes -/

theorem hasSet_after (m : Machine) (e : KernelCall) (answer : KernelAnswer e) (channel : Nat)
    (field : Field) : (m.after e answer).HasSet channel field ↔
      m.HasSet channel field ∨ e.sets = some (channel, field) := by
  cases e with
  | store s => simp [Machine.HasSet, Machine.after, KernelCall.sets, eq_comm]
  | _ => exact (or_iff_left (by simp [KernelCall.sets])).symm

theorem nodes_after (m : Machine) (e : KernelCall) (answer : KernelAnswer e) :
    (m.after e answer).nodes = m.nodes ++ e.creates answer := by
  cases e with
  | store s => exact (List.append_nil _).symm
  | _ => rfl

theorem valid_updateChannel {p : Proxy} {c channel : Nat} {f : ProxyChannel → ProxyChannel}
    (hf : c = channel → ∀ ch, (f ch).Valid ↔ ch.Valid) :
    ((p.updateChannel c f).channel channel).Valid ↔ (p.channel channel).Valid := by
  by_cases h : channel = c
  · subst h
    simp [Proxy.updateChannel, hf rfl]
  · simp [Proxy.updateChannel, h]

theorem valid_after {m : Machine} {e : KernelCall} {answer : KernelAnswer e} {channel : Nat}
    (hCall : ∀ field, e.sets ≠ some (channel, field)) :
    ((m.after e answer).proxy.channel channel).Valid ↔ (m.proxy.channel channel).Valid := by
  cases e with
  | store s =>
    cases s with
    | channelCount | pChannels | names | devNode | pClass => rfl
    | pProxyDevice | cdevDev | pDmaChannel | bdindex =>
      simp only [Machine.after, Proxy.store]
      apply valid_updateChannel
      exact fun _ _ => Iff.rfl
    | direction | pBufferTable | bufferPhysAddr | dmaHandle =>
      simp only [Machine.after, Proxy.store]
      apply valid_updateChannel
      rintro rfl
      exact absurd rfl (hCall _)
  | _ => rfl

theorem ready_after {m : Machine} {e : KernelCall} {answer : KernelAnswer e} {channel : Nat}
    (hCall : ∀ field, e.sets ≠ some (channel, field)) (h : Ready m channel) :
    Ready (m.after e answer) channel where
  direction := (hasSet_after _ _ _ _ _).mpr (.inl h.direction)
  pBufferTable := (hasSet_after _ _ _ _ _).mpr (.inl h.pBufferTable)
  bufferPhysAddr := (hasSet_after _ _ _ _ _).mpr (.inl h.bufferPhysAddr)
  dmaHandle := fun bd hBd => (hasSet_after _ _ _ _ _).mpr (.inl (h.dmaHandle bd hBd))
  valid := (valid_after hCall).mpr h.valid

/-! ## Where probe stands with one channel -/

abbrev Granted (k : Kernel) (channel : Nat) : Prop :=
  (k.answer (.dmamAllocCoherent channel)).1.isErrOrNull = false

/-- The channels with a node are ready when their buffers were granted, but for the one that the
call works on. -/
def ReadyBut (k : Kernel) (e : KernelCall) (m : Machine) : Prop :=
  ∀ channel ∈ m.nodes, Ready m channel ↔ Granted k channel ∧ e.completes ≠ some channel

def AllReady (k : Kernel) (m : Machine) : Prop :=
  ∀ channel ∈ m.nodes, Ready m channel ↔ Granted k channel

/-- Channels up to `channel` may have a node; those below it that do are ready. Nothing is set
from `fresh` on. -/
structure Below (k : Kernel) (channel fresh : Nat) (m : Machine) : Prop where
  nodes : ∀ c ∈ m.nodes, c < fresh
  ready : ∀ c ∈ m.nodes, c < channel → Ready m c ∧ Granted k c
  unset : ∀ c, fresh ≤ c → ∀ field, ¬ m.HasSet c field

abbrev Before (k : Kernel) (channel : Nat) (m : Machine) : Prop := Below k channel channel m

/-- Probe works on `channel`, whose node may be there and whose handles are not set. -/
structure During (k : Kernel) (channel : Nat) (m : Machine) : Prop
    extends Below k channel (channel + 1) m where
  unsetHandles : ∀ bd, ¬ m.HasSet channel (.dmaHandle bd)

section Channel

variable {k : Kernel} {channel fresh : Nat} {m : Machine} {e : KernelCall}
  {answer : KernelAnswer e}

theorem Below.after (h : Below k channel fresh m)
    (hCreates : ∀ c ∈ e.creates answer, c < fresh ∧ channel ≤ c)
    (hSets : ∀ c field, e.sets = some (c, field) → channel ≤ c ∧ c < fresh) :
    Below k channel fresh (m.after e answer) := by
  constructor
  · intro c hc
    rw [nodes_after, List.mem_append] at hc
    rcases hc with hOld | hNew
    · exact h.nodes c hOld
    · exact (hCreates c hNew).1
  · intro c hc hLow
    rw [nodes_after, List.mem_append] at hc
    rcases hc with hOld | hNew
    · obtain ⟨hReady, hGranted⟩ := h.ready c hOld hLow
      refine ⟨ready_after (fun field hField => ?_) hReady, hGranted⟩
      have := (hSets c field hField).1
      omega
    · have := (hCreates c hNew).2
      omega
  · intro c hc field hSet
    rcases (hasSet_after _ _ _ _ _).mp hSet with hOld | hNew
    · exact h.unset c hc field hOld
    · have := (hSets c field hNew).2
      omega

theorem Before.readyBut (h : Before k channel m)
    (hCall : ∀ c < channel, e.completes ≠ some c) : ReadyBut k e m := by
  intro c hc
  obtain ⟨hReady, hGranted⟩ := h.ready c hc (h.nodes c hc)
  exact iff_of_true hReady ⟨hGranted, hCall c (h.nodes c hc)⟩

theorem Before.allReady (h : Before k channel m) : AllReady k m := by
  intro c hc
  obtain ⟨hReady, hGranted⟩ := h.ready c hc (h.nodes c hc)
  exact iff_of_true hReady hGranted

/-- While a call completes the channel, the channel must not be ready yet. -/
theorem Below.readyBut (h : Below k channel (channel + 1) m) (hUnready : ¬ Ready m channel)
    (hCall : e.completes = some channel) : ReadyBut k e m := by
  intro c hc
  rcases Nat.lt_succ_iff_lt_or_eq.mp (h.nodes c hc) with hLow | rfl
  · obtain ⟨hReady, hGranted⟩ := h.ready c hc hLow
    refine iff_of_true hReady ⟨hGranted, fun hSame => ?_⟩
    rw [hCall] at hSame
    exact absurd (Option.some.inj hSame) (by omega)
  · exact iff_of_false hUnready fun hBoth => hBoth.2 hCall

theorem Below.allReady (h : Below k channel (channel + 1) m)
    (hChannel : Ready m channel ↔ Granted k channel) : AllReady k m := by
  intro c hc
  rcases Nat.lt_succ_iff_lt_or_eq.mp (h.nodes c hc) with hLow | rfl
  · obtain ⟨hReady, hGranted⟩ := h.ready c hc hLow
    exact iff_of_true hReady hGranted
  · exact hChannel

theorem During.not_ready (h : During k channel m) : ¬ Ready m channel :=
  fun hReady => h.unsetHandles 0 (hReady.dmaHandle 0 (by decide))

theorem During.readyBut (h : During k channel m) (hCall : e.completes = some channel) :
    ReadyBut k e m := h.toBelow.readyBut h.not_ready hCall

theorem Before.during (h : Before k channel m) : During k channel m where
  nodes := fun c hc => Nat.lt_succ_of_lt (h.nodes c hc)
  ready := h.ready
  unset := fun c hc => h.unset c (Nat.le_of_succ_le hc)
  unsetHandles := fun _ => h.unset channel le_rfl _

theorem During.after (h : During k channel m) (e : KernelCall) (answer : KernelAnswer e)
    (hCreates : ∀ c ∈ e.creates answer, c = channel)
    (hSets : ∀ c field, e.sets = some (c, field) → c = channel ∧ ∀ bd, field ≠ .dmaHandle bd) :
    During k channel (m.after e answer) := by
  refine ⟨h.toBelow.after ?_ ?_, ?_⟩
  · intro c hc
    have := hCreates c hc
    omega
  · intro c field hField
    have := (hSets c field hField).1
    omega
  · intro bd hSet
    rcases (hasSet_after _ _ _ _ _).mp hSet with hOld | hNew
    · exact h.unsetHandles bd hOld
    · exact (hSets _ _ hNew).2 bd rfl

end Channel

/-! ## Probe step by step -/

def answers (k : Kernel) : Sem KernelCall KernelAnswer Machine := fun e m answer m' =>
  answer = k.answer e ∧ m' = m.after e answer

abbrev Watched {α : Type} (k : Kernel) (post : α → Machine → Prop) (p : Setup α) (m : Machine) :
    Prop := Always Eq (answers k) (ReadyBut k) post p m

section Walk

variable {k : Kernel} {channel : Nat} {m : Machine}

theorem watched_ask {α : Type} {e : KernelCall} {rest : KernelAnswer e → Setup α}
    {post : α → Machine → Prop} (hSafe : ReadyBut k e m)
    (hRest : Watched k post (rest (k.answer e)) (m.after e (k.answer e))) :
    Watched k post (kernel e >>= rest) m := by
  refine Always.ask_bind ?_
  rintro _ rfl
  refine ⟨hSafe, ?_⟩
  rintro _ _ ⟨rfl, rfl⟩
  exact hRest

theorem watched_ret {α : Type} {value : α} {post : α → Machine → Prop} (h : post value m) :
    Watched k post (pure value) m := by
  rintro _ rfl
  exact h

theorem watched_plain {α : Type} {e : KernelCall} {rest : KernelAnswer e → Setup α}
    {post : α → Machine → Prop} (h : Before k channel m) (hSets : e.sets = none)
    (hCreates : e.creates (k.answer e) = []) (hCompletes : ∀ c < channel, e.completes ≠ some c)
    (hRest : Before k channel (m.after e (k.answer e)) →
      Watched k post (rest (k.answer e)) (m.after e (k.answer e))) :
    Watched k post (kernel e >>= rest) m := by
  apply watched_ask (h.readyBut hCompletes)
  apply hRest
  apply h.after
  · simp [hCreates]
  · simp [hSets]

theorem cdeviceInit_watched {pClass : Ptr} {devNode : Dev} (h : Before k channel m) :
    Watched k (fun rc m' => (rc = 0 → During k channel m') ∧ (rc ≠ 0 → Before k channel m'))
      (cdeviceInit pClass devNode channel) m := by
  rw [cdeviceInit]
  apply watched_plain h rfl rfl (by simp [KernelCall.completes])
  intro h₁
  apply watched_plain h₁ rfl rfl (by simp [KernelCall.completes])
  intro h₂
  apply watched_plain h₂ rfl rfl (by simp [KernelCall.completes])
  intro h₃
  split
  · rename_i hAdded
    exact watched_ret ⟨fun hZero => absurd hZero hAdded, fun _ => h₃⟩
  · by_cases hDevice : (k.answer
        (.deviceCreate pClass (mkdev devNode.major channel) channel)).isErrOrNull = true
    · have hNone : (KernelCall.deviceCreate pClass (mkdev devNode.major channel) channel).creates
          (k.answer _) = [] := by
        cases hPtr : k.answer (.deviceCreate pClass (mkdev devNode.major channel) channel) with
        | obj id =>
          rw [hPtr] at hDevice
          cases hDevice
        | _ => rfl
      apply watched_plain h₃ rfl hNone (by simp [KernelCall.completes])
      intro h₄
      rw [if_pos hDevice]
      apply watched_plain h₄ rfl rfl
      · intro c hLow hSame
        exact absurd (Option.some.inj hSame) hLow.ne'
      intro h₅
      apply watched_plain h₅ rfl rfl (by simp [KernelCall.completes])
      intro h₆
      refine watched_ret ⟨fun hZero => absurd hZero ?_, fun _ => h₆⟩
      exact Ptr.failure_ne_zero hDevice (by decide)
    · obtain ⟨id, hId⟩ := Ptr.exists_obj (Bool.eq_false_iff.mpr hDevice)
      apply watched_ask (h₃.readyBut (by simp [KernelCall.completes]))
      have h₄ := h₃.during.after (.deviceCreate pClass (mkdev devNode.major channel) channel)
        (k.answer _) (by simp [hId, KernelCall.creates]) (by simp [KernelCall.sets])
      apply watched_ask (h₄.readyBut rfl)
      rw [if_neg hDevice]
      refine watched_ret ⟨fun _ => ?_, fun hNe => absurd rfl hNe⟩
      exact h₄.after _ _ (by simp [KernelCall.creates]) (by simp [KernelCall.sets, Store.sets])

structure Handling (k : Kernel) (channel physAddr bd : Nat) (m : Machine) : Prop
    extends Below k channel (channel + 1) m where
  direction : m.HasSet channel .direction
  pBufferTable : m.HasSet channel .pBufferTable
  bufferPhysAddr : m.HasSet channel .bufferPhysAddr
  table : (m.proxy.channel channel).pBufferTable.isErrOrNull = false
  address : (m.proxy.channel channel).bufferPhysAddr = physAddr
  handles : ∀ i < bd, m.HasSet channel (.dmaHandle i) ∧
    (m.proxy.channel channel).dmaHandle i = dmaHandle physAddr i
  unsetHandles : ∀ i, bd ≤ i → ¬ m.HasSet channel (.dmaHandle i)

theorem Handling.not_ready {physAddr bd : Nat} (h : Handling k channel physAddr bd m)
    (hBd : bd < bufferCount) : ¬ Ready m channel :=
  fun hReady => h.unsetHandles bd le_rfl (hReady.dmaHandle bd hBd)

theorem Handling.complete {physAddr : Nat} (h : Handling k channel physAddr bufferCount m) :
    Ready m channel where
  direction := h.direction
  pBufferTable := h.pBufferTable
  bufferPhysAddr := h.bufferPhysAddr
  dmaHandle := fun bd hBd => (h.handles bd hBd).1
  valid := ⟨h.table, fun bd hBd => by rw [h.address]; exact (h.handles bd hBd).2⟩

theorem Handling.store {physAddr bd : Nat} (h : Handling k channel physAddr bd m) :
    Handling k channel physAddr (bd + 1)
      (m.after (.store (.dmaHandle channel bd (dmaHandle physAddr bd))) ()) := by
  have hOld : ∀ field, m.HasSet channel field →
      (m.after (.store (.dmaHandle channel bd (dmaHandle physAddr bd))) ()).HasSet channel field :=
    fun field hSet => (hasSet_after _ _ _ _ _).mpr (.inl hSet)
  refine ⟨h.toBelow.after (by simp [KernelCall.creates]) ?_, hOld _ h.direction,
    hOld _ h.pBufferTable, hOld _ h.bufferPhysAddr, ?_, ?_, ?_, ?_⟩
  · intro c field hField
    simp only [KernelCall.sets, Store.sets, Option.some.injEq, Prod.mk.injEq] at hField
    omega
  · simpa [Machine.after, Proxy.store, Proxy.updateChannel] using h.table
  · simpa [Machine.after, Proxy.store, Proxy.updateChannel] using h.address
  · intro i hi
    rcases Nat.lt_succ_iff_lt_or_eq.mp hi with hLow | rfl
    · refine ⟨hOld _ (h.handles i hLow).1, ?_⟩
      simpa [Machine.after, Proxy.store, Proxy.updateChannel, hLow.ne] using (h.handles i hLow).2
    · refine ⟨(hasSet_after _ _ _ _ _).mpr (.inr rfl), ?_⟩
      simp [Machine.after, Proxy.store, Proxy.updateChannel]
  · intro i hi hSet
    rcases (hasSet_after _ _ _ _ _).mp hSet with hBefore | hNew
    · exact h.unsetHandles i (by omega) hBefore
    · simp only [KernelCall.sets, Store.sets, Option.some.injEq, Prod.mk.injEq,
        Field.dmaHandle.injEq] at hNew
      omega

theorem storeHandles_watched {physAddr : Nat} (h : Handling k channel physAddr 0 m) :
    Watched k (fun _ m' => Handling k channel physAddr bufferCount m')
      (storeHandles channel physAddr) m := by
  have hFrom : ∀ (count bd : Nat) (m : Machine), bd + count = bufferCount →
      Handling k channel physAddr bd m →
        Watched k (fun _ m' => Handling k channel physAddr bufferCount m')
          ((List.range' bd count).forM fun bd =>
            store (.dmaHandle channel bd (dmaHandle physAddr bd))) m := by
    intro count
    induction count with
    | zero =>
      intro bd m hSum hHandling
      refine watched_ret ?_
      rwa [← hSum]
    | succ count ih =>
      intro bd m hSum hHandling
      apply watched_ask (hHandling.toBelow.readyBut (hHandling.not_ready (by omega)) rfl)
      exact ih (bd + 1) _ (by omega) hHandling.store
  rw [storeHandles, List.range_eq_range']
  exact hFrom bufferCount 0 m (Nat.zero_add _) h

theorem Below.next (h : Below k channel (channel + 1) m) (hReady : Ready m channel)
    (hGranted : Granted k channel) : Before k (channel + 1) m where
  nodes := h.nodes
  ready := by
    intro c hc hLow
    rcases Nat.lt_succ_iff_lt_or_eq.mp hLow with hOld | rfl
    · exact h.ready c hc hOld
    · exact ⟨hReady, hGranted⟩
  unset := h.unset

theorem allocateBuffers_watched {direction : Direction} (h : During k channel m) :
    Watched k (fun rc m' => (rc = 0 → Before k (channel + 1) m') ∧ (rc ≠ 0 → AllReady k m'))
      (allocateBuffers channel direction) m := by
  rw [allocateBuffers]
  apply watched_ask (h.readyBut rfl)
  have h₁ := h.after (.store (.direction channel direction)) () (by simp [KernelCall.creates])
    (by simp [KernelCall.sets, Store.sets])
  apply watched_ask (h₁.readyBut rfl)
  have h₂ := h₁.after (.dmamAllocCoherent channel) (k.answer _)
    (by simp [KernelCall.creates]) (by simp [KernelCall.sets])
  apply watched_ask (h₂.readyBut rfl)
  have h₃ := h₂.after
    (.store (.bufferPhysAddr channel (k.answer (.dmamAllocCoherent channel)).2)) ()
    (by simp [KernelCall.creates]) (by simp [KernelCall.sets, Store.sets])
  apply watched_ask (h₃.readyBut rfl)
  have h₄ := h₃.after
    (.store (.pBufferTable channel (k.answer (.dmamAllocCoherent channel)).1)) ()
    (by simp [KernelCall.creates]) (by simp [KernelCall.sets, Store.sets])
  split
  · rename_i hTable
    refine watched_ret ⟨fun hZero => absurd hZero (Ptr.failure_ne_zero hTable (by decide)), ?_⟩
    intro _
    exact h₄.toBelow.allReady (iff_of_false h₄.not_ready (by simp [Granted, hTable]))
  · rename_i hTable
    have hGranted : Granted k channel := by simpa using hTable
    apply Always.bind fun _ => rfl
    refine (storeHandles_watched ⟨h₄.toBelow, ?_, ?_, ?_, ?_, ?_, by simp, fun i _ => ?_⟩).mono
      (fun _ _ => id) ?_
    · simp [hasSet_after, KernelCall.sets, Store.sets]
    · simp [hasSet_after, KernelCall.sets, Store.sets]
    · simp [hasSet_after, KernelCall.sets, Store.sets]
    · simpa [Machine.after, Proxy.store, Proxy.updateChannel] using hGranted
    · simp [Machine.after, Proxy.store, Proxy.updateChannel]
    · exact h₄.unsetHandles i
    · intro _ m' hHandled
      have hNext := hHandled.toBelow.next hHandled.complete hGranted
      apply watched_plain hNext rfl rfl (by simp [KernelCall.completes])
      exact fun hLast => watched_ret ⟨fun _ => hLast, fun hNe => absurd rfl hNe⟩

theorem createChannel_watched {pClass : Ptr} {devNode : Dev} {direction : Direction}
    (h : Before k channel m) :
    Watched k (fun rc m' => (rc = 0 → Before k (channel + 1) m') ∧ (rc ≠ 0 → AllReady k m'))
      (createChannel pClass devNode channel direction) m := by
  rw [createChannel]
  apply watched_plain h rfl rfl (by simp [KernelCall.completes])
  intro h₁
  apply watched_plain h₁ rfl rfl (by simp [KernelCall.completes])
  intro h₂
  split
  · rename_i hChan
    exact watched_ret ⟨fun hZero => absurd hZero (Ptr.failure_ne_zero hChan (by decide)),
      fun _ => h₂.allReady⟩
  · apply Always.bind fun _ => rfl
    refine (cdeviceInit_watched h₂).mono (fun _ _ => id) fun rc m' hInit => ?_
    split
    · rename_i hRc
      exact watched_ret ⟨fun hZero => absurd hZero hRc, fun _ => (hInit.2 hRc).allReady⟩
    · rename_i hRc
      exact allocateBuffers_watched (hInit.1 (not_not.mp hRc))

theorem createChannels_watched {pClass : Ptr} {devNode : Dev} (remaining : Nat)
    (h : Before k channel m) :
    Watched k (fun rc m' => (rc = 0 → Before k (channel + remaining) m') ∧
        (rc ≠ 0 → AllReady k m'))
      (createChannels pClass devNode remaining channel) m := by
  induction remaining generalizing channel m with
  | zero => exact watched_ret ⟨fun _ => h, fun hNe => absurd rfl hNe⟩
  | succ remaining ih =>
    rw [createChannels]
    apply watched_plain h rfl rfl (by simp [KernelCall.completes])
    intro h₁
    apply Always.bind fun _ => rfl
    refine (createChannel_watched h₁).mono (fun _ _ => id) fun rc m' hCreated => ?_
    split
    · rename_i hRc
      exact watched_ret ⟨fun hZero => absurd hZero hRc, fun _ => hCreated.2 hRc⟩
    · rename_i hRc
      rw [← Nat.succ_add_eq_add_succ]
      exact ih (hCreated.1 (not_not.mp hRc))

theorem probeChannels_watched {internalTest : Bool} {channelCount : Int} {pClass : Ptr}
    (h : Before k 0 m) :
    Watched k (fun _ m' => AllReady k m') (probeChannels internalTest channelCount pClass) m := by
  rw [probeChannels]
  apply watched_plain h rfl rfl (by simp [KernelCall.completes])
  cases k.answer (.allocChrdevRegion channelCount) with
  | error e => exact fun h₁ => watched_ret h₁.allReady
  | ok region =>
    intro h₁
    apply watched_plain h₁ rfl rfl (by simp [KernelCall.completes])
    intro h₂
    apply Always.bind fun _ => rfl
    refine (createChannels_watched channelCount.toNat h₂).mono (fun _ _ => id) ?_
    intro rc m' hCreated
    split
    · rename_i hRc
      exact watched_ret (hCreated.2 hRc)
    · rename_i hRc
      have hLast := hCreated.1 (not_not.mp hRc)
      cases internalTest with
      | false => exact watched_ret hLast.allReady
      | true =>
        apply watched_plain hLast rfl rfl (by simp [KernelCall.completes])
        exact fun hTested => watched_ret hTested.allReady

theorem probeTables_watched {internalTest : Bool} {channelCount : Int} (h : Before k 0 m) :
    Watched k (fun _ m' => AllReady k m') (probeTables internalTest channelCount) m := by
  rw [probeTables]
  apply watched_plain h rfl rfl (by simp [KernelCall.completes])
  intro h₁
  apply watched_plain h₁ rfl rfl (by simp [KernelCall.completes])
  intro h₂
  split
  · exact watched_ret h₂.allReady
  · apply watched_plain h₂ rfl rfl (by simp [KernelCall.completes])
    intro h₃
    split
    · exact watched_ret h₃.allReady
    · apply watched_plain h₃ rfl rfl (by simp [KernelCall.completes])
      intro h₄
      apply watched_plain h₄ rfl rfl (by simp [KernelCall.completes])
      intro h₅
      split
      · exact watched_ret h₅.allReady
      · rw [probeClass]
        apply watched_plain h₅ rfl rfl (by simp [KernelCall.completes])
        intro h₆
        apply watched_plain h₆ rfl rfl (by simp [KernelCall.completes])
        intro h₇
        split
        · exact watched_ret h₇.allReady
        · exact probeChannels_watched h₇

end Walk

theorem dmaProxyProbe_watched (k : Kernel) (internalTest : Bool) :
    Watched k (fun _ m => AllReady k m) (dmaProxyProbe internalTest) k.booted := by
  have h : Before k 0 k.booted :=
    ⟨fun c hc => absurd hc List.not_mem_nil, fun c hc => absurd hc List.not_mem_nil,
      fun c _ field => List.not_mem_nil⟩
  rw [dmaProxyProbe]
  apply watched_plain h rfl rfl (by simp [KernelCall.completes])
  intro h₁
  split
  · exact watched_ret h₁.allReady
  · apply watched_plain h₁ rfl rfl (by simp [KernelCall.completes])
    intro h₂
    apply watched_plain h₂ rfl rfl (by simp [KernelCall.completes])
    intro h₃
    apply watched_plain h₃ rfl rfl (by simp [KernelCall.completes])
    intro h₄
    split
    · exact watched_ret h₄.allReady
    · exact probeTables_watched h₄

/-! ## Probe among its users, run by run -/

structure Bringup.Inv (k : Kernel) (w : Bringup) : Prop where
  opened : ∀ c ∈ w.opened, c ∈ w.machine.nodes
  watched : Watched k (fun _ m => AllReady k m) w.probe w.machine

theorem bringup_inv_step {k : Kernel} {w next : Bringup} {event : Event} (h : w.Inv k)
    (hStep : w.step k event = some next) : next.Inv k := by
  cases event with
  | probe =>
    obtain ⟨m, probe, opened, freed⟩ := w
    cases probe with
    | ret rc => cases hStep
    | call e rest =>
      cases hStep
      refine ⟨fun c hc => ?_, ?_⟩
      · simp only [perform_snd, nodes_after, List.mem_append]
        exact .inl (h.opened c hc)
      · simp only [perform_fst, perform_snd]
        exact h.watched.answered (fun _ => rfl) ⟨rfl, rfl⟩
  | localOpen channel =>
    simp only [Bringup.step] at hStep
    split at hStep <;> cases hStep
    rename_i hNode
    refine ⟨fun c hc => ?_, h.watched⟩
    rcases List.mem_cons.mp hc with rfl | hOld
    · exact hNode
    · exact h.opened c hOld
  | request channel entry =>
    simp only [Bringup.step] at hStep
    split at hStep <;> cases hStep
    exact h
  | devresReleaseAll =>
    simp only [Bringup.step] at hStep
    split at hStep
    · split at hStep <;> cases hStep
      exact ⟨h.opened, h.watched⟩
    · cases hStep

theorem bringup_inv_iff {k : Kernel} {w : Bringup} (event : Event) (h : w.Inv k) :
    RequestsReady w event ↔ Timely k w event := by
  cases event with
  | request channel entry =>
    refine imp_congr_right fun hOpened => and_congr_right fun _ => ?_
    have hNode := h.opened channel hOpened
    obtain ⟨m, probe, opened, freed⟩ := w
    cases probe with
    | ret rc =>
      have hReady : AllReady k m := h.watched m rfl
      simp [hReady channel hNode, head]
    | call e rest =>
      have hReady : ReadyBut k e m := h.watched.safe_call fun _ => rfl
      simp [hReady channel hNode, head]
  | _ => exact Iff.rfl

/-- In every interleaving of probe with its users, all requests find their channel ready exactly
when all of them are timely. -/
theorem requests_ready_iff (k : Kernel) (internalTest : Bool) (events : List Event) :
    Along (Bringup.step k) RequestsReady (.start k internalTest) events ↔
      Along (Bringup.step k) (Timely k) (.start k internalTest) events := by
  have hStart : (Bringup.start k internalTest).Inv k :=
    ⟨fun c hc => absurd hc List.not_mem_nil, dmaProxyProbe_watched k internalTest⟩
  constructor
  · apply Along.of_invariant (I := Bringup.Inv k) _ _ hStart
    · exact fun w event next h _ hStep => bringup_inv_step h hStep
    · exact fun w event h => (bringup_inv_iff event h).mp
  · apply Along.of_invariant (I := Bringup.Inv k) _ _ hStart
    · exact fun w event next h _ hStep => bringup_inv_step h hStep
    · exact fun w event h => (bringup_inv_iff event h).mpr

/-- Right after `device_create` the node can be opened, and neither an `ioctl` nor an `mmap` on it
finds the channel ready. -/
theorem requests_not_ready :
    ¬ Along (Bringup.step (benchKernel 1 false .null)) RequestsReady
        (.start (benchKernel 1 false .null) false)
        (List.replicate 20 .probe ++ [.localOpen 0, .request 0 .ioctl]) ∧
      ¬ Along (Bringup.step (benchKernel 1 false .null)) RequestsReady
        (.start (benchKernel 1 false .null) false)
        (List.replicate 20 .probe ++ [.localOpen 0, .request 0 .mmap]) := by
  constructor <;> decide

end SoftwarePrototypes.DmaProxy
