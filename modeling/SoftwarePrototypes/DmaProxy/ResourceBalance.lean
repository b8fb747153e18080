import SoftwarePrototypes.DmaProxy.Probe

/-! # What probe acquires and what is released

A failing probe releases nothing but a character device, and a probe that finds no channel
succeeds before the fields that remove uses are set.
-/

namespace SoftwarePrototypes.DmaProxy

open Interaction Interaction.Prog

/-! ## The two laws of a kernel -/

/-- A failing probe has released all it acquired, and after a successful one remove releases
each resource once and no other. -/
def Settled (k : Kernel) (probed : Int × Machine) : Prop :=
  (probed.1 ≠ 0 → probed.2.released.Perm probed.2.acquired) ∧
    (probed.1 = 0 →
      let removed := (exec k.perform (dmaProxyRemove probed.2.proxy) probed.2).2
      removed.released.Perm removed.acquired)

def Balanced (k : Kernel) (internalTest : Bool) : Prop :=
  Settled k (exec k.perform (dmaProxyProbe internalTest) k.booted)

instance (k : Kernel) (probed : Int × Machine) : Decidable (Settled k probed) :=
  inferInstanceAs (Decidable (_ ∧ _))

instance (k : Kernel) (internalTest : Bool) : Decidable (Balanced k internalTest) :=
  inferInstanceAs (Decidable (Settled _ _))

/-- Every kernel call of `create_channel` succeeds. -/
structure ChannelUp (k : Kernel) (pClass : Ptr) (devNode : Dev) (channel : Nat) : Prop where
  chan : (k.answer (.dmaRequestChan channel)).isErrOrNull = false
  added : rcOf (k.answer (.cdevAdd channel (mkdev devNode.major channel))) = 0
  device : (k.answer (.deviceCreate pClass (mkdev devNode.major channel) channel)).isErrOrNull =
    false
  table : (k.answer (.dmamAllocCoherent channel)).1.isErrOrNull = false

/-- Once there is a class, every further call of probe succeeds. -/
def AllUp (k : Kernel) (channelCount : Int) (pClass : Ptr) : Prop :=
  ∃ region, k.answer (.allocChrdevRegion channelCount) = .ok region ∧
    ∀ channel < channelCount.toNat, ChannelUp k pClass region.dev channel

/-- The fields that remove uses happen to hold nothing it would release. -/
def HarmlessGarbage (k : Kernel) : Prop :=
  k.garbage.pClass.isErrOrNull = true ∧ regionOf k.garbage.devNode (k.answer .countNames) = []

/-- With some channels found, probe fails before it has a class or brings all channels up. -/
def ClassLast (k : Kernel) (channelCount : Int) : Prop :=
  (k.answer (.devmKmallocArray channelCount)).isErrOrNull = true ∨
    k.answer (.readNames channelCount) < 0 ∨
    (k.answer (.devmKmallocChannels channelCount)).isErrOrNull = true ∨
    (k.answer .classCreate).isErrOrNull = true ∨
    AllUp k channelCount (k.answer .classCreate)

/-- Probe fails before it has a class, or finds no channel over harmless memory, or brings all
channels up. -/
def AllOrNothing (k : Kernel) : Prop :=
  (k.answer .devmKmallocProxy).isErrOrNull = true ∨
    (k.answer .countNames ≤ 0 ∧ HarmlessGarbage k) ∨
    (0 < k.answer .countNames ∧ ClassLast k (k.answer .countNames))

/-! ## One channel -/

/-- The fields of a channel that remove uses. -/
def ProxyChannel.held (ch : ProxyChannel) : Ptr × Dev × Ptr :=
  (ch.pProxyDevice, ch.cdevDev, ch.pDmaChannel)

/-- Nothing that remove uses has changed, and no resource has come or gone. -/
structure SameHeld (m m' : Machine) : Prop where
  acquired : m'.acquired = m.acquired
  released : m'.released = m.released
  channelCount : m'.proxy.channelCount = m.proxy.channelCount
  pClass : m'.proxy.pClass = m.proxy.pClass
  devNode : m'.proxy.devNode = m.proxy.devNode
  held : ∀ c, (m'.proxy.channel c).held = (m.proxy.channel c).held

/-- The calls that leave alone what remove uses. -/
def KernelCall.Neutral : KernelCall → Prop
  | .nameHasRx _ | .test | .dmamAllocCoherent _ | .store (.direction _ _)
  | .store (.bufferPhysAddr _ _) | .store (.pBufferTable _ _) | .store (.dmaHandle _ _ _)
  | .store (.bdindex _ _) => True
  | _ => False

theorem held_updateChannel {p : Proxy} {c : Nat} {f : ProxyChannel → ProxyChannel}
    (hf : ∀ ch, (f ch).held = ch.held) (c' : Nat) :
    ((p.updateChannel c f).channel c').held = (p.channel c').held := by
  by_cases h : c' = c
  · subst h
    simp [Proxy.updateChannel, hf]
  · simp [Proxy.updateChannel, h]

theorem sameHeld_perform {k : Kernel} {e : KernelCall} {m m' : Machine} (h : SameHeld m m')
    (hCall : e.Neutral) : SameHeld m (k.perform e m').2 := by
  cases e with
  | nameHasRx _ | test | dmamAllocCoherent _ =>
    refine ⟨?_, ?_, h.channelCount, h.pClass, h.devNode, h.held⟩
    · rw [perform_snd, after_acquired]
      exact (List.append_nil _).trans h.acquired
    · rw [perform_snd, after_released]
      exact (List.append_nil _).trans h.released
  | store s =>
    cases s with
    | direction | bufferPhysAddr | pBufferTable | dmaHandle | bdindex =>
      refine ⟨h.acquired, h.released, h.channelCount, h.pClass, h.devNode, fun c' => ?_⟩
      rw [← h.held c']
      simp only [Kernel.perform, Machine.after, Proxy.store]
      apply held_updateChannel
      exact fun _ => rfl
    | _ => exact hCall.elim
  | _ => exact hCall.elim

theorem sameHeld_of_neutral {α : Type} {p : Setup α} (k : Kernel)
    (hOnly : Only KernelCall.Neutral p) (m : Machine) : SameHeld m (exec k.perform p m).2 := by
  apply exec_invariant (I := SameHeld m) _ hOnly
  · exact ⟨rfl, rfl, rfl, rfl, rfl, fun _ => rfl⟩
  · exact fun e m' hCall h => sameHeld_perform h hCall

theorem storeHandles_only {P : KernelCall → Prop} (channel physAddr : Nat)
    (h : ∀ bd, P (.store (.dmaHandle channel bd (dmaHandle physAddr bd)))) :
    Only P (storeHandles channel physAddr) := by
  rw [storeHandles]
  induction List.range bufferCount with
  | nil => trivial
  | cons bd l ih => exact Only.bind ((only_ask _).mpr (h bd)) fun _ => ih

theorem allocateBuffers_neutral (channel : Nat) (direction : Direction) :
    Only KernelCall.Neutral (allocateBuffers channel direction) := by
  rw [allocateBuffers]
  simp only [only_ask_bind]
  refine ⟨trivial, fun _ => ⟨trivial, fun table => ⟨trivial, fun _ => ⟨trivial, fun _ => ?_⟩⟩⟩⟩
  split
  · trivial
  · apply Only.bind (storeHandles_only channel _ fun _ => trivial)
    exact fun _ => ⟨trivial, fun _ => trivial⟩

theorem allocateBuffers_rc (k : Kernel) (channel : Nat) (direction : Direction) (m : Machine) :
    (exec k.perform (allocateBuffers channel direction) m).1 = 0 ↔
      (k.answer (.dmamAllocCoherent channel)).1.isErrOrNull = false := by
  rw [allocateBuffers]
  simp only [exec_ask_bind, perform_fst, perform_snd, exec_ite]
  split
  · rename_i hTable
    simp only [pure_eq, exec_ret, hTable, Bool.true_eq_false, iff_false]
    exact Ptr.failure_ne_zero hTable (by decide)
  · rename_i hTable
    rw [exec_bind]
    simp only [exec_ask_bind, pure_eq, exec_ret, true_iff]
    simpa using hTable

def channelResources (k : Kernel) (pClass : Ptr) (devNode : Dev) (channel : Nat) :
    List Resource :=
  (KernelCall.dmaRequestChan channel).acquires (k.answer _) ++
    [.cdev channel, .node pClass (mkdev devNode.major channel)]

/-- What the memory of a channel holds for remove once the channel is up. -/
def heldOf (k : Kernel) (pClass : Ptr) (devNode : Dev) (channel : Nat) : Ptr × Dev × Ptr :=
  (k.answer (.deviceCreate pClass (mkdev devNode.major channel) channel),
    mkdev devNode.major channel, k.answer (.dmaRequestChan channel))

/-- The given channels have come up, and nothing else that remove uses has changed. -/
structure Brought (k : Kernel) (pClass : Ptr) (devNode : Dev) (channels : List Nat)
    (m m' : Machine) : Prop where
  acquired : m'.acquired = m.acquired ++ channels.flatMap (channelResources k pClass devNode)
  released : m'.released = m.released
  channelCount_eq : m'.proxy.channelCount = m.proxy.channelCount
  pClass_eq : m'.proxy.pClass = m.proxy.pClass
  devNode_eq : m'.proxy.devNode = m.proxy.devNode
  up : ∀ c ∈ channels, (m'.proxy.channel c).held = heldOf k pClass devNode c
  others : ∀ c ∉ channels, (m'.proxy.channel c).held = (m.proxy.channel c).held

theorem Brought.nil {k : Kernel} {pClass : Ptr} {devNode : Dev} {m m' : Machine}
    (h : SameHeld m m') : Brought k pClass devNode [] m m' where
  acquired := by simpa using h.acquired
  released := h.released
  channelCount_eq := h.channelCount
  pClass_eq := h.pClass
  devNode_eq := h.devNode
  up := by simp
  others := fun c _ => h.held c

theorem Brought.append {k : Kernel} {pClass : Ptr} {devNode : Dev} {channels channels' : List Nat}
    {m m' m'' : Machine} (h : Brought k pClass devNode channels m m')
    (h' : Brought k pClass devNode channels' m' m'') :
    Brought k pClass devNode (channels ++ channels') m m'' where
  acquired := by rw [h'.acquired, h.acquired, List.flatMap_append, List.append_assoc]
  released := h'.released.trans h.released
  channelCount_eq := h'.channelCount_eq.trans h.channelCount_eq
  pClass_eq := h'.pClass_eq.trans h.pClass_eq
  devNode_eq := h'.devNode_eq.trans h.devNode_eq
  up := by
    intro c hc
    by_cases hLater : c ∈ channels'
    · exact h'.up c hLater
    · rw [h'.others c hLater]
      exact h.up c ((List.mem_append.mp hc).resolve_right hLater)
  others := by
    intro c hc
    rw [List.mem_append, not_or] at hc
    exact (h'.others c hc.2).trans (h.others c hc.1)

theorem Brought.sameHeld {k : Kernel} {pClass : Ptr} {devNode : Dev} {channels : List Nat}
    {m m' m'' : Machine} (h : Brought k pClass devNode channels m m') (hSame : SameHeld m' m'') :
    Brought k pClass devNode channels m m'' := by
  simpa using h.append (.nil hSame)

theorem createChannel_up {k : Kernel} {pClass : Ptr} {devNode : Dev} {channel : Nat}
    (h : ChannelUp k pClass devNode channel) (direction : Direction) (m : Machine) :
    (exec k.perform (createChannel pClass devNode channel direction) m).1 = 0 ∧
      Brought k pClass devNode [channel] m
        (exec k.perform (createChannel pClass devNode channel direction) m).2 := by
  obtain ⟨chan, hChan⟩ := Ptr.exists_obj h.chan
  obtain ⟨_, hAdded⟩ := rcOf_eq_zero_iff.mp h.added
  obtain ⟨device, hDevice⟩ := Ptr.exists_obj h.device
  simp only [createChannel, exec_ask_bind, perform_fst, perform_snd, h.chan, Bool.false_eq_true,
    if_false]
  rw [exec_bind, cdeviceInit]
  simp only [exec_ask_bind, perform_fst, perform_snd, h.added, h.device, ne_eq,
    not_true_eq_false, if_false, Bool.false_eq_true, pure_eq, exec_ret]
  refine ⟨(allocateBuffers_rc k channel direction _).mpr h.table, ?_⟩
  apply Brought.sameHeld _ (sameHeld_of_neutral k (allocateBuffers_neutral channel direction) _)
  constructor
  · simp [Machine.after, KernelCall.acquires, channelResources, hChan, hAdded, hDevice]
  · simp [Machine.after, KernelCall.releases]
  · rfl
  · rfl
  · rfl
  · simp [Machine.after, Proxy.store, Proxy.updateChannel, ProxyChannel.held, heldOf]
  · intro c hc
    have hNe : c ≠ channel := by simpa using hc
    simp [Machine.after, Proxy.store, Proxy.updateChannel, hNe]

theorem createChannel_down {k : Kernel} {pClass : Ptr} {devNode : Dev} {channel : Nat}
    {direction : Direction} {m : Machine}
    (h : (exec k.perform (createChannel pClass devNode channel direction) m).1 = 0) :
    ChannelUp k pClass devNode channel := by
  simp only [createChannel, exec_ask_bind, perform_fst, perform_snd, exec_ite] at h
  split at h
  · rename_i hChan
    exact absurd h (Ptr.failure_ne_zero hChan (by decide))
  · rename_i hChan
    rw [exec_bind, exec_ite] at h
    split at h
    · rename_i hRc
      exact absurd h hRc
    · rename_i hRc
      have hTable := (allocateBuffers_rc k channel direction _).mp h
      simp only [cdeviceInit, exec_ask_bind, perform_fst, perform_snd, exec_ite] at hRc
      split at hRc
      · rename_i hAdded
        exact absurd hAdded hRc
      · rename_i hAdded
        split at hRc
        · rename_i hDevice
          exact absurd (Ptr.failure_ne_zero hDevice (by decide)) hRc
        · rename_i hDevice
          exact ⟨by simpa using hChan, by simpa using hAdded, by simpa using hDevice, hTable⟩

/-! ## All channels -/

theorem createChannels_up {k : Kernel} {pClass : Ptr} {devNode : Dev} (remaining channel : Nat)
    (h : ∀ c, channel ≤ c → c < channel + remaining → ChannelUp k pClass devNode c)
    (m : Machine) :
    (exec k.perform (createChannels pClass devNode remaining channel) m).1 = 0 ∧
      Brought k pClass devNode (List.range' channel remaining) m
        (exec k.perform (createChannels pClass devNode remaining channel) m).2 := by
  induction remaining generalizing channel m with
  | zero => exact ⟨rfl, .nil ⟨rfl, rfl, rfl, rfl, rfl, fun _ => rfl⟩⟩
  | succ remaining ih =>
    have hNamed : SameHeld m (m.after (.nameHasRx channel) (k.answer (.nameHasRx channel))) :=
      sameHeld_of_neutral k (p := kernel (.nameHasRx channel)) ⟨trivial, fun _ => trivial⟩ m
    obtain ⟨hRc, hFirst⟩ := createChannel_up (h channel le_rfl (by omega))
      (directionOf (k.answer (.nameHasRx channel)))
      (m.after (.nameHasRx channel) (k.answer (.nameHasRx channel)))
    obtain ⟨hRcRest, hRest⟩ := ih (channel + 1)
      (fun c hLow hHigh => h c (by omega) (by omega)) _
    rw [createChannels, exec_ask_bind, exec_bind]
    simp only [perform_fst, perform_snd, hRc, ne_eq, not_true_eq_false, if_false]
    exact ⟨hRcRest, (Brought.nil hNamed).append (hFirst.append hRest)⟩

theorem createChannels_down {k : Kernel} {pClass : Ptr} {devNode : Dev} {remaining channel : Nat}
    {m : Machine}
    (h : (exec k.perform (createChannels pClass devNode remaining channel) m).1 = 0) :
    ∀ c, channel ≤ c → c < channel + remaining → ChannelUp k pClass devNode c := by
  induction remaining generalizing channel m with
  | zero =>
    intro c hLow hHigh
    omega
  | succ remaining ih =>
    rw [createChannels, exec_ask_bind, exec_bind, exec_ite] at h
    split at h
    · rename_i hRc
      exact absurd h hRc
    · rename_i hRc
      intro c hLow hHigh
      rcases hLow.eq_or_lt with rfl | hLater
      · exact createChannel_down (not_not.mp hRc)
      · exact ih h c hLater (by omega)

/-- Once there is a class, probe succeeds exactly when all further calls do. -/
theorem probeChannels_rc {k : Kernel} (internalTest : Bool) {channelCount : Int} {pClass : Ptr}
    (m : Machine) :
    (exec k.perform (probeChannels internalTest channelCount pClass) m).1 = 0 ↔
      AllUp k channelCount pClass := by
  rw [probeChannels, exec_ask_bind, perform_fst, AllUp]
  cases hRegion : k.answer (.allocChrdevRegion channelCount) with
  | error e =>
    have := e.negative
    simp only [pure_eq, exec_ret, reduceCtorEq, false_and, exists_false, iff_false]
    omega
  | ok region =>
    simp only [exec_bind, exec_ite, Except.ok.injEq, exists_eq_left']
    split
    · rename_i hRc
      refine iff_of_false hRc fun hUp => hRc ?_
      exact (createChannels_up _ _ (fun c _ hHigh => hUp c (by omega)) _).1
    · rename_i hRc
      refine iff_of_true rfl fun c hHigh => ?_
      exact createChannels_down (not_not.mp hRc) c (Nat.zero_le c) (by omega)

theorem probeChannels_up {k : Kernel} (internalTest : Bool) {channelCount : Int} {pClass : Ptr}
    (m : Machine) {region : Region channelCount}
    (hRegion : k.answer (.allocChrdevRegion channelCount) = .ok region)
    (hUp : ∀ c < channelCount.toNat, ChannelUp k pClass region.dev c) :
    ∃ m₁, m₁.acquired = m.acquired ++ [.region region.dev (BitVec.ofInt 32 channelCount)] ∧
      m₁.released = m.released ∧ m₁.proxy.channelCount = m.proxy.channelCount ∧
      m₁.proxy.pClass = m.proxy.pClass ∧ m₁.proxy.devNode = region.dev ∧
      Brought k pClass region.dev (List.range channelCount.toNat) m₁
        (exec k.perform (probeChannels internalTest channelCount pClass) m).2 := by
  obtain ⟨hRc, hBrought⟩ := createChannels_up (k := k) channelCount.toNat 0
    (fun c _ hHigh => hUp c (by omega))
    ((m.after (.allocChrdevRegion channelCount) (k.answer _)).after
      (.store (.devNode region.dev)) (k.answer _))
  rw [probeChannels, exec_ask_bind, perform_fst, perform_snd]
  simp only [hRegion] at hBrought hRc ⊢
  rw [exec_ask_bind, perform_snd, exec_bind]
  simp only [hRc, ne_eq, not_true_eq_false, if_false, exec_bind, pure_eq, exec_ret]
  rw [← List.range_eq_range'] at hBrought
  refine ⟨_, ?_, ?_, ?_, ?_, ?_, hBrought.sameHeld ?_⟩
  · simp [Machine.after, KernelCall.acquires]
  · simp [Machine.after, KernelCall.releases]
  · rfl
  · rfl
  · rfl
  · apply sameHeld_of_neutral k
    cases internalTest <;> simp [runTest, KernelCall.Neutral]

/-! ## Remove -/

def exitEffect (p : Proxy) (channel : Nat) : List Resource :=
  if (p.channel channel).pProxyDevice = .null then []
  else [.node p.pClass (p.channel channel).cdevDev, .cdev channel]

def releaseEffect (p : Proxy) (channel : Nat) : List Resource :=
  (KernelCall.dmaReleaseChannel (p.channel channel).pDmaChannel).releases

theorem cdeviceExit_exec (k : Kernel) (p : Proxy) (channel : Nat) (m : Machine) :
    (exec k.perform (cdeviceExit p channel) m).2.acquired = m.acquired ∧
      (exec k.perform (cdeviceExit p channel) m).2.released =
        m.released ++ exitEffect p channel := by
  rw [cdeviceExit, exec_ite, exitEffect]
  by_cases hNull : (p.channel channel).pProxyDevice = .null
  · simp [hNull]
  · simp [hNull, Machine.after, KernelCall.acquires, KernelCall.releases]

theorem exitDevices_exec (k : Kernel) (p : Proxy) (m : Machine) :
    (exec k.perform (exitDevices p) m).2.acquired = m.acquired ∧
      (exec k.perform (exitDevices p) m).2.released =
        m.released ++ (List.range p.channelCount.toNat).flatMap (exitEffect p) := by
  rw [exitDevices]
  refine exec_forM (fun m' => m'.acquired = m.acquired) Machine.released (exitEffect p) ?_ rfl
  intro c _ m' hSame
  rw [exec_ite]
  split
  · obtain ⟨hAcquired, hReleased⟩ := cdeviceExit_exec k p c m'
    exact ⟨hAcquired.trans hSame, hReleased⟩
  · rename_i hNull
    simp [exitEffect, not_not.mp hNull, hSame]

theorem releaseChannels_exec (k : Kernel) (p : Proxy) (m : Machine) :
    (exec k.perform (releaseChannels p) m).2.acquired = m.acquired ∧
      (exec k.perform (releaseChannels p) m).2.released =
        m.released ++ (List.range p.channelCount.toNat).flatMap (releaseEffect p) := by
  rw [releaseChannels]
  refine exec_forM (fun m' => m'.acquired = m.acquired) Machine.released (releaseEffect p) ?_ rfl
  intro c _ m' hSame
  rw [exec_ite]
  split
  · simp [Machine.after, KernelCall.acquires, KernelCall.releases, releaseEffect, hSame]
  · rename_i hNull
    simp [releaseEffect, not_not.mp hNull, KernelCall.releases, hSame]

/-- Remove releases what the memory of the driver names, whatever that is. -/
theorem dmaProxyRemove_exec (k : Kernel) (p : Proxy) (m : Machine) :
    (exec k.perform (dmaProxyRemove p) m).2.acquired = m.acquired ∧
      (exec k.perform (dmaProxyRemove p) m).2.released =
        m.released ++ (List.range p.channelCount.toNat).flatMap (exitEffect p) ++
          (List.range p.channelCount.toNat).flatMap (releaseEffect p) ++
          (KernelCall.classDestroy p.pClass).releases ++ regionOf p.devNode p.channelCount := by
  obtain ⟨hAcquired, hReleased⟩ := exitDevices_exec k p m
  obtain ⟨hAcquired', hReleased'⟩ := releaseChannels_exec k p (exec k.perform (exitDevices p) m).2
  simp only [dmaProxyRemove, exec_bind, pure_eq, exec_ret]
  simp [Machine.after, KernelCall.acquires, KernelCall.releases, hAcquired, hReleased, hAcquired',
    hReleased']

/-! ## Probe -/

structure Clean (channelCount : Int) (m : Machine) : Prop where
  acquired : m.acquired = []
  released : m.released = []
  channelCount_eq : m.proxy.channelCount = channelCount

theorem settled_early {k : Kernel} {r : Int × Machine} (hRc : r.1 ≠ 0)
    (hAcquired : r.2.acquired = []) (hReleased : r.2.released = []) : Settled k r := by
  refine ⟨fun _ => ?_, fun hZero => absurd hZero hRc⟩
  rw [hAcquired, hReleased]

theorem regionOf_region {count : Int} (region : Region count) (hCount : 0 < count) :
    regionOf region.dev count = [.region region.dev (BitVec.ofInt 32 count)] := by
  have hFits := region.fits
  have hNat : (BitVec.ofInt 32 count).toNat = count.toNat := by
    rw [BitVec.toNat_ofInt]
    omega
  apply if_pos
  rw [BitVec.lt_def, BitVec.toNat_add, hNat]
  omega

/-- A call that gives back no class. -/
def KernelCall.KeepsClass (e : KernelCall) : Prop := ∀ id, .klass id ∉ e.releases

theorem KernelCall.KeepsClass.of_nil {e : KernelCall} (h : e.releases = []) : e.KeepsClass := by
  intro id
  simp [h]

theorem cdeviceInit_keepsClass (pClass : Ptr) (devNode : Dev) (channel : Nat) :
    Only KernelCall.KeepsClass (cdeviceInit pClass devNode channel) := by
  rw [cdeviceInit]
  simp only [only_ask_bind]
  refine ⟨.of_nil rfl, fun _ => ⟨.of_nil rfl, fun _ => ⟨.of_nil rfl, fun added => ?_⟩⟩⟩
  split
  · trivial
  · simp only [only_ask_bind]
    refine ⟨.of_nil rfl, fun pProxyDevice => ⟨.of_nil rfl, fun _ => ?_⟩⟩
    split
    · simp [KernelCall.KeepsClass, KernelCall.releases]
    · trivial

theorem neutral_keepsClass {e : KernelCall} (h : e.Neutral) : e.KeepsClass := by
  cases e <;> first
    | exact h.elim
    | exact .of_nil rfl

theorem createChannel_keepsClass (pClass : Ptr) (devNode : Dev) (channel : Nat)
    (direction : Direction) :
    Only KernelCall.KeepsClass (createChannel pClass devNode channel direction) := by
  rw [createChannel]
  simp only [only_ask_bind]
  refine ⟨.of_nil rfl, fun pDmaChannel => ⟨.of_nil rfl, fun _ => ?_⟩⟩
  split
  · trivial
  · apply Only.bind (cdeviceInit_keepsClass pClass devNode channel)
    intro rc
    split
    · trivial
    · exact (allocateBuffers_neutral channel direction).mono fun _ => neutral_keepsClass

theorem createChannels_keepsClass (pClass : Ptr) (devNode : Dev) (remaining channel : Nat) :
    Only KernelCall.KeepsClass (createChannels pClass devNode remaining channel) := by
  induction remaining generalizing channel with
  | zero => trivial
  | succ remaining ih =>
    rw [createChannels, only_ask_bind]
    refine ⟨.of_nil rfl, fun rx => ?_⟩
    apply Only.bind (createChannel_keepsClass pClass devNode channel _)
    intro rc
    split
    · trivial
    · exact ih (channel + 1)

theorem probeChannels_keepsClass (internalTest : Bool) (channelCount : Int) (pClass : Ptr) :
    Only KernelCall.KeepsClass (probeChannels internalTest channelCount pClass) := by
  rw [probeChannels, only_ask_bind]
  refine ⟨.of_nil rfl, fun region => ?_⟩
  cases region with
  | error e => trivial
  | ok region =>
    rw [only_ask_bind]
    refine ⟨.of_nil rfl, fun _ => ?_⟩
    apply Only.bind (createChannels_keepsClass pClass region.dev _ 0)
    intro rc
    split
    · trivial
    · refine Only.bind ?_ fun _ => trivial
      cases internalTest with
      | false => trivial
      | true => exact (only_ask _).mpr (.of_nil rfl)

def HoldsClass (id : Nat) (m : Machine) : Prop := .klass id ∈ m.acquired ∧ .klass id ∉ m.released

theorem exec_keepsClass {α : Type} {k : Kernel} {p : Setup α} {m : Machine} {id : Nat}
    (hOnly : Only KernelCall.KeepsClass p) (hHeld : HoldsClass id m) :
    HoldsClass id (exec k.perform p m).2 := by
  apply exec_invariant (I := HoldsClass id) _ hOnly hHeld
  intro e m hKeeps hOld
  rw [perform_snd, HoldsClass, after_acquired, after_released, List.mem_append, List.mem_append,
    not_or]
  exact ⟨.inl hOld.1, hOld.2, hKeeps id⟩

/-! ## The balance -/

theorem remove_balanced {k : Kernel} {channelCount : Int} {id : Nat} {region : Region channelCount}
    (hCount : 0 < channelCount) (hUp : ∀ c < channelCount.toNat, ChannelUp k (.obj id) region.dev c)
    {m : Machine} (hAcquired : m.acquired = .klass id :: .region region.dev
      (BitVec.ofInt 32 channelCount) ::
        (List.range channelCount.toNat).flatMap (channelResources k (.obj id) region.dev))
    (hReleased : m.released = []) (hChannelCount : m.proxy.channelCount = channelCount)
    (hClass : m.proxy.pClass = .obj id) (hDevNode : m.proxy.devNode = region.dev)
    (hHeld : ∀ c < channelCount.toNat,
      (m.proxy.channel c).held = heldOf k (.obj id) region.dev c) :
    (exec k.perform (dmaProxyRemove m.proxy) m).2.released.Perm
      (exec k.perform (dmaProxyRemove m.proxy) m).2.acquired := by
  obtain ⟨hKept, hGiven⟩ := dmaProxyRemove_exec k m.proxy m
  have hChannel : ∀ c ∈ List.range channelCount.toNat, (exitEffect m.proxy c ++
      releaseEffect m.proxy c).Perm (channelResources k (.obj id) region.dev c) := by
    intro c hc
    have hBound := List.mem_range.mp hc
    obtain ⟨chan, hChan⟩ := Ptr.exists_obj (hUp c hBound).chan
    obtain ⟨device, hDevice⟩ := Ptr.exists_obj (hUp c hBound).device
    have hFields := hHeld c hBound
    simp only [ProxyChannel.held, heldOf, Prod.mk.injEq, hDevice, hChan] at hFields
    obtain ⟨hProxyDevice, hDev, hPtr⟩ := hFields
    simp only [exitEffect, releaseEffect, channelResources, hProxyDevice, hDev, hPtr, hClass,
      reduceCtorEq, if_false, KernelCall.releases, KernelCall.acquires, hChan]
    exact List.perm_iff_count.mpr fun r => by simp [List.count_cons]; omega
  have hAll : ((List.range channelCount.toNat).flatMap (exitEffect m.proxy) ++
      (List.range channelCount.toNat).flatMap (releaseEffect m.proxy)).Perm
        ((List.range channelCount.toNat).flatMap (channelResources k (.obj id) region.dev)) :=
    (List.flatMap_append_perm _ _ _).trans (List.Perm.flatMap_left _ hChannel)
  rw [hKept, hGiven, hAcquired, hReleased, hChannelCount, hClass, hDevNode,
    regionOf_region region hCount, List.nil_append, List.append_assoc]
  exact (hAll.append_right _).trans List.perm_append_comm

theorem probeChannels_settled {k : Kernel} {internalTest : Bool} {channelCount : Int} {id : Nat}
    {m : Machine} (hCount : 0 < channelCount) (hAcquired : m.acquired = [.klass id])
    (hReleased : m.released = []) (hChannelCount : m.proxy.channelCount = channelCount)
    (hClass : m.proxy.pClass = .obj id) :
    Settled k (exec k.perform (probeChannels internalTest channelCount (.obj id)) m) ↔
      AllUp k channelCount (.obj id) := by
  constructor
  · intro hSettled
    rw [← probeChannels_rc internalTest m]
    by_contra hRc
    -- a failing probe still holds the class
    have hHeld : HoldsClass id m := by simp [HoldsClass, hAcquired, hReleased]
    obtain ⟨hStill, hNotGiven⟩ := exec_keepsClass (k := k)
      (probeChannels_keepsClass internalTest channelCount (.obj id)) hHeld
    exact hNotGiven ((hSettled.1 hRc).mem_iff.mpr hStill)
  · intro hUp
    refine ⟨fun hRc => absurd ((probeChannels_rc internalTest m).mpr hUp) hRc, fun _ => ?_⟩
    obtain ⟨region, hRegion, hChannels⟩ := hUp
    obtain ⟨m₁, hAcquired₁, hReleased₁, hCount₁, hClass₁, hDevNode₁, hBrought⟩ :=
      probeChannels_up internalTest m hRegion hChannels
    apply remove_balanced hCount hChannels
    · rw [hBrought.acquired, hAcquired₁, hAcquired]
      rfl
    · rw [hBrought.released, hReleased₁, hReleased]
    · rw [hBrought.channelCount_eq, hCount₁, hChannelCount]
    · rw [hBrought.pClass_eq, hClass₁, hClass]
    · rw [hBrought.devNode_eq, hDevNode₁]
    · exact fun c hc => hBrought.up c (List.mem_range.mpr hc)

theorem probeClass_settled {k : Kernel} {internalTest : Bool} {channelCount : Int} {m : Machine}
    (hCount : 0 < channelCount) (hClean : Clean channelCount m) :
    Settled k (exec k.perform (probeClass internalTest channelCount) m) ↔
      (k.answer .classCreate).isErrOrNull = true ∨
        AllUp k channelCount (k.answer .classCreate) := by
  rw [probeClass, exec_ask_bind, perform_fst, perform_snd, exec_ask_bind, perform_snd, exec_ite]
  split
  · rename_i hClass
    have hNone : KernelCall.classCreate.acquires (k.answer .classCreate) = [] := by
      cases hPtr : k.answer .classCreate with
      | obj id =>
        rw [hPtr] at hClass
        cases hClass
      | _ => rfl
    refine iff_of_true (settled_early (Ptr.failure_ne_zero hClass (by decide)) ?_ ?_) (.inl hClass)
    · rw [pure_eq, exec_ret, after_acquired, after_acquired, hNone, hClean.acquired]
      rfl
    · rw [pure_eq, exec_ret, after_released, after_released, hClean.released]
      rfl
  · rename_i hClass
    rw [or_iff_right hClass]
    obtain ⟨id, hId⟩ := Ptr.exists_obj (Bool.eq_false_iff.mpr hClass)
    rw [hId]
    apply probeChannels_settled hCount
    · rw [after_acquired, after_acquired, hClean.acquired]
      rfl
    · rw [after_released, after_released, hClean.released]
      rfl
    · exact hClean.channelCount_eq
    · rfl

theorem Clean.after {channelCount : Int} {m : Machine} (h : Clean channelCount m) (e : KernelCall)
    (answer : KernelAnswer e) (hAcquires : e.acquires answer = []) (hReleases : e.releases = [])
    (hCount : (m.after e answer).proxy.channelCount = m.proxy.channelCount) :
    Clean channelCount (m.after e answer) where
  acquired := by rw [after_acquired, hAcquires, h.acquired, List.append_nil]
  released := by rw [after_released, hReleases, h.released, List.append_nil]
  channelCount_eq := hCount.trans h.channelCount_eq

theorem probeTables_settled {k : Kernel} {internalTest : Bool} {channelCount : Int} {m : Machine}
    (hCount : 0 < channelCount) (hClean : Clean channelCount m) :
    Settled k (exec k.perform (probeTables internalTest channelCount) m) ↔
      ClassLast k channelCount := by
  have hClean₁ := (hClean.after _ (k.answer (.devmKmallocArray channelCount)) rfl rfl rfl).after
    (.store (.names (k.answer (.devmKmallocArray channelCount)))) (k.answer _) rfl rfl rfl
  have hClean₂ := hClean₁.after _ (k.answer (.readNames channelCount)) rfl rfl rfl
  have hClean₃ := (hClean₂.after _ (k.answer (.devmKmallocChannels channelCount)) rfl rfl rfl).after
    (.store (.pChannels (k.answer (.devmKmallocChannels channelCount)))) (k.answer _) rfl rfl rfl
  simp only [probeTables, exec_ask_bind, exec_ite, perform_fst, perform_snd, ClassLast]
  split
  · rename_i hNames
    exact iff_of_true (settled_early (Ptr.failure_ne_zero hNames (by decide)) hClean₁.acquired
      hClean₁.released) (.inl hNames)
  · rename_i hNames
    rw [or_iff_right hNames]
    split
    · rename_i hRead
      exact iff_of_true (settled_early (ne_of_lt hRead) hClean₂.acquired hClean₂.released)
        (.inl hRead)
    · rename_i hRead
      rw [or_iff_right hRead]
      split
      · rename_i hChannels
        exact iff_of_true (settled_early (Ptr.failure_ne_zero hChannels (by decide))
          hClean₃.acquired hClean₃.released) (.inl hChannels)
      · rename_i hChannels
        rw [or_iff_right hChannels]
        exact probeClass_settled hCount hClean₃

theorem remove_garbage {k : Kernel} {m : Machine} (hClean : Clean (k.answer .countNames) m)
    (hCount : k.answer .countNames ≤ 0) (hClass : m.proxy.pClass = k.garbage.pClass)
    (hDevNode : m.proxy.devNode = k.garbage.devNode) :
    (exec k.perform (dmaProxyRemove m.proxy) m).2.released.Perm
      (exec k.perform (dmaProxyRemove m.proxy) m).2.acquired ↔ HarmlessGarbage k := by
  obtain ⟨hKept, hGiven⟩ := dmaProxyRemove_exec k m.proxy m
  rw [hKept, hGiven, hClean.acquired, hClean.released, hClean.channelCount_eq, hClass, hDevNode,
    Int.toNat_of_nonpos hCount]
  simp only [List.range_zero, List.flatMap_nil, List.nil_append, List.perm_nil,
    List.append_eq_nil_iff, HarmlessGarbage]
  apply and_congr_left'
  cases k.garbage.pClass <;> simp [KernelCall.releases, Ptr.isErrOrNull]

/-- Probe and remove balance exactly when probe stops before it has a class, finds no channel
over harmless memory, or brings all channels up. -/
theorem balanced_iff (k : Kernel) (internalTest : Bool) :
    Balanced k internalTest ↔ AllOrNothing k := by
  have hClean : Clean (k.answer .countNames) (((k.booted.after .devmKmallocProxy
      (k.answer .devmKmallocProxy)).after .devSetDrvdata (k.answer _)).after .countNames
      (k.answer .countNames) |>.after (.store (.channelCount (k.answer .countNames)))
      (k.answer _)) := ⟨rfl, rfl, rfl⟩
  rw [Balanced, dmaProxyProbe, AllOrNothing, exec_ask_bind, perform_fst, perform_snd, exec_ite]
  split
  · rename_i hProxy
    exact iff_of_true (settled_early (Ptr.failure_ne_zero hProxy (by decide)) rfl rfl)
      (.inl hProxy)
  · rename_i hProxy
    rw [or_iff_right hProxy, exec_ask_bind, perform_snd, exec_ask_bind, perform_fst, perform_snd,
      exec_ask_bind, perform_snd, exec_ite]
    split
    · rename_i hCount
      have hGarbage := remove_garbage hClean hCount rfl rfl
      simp only [hCount, true_and, not_lt.mpr hCount, false_and, or_false, ← hGarbage]
      exact ⟨fun hSettled => hSettled.2 rfl, fun h => ⟨fun hRc => absurd rfl hRc, fun _ => h⟩⟩
    · rename_i hCount
      rw [probeTables_settled (not_le.mp hCount) hClean]
      simp only [hCount, not_le.mp hCount, false_and, true_and, false_or]

/-! ## A board with channels -/

def blankChannel : ProxyChannel := ⟨.null, 0, .null, 0, fun _ => 0, .null, .memToDev, 0⟩

def regionAt (count : Int) : Except Errno (Region count) :=
  if h : count.toNat < 2 ^ 20 then
    .ok ⟨0x0EC00000, Nat.lt_trans (Nat.add_lt_add_left h _) (by decide)⟩
  else .error ⟨-22, by decide⟩

/-- A kernel that grants all, but may defer the DMA channels; `pClass` is what the memory of the
driver holds where the class will be stored. -/
def benchKernel (channelCount : Int) (deferred : Bool) (pClass : Ptr) : Kernel where
  answer
    | .devmKmallocProxy | .devmKmallocArray _ | .devmKmallocChannels _ | .deviceCreate _ _ _ =>
      .obj 1
    | .classCreate => .obj 2
    | .dmaRequestChan channel => if deferred then .err 516 else .obj (3 + channel)
    | .countNames => channelCount
    | .readNames count => count
    | .allocChrdevRegion count => regionAt count
    | .nameHasRx channel => channel % 2 = 1
    | .cdevAdd _ _ => .ok ()
    | .dmamAllocCoherent channel => (.obj (64 + channel), 0x100000 * (channel + 1))
    | .store _ | .devSetDrvdata | .cdevInit _ | .cdevDel _ | .test | .deviceDestroy _ _
    | .terminateAll _ | .dmaReleaseChannel _ | .classDestroy _ | .unregisterChrdevRegion _ _ => ()
  garbage := ⟨0, .null, .null, 0, pClass, fun _ => blankChannel⟩

/-- A deferred DMA channel leaves the class and the region behind, and without any channel
remove destroys whatever class the memory of the driver names. -/
theorem unbalanced :
    ¬ Balanced (benchKernel 2 true .null) false ∧ ¬ Balanced (benchKernel 0 false (.obj 9)) false :=
  ⟨by decide, by decide⟩

example : Balanced (benchKernel 2 false .null) false := by decide

end SoftwarePrototypes.DmaProxy
