import SoftwarePrototypes.DmaProxy.Layout
import SoftwarePrototypes.Interaction.Programs

/-! # Bringing the driver up and down

`dma_proxy_probe` with `create_channel` and `cdevice_init`, and `dma_proxy_remove` with
`cdevice_exit`. Every kernel call and every store into the memory of the driver is one call of
the program. That memory comes from `devm_kmalloc` and holds anything until it is stored to.
-/

namespace SoftwarePrototypes.DmaProxy

open Interaction Interaction.Prog

/-- A pointer the kernel returns; `err` is in the range of `ERR_PTR`. -/
inductive Ptr where
  | null
  | err (code : Fin 4095)
  | obj (id : Nat)
  deriving DecidableEq, Repr

def Ptr.isErrOrNull : Ptr → Bool
  | .null | .err _ => true
  | .obj _ => false

def Ptr.ptrErr : Ptr → Int
  | .null => 0
  | .err code => -(code + 1)
  | .obj id => id

/-- The exit `if(!p) return code; else return PTR_ERR(p);`. -/
def Ptr.failure (p : Ptr) (code : Int) : Int := if p = .null then code else p.ptrErr

structure Errno where
  code : Int
  negative : code < 0

/-- The code returned to C: zero or a negative error. -/
def rcOf {α : Type} : Except Errno α → Int
  | .error e => e.code
  | .ok _ => 0

def enomem : Int := 12

def enodev : Int := 19

abbrev Dev : Type := BitVec 32

def Dev.major (dev : Dev) : BitVec 32 := dev >>> 20

def mkdev (major : BitVec 32) (minor : Nat) : Dev := major <<< 20 ||| BitVec.ofNat 32 minor

/-- A region from `alloc_chrdev_region` does not run past the last device number. -/
structure Region (count : Int) where
  dev : Dev
  fits : dev.toNat + count.toNat < 2 ^ 32

inductive Direction where
  | memToDev | devToMem
  deriving DecidableEq, Repr

structure ProxyChannel where
  pBufferTable : Ptr
  bufferPhysAddr : Nat
  pProxyDevice : Ptr
  cdevDev : Dev
  dmaHandle : Nat → Nat
  pDmaChannel : Ptr
  direction : Direction
  bdindex : Int

/-- `struct dma_proxy` with the array behind `pChannels`. -/
structure Proxy where
  channelCount : Int
  pChannels : Ptr
  names : Ptr
  devNode : Dev
  pClass : Ptr
  channel : Nat → ProxyChannel

inductive Store where
  | channelCount (value : Int)
  | pChannels (value : Ptr)
  | names (value : Ptr)
  | devNode (value : Dev)
  | pClass (value : Ptr)
  | pBufferTable (channel : Nat) (value : Ptr)
  | bufferPhysAddr (channel : Nat) (value : Nat)
  | pProxyDevice (channel : Nat) (value : Ptr)
  | cdevDev (channel : Nat) (value : Dev)
  | dmaHandle (channel bd : Nat) (value : Nat)
  | pDmaChannel (channel : Nat) (value : Ptr)
  | direction (channel : Nat) (value : Direction)
  | bdindex (channel : Nat) (value : Int)

inductive KernelCall where
  | store (s : Store)
  | devmKmallocProxy
  | devSetDrvdata
  | countNames
  | devmKmallocArray (count : Int)
  | readNames (count : Int)
  | devmKmallocChannels (count : Int)
  | classCreate
  | allocChrdevRegion (count : Int)
  | nameHasRx (channel : Nat)
  | dmaRequestChan (channel : Nat)
  | cdevInit (channel : Nat)
  | cdevAdd (channel : Nat) (dev : Dev)
  | deviceCreate (pClass : Ptr) (dev : Dev) (channel : Nat)
  | cdevDel (channel : Nat)
  | dmamAllocCoherent (channel : Nat)
  | test
  | deviceDestroy (pClass : Ptr) (dev : Dev)
  | terminateAll (pDmaChannel : Ptr)
  | dmaReleaseChannel (pDmaChannel : Ptr)
  | classDestroy (pClass : Ptr)
  | unregisterChrdevRegion (dev : Dev) (count : Int)

/-- `dmam_alloc_coherent` answers with the virtual and the physical address. -/
abbrev KernelAnswer : KernelCall → Type
  | .devmKmallocProxy | .devmKmallocArray _ | .devmKmallocChannels _ | .classCreate
  | .dmaRequestChan _ | .deviceCreate _ _ _ => Ptr
  | .countNames | .readNames _ => Int
  | .allocChrdevRegion count => Except Errno (Region count)
  | .nameHasRx _ => Bool
  | .cdevAdd _ _ => Except Errno Unit
  | .dmamAllocCoherent _ => Ptr × Nat
  | _ => Unit

abbrev Setup (α : Type) : Type := Prog KernelCall KernelAnswer α

abbrev kernel (e : KernelCall) : Setup (KernelAnswer e) := Prog.ask e

abbrev store (s : Store) : Setup Unit := kernel (.store s)

/-! ## The driver functions -/

/-- `cdev_add` keeps the device number in `cdev.dev`. The error for a null device is written
`- -ENOMEM` in the source and comes out positive. -/
def cdeviceInit (pClass : Ptr) (devNode : Dev) (channel : Nat) : Setup Int := do
  kernel (.cdevInit channel)
  store (.cdevDev channel (mkdev devNode.major channel))
  let added ← kernel (.cdevAdd channel (mkdev devNode.major channel))
  if rcOf added ≠ 0 then pure (rcOf added) else do
  let pProxyDevice ← kernel (.deviceCreate pClass (mkdev devNode.major channel) channel)
  store (.pProxyDevice channel pProxyDevice)
  if pProxyDevice.isErrOrNull then do
    kernel (.cdevDel channel)
    pure (pProxyDevice.failure enomem)
  else pure 0

def storeHandles (channel physAddr : Nat) : Setup Unit :=
  (List.range bufferCount).forM fun bd =>
    store (.dmaHandle channel bd (DmaProxy.dmaHandle physAddr bd))

/-- The second half of `create_channel`, once the character device is there. -/
def allocateBuffers (channel : Nat) (direction : Direction) : Setup Int := do
  store (.direction channel direction)
  let (pBufferTable, physAddr) ← kernel (.dmamAllocCoherent channel)
  store (.bufferPhysAddr channel physAddr)
  store (.pBufferTable channel pBufferTable)
  if pBufferTable.isErrOrNull then pure (pBufferTable.failure (-enomem)) else do
  storeHandles channel physAddr
  store (.bdindex channel 0)
  pure 0

def createChannel (pClass : Ptr) (devNode : Dev) (channel : Nat) (direction : Direction) :
    Setup Int := do
  let pDmaChannel ← kernel (.dmaRequestChan channel)
  store (.pDmaChannel channel pDmaChannel)
  if pDmaChannel.isErrOrNull then pure (pDmaChannel.failure (-enodev)) else do
  let rc ← cdeviceInit pClass devNode channel
  if rc ≠ 0 then pure rc else
  allocateBuffers channel direction

def directionOf (rx : Bool) : Direction := if rx then .devToMem else .memToDev

def createChannels (pClass : Ptr) (devNode : Dev) : Nat → Nat → Setup Int
  | 0, _ => pure 0
  | remaining + 1, channel => do
    let rx ← kernel (.nameHasRx channel)
    let rc ← createChannel pClass devNode channel (directionOf rx)
    if rc ≠ 0 then pure rc else
    createChannels pClass devNode remaining (channel + 1)

def runTest (internalTest : Bool) : Setup Unit :=
  if internalTest then kernel .test else pure ()

/-- What `dma_proxy_probe` does once it has a class. -/
def probeChannels (internalTest : Bool) (channelCount : Int) (pClass : Ptr) : Setup Int := do
  let region ← kernel (.allocChrdevRegion channelCount)
  match region with
  | .error e => pure e.code
  | .ok region => do
    store (.devNode region.dev)
    let rc ← createChannels pClass region.dev channelCount.toNat 0
    if rc ≠ 0 then pure rc else do
    runTest internalTest
    pure 0

/-- What `dma_proxy_probe` does once it has the memory of its channels. -/
def probeClass (internalTest : Bool) (channelCount : Int) : Setup Int := do
  let pClass ← kernel .classCreate
  store (.pClass pClass)
  if pClass.isErrOrNull then pure (pClass.failure (-enomem)) else
  probeChannels internalTest channelCount pClass

/-- What `dma_proxy_probe` does once it has found some channels. -/
def probeTables (internalTest : Bool) (channelCount : Int) : Setup Int := do
  let names ← kernel (.devmKmallocArray channelCount)
  store (.names names)
  if names.isErrOrNull then pure (names.failure (-enomem)) else do
  let rc ← kernel (.readNames channelCount)
  if rc < 0 then pure rc else do
  let pChannels ← kernel (.devmKmallocChannels channelCount)
  store (.pChannels pChannels)
  if pChannels.isErrOrNull then pure (pChannels.failure (-enomem)) else
  probeClass internalTest channelCount

def dmaProxyProbe (internalTest : Bool) : Setup Int := do
  let pDmaProxy ← kernel .devmKmallocProxy
  if pDmaProxy.isErrOrNull then pure (pDmaProxy.failure (-enomem)) else do
  kernel .devSetDrvdata
  let channelCount ← kernel .countNames
  store (.channelCount channelCount)
  if channelCount ≤ 0 then pure 0 else
  probeTables internalTest channelCount

def cdeviceExit (pDmaProxy : Proxy) (channel : Nat) : Setup Unit :=
  if (pDmaProxy.channel channel).pProxyDevice ≠ .null then do
    kernel (.deviceDestroy pDmaProxy.pClass (pDmaProxy.channel channel).cdevDev)
    kernel (.cdevDel channel)
  else pure ()

def exitDevices (pDmaProxy : Proxy) : Setup Unit :=
  (List.range pDmaProxy.channelCount.toNat).forM fun i =>
    if (pDmaProxy.channel i).pProxyDevice ≠ .null then cdeviceExit pDmaProxy i else pure ()

def releaseChannels (pDmaProxy : Proxy) : Setup Unit :=
  (List.range pDmaProxy.channelCount.toNat).forM fun i =>
    if (pDmaProxy.channel i).pDmaChannel ≠ .null then do
      kernel (.terminateAll (pDmaProxy.channel i).pDmaChannel)
      kernel (.dmaReleaseChannel (pDmaProxy.channel i).pDmaChannel)
    else pure ()

def dmaProxyRemove (pDmaProxy : Proxy) : Setup Int := do
  exitDevices pDmaProxy
  releaseChannels pDmaProxy
  kernel (.classDestroy pDmaProxy.pClass)
  kernel (.unregisterChrdevRegion pDmaProxy.devNode pDmaProxy.channelCount)
  pure 0

/-! ## Memory and resources -/

def Proxy.updateChannel (p : Proxy) (channel : Nat) (f : ProxyChannel → ProxyChannel) : Proxy :=
  { p with channel := Function.update p.channel channel (f (p.channel channel)) }

def Proxy.store (p : Proxy) : Store → Proxy
  | .channelCount value => { p with channelCount := value }
  | .pChannels value => { p with pChannels := value }
  | .names value => { p with names := value }
  | .devNode value => { p with devNode := value }
  | .pClass value => { p with pClass := value }
  | .pBufferTable c value => p.updateChannel c fun ch => { ch with pBufferTable := value }
  | .bufferPhysAddr c value => p.updateChannel c fun ch => { ch with bufferPhysAddr := value }
  | .pProxyDevice c value => p.updateChannel c fun ch => { ch with pProxyDevice := value }
  | .cdevDev c value => p.updateChannel c fun ch => { ch with cdevDev := value }
  | .dmaHandle c bd value =>
    p.updateChannel c fun ch => { ch with dmaHandle := Function.update ch.dmaHandle bd value }
  | .pDmaChannel c value => p.updateChannel c fun ch => { ch with pDmaChannel := value }
  | .direction c value => p.updateChannel c fun ch => { ch with direction := value }
  | .bdindex c value => p.updateChannel c fun ch => { ch with bdindex := value }

inductive Resource where
  | klass (id : Nat)
  | region (dev count : Dev)
  | dmaChan (id : Nat)
  | cdev (channel : Nat)
  | node (pClass : Ptr) (dev : Dev)
  deriving DecidableEq, Repr

/-- The device numbers from `dev` on that `unregister_chrdev_region` walks over, in `unsigned`
arithmetic: none when the sum wraps. -/
def regionOf (dev : Dev) (count : Int) : List Resource :=
  if dev < dev + BitVec.ofInt 32 count then [.region dev (BitVec.ofInt 32 count)] else []

def KernelCall.acquires : (e : KernelCall) → KernelAnswer e → List Resource
  | .classCreate, .obj id => [.klass id]
  | .allocChrdevRegion count, .ok region => [.region region.dev (BitVec.ofInt 32 count)]
  | .dmaRequestChan _, .obj id => [.dmaChan id]
  | .cdevAdd channel _, .ok _ => [.cdev channel]
  | .deviceCreate pClass dev _, .obj _ => [.node pClass dev]
  | _, _ => []

def KernelCall.creates : (e : KernelCall) → KernelAnswer e → List Nat
  | .deviceCreate _ _ channel, .obj _ => [channel]
  | _, _ => []

/-- `class_destroy` ignores a null or error pointer. -/
def KernelCall.releases : KernelCall → List Resource
  | .cdevDel channel => [.cdev channel]
  | .deviceDestroy pClass dev => [.node pClass dev]
  | .dmaReleaseChannel (.obj id) => [.dmaChan id]
  | .classDestroy (.obj id) => [.klass id]
  | .unregisterChrdevRegion dev count => regionOf dev count
  | _ => []

/-- What the kernel answers to each call, and what the memory of the driver holds at first. -/
structure Kernel where
  answer : (e : KernelCall) → KernelAnswer e
  garbage : Proxy

/-- The memory of the driver, the stores made to it, the channels with a device node, and the
resources acquired and released. -/
structure Machine where
  proxy : Proxy
  stores : List Store
  nodes : List Nat
  acquired : List Resource
  released : List Resource

def Machine.after (m : Machine) (e : KernelCall) (answer : KernelAnswer e) : Machine :=
  match e with
  | .store s => { m with proxy := m.proxy.store s, stores := m.stores ++ [s] }
  | e => { m with
    nodes := m.nodes ++ e.creates answer
    acquired := m.acquired ++ e.acquires answer
    released := m.released ++ e.releases }

theorem after_acquired (m : Machine) (e : KernelCall) (answer : KernelAnswer e) :
    (m.after e answer).acquired = m.acquired ++ e.acquires answer := by
  cases e with
  | store s => exact (List.append_nil _).symm
  | _ => rfl

theorem after_released (m : Machine) (e : KernelCall) (answer : KernelAnswer e) :
    (m.after e answer).released = m.released ++ e.releases := by
  cases e with
  | store s => exact (List.append_nil _).symm
  | _ => rfl

def Kernel.perform (k : Kernel) (e : KernelCall) (m : Machine) : KernelAnswer e × Machine :=
  (k.answer e, m.after e (k.answer e))

@[simp] theorem perform_fst (k : Kernel) (e : KernelCall) (m : Machine) :
    (k.perform e m).1 = k.answer e := by
  rw [Kernel.perform]

@[simp] theorem perform_snd (k : Kernel) (e : KernelCall) (m : Machine) :
    (k.perform e m).2 = m.after e (k.answer e) := by
  rw [Kernel.perform]

def Kernel.booted (k : Kernel) : Machine := ⟨k.garbage, [], [], [], []⟩

/-! ## Exit codes -/

theorem Ptr.failure_ne_zero {p : Ptr} (h : p.isErrOrNull = true) {code : Int} (hCode : code ≠ 0) :
    p.failure code ≠ 0 := by
  cases p with
  | null => exact hCode
  | err e =>
    simp only [Ptr.failure, reduceCtorEq, if_false, Ptr.ptrErr]
    omega
  | obj id => cases h

theorem Ptr.exists_obj {p : Ptr} (h : p.isErrOrNull = false) : ∃ id, p = .obj id := by
  cases p with
  | obj id => exact ⟨id, rfl⟩
  | null => cases h
  | err e => cases h

theorem rcOf_eq_zero_iff {α : Type} {r : Except Errno α} : rcOf r = 0 ↔ ∃ v, r = .ok v := by
  cases r with
  | error e =>
    have := e.negative
    simp only [rcOf, reduceCtorEq, exists_false, iff_false]
    omega
  | ok v => exact ⟨fun _ => ⟨v, rfl⟩, fun _ => rfl⟩

end SoftwarePrototypes.DmaProxy
