import Mathlib.Algebra.Group.Nat.Defs
import SoftwarePrototypes.Interaction.Caches
import SoftwarePrototypes.Interaction.Memory
import SoftwarePrototypes.Interaction.Threads

/-! # The cache coherency examples

The applications `main_a53.c` and `main_a72.c` dirty a destination buffer in the cache of the APU,
have another master copy a pattern over it, and read it back. The last master is the RPU, where
`main_r5.c` copies on an interrupt. Evictions, fills, the transfers of the DMA engines and the two
processors interleave in every way.
-/

namespace SoftwarePrototypes.CacheCoherency

open Interaction Interaction.Prog Interaction.Threads Interaction.Caches
open Interaction.Memory (Byte)

abbrev U32 : Type := BitVec 32

/-- The buffers lie below 4 GB. -/
abbrev Address : Type := BitVec 32

inductive Status where
  | success | failure
  deriving DecidableEq

inductive Master where
  | fpdCdma | lpdCdma | cci0Cdma | cci1Cdma | zdma | rpu
  deriving DecidableEq

inductive BurstType where
  | fixed | incr
  deriving DecidableEq

/-- The fields of `XZDma_DataConfig` that are set. -/
structure DataConfig where
  srcBurstType : BurstType
  srcBurstLen : U32
  dstBurstType : BurstType
  dstBurstLen : U32
  srcCache : U32
  dstCache : U32
  deriving DecidableEq

/-- What decides how an access of another master is routed. `tlb` is by section of 2 MB, `gpio` by
device and channel, and `gpioDevice` is the device that `Gpio` was initialized for. -/
structure Settings where
  register : U32 → U32
  tlb : U32 → U32
  gpioDevice : U32
  gpio : U32 → U32 → U32
  zdmaScatterGather : Bool
  dataConfig : DataConfig
  zdmaCoherent : U32 × U32

def tlbSection (a : Address) : U32 := a >>> 21

def bufferByteSize : Nat := 64

def offset (a : Address) (i : Nat) : Address := a + BitVec.ofNat 32 i

/-- Two buffers that do not overlap, in one section. -/
structure Buffers where
  src : Address
  dst : Address
  sameSection : tlbSection src = tlbSection dst
  apart : ∀ {i j}, i < bufferByteSize → j < bufferByteSize → offset src i ≠ offset dst j

theorem offset_ne_of_le {a b : Address} (hAbove : a.toNat + bufferByteSize ≤ b.toNat)
    (hEnd : b.toNat + bufferByteSize ≤ 2 ^ 32) {i j : Nat} (hi : i < bufferByteSize)
    (hj : j < bufferByteSize) : offset a i ≠ offset b j := by
  intro h
  have hNat := congrArg BitVec.toNat h
  simp only [offset, BitVec.toNat_add, BitVec.toNat_ofNat] at hNat
  unfold bufferByteSize at hAbove hEnd hi hj
  omega

/-! ## The APU: configuration -/

inductive SetUp where
  | out32 (address value : U32)
  | in32 (address : U32)
  | setTlbAttributes (a : Address) (attrib : U32)
  | dsb
  | gpioInitialize (device : U32)
  | gpioDiscreteWrite (channel value : U32)
  | cdmaInitialize (m : Master)
  | zdmaInitialize
  | zdmaSetMode (isSgDma : Bool)
  | zdmaSetChDataConfig (configure : DataConfig)
  | ipiInitialize

/-- `ipiInitialize` finds the masks of the targets. -/
abbrev SetUpAnswer : SetUp → Type
  | .in32 _ => U32
  | .ipiInitialize => List U32
  | _ => Unit

abbrev Configuration (α : Type) : Type := Prog SetUp SetUpAnswer α

abbrev cfg (e : SetUp) : Configuration (SetUpAnswer e) := Prog.ask e

def enableSnoop : U32 := 0x1

def normWbOutCache : U32 := 0x605

def axiAttr (prot cache : U32) : U32 := prot <<< 4 ||| cache

/-- Unprivileged, secure, data. -/
def protUpSD : U32 := 0x0

def cdmaConfiguration (m : Master) (device channel cache : U32) : Configuration Unit := do
  cfg (.cdmaInitialize m)
  cfg (.gpioInitialize device)
  cfg (.gpioDiscreteWrite channel (axiAttr protUpSD cache))

def zdmaDataConfig (cache : U32) : DataConfig where
  srcBurstType := .incr
  srcBurstLen := 0xF
  dstBurstType := .incr
  dstBurstLen := 0xF
  srcCache := cache
  dstCache := cache

def zdmaConfiguration (cache : U32) : Configuration Unit := do
  cfg .zdmaInitialize
  cfg (.zdmaSetMode false)
  cfg (.zdmaSetChDataConfig (zdmaDataConfig cache))

/-- `DestCpuMask`, the mask of the second target. -/
def destCpuMask : Configuration U32 := do
  let targetList ← cfg .ipiInitialize
  pure (targetList.getD 1 0)

/-! ## The APU: the tests -/

def readbackFormat : String := "Destination buffer readback: 0x%0X\r\n"

/-- `SrcAddr`, `DstAddr`, `SrcCoherent`, `DstCoherent` and `Size`. -/
structure ZdmaTransfer where
  srcAddr : Address
  dstAddr : Address
  srcCoherent : U32
  dstCoherent : U32
  size : Nat

/-- `awaitIdle` is the loop that polls until an engine is no longer busy. -/
inductive ApuOp where
  | setUp (e : SetUp)
  | sleep (seconds : Nat)
  | load (a : Address)
  | store (a : Address) (v : Byte)
  | dCacheFlushRange (a : Address) (bytes : Nat)
  | simpleTransfer (m : Master) (src dst : Address) (bytes : Nat)
  | zdmaStart (data : ZdmaTransfer)
  | awaitIdle (m : Master)
  | writeMessage (mask : U32) (words : U32 × U32 × U32)
  | triggerIpi (mask : U32)
  | pollForAck (mask : U32) (timeOutCount : Nat)
  | xilPrintf (format : String) (args : List U32)

abbrev ApuAnswer : ApuOp → Type
  | .setUp e => SetUpAnswer e
  | .load _ => Byte
  | .simpleTransfer .. | .zdmaStart _ | .pollForAck .. => Status
  | _ => Unit

abbrev Apu (α : Type) : Type := Prog ApuOp ApuAnswer α

abbrev apuOp (e : ApuOp) : Apu (ApuAnswer e) := Prog.ask e

def setUp {α : Type} : Configuration α → Apu α
  | .ret value => .ret value
  | .call e next => .call (.setUp e) fun answer => setUp (next answer)

def initBuffers (B : Buffers) (pattern : Byte) : Apu Unit := do
  (List.range bufferByteSize).forM fun i => do
    apuOp (.store (offset B.src i) pattern)
    apuOp (.store (offset B.dst i) 0x0)
  apuOp (.dCacheFlushRange B.src bufferByteSize)
  apuOp (.dCacheFlushRange B.dst bufferByteSize)

def writeCache (B : Buffers) : Apu Unit :=
  (List.range bufferByteSize).forM fun i => apuOp (.store (offset B.dst i) 0xFF)

def readback (B : Buffers) : Apu Unit := do
  let value ← apuOp (.load (offset B.dst 0))
  apuOp (.xilPrintf readbackFormat [value.setWidth 32])

/-- What a test prints, its pattern and the master that copies. -/
structure Test where
  title : String
  note : String
  pattern : Byte
  master : Master

/-- A call of one of the DMA drivers. -/
def startTransfer (B : Buffers) : Master → Apu Status
  | .zdma => apuOp (.zdmaStart ⟨B.src, B.dst, 1, 1, bufferByteSize⟩)
  | m => apuOp (.simpleTransfer m B.src B.dst bufferByteSize)

def dmaTest (B : Buffers) (test : Test) : Apu Unit := do
  apuOp (.xilPrintf test.title [])
  apuOp (.xilPrintf test.note [])
  initBuffers B test.pattern
  writeCache B
  let _ ← startTransfer B test.master
  apuOp (.awaitIdle test.master)
  readback B

def rpuTest (B : Buffers) (mask : U32) (test : Test) : Apu Unit := do
  apuOp (.xilPrintf test.title [])
  apuOp (.xilPrintf test.note [])
  initBuffers B test.pattern
  writeCache B
  apuOp (.writeMessage mask (B.src, B.dst, BitVec.ofNat 32 bufferByteSize))
  apuOp (.triggerIpi mask)
  let _ ← apuOp (.pollForAck mask 100000)
  readback B

def stars : String := "************************************************************\r\n"

def lpdDmaTest : Test :=
  ⟨"\r\nLPD DMA Coherency Test\r\n", "Source buffer pattern: 0xA5\r\n", 0xA5, .zdma⟩

def rpuCoherencyTest : Test :=
  ⟨"\r\nRPU Coherency Test\r\n", "Source buffer pattern: 0x5A\r\n", 0x5A, .rpu⟩

def fpdDmaTest (title : String) : Test :=
  ⟨title, "Source buffer pattern: 0x36\r\n", 0x36, .fpdCdma⟩

def plLpdDmaTest : Test :=
  ⟨"\r\nPL LPD DMA Coherency Test\r\n", "Source buffer pattern: 0x37\r\n", 0x37, .lpdCdma⟩

/-! ### `main_a53.c` -/

namespace A53

def slcrAdma : U32 := 0xFF4B0024
def snoopControlS3 : U32 := 0xFD6E4000
def hpcChannel : U32 := 1
def lpdChannel : U32 := 2
def cacheOaM : U32 := 0xB
def rpu0Cfg : U32 := 0xFF9A0100
def rpuCoherent : U32 := 0x2

def ddr : Buffers where
  src := 0x40000
  dst := 0x60000
  sameSection := rfl
  apart := offset_ne_of_le (by decide) (by decide)

def fpdCdmaConfiguration : Configuration Unit :=
  cdmaConfiguration .fpdCdma 0 hpcChannel cacheOaM

def lpdCdmaConfiguration : Configuration Unit :=
  cdmaConfiguration .lpdCdma 0 lpdChannel cacheOaM

def lpdDmaConfiguration : Configuration Unit := do
  zdmaConfiguration cacheOaM
  cfg (.out32 slcrAdma 0x0)

def rpuConfiguration : Configuration U32 := do
  let mask ← destCpuMask
  let value ← cfg (.in32 rpu0Cfg)
  cfg (.out32 rpu0Cfg (value ||| rpuCoherent))
  pure mask

def configuration (B : Buffers) : Configuration U32 := do
  cfg (.out32 snoopControlS3 enableSnoop)
  cfg (.setTlbAttributes B.dst normWbOutCache)
  cfg .dsb
  fpdCdmaConfiguration
  lpdCdmaConfiguration
  lpdDmaConfiguration
  rpuConfiguration

def dmaTests : List Test :=
  [fpdDmaTest "\r\nPL FPD(HPC) DMA Coherency Test\r\n", plLpdDmaTest, lpdDmaTest]

def main : Apu Unit := do
  apuOp (.xilPrintf stars [])
  apuOp (.xilPrintf "ZynqMP CCI-400 Coherency example\r\n" [])
  apuOp (.xilPrintf stars [])
  let mask ← setUp (configuration ddr)
  dmaTests.forM (dmaTest ddr)
  rpuTest ddr mask rpuCoherencyTest

end A53

/-! ### `main_a72.c` -/

namespace A72

def snoopControlSi4 : U32 := 0xFD005000
def plAceliteFpdTz : U32 := 0xFD690118
def plAxiLpdTz : U32 := 0xFF510050
def dmaCh0Tz : U32 := 0xFF510060
def dmaRoute : U32 := 0xFE600014
def plAxiLpdRoute : U32 := 0xFE600018
def rpu0Route : U32 := 0xFE60001C
def cacheOaM : U32 := 0x6
def fpdChannel : U32 := 1
def lpdChannel : U32 := 2
def cci0Channel : U32 := 1
def cci1Channel : U32 := 2

/-- The buffers of the memory test of the DDR. -/
def ddr : Buffers := A53.ddr

/-- The buffers of the memory test of the OCM. -/
def ocm : Buffers where
  src := 0xfffc0000
  dst := 0xfffe0000
  sameSection := rfl
  apart := offset_ne_of_le (by decide) (by decide)

def fpdCdmaConfiguration : Configuration Unit := do
  cdmaConfiguration .fpdCdma 0 fpdChannel cacheOaM
  cfg (.out32 plAceliteFpdTz 0x0)

def lpdCdmaConfiguration : Configuration Unit := do
  cdmaConfiguration .lpdCdma 0 lpdChannel cacheOaM
  cfg (.out32 plAxiLpdTz 0x0)
  cfg (.out32 plAxiLpdRoute 0x1)

def cci0CdmaConfiguration : Configuration Unit :=
  cdmaConfiguration .cci0Cdma 1 cci0Channel cacheOaM

def cci1CdmaConfiguration : Configuration Unit :=
  cdmaConfiguration .cci1Cdma 1 cci1Channel cacheOaM

def lpdDmaConfiguration : Configuration Unit := do
  zdmaConfiguration cacheOaM
  cfg (.out32 dmaCh0Tz 0x0)
  cfg (.out32 dmaRoute 0x1)

def rpuConfiguration : Configuration U32 := do
  let mask ← destCpuMask
  cfg (.out32 rpu0Route 0x1)
  pure mask

def configuration (B : Buffers) : Configuration U32 := do
  cfg (.out32 snoopControlSi4 enableSnoop)
  cfg (.setTlbAttributes B.dst normWbOutCache)
  cfg .dsb
  fpdCdmaConfiguration
  lpdCdmaConfiguration
  cci0CdmaConfiguration
  cci1CdmaConfiguration
  lpdDmaConfiguration
  rpuConfiguration

def cci0Test : Test :=
  ⟨"\r\nCCI 0 DMA Coherency Test\r\n", "Source buffer pattern: 0x38\r\n", 0x38, .cci0Cdma⟩

def cci1Test : Test :=
  ⟨"\r\nCCI 1 DMA Coherency Test\r\n", "Source buffer pattern: 0x39\r\n", 0x39, .cci1Cdma⟩

def dmaTests : List Test :=
  [fpdDmaTest "\r\nPL FPD DMA Coherency Test\r\n", plLpdDmaTest, cci0Test, cci1Test, lpdDmaTest]

def main (B : Buffers) : Apu Unit := do
  apuOp (.sleep 1)
  apuOp (.xilPrintf "\r\n" [])
  apuOp (.xilPrintf stars [])
  apuOp (.xilPrintf "Versal CCI-500 Coherency example\r\n" [])
  apuOp (.xilPrintf "Source buffer 0x%p, Destination buffer 0x%p\r\n" [B.src, B.dst])
  apuOp (.xilPrintf stars [])
  let mask ← setUp (configuration B)
  dmaTests.forM (dmaTest B)
  rpuTest B mask rpuCoherencyTest

end A72

/-! ## The RPU -/

abbrev Words : Type := U32 × U32 × U32

inductive RpuOp where
  | exceptionRegisterHandler (id : String)
  | dCacheDisable
  | ipiInitialize
  | gicInitialize
  | gicConnect
  | gicEnable
  | exceptionEnable
  | interruptEnable (mask : U32)
  | clearInterruptStatus (mask : U32)
  | getInterruptStatus
  | readMessage (mask : U32)
  | load (a : Address)
  | store (a : Address) (v : Byte)

abbrev RpuAnswer : RpuOp → Type
  | .getInterruptStatus => U32
  | .readMessage _ => Words
  | .load _ => Byte
  | _ => Unit

abbrev Rpu (α : Type) : Type := Prog RpuOp RpuAnswer α

abbrev rpuOp (e : RpuOp) : Rpu (RpuAnswer e) := Prog.ask e

def copyBytes (words : Words) : Rpu Unit :=
  (List.range words.2.2.toNat).forM fun i => do
    let value ← rpuOp (.load (offset words.1 i))
    rpuOp (.store (offset words.2.1 i) value)

def serveSource (ipiSrcMask mask : U32) : Rpu Unit :=
  if ipiSrcMask &&& mask ≠ 0 then do
    let words ← rpuOp (.readMessage mask)
    copyBytes words
    rpuOp (.clearInterruptStatus mask)
  else pure ()

/-- `targetList` are the masks of `InstancePtr->Config.TargetList`. -/
def ipiIntrHandler (targetList : List U32) : Rpu Unit := do
  let ipiSrcMask ← rpuOp .getInterruptStatus
  targetList.forM (serveSource ipiSrcMask)

/-- Where `main` stands; `spinning` is its last loop. -/
inductive Point where
  | reset | enabled | cleared | spinning
  deriving DecidableEq

/-- `main` up to where interrupts come in; `allMask` is `XIPIPSU_ALL_MASK`. -/
def startUp (allMask : U32) : Rpu Point := do
  rpuOp (.exceptionRegisterHandler "XIL_EXCEPTION_ID_DATA_ABORT_INT")
  rpuOp .dCacheDisable
  rpuOp .ipiInitialize
  rpuOp .gicInitialize
  rpuOp (.exceptionRegisterHandler "XIL_EXCEPTION_ID_INT")
  rpuOp .gicConnect
  rpuOp .gicEnable
  rpuOp .exceptionEnable
  rpuOp (.interruptEnable allMask)
  pure .enabled

def clearExisting (allMask : U32) : Rpu Point := do
  rpuOp (.clearInterruptStatus allMask)
  pure .cleared

/-! ## Both processors, the caches and the engines -/

/-- A line is named by an address on it. `snooped` says, for the settings made, whether the accesses
of a master go through the cache of the APU. -/
structure Board where
  line : Address → Address
  mayEvict : Address → Bool
  snooped : Settings → Master → Bool
  apuMask : U32
  rpuMask : U32
  allMask : U32
  apuTargets : List U32
  rpuTargets : List U32
  rpu_second : apuTargets.getD 1 0 = rpuMask
  apu_mem : apuMask ∈ rpuTargets
  rpuTargets_nodup : rpuTargets.Nodup
  apuMask_ne : apuMask ≠ 0
  rpuMask_ne : rpuMask ≠ 0
  apart : ∀ mask ∈ rpuTargets, mask ≠ apuMask → apuMask &&& mask = 0

/-- What an engine has fetched and what it has written of a transfer. -/
structure Job where
  master : Master
  src : Address
  dst : Address
  size : Nat
  data : Nat → Option Byte
  done : Nat → Bool

/-- Whether the transfer before had been reported complete, and what was printed. -/
structure Readback where
  finished : Bool
  values : List U32
  deriving DecidableEq

/-- `isr` holds the sources that the RPU has to serve, `enabled` those that interrupt it. The last
three fields look on: whether the last transfer was completed or acknowledged, whether the RPU has
come to its last loop, and the readbacks printed. -/
structure State where
  cache : Cached Address Address Byte
  settings : Settings
  job : Option Job
  messages : U32 → Words
  isr : U32
  enabled : U32
  exceptions : Bool
  rpuDCache : Bool
  finished : Bool
  rpuUp : Bool
  readbacks : List Readback

def configure (B : Board) : (e : SetUp) → Settings → SetUpAnswer e × Settings
  | .out32 address value, s => ((), { s with register := Function.update s.register address value })
  | .in32 address, s => (s.register address, s)
  | .setTlbAttributes a attrib, s =>
    ((), { s with tlb := Function.update s.tlb (tlbSection a) attrib })
  | .dsb, s => ((), s)
  | .gpioInitialize device, s => ((), { s with gpioDevice := device })
  | .gpioDiscreteWrite channel value, s =>
    let channels := Function.update (s.gpio s.gpioDevice) channel value
    ((), { s with gpio := Function.update s.gpio s.gpioDevice channels })
  | .cdmaInitialize _, s => ((), s)
  | .zdmaInitialize, s => ((), s)
  | .zdmaSetMode isSgDma, s => ((), { s with zdmaScatterGather := isSgDma })
  | .zdmaSetChDataConfig config, s => ((), { s with dataConfig := config })
  | .ipiInitialize, s => (B.apuTargets, s)

/-- What is left open at a step. -/
inductive Choice where
  | proceed
  | refuse
  | timeout
  | interrupt
  | stale (v : Byte)
  | evict (a : Address)
  | fill (a : Address)
  | fetch (i : Nat)
  | deposit (i : Nat)
  | complete
  | stop

def State.begin (s : State) (m : Master) (src dst : Address) (size : Nat) : State :=
  { s with job := some ⟨m, src, dst, size, fun _ => none, fun _ => false⟩, finished := false }

def Cached.flushRange (B : Board) (a : Address) (bytes : Nat)
    (cache : Cached Address Address Byte) : Cached Address Address Byte :=
  (List.range bytes).foldl (fun cache i => cache.evict B.line (B.line (offset a i))) cache

/-- The targets that have not acknowledged the APU. -/
def observation (B : Board) (s : State) : U32 :=
  if s.isr &&& B.apuMask = 0 then 0 else B.rpuMask

/-- A call of the APU that goes its usual way. -/
def apuServe (B : Board) : (e : ApuOp) → State → Option (ApuAnswer e × State)
  | .setUp e, s =>
    some ((configure B e s.settings).1, { s with settings := (configure B e s.settings).2 })
  | .sleep _, s => some ((), s)
  | .load a, s =>
    some ((s.cache.fill (B.line a)).view B.line a, { s with cache := s.cache.fill (B.line a) })
  | .store a v, s => some ((), { s with cache := s.cache.store B.line a v })
  | .dCacheFlushRange a bytes, s =>
    some ((), { s with cache := Cached.flushRange B a bytes s.cache })
  | .simpleTransfer m src dst bytes, s => some (.success, s.begin m src dst bytes)
  | .zdmaStart data, s =>
    let settings := { s.settings with zdmaCoherent := (data.srcCoherent, data.dstCoherent) }
    some (.success, { s with settings }.begin .zdma data.srcAddr data.dstAddr data.size)
  | .awaitIdle _, s => if s.job.isNone then some ((), s) else none
  | .writeMessage mask words, s =>
    let messages := if mask = B.rpuMask then Function.update s.messages B.apuMask words
      else s.messages
    some ((), { s with messages })
  | .triggerIpi mask, s =>
    let isr := if mask &&& B.rpuMask = 0 then s.isr else s.isr ||| B.apuMask
    some ((), { s with isr, finished := false })
  | .pollForAck mask _, s =>
    if observation B s &&& mask = 0 then some (.success, { s with finished := true }) else none
  | .xilPrintf format args, s =>
    let readbacks := if format = readbackFormat then s.readbacks ++ [⟨s.finished, args⟩]
      else s.readbacks
    some ((), { s with readbacks })

/-- With its data cache on, the RPU may read what it has cached, and a store need not get out. -/
def rpuServe (B : Board) : (e : RpuOp) → Choice → State → Option (RpuAnswer e × State)
  | .exceptionRegisterHandler _, _, s => some ((), s)
  | .dCacheDisable, _, s => some ((), { s with rpuDCache := false })
  | .ipiInitialize, _, s => some ((), s)
  | .gicInitialize, _, s => some ((), s)
  | .gicConnect, _, s => some ((), s)
  | .gicEnable, _, s => some ((), s)
  | .exceptionEnable, _, s => some ((), { s with exceptions := true })
  | .interruptEnable mask, _, s => some ((), { s with enabled := s.enabled ||| mask })
  | .clearInterruptStatus mask, _, s => some ((), { s with isr := s.isr &&& ~~~mask })
  | .getInterruptStatus, _, s => some (s.isr, s)
  | .readMessage mask, _, s => some (s.messages mask, s)
  | .load _, .stale v, s => if s.rpuDCache then some (v, s) else none
  | .load a, _, s => some (s.cache.masterRead B.line (B.snooped s.settings .rpu) a, s)
  | .store _ _, .stale _, s => if s.rpuDCache then some ((), s) else none
  | .store a v, _, s =>
    some ((), { s with cache := s.cache.masterWrite B.line (B.snooped s.settings .rpu) a v })

def Job.fetch (B : Board) (s : State) (job : Job) (i : Nat) : Job :=
  let value := s.cache.masterRead B.line (B.snooped s.settings job.master) (offset job.src i)
  { job with data := Function.update job.data i (some value) }

/-- An engine may fetch and write the bytes of a transfer in any order. -/
def hardware (B : Board) : Choice → State → Option State
  | .evict a, s =>
    if B.mayEvict a then some { s with cache := s.cache.evict B.line (B.line a) } else none
  | .fill a, s => some { s with cache := s.cache.fill (B.line a) }
  | .fetch i, s =>
    s.job.bind fun job =>
      if i < job.size then some { s with job := some (job.fetch B s i) } else none
  | .deposit i, s =>
    s.job.bind fun job => (job.data i).bind fun v => if i < job.size then
      let snooped := B.snooped s.settings job.master
      some { s with
        cache := s.cache.masterWrite B.line snooped (offset job.dst i) v
        job := some { job with done := Function.update job.done i true } }
      else none
  | .complete, s =>
    s.job.bind fun job => if (List.range job.size).all job.done then
      some { s with job := none, finished := true } else none
  | .stop, s => s.job.bind fun _ => some { s with job := none, finished := false }
  | _, _ => none

inductive Cpu where
  | apu | rpu
  deriving DecidableEq

abbrev Call : Cpu → Type
  | .apu => ApuOp
  | .rpu => RpuOp

abbrev CallAnswer : (i : Cpu) → Call i → Type
  | .apu => ApuAnswer
  | .rpu => RpuAnswer

abbrev Result : Cpu → Type
  | .apu => Unit
  | .rpu => Point

/-- The handler returns to where `main` was interrupted. -/
def interrupt (B : Board) (point : Point) : Rpu Point := do
  ipiIntrHandler B.rpuTargets
  pure point

def boardSystem (B : Board) : System CallAnswer Result Choice State where
  perform
    | .apu, e, .proceed, s => apuServe B e s
    | .apu, .simpleTransfer .., .refuse, s => some (.failure, { s with finished := false })
    | .apu, .zdmaStart _, .refuse, s => some (.failure, { s with finished := false })
    | .apu, .pollForAck _ _, .timeout, s => some (.failure, { s with finished := false })
    | .apu, _, _, _ => none
    | .rpu, e, choice, s => rpuServe B e choice s
  again
    | .apu, _, _, _ => none
    | .rpu, .reset, .proceed, s => some (startUp B.allMask, s)
    | .rpu, .enabled, .proceed, s => some (clearExisting B.allMask, s)
    | .rpu, .cleared, .proceed, s => some (.ret .spinning, { s with rpuUp := true })
    | .rpu, .reset, .interrupt, _ => none
    | .rpu, point, .interrupt, s =>
      if s.exceptions = true ∧ s.isr &&& s.enabled ≠ 0 then some (interrupt B point, s) else none
    | .rpu, _, _, _ => none
  surroundings := hardware B

/-- What the memory, the caches and the registers hold at first is open. -/
def started (program : Apu Unit) (cache : Cached Address Address Byte) (settings : Settings)
    (messages : U32 → Words) : Config CallAnswer Result State where
  shared := {
    cache, settings, messages
    job := none
    isr := 0
    enabled := 0
    exceptions := false
    rpuDCache := true
    finished := false
    rpuUp := false
    readbacks := [] }
  code
    | .apu => program
    | .rpu => .ret .reset

end SoftwarePrototypes.CacheCoherency
