import SoftwarePrototypes.Fsbl.ImageMover
import SoftwarePrototypes.Interaction.Reachability
import SoftwarePrototypes.Interaction.Traces

/-! # A boot on a bench

A Zynq-7000 with DDR, its usual constants, and a boot device that is not linear. The boot image
has the boot loader and one more partition; all calls succeed.
-/

namespace SoftwarePrototypes.Fsbl

open Interaction Interaction.Prog

def bench : Setup where
  siliconVersion1 := 0
  siliconVersion2 := 1
  rebootStatusReg := 0xF8000258
  fsblFailMask := 0x00F00000
  baseaddrHolder := 0xFFFFFFF8
  multibootAddrOffset := 0x2C
  mbootRebootOffsetMask := 0x1FFF
  goldenImageOffset := 0x8000
  statusOffset := 0x14
  statusEfuseSecEnMask := 0x8
  efuseStatusReg := 0xF800D010
  efuseStatusRsaEnableMask := 0x400
  imageTotByteLenOffset := 0x48
  imageHdrOffset := 0x98
  imagePhdrOffset := 0x9C
  imageHeaderTableSize := 0x40
  totalImageHeaderSize := 0x340
  totalPartitionHeaderSize := 0x380
  totalHeaderSize := 0x740
  rsaSignatureSize := 0x6C0
  rsaPartitionSignatureSize := 0x100
  maxPartitionNumber := 0xE
  psImageMask := 0x10
  plImageMask := 0x20
  checksumTypeMask := 0x7000
  rsaPresentMask := 0x8000
  partitionOwnerMask := 0x30000
  partitionOwnerFsbl := 0
  ddrStartAddr := 0x100000
  ddrEndAddr := 0x3FFFFFFF
  ddrTempStartAddr := 0x100000
  qspiFlashBaseaddr := 0xFC000000
  qspiFlashHighaddr := 0xFCFFFFFF
  rsaAcStart := 0x20000
  headerTemp := 0x30000
  ddr := true
  rsaSupport := true
  rsaWithoutEfuses := false
  mmcSupport := false
  noCpuWarmReboot := false
  forceUseAesExclude := false
  siliconVersion := 3
  flashReadBaseAddress := 0
  linearBootDeviceFlag := false

def benchHeader (imageWordLen dataWordLen partitionWordLen loadAddr partitionAttr : U32) :
    PartHeader :=
  let sum := imageWordLen + dataWordLen + partitionWordLen + loadAddr + partitionAttr
  ⟨imageWordLen, dataWordLen, partitionWordLen, loadAddr, 0, 0, partitionAttr, 0, 0, 0, 0,
    (0, 0, 0, 0), sum ^^^ 0xFFFFFFFF⟩

def endMarker : PartHeader := ⟨0, 0, 0, 0, 0, 0, 0, 0, 0, 0, 0, (0, 0, 0, 0), 0xFFFFFFFF⟩

/-- The boot loader's own header is not looked at. -/
def benchTable (h : PartHeader) : Nat → PartHeader
  | 0 => benchHeader 1 1 1 0 0x10
  | 1 => h
  | _ => endMarker

/-- Answers of the bench; `status` is the device configuration status register. -/
def benchAnswer (h : PartHeader) (status : U32) : (e : Op) → Option (Answer e)
  | .xilIn32 _ => some 0
  | .readReg offset => some (if offset = bench.statusOffset then status else 0)
  | .moveImage _ destination _ => some (.success, match destination with
    | .address _ => ()
    | .fsblLength | .offset => 0
    | .partitionHeader => benchTable h
    | .checksum => 0
    | .headerBuffer _ => [])
  | .pcapDataTransfer _ _ _ _ _ | .pcapLoadPartition _ _ _ _ _ | .authenticatePartition _ _
  | .fsblHookBeforeBitstreamDload | .fsblHookAfterBitstreamDload => some Status.success
  | .md5 _ _ => some 0
  | .sha256 _ _ | .sha2 _ => some 0
  | .fsblFallback => none
  | .xilOut32 _ _ | .setPpk _ | .headerDump _ | .outputStatus _ => some ()

def benchRun {σ : Type} (record : (e : Op) → Answer e → σ → σ) (h : PartHeader) (status : U32)
    (n : Nat) (s : σ) : Loader Boot × σ :=
  follow (fun e s => (benchAnswer h status e).map fun answer => (answer, record e answer s)) n
    (loadBootImage bench) s

theorem benchRun_reaches {σ : Type} {allowed : (e : Op) → Answer e → Prop}
    {record : (e : Op) → Answer e → σ → σ} {h : PartHeader} {status : U32}
    (hAllowed : ∀ e answer, benchAnswer h status e = some answer → allowed e answer) (n : Nat)
    (s : σ) : Reaches (notes allowed record) (loadBootImage bench) s
      (benchRun record h status n s).1 (benchRun record h status n s).2 := by
  apply reaches_follow
  intro e s answer s' hChoose
  obtain ⟨answer', hAnswer, hPair⟩ := Option.map_eq_some_iff.mp hChoose
  cases hPair
  exact ⟨hAllowed e answer hAnswer, rfl⟩

/-! ## More partitions -/

def benchImage (partitions : List PartHeader) : Nat → PartHeader
  | 0 => benchHeader 1 1 1 0 0x10
  | num + 1 => partitions.getD num endMarker

/-- All calls succeed; `register` gives the memory-mapped registers. -/
def deviceAnswer (header : Nat → PartHeader) (register : U32 → U32) :
    (e : Op) → Option (Answer e)
  | .xilIn32 addr => some (register addr)
  | .readReg _ => some (0 : U32)
  | .moveImage _ destination _ => some (.success, match destination with
    | .address _ => ()
    | .fsblLength | .offset => 0
    | .partitionHeader => header
    | .checksum => 0
    | .headerBuffer _ => [])
  | .pcapDataTransfer _ _ _ _ _ | .pcapLoadPartition _ _ _ _ _ | .authenticatePartition _ _
  | .fsblHookBeforeBitstreamDload | .fsblHookAfterBitstreamDload => some Status.success
  | .md5 _ _ => some 0
  | .sha256 _ _ | .sha2 _ => some 0
  | .fsblFallback => none
  | .xilOut32 _ _ | .setPpk _ | .headerDump _ | .outputStatus _ => some ()

/-- The reset reason register of the bench. -/
def reasonRegister (reason addr : U32) : U32 := if addr = 0xF800702C then reason else 0

def benchPlay (partitions : List PartHeader) (reason : U32) (n : Nat) :
    List (Sigma Answer) × Loader Boot :=
  play (deviceAnswer (benchImage partitions) (reasonRegister reason)) n (loadBootImage bench)

theorem benchPlay_steps (partitions : List PartHeader) (reason : U32) (n : Nat) :
    Steps (loadBootImage bench) (benchPlay partitions reason n).1
      (benchPlay partitions reason n).2 :=
  steps_play _ n _

theorem benchPlay_call (partitions : List PartHeader) (reason : U32) (n : Nat) (e : Op)
    (hHead : (benchPlay partitions reason n).2.head = some e) :
    ∃ next, Steps (loadBootImage bench) (benchPlay partitions reason n).1 (.call e next) := by
  obtain ⟨next, hCode⟩ := exists_call_of_head hHead
  refine ⟨next, ?_⟩
  rw [← hCode]
  exact benchPlay_steps partitions reason n

theorem benchPlay_returns (partitions : List PartHeader) (reason : U32) (n : Nat) (boot : Boot)
    (hReturned : (benchPlay partitions reason n).2.returned = some boot) :
    Returns (loadBootImage bench) (benchPlay partitions reason n).1 boot :=
  returns_play hReturned

def benchBitstream : PartHeader := benchHeader 4 4 4 0 0x20

def benchApplication : PartHeader := benchHeader 4 4 4 0x100000 0x10

def benchUntyped : PartHeader := benchHeader 4 4 4 0x100000 0

end SoftwarePrototypes.Fsbl
