import SoftwarePrototypes.Interaction.Programs

/-! # The surroundings of the first stage boot loader

The calls and register accesses of `image_mover.c`, the constants it takes from headers outside
the file, the build options and the globals that stay fixed during `LoadBootImage`. Console output
and cache maintenance are left out, except that `HeaderDump` marks the start of a partition.
-/

namespace SoftwarePrototypes.Fsbl

open Interaction

abbrev U32 : Type := BitVec 32

inductive Status where
  | success | failure
  deriving DecidableEq

/-- `XST_FAILURE`, as an address. -/
def xstFailure : U32 := 1

/-- A partition header: 16 words, the checksum last. -/
structure PartHeader where
  imageWordLen : U32
  dataWordLen : U32
  partitionWordLen : U32
  loadAddr : U32
  execAddr : U32
  partitionStart : U32
  partitionAttr : U32
  sectionCount : U32
  checkSumOffset : U32
  pads1 : U32
  acOffset : U32
  pads2 : U32 × U32 × U32 × U32
  checkSum : U32
  deriving DecidableEq

def PartHeader.fields (h : PartHeader) : List U32 :=
  [h.imageWordLen, h.dataWordLen, h.partitionWordLen, h.loadAddr, h.execAddr, h.partitionStart,
    h.partitionAttr, h.sectionCount, h.checkSumOffset, h.pads1, h.acOffset,
    h.pads2.1, h.pads2.2.1, h.pads2.2.2.1, h.pads2.2.2.2, h.checkSum]

/-- The argument of `OutputStatus` before a fallback. -/
inductive FailCode where
  | getHeaderInfo | rsaSupportNotEnabled | invalidHeader | partitionLoad | invalidLoadAddress
  | beforeBstreamHook | afterBstreamHook | partitionMove | partitionChecksum | authentication
  | decryption | bitstreamDownload
  deriving DecidableEq

/-- Constants of `image_mover.h`, `fsbl.h` and the board support package. A word has four bytes,
so `WORD_LENGTH_SHIFT` is 2. -/
structure Headers where
  siliconVersion1 : U32
  siliconVersion2 : U32
  rebootStatusReg : U32
  fsblFailMask : U32
  baseaddrHolder : U32
  multibootAddrOffset : U32
  mbootRebootOffsetMask : U32
  goldenImageOffset : U32
  statusOffset : U32
  statusEfuseSecEnMask : U32
  efuseStatusReg : U32
  efuseStatusRsaEnableMask : U32
  imageTotByteLenOffset : U32
  imageHdrOffset : U32
  imagePhdrOffset : U32
  imageHeaderTableSize : U32
  totalImageHeaderSize : U32
  totalPartitionHeaderSize : U32
  totalHeaderSize : U32
  rsaSignatureSize : U32
  rsaPartitionSignatureSize : U32
  maxPartitionNumber : Nat
  psImageMask : U32
  plImageMask : U32
  checksumTypeMask : U32
  rsaPresentMask : U32
  partitionOwnerMask : U32
  partitionOwnerFsbl : U32
  ddrStartAddr : U32
  ddrEndAddr : U32
  ddrTempStartAddr : U32
  qspiFlashBaseaddr : U32
  qspiFlashHighaddr : U32
  rsaAcStart : U32
  headerTemp : U32

/-- `ddr` is `XPAR_PS7_DDR_0_S_AXI_BASEADDR`. -/
structure Build where
  ddr : Bool
  rsaSupport : Bool
  rsaWithoutEfuses : Bool
  mmcSupport : Bool
  noCpuWarmReboot : Bool
  forceUseAesExclude : Bool

/-- The headers, the build and the globals set before `LoadBootImage`. -/
structure Setup extends Headers, Build where
  siliconVersion : U32
  flashReadBaseAddress : U32
  linearBootDeviceFlag : Bool

/-- Where `MoveImage` puts what it reads: at an address, or in a variable of the boot loader. -/
inductive Destination where
  | address (addr : U32)
  | fsblLength
  | offset
  | partitionHeader
  | checksum
  | headerBuffer (addr : U32)

abbrev Md5 : Type := BitVec 128

abbrev Sha256 : Type := BitVec 256

/-- What the boot loader sees of the data read. -/
abbrev Destination.Data : Destination → Type
  | .address _ => Unit
  | .fsblLength | .offset => U32
  | .partitionHeader => Nat → PartHeader
  | .checksum => Md5
  | .headerBuffer _ => List U32

inductive Op where
  | xilIn32 (addr : U32)
  | xilOut32 (addr value : U32)
  | readReg (offset : U32)
  | moveImage (source : U32) (destination : Destination) (bytes : U32)
  | pcapDataTransfer (source destination imageWordLen dataWordLen : U32) (secure : Bool)
  | pcapLoadPartition (source destination imageWordLen dataWordLen : U32) (secure : Bool)
  | md5 (addr length : U32)
  | sha256 (addr length : U32)
  | sha2 (message : List U32)
  | setPpk (fsblLength : U32)
  | authenticatePartition (ac : U32) (hash : Sha256)
  | headerDump (header : PartHeader)
  | fsblHookBeforeBitstreamDload
  | fsblHookAfterBitstreamDload
  | outputStatus (code : FailCode)
  | fsblFallback

abbrev Answer : Op → Type
  | .xilIn32 _ | .readReg _ => U32
  | .moveImage _ destination _ => Status × destination.Data
  | .pcapDataTransfer _ _ _ _ _ | .pcapLoadPartition _ _ _ _ _ | .authenticatePartition _ _
  | .fsblHookBeforeBitstreamDload | .fsblHookAfterBitstreamDload => Status
  | .md5 _ _ => Md5
  | .sha256 _ _ | .sha2 _ => Sha256
  | .fsblFallback => Empty
  | _ => Unit

abbrev Loader (α : Type) : Type := Prog Op Answer α

abbrev op (e : Op) : Loader (Answer e) := Prog.ask e

/-- `FsblFallback` does not return. -/
def fallback {α : Type} (code : FailCode) : Loader α := do
  op (.outputStatus code)
  let never ← op .fsblFallback
  nomatch never

def require (status : Status) (code : FailCode) : Loader Unit :=
  if status = .success then pure () else fallback code

end SoftwarePrototypes.Fsbl
