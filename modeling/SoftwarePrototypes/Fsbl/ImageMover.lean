import SoftwarePrototypes.Fsbl.PartitionHeaders

/-! # The partition walk

`LoadBootImage` and `PartitionMove` of `image_mover.c`, in all builds.
-/

namespace SoftwarePrototypes.Fsbl

open Interaction

/-- The partition flags, globals that keep their value from one partition to the next. -/
structure Flags where
  encryptedPartitionFlag : Bool
  plPartitionFlag : Bool
  psPartitionFlag : Bool
  signedPartitionFlag : Bool
  partitionChecksumFlag : Bool
  bitstreamFlag : Bool
  applicationFlag : Bool

def Flags.whole (fl : Flags) : Bool := fl.signedPartitionFlag || fl.partitionChecksumFlag

section Move

variable (f : Setup)

structure Transfer where
  sourceAddr : U32
  loadAddr : U32
  imageWordLen : U32
  dataWordLen : U32
  secureTransferFlag : Bool

/-- An encrypted PS partition that is checked is moved without decryption. -/
def transfer (imageBaseAddress : U32) (h : PartHeader) (fl : Flags) : Transfer where
  sourceAddr := imageBaseAddress + h.partitionStart <<< 2 +
    if f.linearBootDeviceFlag then f.flashReadBaseAddress else 0
  loadAddr := h.loadAddr
  imageWordLen := if fl.whole then h.partitionWordLen else h.imageWordLen
  dataWordLen := if fl.whole then h.partitionWordLen else h.dataWordLen
  secureTransferFlag := fl.encryptedPartitionFlag && !(fl.psPartitionFlag && fl.whole)

/-- The CPU copies from a device that is not linear, a bitstream to a temporary address. -/
def moveStep (fl : Flags) (t : Transfer) : Loader (Option Transfer) :=
  if f.linearBootDeviceFlag then pure (some t) else do
  let loadAddr := if fl.plPartitionFlag then f.ddrTempStartAddr else t.loadAddr
  let result ← op (.moveImage t.sourceAddr (.address loadAddr) (t.imageWordLen <<< 2))
  pure (if result.1 = .success then
    some { t with sourceAddr := loadAddr, loadAddr := loadAddr } else none)

def usesPcap (fl : Flags) (t : Transfer) : Bool :=
  (f.linearBootDeviceFlag && fl.plPartitionFlag && fl.whole) ||
    (f.linearBootDeviceFlag && fl.psPartitionFlag) ||
    (!f.linearBootDeviceFlag && fl.psPartitionFlag && t.secureTransferFlag)

def pcapStep (fl : Flags) (t : Transfer) : Loader (Option Transfer) :=
  if usesPcap f fl t then do
    let loadAddr := if fl.plPartitionFlag then f.ddrTempStartAddr else t.loadAddr
    let secure := if fl.plPartitionFlag then false else t.secureTransferFlag
    let status ← op (.pcapDataTransfer t.sourceAddr loadAddr t.imageWordLen t.dataWordLen secure)
    pure (if status = .success then
      some { t with sourceAddr := loadAddr, loadAddr := loadAddr } else none)
  else pure (some t)

/-- A bitstream is loaded at once unless it is to be checked. -/
def bitstreamStep (h : PartHeader) (fl : Flags) (t : Transfer) : Loader Status :=
  if fl.plPartitionFlag && !fl.whole then
    op (.pcapLoadPartition t.sourceAddr h.loadAddr h.imageWordLen h.dataWordLen
      fl.encryptedPartitionFlag)
  else pure .success

def partitionMove (imageBaseAddress : U32) (h : PartHeader) (fl : Flags) : Loader Status := do
  match ← moveStep f fl (transfer f imageBaseAddress h fl) with
  | none => pure .failure
  | some t =>
    match ← pcapStep f fl t with
    | none => pure .failure
    | some t => bitstreamStep h fl t

end Move

/-! ## The checks and the use of a moved partition -/

section Checks

variable (f : Setup)

def validateParition (startAddr length checksumOffset : U32) : Loader Status := do
  match ← readInto .checksum checksumOffset 16 with
  | none => pure .failure
  | some checksum => do
    let calcChecksum ← op (.md5 startAddr length)
    pure (if checksum = calcChecksum then .success else .failure)

def checksumStep (imageStartAddress startAddr : U32) (h : PartHeader) (fl : Flags) :
    Loader Unit :=
  if fl.partitionChecksumFlag then do
    let status ← validateParition startAddr (h.partitionWordLen <<< 2)
      (imageStartAddress + h.checkSumOffset <<< 2)
    require status .partitionChecksum
  else pure ()

def authenticateStep (startAddr : U32) (h : PartHeader) (fl : Flags) : Loader Unit :=
  if fl.signedPartitionFlag then
    if f.rsaSupport then do
      let hash ← op (.sha256 startAddr (h.partitionWordLen <<< 2 - f.rsaPartitionSignatureSize))
      let status ← op (.authenticatePartition
        (startAddr + h.partitionWordLen <<< 2 - f.rsaSignatureSize) hash)
      require status .authentication
    else fallback .rsaSupportNotEnabled
  else pure ()

def decryptPartition (startAddr dataLength imageLength : U32) : Loader Status :=
  op (.pcapDataTransfer startAddr startAddr imageLength dataLength true)

def decryptStep (startAddr : U32) (h : PartHeader) (fl : Flags) : Loader Unit :=
  if fl.encryptedPartitionFlag && fl.psPartitionFlag then do
    let status ← decryptPartition startAddr h.dataWordLen h.imageWordLen
    require status .decryption
  else pure ()

def downloadStep (startAddr : U32) (h : PartHeader) (fl : Flags) : Loader Unit :=
  if fl.plPartitionFlag then do
    let status ← op (.pcapLoadPartition startAddr h.loadAddr h.imageWordLen h.dataWordLen
      fl.encryptedPartitionFlag)
    require status .bitstreamDownload
  else pure ()

/-- With DDR the moved partition is checked where it was moved to, without it in the flash. -/
def checkedAddr (startAddr : U32) (h : PartHeader) (fl : Flags) : U32 :=
  if f.ddr then (if fl.plPartitionFlag then f.ddrTempStartAddr else h.loadAddr) else startAddr

def checkPartition (imageStartAddress startAddr : U32) (h : PartHeader) (fl : Flags) :
    Loader Unit :=
  if fl.whole then do
    let startAddr := checkedAddr f startAddr h fl
    checksumStep imageStartAddress startAddr h fl
    authenticateStep f startAddr h fl
    decryptStep startAddr h fl
    downloadStep startAddr h fl
  else pure ()

end Checks

/-! ## One partition -/

/-- The flags, and the two locals that outlive a partition. -/
structure Walk extends Flags where
  execAddrFlag : Bool
  execAddress : U32

inductive Step where
  | next (w : Walk)
  | stop (w : Walk)

section Partition

variable (f : Setup)

def ownedByFsbl (h : PartHeader) : Bool :=
  h.partitionAttr &&& f.partitionOwnerMask = f.partitionOwnerFsbl

def hasPlImage (h : PartHeader) : Bool := h.partitionAttr &&& f.plImageMask ≠ 0

def hasPsImage (h : PartHeader) : Bool := h.partitionAttr &&& f.psImageMask ≠ 0

def watchdogReset : Loader Bool :=
  if f.noCpuWarmReboot then pure false else do
  let reason ← op (.xilIn32 0xF800702C)
  pure (decide (reason &&& 0x80000000 ≠ 0))

def partitionStartAddr (imageStartAddress : U32) (h : PartHeader) : U32 :=
  imageStartAddress + h.partitionStart <<< 2 + f.flashReadBaseAddress

def inQspiFlash (addr : U32) : Bool := f.qspiFlashBaseaddr ≤ addr && addr ≤ f.qspiFlashHighaddr

/-- Without DDR, `SSBL` finds the handoff address and the address of the data partition below the
end of OCM. -/
def recordHandoff (startAddr : U32) (h : PartHeader) : Loader Unit :=
  if inQspiFlash f h.execAddr then op (.xilOut32 0xFFFF0004 startAddr) else pure ()

def recordData (startAddr : U32) (h : PartHeader) (fl : Flags) : Loader Unit :=
  if fl.psPartitionFlag && 0xFFFC0000 ≤ h.loadAddr && h.loadAddr < 0xFFFF0000 then
    op (.xilOut32 0xFFFF0000 startAddr)
  else pure ()

/-- Without DDR, whether the partition is moved at all. -/
def movedWithoutDdr (h : PartHeader) (fl : Flags) : Bool :=
  (fl.plPartitionFlag && !fl.signedPartitionFlag) || (!fl.plPartitionFlag &&
    ((h.execAddr ≠ 0 && (h.execAddr < f.qspiFlashBaseaddr || f.qspiFlashHighaddr < h.execAddr)) ||
      (0xFFFF0000 ≤ h.loadAddr && h.execAddr = 0) ||
      (h.loadAddr = 0x40000000 && h.execAddr = 0)))

def movePartition (imageStartAddress : U32) (h : PartHeader) (fl : Flags) : Loader Unit := do
  let status ← partitionMove f imageStartAddress h fl
  require status .partitionMove

def placePartition (imageStartAddress : U32) (h : PartHeader) (fl : Flags) : Loader Unit :=
  if f.ddr then movePartition f imageStartAddress h fl else do
  recordHandoff f (partitionStartAddr f imageStartAddress h) h
  recordData (partitionStartAddr f imageStartAddress h) h fl
  if movedWithoutDdr f h fl then movePartition f imageStartAddress h fl else pure ()

def hook (call : Loader Status) (code : FailCode) (fl : Flags) : Loader Unit :=
  if fl.plPartitionFlag then do
    let status ← call
    require status code
  else pure ()

def beforeHook (fl : Flags) : Loader Unit :=
  hook (op .fsblHookBeforeBitstreamDload) .beforeBstreamHook fl

def afterHook (fl : Flags) : Loader Unit :=
  hook (op .fsblHookAfterBitstreamDload) .afterBstreamHook fl

/-- The execution address of the first PS partition. -/
def latchExecAddr (h : PartHeader) (w : Walk) : Walk :=
  if w.psPartitionFlag && !w.execAddrFlag then
    { w with execAddrFlag := true, execAddress := h.execAddr }
  else w

def handlePartition (imageStartAddress : U32) (h : PartHeader) (w : Walk) : Loader Step := do
  let w := latchExecAddr h w
  beforeHook w.toFlags
  placePartition f imageStartAddress h w.toFlags
  checkPartition f imageStartAddress (partitionStartAddr f imageStartAddress h) h w.toFlags
  afterHook w.toFlags
  pure (.next w)

/-- A PS partition with load address 0 that is neither signed nor encrypted ends the walk. -/
def checkLoadAddr (imageStartAddress : U32) (h : PartHeader) (w : Walk) : Loader Step :=
  if f.ddr && w.psPartitionFlag && h.loadAddr < f.ddrStartAddr then
    if h.loadAddr = 0 && !(w.signedPartitionFlag || w.encryptedPartitionFlag) then pure (.stop w)
    else fallback .invalidLoadAddress
  else if f.ddr && w.psPartitionFlag && f.ddrEndAddr < h.loadAddr then
    fallback .invalidLoadAddress
  else handlePartition f imageStartAddress h w

/-- With the eFuse set, encryption is mandatory. -/
def encOnlyStep (fl : Flags) : Loader Unit :=
  if f.forceUseAesExclude then pure () else do
  let reg ← op (.readReg f.statusOffset)
  if reg &&& f.statusEfuseSecEnMask ≠ 0 ∧ fl.encryptedPartitionFlag = false then
    fallback .partitionLoad
  else pure ()

def psFlags (h : PartHeader) (w : Walk) : Walk :=
  if hasPsImage f h then
    { w with psPartitionFlag := true, plPartitionFlag := false, applicationFlag := true }
  else w

/-- An encrypted partition has different image and data lengths. -/
def attrFlags (h : PartHeader) (w : Walk) : Walk :=
  { w with
    encryptedPartitionFlag := decide (h.dataWordLen ≠ h.imageWordLen)
    partitionChecksumFlag := decide (h.partitionAttr &&& f.checksumTypeMask ≠ 0)
    signedPartitionFlag := decide (h.partitionAttr &&& f.rsaPresentMask ≠ 0) }

def loadPartition (imageStartAddress : U32) (h : PartHeader) (w : Walk) : Loader Step := do
  let w := attrFlags f h (psFlags f h w)
  encOnlyStep f w.toFlags
  checkLoadAddr f imageStartAddress h w

/-- A bitstream after an application ends the walk; after a watchdog reset it is skipped. -/
def plPartition (imageStartAddress : U32) (h : PartHeader) (w : Walk) : Loader Step :=
  let w := { w with plPartitionFlag := true, psPartitionFlag := false, bitstreamFlag := true }
  if w.applicationFlag then pure (.stop w) else do
  let warm ← watchdogReset f
  if warm then pure (.next { w with bitstreamFlag := false })
  else loadPartition f imageStartAddress h w

def partition (imageStartAddress : U32) (h : PartHeader) (w : Walk) : Loader Step := do
  op (.headerDump h)
  require (validateHeader h) .invalidHeader
  if ownedByFsbl f h = false then pure (.next w)
  else if hasPlImage f h then plPartition f imageStartAddress h w
  else loadPartition f imageStartAddress h w

def walk (imageStartAddress : U32) (table : Table) : Nat → Nat → Walk → Loader Walk
  | 0, _, w => pure w
  | fuel + 1, partitionNum, w =>
    if partitionNum < table.partitionCount then do
      match ← partition f imageStartAddress (table.partitionHeader partitionNum) w with
      | .next w => walk imageStartAddress table fuel (partitionNum + 1) w
      | .stop w => pure w
    else pure w

end Partition

/-! ## The whole boot -/

section Boot

variable (f : Setup)

def clearFallback (rebootStatus : U32) : Loader Unit :=
  if rebootStatus &&& f.fsblFailMask = f.fsblFailMask then
    op (.xilOut32 f.rebootStatusReg (rebootStatus &&& ~~~f.fsblFailMask))
  else pure ()

def imageStart : Loader U32 := do
  let rebootStatus ← op (.xilIn32 f.rebootStatusReg)
  if f.siliconVersion = f.siliconVersion1 then do
    clearFallback f rebootStatus
    op (.xilIn32 f.baseaddrHolder)
  else do
    let multiBoot ← op (.readReg f.multibootAddrOffset)
    pure ((multiBoot &&& f.mbootRebootOffsetMask) * f.goldenImageOffset)

/-- The eFuse status and the length of the boot loader that `SetPpk` uses; none when the
certificate cannot be read. -/
def efuseStatus (imageStartAddress : U32) (table : Table) : Loader (Option (U32 × U32)) :=
  if f.rsaWithoutEfuses = false then do
    let status ← op (.xilIn32 f.efuseStatusReg)
    pure (some (status, table.fsblLength))
  else if (table.partitionHeader 0).acOffset ≠ 0 then do
    let result ← op (.moveImage (imageStartAddress + (table.partitionHeader 0).acOffset * 4)
      (.address f.rsaAcStart) (f.totalHeaderSize + f.rsaSignatureSize))
    pure (if result.1 = .success then some (f.efuseStatusRsaEnableMask, f.rsaAcStart) else none)
  else pure (some (0, table.fsblLength))

def authenticateHeaders (imageStartAddress : U32) (table : Table) (status fsblLength : U32) :
    Loader Unit :=
  if status &&& f.efuseStatusRsaEnableMask ≠ 0 then
    if f.rsaSupport then do
      op (.setPpk fsblLength)
      let status ← getNAuthImageHeader f imageStartAddress table.partitionHeader
      require status .getHeaderInfo
    else fallback .rsaSupportNotEnabled
  else pure ()

/-- The result of `LoadBootImage` with the flags it leaves. -/
structure Boot where
  handoffAddress : U32
  flags : Flags

def initialWalk : Walk :=
  ⟨⟨false, false, false, false, false, false, false⟩, false, 0⟩

/-- The first partition is the boot loader, except on MMC. -/
def firstPartition : Nat := if f.mmcSupport then 0 else 1

def walkTable (imageStartAddress : U32) (table : Table) : Loader Boot := do
  let w ← walk f imageStartAddress table table.partitionCount (firstPartition f) initialWalk
  pure ⟨w.execAddress, w.toFlags⟩

def secureBoot (imageStartAddress : U32) (table : Table) : Loader Boot :=
  if f.siliconVersion ≠ f.siliconVersion1 ∧ f.siliconVersion ≠ f.siliconVersion2 then do
    match ← efuseStatus f imageStartAddress table with
    | none => pure ⟨xstFailure, initialWalk.toFlags⟩
    | some (status, fsblLength) => do
      authenticateHeaders f imageStartAddress table status fsblLength
      walkTable f imageStartAddress table
  else walkTable f imageStartAddress table

def loadBootImage : Loader Boot := do
  let imageStartAddress ← imageStart f
  match ← getPartitionHeaderInfo f imageStartAddress with
  | none => fallback .getHeaderInfo
  | some table => secureBoot f imageStartAddress table

end Boot

end SoftwarePrototypes.Fsbl
