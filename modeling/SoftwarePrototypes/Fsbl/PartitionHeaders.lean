import SoftwarePrototypes.Fsbl.Interface

/-! # Partition headers

The checks of a header and the loading of the header table.
-/

namespace SoftwarePrototypes.Fsbl

open Interaction

def maximumImageWordLen : U32 := 0x40000000

/-- The index of the checksum, and the number of words before it. -/
def hdrChecksumWordCount : Nat := 15

/-- An end marker: all words 0 but the checksum. -/
def isLastPartition (h : PartHeader) : Status :=
  if h.fields.getD hdrChecksumWordCount 0 ≠ 0xFFFFFFFF then .failure
  else if (h.fields.take hdrChecksumWordCount).any (· ≠ 0) then .failure
  else .success

def isEmptyHeader (h : PartHeader) : Status :=
  if h.fields.any (· ≠ 0) then .failure else .success

def validatePartitionHeaderChecksum (h : PartHeader) : Status :=
  let checksum := (h.fields.take hdrChecksumWordCount).foldl (· + ·) 0 ^^^ 0xFFFFFFFF
  if h.fields.getD hdrChecksumWordCount 0 ≠ checksum then .failure else .success

def validateHeader (h : PartHeader) : Status :=
  if isEmptyHeader h = .success then .failure
  else if validatePartitionHeaderChecksum h ≠ .success then .failure
  else if h.imageWordLen > maximumImageWordLen then .failure
  else .success

theorem imageWordLen_le_of_valid {h : PartHeader} (hValid : validateHeader h = .success) :
    h.imageWordLen.toNat ≤ 0x40000000 := by
  unfold validateHeader at hValid
  split at hValid
  · cases hValid
  split at hValid
  · cases hValid
  split at hValid
  · cases hValid
  · rename_i hSmall
    rw [gt_iff_lt, BitVec.not_lt] at hSmall
    exact hSmall

section Table

variable (f : Setup)

def countFrom (header : Nat → PartHeader) : Nat → Nat → Nat
  | 0, count => count
  | left + 1, count =>
    if isLastPartition (header count) ≠ .failure then count else countFrom header left (count + 1)

def getPartitionCount (header : Nat → PartHeader) : Nat := countFrom header f.maxPartitionNumber 0

/-- Read a variable of the boot loader from the boot device; none when `MoveImage` fails. -/
def readInto (destination : Destination) (source bytes : U32) :
    Loader (Option destination.Data) := do
  let result ← op (.moveImage source destination bytes)
  pure (if result.1 = .success then some result.2 else none)

def getFsblLength (imageAddress : U32) : Loader (Option U32) :=
  readInto .fsblLength (imageAddress + f.imageTotByteLenOffset) 4

def getPartitionHeaderStartAddr (imageAddress : U32) : Loader (Option U32) :=
  readInto .offset (imageAddress + f.imagePhdrOffset) 4

def getImageHeaderStartAddr (imageAddress : U32) : Loader (Option U32) :=
  readInto .offset (imageAddress + f.imageHdrOffset) 4

def loadPartitionsHeaderInfo (partHeaderOffset : U32) : Loader (Option (Nat → PartHeader)) :=
  readInto .partitionHeader partHeaderOffset (BitVec.ofNat 32 (64 * f.maxPartitionNumber))

structure Table where
  partitionHeader : Nat → PartHeader
  partitionCount : Nat
  fsblLength : U32

def checkCount (header : Nat → PartHeader) (fsblLength : U32) : Option Table :=
  let count := getPartitionCount f header
  if f.maxPartitionNumber ≤ count then none
  else if f.mmcSupport = false ∧ count ≤ 1 then none
  else some ⟨header, count, fsblLength⟩

def getPartitionHeaderInfo (imageBaseAddress : U32) : Loader (Option Table) := do
  match ← getFsblLength f imageBaseAddress with
  | none => pure none
  | some fsblLength =>
    match ← getPartitionHeaderStartAddr f imageBaseAddress with
    | none => pure none
    | some offset =>
      match ← loadPartitionsHeaderInfo f (offset + imageBaseAddress) with
      | none => pure none
      | some header => pure (checkCount f header fsblLength)

/-- The first bytes of the table, as they lie in memory. -/
def tableWords (header : Nat → PartHeader) (bytes : U32) : List U32 :=
  ((List.range f.maxPartitionNumber).flatMap fun i => (header i).fields).take (bytes.toNat / 4)

def hdrTmpPtr : U32 := if f.ddr then f.ddrTempStartAddr else f.headerTemp

def hashImageHeaders (images : List U32) (header : Nat → PartHeader) (signature : List U32)
    (size signatureSize : U32) : Loader Sha256 :=
  op (.sha2 (images.take (size.toNat / 4) ++ tableWords f header f.totalPartitionHeaderSize ++
    signature.take ((signatureSize - f.rsaPartitionSignatureSize).toNat / 4)))

def getNAuthImageHeader (imageBaseAddress : U32) (header : Nat → PartHeader) :
    Loader Status := do
  let size := f.imageHeaderTableSize + f.totalImageHeaderSize
  let signatureSize := f.totalHeaderSize + f.rsaSignatureSize -
    (size + f.totalPartitionHeaderSize)
  match ← getImageHeaderStartAddr f imageBaseAddress with
  | none => pure .failure
  | some offset =>
    match ← readInto (.headerBuffer (hdrTmpPtr f)) (imageBaseAddress + offset) size with
    | none => pure .failure
    | some images =>
      match ← getPartitionHeaderStartAddr f imageBaseAddress with
      | none => pure .failure
      | some offset =>
        match ← readInto (.headerBuffer (hdrTmpPtr f))
          (imageBaseAddress + (offset + f.totalPartitionHeaderSize)) signatureSize with
        | none => pure .failure
        | some signature => do
          let hash ← hashImageHeaders f images header signature size signatureSize
          op (.authenticatePartition (hdrTmpPtr f + 64) hash)

end Table

end SoftwarePrototypes.Fsbl
