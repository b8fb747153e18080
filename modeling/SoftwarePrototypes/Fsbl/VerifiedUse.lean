import SoftwarePrototypes.Fsbl.Bench
import SoftwarePrototypes.Fsbl.Ranges
import SoftwarePrototypes.Fsbl.Walks

/-! # What is verified is what is used

With DDR, a signed or checksummed partition is copied to memory and checked there over
`PartitionWordLen` words, but decryption and bitstream download read `ImageWordLen` words.
`ValidateHeader` does not compare the two.
-/

namespace SoftwarePrototypes.Fsbl

open Interaction Interaction.Prog

/-! ## What is known about the partition at hand -/

/-- Since the last `HeaderDump`: what has been copied and from where, the MD5 digests computed and
the ones read, and the hashes computed and the ones authenticated. -/
structure Evidence extends AtHand where
  copied : List (U32 × Range)
  summed : List (Range × Md5)
  stored : List Md5
  hashed : List (Range × Sha256)
  authentic : List Sha256

def Evidence.empty : Evidence := ⟨⟨none, none⟩, [], [], [], [], []⟩

/-- The memory that a call writes, also when it fails. The variables of the boot loader have no
address here. -/
def Op.written : Op → Option Range
  | .xilOut32 addr _ => some ⟨addr, 4⟩
  | .moveImage _ (.address destination) bytes => some ⟨destination, bytes.toNat⟩
  | .moveImage _ (.headerBuffer addr) bytes => some ⟨addr, bytes.toNat⟩
  | .pcapDataTransfer _ destination _ dataWordLen _ => some ⟨destination, 4 * dataWordLen.toNat⟩
  | _ => none

/-- A copy or a check of words that have been written since says nothing about them. -/
def Evidence.overwritten (r : Range) (E : Evidence) : Evidence :=
  { E with
    copied := E.copied.filter fun copy => copy.2.Apart r
    summed := E.summed.filter fun sum => sum.1.Apart r
    hashed := E.hashed.filter fun hash => hash.1.Apart r }

/-- `MoveImage` copies from the boot device, and so does a transfer that is not secure if the
device is linear. -/
def gather (f : Setup) : (e : Op) → Answer e → Evidence → Evidence
  | .headerDump _, _, _ => .empty
  | .moveImage source (.address destination) bytes, (.success, _), E =>
    { E with copied := (source, ⟨destination, bytes.toNat⟩) :: E.copied }
  | .moveImage _ .checksum _, (.success, digest), E => { E with stored := digest :: E.stored }
  | .pcapDataTransfer source destination _ dataWordLen false, .success, E =>
    if f.linearBootDeviceFlag then
      { E with copied := (source, ⟨destination, 4 * dataWordLen.toNat⟩) :: E.copied }
    else E
  | .md5 addr length, digest, E => { E with summed := (⟨addr, length.toNat⟩, digest) :: E.summed }
  | .sha256 addr length, hash, E => { E with hashed := (⟨addr, length.toNat⟩, hash) :: E.hashed }
  | .authenticatePartition _ hash, .success, E => { E with authentic := hash :: E.authentic }
  | _, _, E => E

def collect (f : Setup) (e : Op) (answer : Answer e) (E : Evidence) : Evidence :=
  { gather f e answer (e.written.elim E E.overwritten) with toAtHand := E.toAtHand.after f e }

def Op.used : Op → Option Range
  | .pcapDataTransfer source _ imageWordLen _ true => some ⟨source, 4 * imageWordLen.toNat⟩
  | .pcapLoadPartition source _ imageWordLen _ _ => some ⟨source, 4 * imageWordLen.toNat⟩
  | _ => none

section Use

variable (f : Setup)

def checksummed (h : PartHeader) : Prop := h.partitionAttr &&& f.checksumTypeMask ≠ 0

def signed (h : PartHeader) : Prop := h.partitionAttr &&& f.rsaPresentMask ≠ 0

instance checksummed.decidable (h : PartHeader) : Decidable (checksummed f h) :=
  inferInstanceAs (Decidable (_ ≠ _))

instance signed.decidable (h : PartHeader) : Decidable (signed f h) :=
  inferInstanceAs (Decidable (_ ≠ _))

/-- All that is read was copied from the partition in the boot device, and lies in a range whose
MD5 and whose SHA-256 have been found right, and none of these ranges has been written since. -/
structure Verified (E : Evidence) (h : PartHeader) (r : Range) : Prop where
  copied : ∃ copy ∈ E.copied, E.source f = some copy.1 ∧ r.addresses ⊆ copy.2.addresses
  checksum : checksummed f h →
    ∃ sum ∈ E.summed, sum.2 ∈ E.stored ∧ r.addresses ⊆ sum.1.addresses
  signature : signed f h →
    ∃ hash ∈ E.hashed, hash.2 ∈ E.authentic ∧ r.addresses ⊆ hash.1.addresses

def copiedBytes (h : PartHeader) : Nat :=
  if f.linearBootDeviceFlag then 4 * h.partitionWordLen.toNat
  else (h.partitionWordLen <<< 2).toNat

def signedBytes (h : PartHeader) : U32 := h.partitionWordLen <<< 2 - f.rsaPartitionSignatureSize

/-- The lengths of the header fit: what is read ends within what is copied and what is checked. -/
structure Bounded (h : PartHeader) : Prop where
  copied : 4 * h.imageWordLen.toNat ≤ copiedBytes f h
  checksum : checksummed f h → 4 * h.imageWordLen.toNat ≤ (h.partitionWordLen <<< 2).toNat
  signature : signed f h → 4 * h.imageWordLen.toNat ≤ (signedBytes f h).toNat

/-- At each use of a signed or checksummed partition, what is read is verified exactly when the
lengths fit. -/
def UseOk (e : Op) (E : Evidence) : Prop :=
  ∀ h r, E.header = some h → checksummed f h ∨ signed f h → e.used = some r →
    (Verified f E h r ↔ Bounded f h)

abbrev Uses {α : Type} (post : α → Evidence → Prop) (p : Loader α) (E : Evidence) : Prop :=
  Holds (fun _ _ => True) (collect f) (UseOk f) post p E

theorem useOk_of_unused {e : Op} (h : e.used = none) (E : Evidence) : UseOk f e E := by
  intro _ _ _ _ hUsed
  rw [h] at hUsed
  cases hUsed

theorem fallback_useOk : FallbackSafe (UseOk f) :=
  fun E => ⟨fun _ => useOk_of_unused f rfl E, useOk_of_unused f rfl E⟩

end Use

/-! ## Moving and checking a partition as a whole -/

section Partition

variable {f : Setup} {E : Evidence} {image : U32} {h : PartHeader} {fl : Flags}

/-- The evidence at the start of a partition of the boot image. -/
def Evidence.dumped (image : U32) (h : PartHeader) : Evidence :=
  { Evidence.empty with image := some image, header := some h }

/-- Where a partition to be checked is copied from and to. -/
def moved (f : Setup) (image : U32) (h : PartHeader) (fl : Flags) : List (U32 × Range) :=
  if f.linearBootDeviceFlag && !(fl.plPartitionFlag || fl.psPartitionFlag) then []
  else [(partitionSource f image h, ⟨checkedAddr f 0 h fl, copiedBytes f h⟩)]

theorem secure_of_whole (hWhole : fl.whole = true) (hPs : fl.psPartitionFlag = true)
    (imageStartAddress : U32) :
    (transfer f imageStartAddress h fl).secureTransferFlag = false := by
  simp [transfer, hWhole, hPs]

theorem usesPcap_whole (hWhole : fl.whole = true) {t : Transfer}
    (hSecure : fl.psPartitionFlag = true → t.secureTransferFlag = false) :
    usesPcap f fl t = (f.linearBootDeviceFlag && (fl.plPartitionFlag || fl.psPartitionFlag)) := by
  cases hPs : fl.psPartitionFlag with
  | false => simp [usesPcap, hWhole, hPs]
  | true =>
    cases hLinear : f.linearBootDeviceFlag <;>
      simp [usesPcap, hWhole, hPs, hSecure hPs, hLinear]

theorem bitstreamStep_whole (hWhole : fl.whole = true) (t : Transfer) :
    bitstreamStep h fl t = .ret .success := by
  rw [bitstreamStep, hWhole, Bool.not_true, Bool.and_false]
  rfl

theorem used_plain {source destination imageWordLen dataWordLen : U32} {secure : Bool}
    (hPlain : secure = false) :
    (Op.pcapDataTransfer source destination imageWordLen dataWordLen secure).used = none := by
  rw [hPlain]
  rfl

theorem collect_moveImage {source destination bytes : U32} {data : Unit} :
    collect f (.moveImage source (.address destination) bytes) (.success, data)
      (.dumped image h) = { Evidence.dumped image h with
        copied := [(source, ⟨destination, bytes.toNat⟩)] } := rfl

theorem collect_plain (hLinear : f.linearBootDeviceFlag = true)
    {source destination imageWordLen dataWordLen : U32} {secure : Bool} (hPlain : secure = false) :
    collect f (.pcapDataTransfer source destination imageWordLen dataWordLen secure) .success
      (.dumped image h) = { Evidence.dumped image h with
        copied := [(source, ⟨destination, 4 * dataWordLen.toNat⟩)] } := by
  subst hPlain
  simp only [collect, gather, hLinear, if_true]
  rfl

theorem pcapMove_uses (hWhole : fl.whole = true) {t : Transfer}
    (hSecure : fl.psPartitionFlag = true → t.secureTransferFlag = false) :
    Uses f (fun status E' => status = .success → E' =
      if f.linearBootDeviceFlag && (fl.plPartitionFlag || fl.psPartitionFlag) then
        collect f (.pcapDataTransfer t.sourceAddr
          (if fl.plPartitionFlag then f.ddrTempStartAddr else t.loadAddr) t.imageWordLen
          t.dataWordLen (if fl.plPartitionFlag then false else t.secureTransferFlag)) .success E
      else E) (do
        match ← pcapStep f fl t with
        | none => pure .failure
        | some t => bitstreamStep h fl t) E := by
  apply holds_bind
  rw [pcapStep, usesPcap_whole hWhole hSecure]
  apply holds_ite
  · intro hPcap
    have hPlain : (if fl.plPartitionFlag then false else t.secureTransferFlag) = false := by
      cases hPl : fl.plPartitionFlag with
      | false =>
        simp only [hPl, Bool.false_or, Bool.and_eq_true] at hPcap
        exact hSecure hPcap.2
      | true => rfl
    rw [if_pos hPcap]
    apply holds_ask (useOk_of_unused f (used_plain hPlain) E)
    rintro status _
    apply holds_ret
    cases status with
    | failure => exact holds_ret nofun
    | success =>
      simp only [if_true, bitstreamStep_whole hWhole]
      exact holds_ret fun _ => rfl
  · intro hNone
    rw [if_neg hNone]
    apply holds_ret
    simp only [bitstreamStep_whole hWhole]
    exact holds_ret fun _ => rfl

/-- A partition to be checked is copied once, without decryption. -/
theorem partitionMove_uses (hDdr : f.ddr = true) (hWhole : fl.whole = true) :
    Uses f (fun status E' => status = .success →
      E' = { Evidence.dumped image h with copied := moved f image h fl })
      (partitionMove f image h fl) (.dumped image h) := by
  have hSecure := fun hPs => secure_of_whole (f := f) (h := h) hWhole hPs image
  rw [partitionMove]
  apply holds_bind
  rw [moveStep]
  cases hLinear : f.linearBootDeviceFlag with
  | true =>
    simp only [if_true]
    apply holds_ret
    apply holds_mono (pcapMove_uses hWhole hSecure)
    intro status E' hMoved hSuccess
    rw [hMoved hSuccess, moved, hLinear]
    cases hTyped : fl.plPartitionFlag || fl.psPartitionFlag with
    | false => rfl
    | true =>
      have hPlain : (if fl.plPartitionFlag then false
          else (transfer f image h fl).secureTransferFlag) = false := by
        cases hPl : fl.plPartitionFlag with
        | false =>
          rw [hPl, Bool.false_or] at hTyped
          exact hSecure hTyped
        | true => rfl
      rw [Bool.and_true, if_pos rfl, collect_plain hLinear hPlain]
      simp [transfer, hWhole, checkedAddr, hDdr, copiedBytes, hLinear, partitionSource]
  | false =>
    simp only [Bool.false_eq_true, if_false]
    apply holds_ask (useOk_of_unused f rfl _)
    rintro ⟨status, _⟩ _
    apply holds_ret
    cases status with
    | failure => exact holds_ret nofun
    | success =>
      simp only [if_true]
      refine holds_mono (pcapMove_uses hWhole ?_) ?_
      · exact hSecure
      intro status E' hMoved hSuccess
      rw [hMoved hSuccess, moved, hLinear, Bool.false_and, if_neg Bool.false_ne_true,
        collect_moveImage]
      simp [transfer, hWhole, checkedAddr, hDdr, copiedBytes, hLinear, partitionSource]

/-! ## The checks -/

/-- What the two checks add when they succeed. -/
def summing (h : PartHeader) (fl : Flags) (addr : U32) (digest : Md5) (E : Evidence) : Evidence :=
  if fl.partitionChecksumFlag then
    { E with
      summed := (⟨addr, (h.partitionWordLen <<< 2).toNat⟩, digest) :: E.summed
      stored := digest :: E.stored }
  else E

def signing (f : Setup) (h : PartHeader) (fl : Flags) (addr : U32) (hash : Sha256)
    (E : Evidence) : Evidence :=
  if fl.signedPartitionFlag then
    { E with
      hashed := (⟨addr, (signedBytes f h).toNat⟩, hash) :: E.hashed
      authentic := hash :: E.authentic }
  else E

section Added

variable {addr : U32} {digest : Md5} {hash : Sha256}

theorem summing_summed (hFlag : fl.partitionChecksumFlag = true) :
    (summing h fl addr digest E).summed =
      (⟨addr, (h.partitionWordLen <<< 2).toNat⟩, digest) :: E.summed := by
  rw [summing, if_pos hFlag]

theorem summing_stored (hFlag : fl.partitionChecksumFlag = true) :
    (summing h fl addr digest E).stored = digest :: E.stored := by
  rw [summing, if_pos hFlag]

theorem signing_hashed (hFlag : fl.signedPartitionFlag = true) :
    (signing f h fl addr hash E).hashed = (⟨addr, (signedBytes f h).toNat⟩, hash) :: E.hashed := by
  rw [signing, if_pos hFlag]

theorem signing_authentic (hFlag : fl.signedPartitionFlag = true) :
    (signing f h fl addr hash E).authentic = hash :: E.authentic := by
  rw [signing, if_pos hFlag]

@[simp] theorem summing_toAtHand : (summing h fl addr digest E).toAtHand = E.toAtHand := by
  unfold summing
  split <;> rfl

@[simp] theorem summing_copied : (summing h fl addr digest E).copied = E.copied := by
  unfold summing
  split <;> rfl

@[simp] theorem summing_hashed : (summing h fl addr digest E).hashed = E.hashed := by
  unfold summing
  split <;> rfl

@[simp] theorem signing_toAtHand : (signing f h fl addr hash E).toAtHand = E.toAtHand := by
  unfold signing
  split <;> rfl

@[simp] theorem signing_copied : (signing f h fl addr hash E).copied = E.copied := by
  unfold signing
  split <;> rfl

@[simp] theorem signing_summed : (signing f h fl addr hash E).summed = E.summed := by
  unfold signing
  split <;> rfl

@[simp] theorem signing_stored : (signing f h fl addr hash E).stored = E.stored := by
  unfold signing
  split <;> rfl

end Added

theorem validateParition_uses (addr length checksumOffset : U32) :
    Uses f (fun status E' => status = .success → ∃ digest, E' = { E with
        summed := (⟨addr, length.toNat⟩, digest) :: E.summed
        stored := digest :: E.stored })
      (validateParition addr length checksumOffset) E := by
  rw [validateParition]
  apply holds_bind
  refine holds_readInto (useOk_of_unused f rfl E) ?_ ?_
  · intro _ _
    exact holds_ret nofun
  · intro checksum _
    refine holds_ask (useOk_of_unused f rfl _) ?_
    intro digest _
    apply holds_ret
    intro hSame
    split at hSame
    · rename_i hEq
      exact ⟨digest, by rw [hEq]; rfl⟩
    · cases hSame

theorem checksumStep_uses (imageStartAddress addr : U32) :
    Uses f (fun _ E' => ∃ digest, E' = summing h fl addr digest E)
      (checksumStep imageStartAddress addr h fl) E := by
  rw [checksumStep]
  apply holds_ite
  · intro hFlag
    apply holds_bind
    apply holds_mono (validateParition_uses _ _ _)
    intro status E' hValid
    refine holds_require (fallback_useOk f) fun hSuccess => ?_
    obtain ⟨digest, rfl⟩ := hValid hSuccess
    exact ⟨digest, by rw [summing, if_pos hFlag]⟩
  · intro hFlag
    exact holds_ret ⟨0, by rw [summing, if_neg hFlag]⟩

theorem authenticateStep_uses (addr : U32) :
    Uses f (fun _ E' => ∃ hash, E' = signing f h fl addr hash E) (authenticateStep f addr h fl)
      E := by
  rw [authenticateStep]
  apply holds_ite
  · intro hFlag
    apply holds_ite
    · intro _
      refine holds_ask (useOk_of_unused f rfl E) fun hash _ => ?_
      refine holds_ask (useOk_of_unused f rfl _) fun status _ => ?_
      refine holds_require (fallback_useOk f) ?_
      rintro rfl
      exact ⟨hash, by rw [signing, if_pos hFlag]; rfl⟩
    · exact fun _ => holds_fallback (fallback_useOk f) _
  · intro hFlag
    exact holds_ret ⟨0, by rw [signing, if_neg hFlag]⟩

structure Marked (f : Setup) (h : PartHeader) (fl : Flags) : Prop where
  checksum : fl.partitionChecksumFlag = true ↔ checksummed f h
  signature : fl.signedPartitionFlag = true ↔ signed f h

/-- The evidence after the checks of a copied partition covers what is read exactly when the
lengths fit. -/
theorem verified_iff (hMarked : Marked f h fl) (hValid : h.imageWordLen.toNat ≤ 0x40000000)
    (addr : U32) (digest : Md5) (hash : Sha256) :
    Verified f (signing f h fl addr hash (summing h fl addr digest { Evidence.dumped image h with
      copied := [(partitionSource f image h, ⟨addr, copiedBytes f h⟩)] })) h
        ⟨addr, 4 * h.imageWordLen.toNat⟩ ↔ Bounded f h := by
  have hSubset : ∀ m, (Range.mk addr (4 * h.imageWordLen.toNat)).addresses ⊆
      (Range.mk addr m).addresses ↔ 4 * h.imageWordLen.toNat ≤ m :=
    fun m => Range.subset_iff (by omega)
  constructor
  · rintro ⟨⟨copy, hMem, _, hIn⟩, hChecksum, hSignature⟩
    refine ⟨?_, ?_, ?_⟩
    · rw [signing_copied, summing_copied] at hMem
      obtain rfl := List.mem_singleton.mp hMem
      exact (hSubset _).mp hIn
    · intro hBit
      obtain ⟨sum, hMem, _, hIn⟩ := hChecksum hBit
      rw [signing_summed, summing_summed (hMarked.checksum.mpr hBit)] at hMem
      obtain rfl := List.mem_singleton.mp hMem
      exact (hSubset _).mp hIn
    · intro hBit
      obtain ⟨sum, hMem, _, hIn⟩ := hSignature hBit
      rw [signing_hashed (hMarked.signature.mpr hBit), summing_hashed] at hMem
      obtain rfl := List.mem_singleton.mp hMem
      exact (hSubset _).mp hIn
  · rintro ⟨hCopy, hChecksum, hSignature⟩
    refine ⟨?_, ?_, ?_⟩
    · rw [signing_copied, summing_copied]
      refine ⟨_, List.mem_cons_self, ?_, (hSubset _).mpr hCopy⟩
      rw [AtHand.source, signing_toAtHand, summing_toAtHand]
      rfl
    · intro hBit
      have hFlag := hMarked.checksum.mpr hBit
      rw [signing_summed, signing_stored, summing_summed hFlag, summing_stored hFlag]
      exact ⟨_, List.mem_cons_self, List.mem_cons_self, (hSubset _).mpr (hChecksum hBit)⟩
    · intro hBit
      have hFlag := hMarked.signature.mpr hBit
      rw [signing_hashed hFlag, signing_authentic hFlag]
      exact ⟨_, List.mem_cons_self, List.mem_cons_self, (hSubset _).mpr (hSignature hBit)⟩

/-! ## One partition -/

theorem useOk_of_iff {e : Op} {r : Range} (hHeader : E.header = some h) (hUsed : e.used = some r)
    (hIff : Verified f E h r ↔ Bounded f h) : UseOk f e E := by
  intro h' r' hHeader' _ hUsed'
  rw [hHeader] at hHeader'
  rw [hUsed] at hUsed'
  cases hHeader'
  cases hUsed'
  exact hIff

theorem collect_toAtHand {e : Op} (hHandles : e.Handles) (answer : Answer e)
    (hImage : E.image = some image) : (collect f e answer E).toAtHand = E.toAtHand :=
  AtHand.after_handles hHandles hImage

/-- Decryption writes over a PS partition. -/
theorem decryptStep_uses {addr : U32} (hHeader : E.header = some h)
    (hUse : fl.psPartitionFlag = true →
      (Verified f E h ⟨addr, 4 * h.imageWordLen.toNat⟩ ↔ Bounded f h)) :
    Uses f (fun _ E' => E'.image = E.image ∧ (fl.psPartitionFlag = false → E' = E))
      (decryptStep addr h fl) E := by
  rw [decryptStep]
  apply holds_ite
  · intro hFlags
    rw [Bool.and_eq_true] at hFlags
    refine holds_ask (useOk_of_iff hHeader rfl (hUse hFlags.2)) fun status _ => ?_
    refine holds_require (fallback_useOk f) fun _ => ⟨rfl, fun hPs => ?_⟩
    rw [hPs] at hFlags
    exact absurd hFlags.2 Bool.false_ne_true
  · exact fun _ => holds_ret ⟨rfl, fun _ => rfl⟩

theorem downloadStep_uses {addr : U32} (hUse : fl.plPartitionFlag = true →
      E.header = some h ∧ (Verified f E h ⟨addr, 4 * h.imageWordLen.toNat⟩ ↔ Bounded f h)) :
    Uses f (fun _ E' => E'.image = E.image) (downloadStep addr h fl) E := by
  rw [downloadStep]
  apply holds_ite
  · intro hPl
    obtain ⟨hHeader, hIff⟩ := hUse hPl
    refine holds_ask (useOk_of_iff hHeader rfl hIff) fun status _ => ?_
    exact holds_require (fallback_useOk f) fun _ => rfl
  · exact fun _ => holds_ret rfl

theorem checkPartition_uses (hDdr : f.ddr = true) (hExclusive : fl.Exclusive)
    (hMarked : Marked f h fl) (hValid : h.imageWordLen.toNat ≤ 0x40000000) (startAddr : U32) :
    Uses f (fun _ E' => E'.image = some image) (checkPartition f image startAddr h fl)
      { Evidence.dumped image h with copied := moved f image h fl } := by
  have hAddr : checkedAddr f startAddr h fl = checkedAddr f 0 h fl := by
    simp only [checkedAddr, hDdr, if_true]
  have hTyped : ∀ {digest hash}, fl.plPartitionFlag = true ∨ fl.psPartitionFlag = true →
      (Verified f (signing f h fl (checkedAddr f 0 h fl) hash
        (summing h fl (checkedAddr f 0 h fl) digest
          { Evidence.dumped image h with copied := moved f image h fl })) h
        ⟨checkedAddr f 0 h fl, 4 * h.imageWordLen.toNat⟩ ↔ Bounded f h) := by
    intro digest hash hFlags
    have hMoved : moved f image h fl =
        [(partitionSource f image h, ⟨checkedAddr f 0 h fl, copiedBytes f h⟩)] := by
      rw [moved, if_neg]
      rcases hFlags with hFlag | hFlag <;> simp [hFlag]
    rw [hMoved]
    exact verified_iff hMarked hValid _ digest hash
  rw [checkPartition, hAddr]
  apply holds_ite
  · intro _
    apply holds_bind
    apply holds_mono (checksumStep_uses image _)
    rintro _ _ ⟨digest, rfl⟩
    apply holds_bind
    apply holds_mono (authenticateStep_uses _)
    rintro _ _ ⟨hash, rfl⟩
    have hAtHand : (signing f h fl (checkedAddr f 0 h fl) hash
        (summing h fl (checkedAddr f 0 h fl) digest
          { Evidence.dumped image h with copied := moved f image h fl })).toAtHand =
        ⟨some image, some h⟩ := by
      rw [signing_toAtHand, summing_toAtHand]
      rfl
    have hHeader := congrArg AtHand.header hAtHand
    apply holds_bind
    apply holds_mono (decryptStep_uses hHeader fun hPs => hTyped (.inr hPs))
    rintro _ E ⟨hImage, hSame⟩
    apply holds_mono (downloadStep_uses fun hPl => ?_)
    · exact fun _ _ hLast => hLast.trans (hImage.trans (congrArg AtHand.image hAtHand))
    · rw [hSame (Bool.eq_false_iff.mpr fun hPs => hExclusive ⟨hPl, hPs⟩)]
      exact ⟨hHeader, hTyped (.inl hPl)⟩
  · exact fun _ => holds_ret rfl

theorem idle_uses {α : Type} {p : Loader α} (hOnly : Only Op.Idle p) :
    Uses f (fun _ E' => E' = E) p E := by
  refine holds_of_only (I := fun E' : Evidence => E' = E) ?_ ?_ hOnly rfl
  · rintro e answer _ hIdle _ rfl
    cases e <;> first | rfl | exact hIdle.elim
  · intro e E' hIdle _
    cases e <;> first | exact useOk_of_unused f rfl E' | exact hIdle.elim

theorem quiet_uses {α : Type} {p : Loader α} (hOnly : Only Op.Handles p)
    (hImage : E.image = some image)
    (hQuiet : ∀ h, E.header = some h → ¬ (checksummed f h ∨ signed f h)) :
    Uses f (fun _ E' => E'.toAtHand = E.toAtHand) p E := by
  refine holds_of_only (I := fun E' : Evidence => E'.toAtHand = E.toAtHand) ?_ ?_ hOnly rfl
  · intro e answer E' hHandles _ hSame
    rw [collect_toAtHand hHandles answer (by rw [hSame, hImage]), hSame]
  · intro e E' _ hSame h r hHeader hChecked
    exact absurd hChecked (hQuiet h (by rw [← hSame, hHeader]))

theorem afterHook_uses {w : Walk} (hImage : E.image = some image) :
    Uses f (fun step E' => step = .next (latchExecAddr h w) ∧ E'.image = some image) (do
      afterHook w.toFlags
      pure (Step.next (latchExecAddr h w))) E := by
  apply holds_bind
  apply holds_mono (idle_uses (afterHook_only _))
  rintro _ _ rfl
  exact holds_ret ⟨rfl, hImage⟩

theorem Marked.quiet (hMarked : Marked f h fl) (hWhole : fl.whole = false) :
    ∀ h', (Evidence.dumped image h).header = some h' → ¬ (checksummed f h' ∨ signed f h') := by
  rintro _ ⟨⟩ hChecked
  rw [Flags.whole, Bool.or_eq_false_iff] at hWhole
  rcases hChecked with hBit | hBit
  · rw [hMarked.checksum.mpr hBit] at hWhole
    exact absurd hWhole.2 nofun
  · rw [hMarked.signature.mpr hBit] at hWhole
    exact absurd hWhole.1 nofun

theorem handlePartition_uses (hDdr : f.ddr = true) {w : Walk} (hExclusive : w.toFlags.Exclusive)
    (hMarked : Marked f h w.toFlags) (hValid : h.imageWordLen.toNat ≤ 0x40000000) :
    Uses f (fun step E' => step = .next (latchExecAddr h w) ∧ E'.image = some image)
      (handlePartition f image h w) (.dumped image h) := by
  rw [handlePartition]
  simp only [latchExecAddr_toFlags]
  apply holds_bind
  apply holds_mono (idle_uses (beforeHook_only _))
  rintro _ _ rfl
  rw [placePartition, if_pos hDdr]
  cases hWhole : w.whole with
  | true =>
    apply holds_bind
    apply holds_bind
    apply holds_mono (partitionMove_uses hDdr hWhole)
    intro status E hMoved
    refine holds_require (fallback_useOk f) fun hSuccess => ?_
    rw [hMoved hSuccess]
    apply holds_bind
    apply holds_mono (checkPartition_uses hDdr hExclusive hMarked hValid _)
    exact fun _ _ => afterHook_uses
  | false =>
    apply holds_bind
    have hOnly := (movePartition_only f image h w.toFlags).mono fun _ => Op.Loads.handles
    apply holds_mono (quiet_uses hOnly rfl (hMarked.quiet hWhole))
    intro _ E hSame
    rw [checkPartition, hWhole]
    exact afterHook_uses (by rw [hSame]; rfl)

/-- Between partitions. -/
def Onward (image : U32) (step : Step) (E : Evidence) : Prop :=
  match step with
  | .next w => w.toFlags.Exclusive ∧ E.image = some image
  | .stop _ => True

theorem loadPartition_uses (hDdr : f.ddr = true) {w : Walk} (hExclusive : w.toFlags.Exclusive)
    (hValid : h.imageWordLen.toNat ≤ 0x40000000) :
    Uses f (Onward image) (loadPartition f image h w) (.dumped image h) := by
  have hMarked : Marked f h (attrFlags f h (psFlags f h w)).toFlags :=
    ⟨decide_eq_true_iff, decide_eq_true_iff⟩
  rw [loadPartition]
  apply holds_bind
  apply holds_mono (idle_uses (encOnlyStep_only f (fun _ => trivial) (fun _ => trivial) trivial _))
  rintro _ _ rfl
  rw [checkLoadAddr]
  refine holds_ite (fun _ => ?_) fun _ => ?_
  · exact holds_ite (fun _ => holds_ret trivial) fun _ => holds_fallback (fallback_useOk f) _
  refine holds_ite (fun _ => holds_fallback (fallback_useOk f) _) fun _ => ?_
  apply holds_mono (handlePartition_uses hDdr (attrFlags_exclusive hExclusive) hMarked hValid)
  rintro _ E ⟨rfl, hImage⟩
  refine ⟨?_, hImage⟩
  rw [latchExecAddr_toFlags]
  exact attrFlags_exclusive hExclusive

theorem partition_uses (hDdr : f.ddr = true) {w : Walk} (hExclusive : w.toFlags.Exclusive)
    (hImage : E.image = some image) : Uses f (Onward image) (partition f image h w) E := by
  refine holds_ask (useOk_of_unused f rfl _) fun _ _ => ?_
  have hDumped : collect f (.headerDump h) () E = .dumped image h := by
    simp only [collect, AtHand.after, hImage]
    rfl
  rw [hDumped]
  apply holds_bind
  refine holds_require (fallback_useOk f) fun hSuccess => ?_
  have hValid := imageWordLen_le_of_valid hSuccess
  refine holds_ite (fun _ => holds_ret ⟨hExclusive, rfl⟩) fun _ => ?_
  refine holds_ite (fun _ => ?_) fun _ => loadPartition_uses hDdr hExclusive hValid
  rw [plPartition]
  refine holds_ite (fun _ => holds_ret trivial) fun _ => ?_
  apply holds_bind
  apply holds_mono (idle_uses (watchdogReset_only f))
  rintro warm _ rfl
  exact holds_ite (fun _ => holds_ret ⟨exclusive_of_ps rfl, rfl⟩)
    fun _ => loadPartition_uses hDdr (exclusive_of_ps rfl) hValid

end Partition

/-! ## Whole runs -/

theorem loadBootImage_uses {f : Setup} (hDdr : f.ddr = true) :
    Uses f (fun _ _ => True) (loadBootImage f) Evidence.empty := by
  refine holds_loadBootImage (I := fun base (E : Evidence) => E.toAtHand = ⟨base, none⟩)
    (T := fun _ => True) ?_ ?_ (fun _ _ _ _ => trivial) ?_ ?_ rfl
  · exact fun _ _ _ _ hPrepares _ hAtHand => AtHand.after_prepares hPrepares hAtHand
  · intro base e E _ hAtHand h r hHeader
    rw [hAtHand] at hHeader
    cases hHeader
  · exact fun _ _ _ => trivial
  · intro image table E hAtHand _ _
    apply holds_bind
    have hWalk : Uses f (fun _ _ => True) (walk f image table table.partitionCount
        (firstPartition f) initialWalk) E := by
      refine holds_walk (I := fun _ w E => w.toFlags.Exclusive ∧ E.image = some image) ?_
        (fun _ _ _ _ => trivial) _ ⟨exclusive_of_pl rfl, congrArg AtHand.image hAtHand⟩
      rintro num w E _ ⟨hExclusive, hImage⟩
      exact partition_uses hDdr hExclusive hImage
    exact holds_mono hWalk fun w E _ => holds_ret trivial

/-- In every run, what a signed or checksummed partition feeds to the decryption or the download
is verified exactly when its lengths fit. -/
theorem use_verified_iff {f : Setup} (hDdr : f.ddr = true) {e : Op} {rest : Answer e → Loader Boot}
    {E : Evidence}
    (hRun : Reaches (notes (fun _ _ => True) (collect f)) (loadBootImage f) Evidence.empty
      (.call e rest) E) {h : PartHeader} {r : Range} (hHeader : E.header = some h)
    (hChecked : checksummed f h ∨ signed f h) (hUsed : e.used = some r) :
    Verified f E h r ↔ Bounded f h :=
  (loadBootImage_uses hDdr).at_call (fun _ => rfl) hRun h r hHeader hChecked hUsed

def checkedHeader (imageWordLen : U32) : PartHeader :=
  benchHeader imageWordLen 3 4 0x100000 0x1010

def checkedRun (imageWordLen : U32) : Loader Boot × Evidence :=
  benchRun (collect bench) (checkedHeader imageWordLen) 0 11 .empty

theorem checkedRun_reaches (imageWordLen : U32) {e : Op}
    (hHead : (checkedRun imageWordLen).1.head = some e) :
    ∃ rest, Reaches (notes (fun _ _ => True) (collect bench)) (loadBootImage bench) Evidence.empty
      (.call e rest) (checkedRun imageWordLen).2 := by
  obtain ⟨rest, hCode⟩ := exists_call_of_head hHead
  refine ⟨rest, ?_⟩
  rw [← hCode]
  exact benchRun_reaches (fun _ _ _ => trivial) 11 Evidence.empty

theorem use_verified_bench :
    Verified bench (checkedRun 4).2 (checkedHeader 4) ⟨0x100000, 4 * (4 : U32).toNat⟩ ↔
      Bounded bench (checkedHeader 4) :=
  have ⟨_, hRun⟩ := checkedRun_reaches 4
    (e := .pcapDataTransfer 0x100000 0x100000 4 3 true) rfl
  use_verified_iff rfl hRun rfl (.inl (by decide)) rfl

/-- Eight words are decrypted, of which four are copied and checked. -/
theorem use_unverified : ¬ ∀ (f : Setup) (e : Op) (rest : Answer e → Loader Boot) (E : Evidence),
    f.ddr = true → Reaches (notes (fun _ _ => True) (collect f)) (loadBootImage f) Evidence.empty
      (.call e rest) E → ∀ h r, E.header = some h → checksummed f h ∨ signed f h →
    e.used = some r → Verified f E h r := by
  intro hAll
  obtain ⟨rest, hRun⟩ := checkedRun_reaches 8
    (e := .pcapDataTransfer 0x100000 0x100000 8 3 true) rfl
  have hChecked : checksummed bench (checkedHeader 8) := by decide
  have hVerified := hAll bench _ rest _ rfl hRun _ _ rfl (.inl hChecked) rfl
  have hIff := (loadBootImage_uses rfl).at_call (fun _ => rfl) hRun _ _ rfl (.inl hChecked) rfl
  have hLe : 4 * (8 : U32).toNat ≤ ((4 : U32) <<< 2).toNat := (hIff.mp hVerified).checksum hChecked
  exact absurd hLe (by decide)

end SoftwarePrototypes.Fsbl
