import SoftwarePrototypes.Fsbl.Bench
import SoftwarePrototypes.Fsbl.TypeFlags
import SoftwarePrototypes.Fsbl.VerifiedUse

/-! # The handoff address

`LoadBootImage` returns the execution address of the first PS partition that it handles. A PS
partition that carries a PL image too is left out after a watchdog reset, and where RSA is tested
without eFuses an unreadable certificate makes `XST_FAILURE` the address.
-/

namespace SoftwarePrototypes.Fsbl

open Interaction Interaction.Prog

/-! ## A partition that has passed its checks -/

section Passed

variable (f : Setup)

def encrypted (h : PartHeader) : Prop := h.dataWordLen ≠ h.imageWordLen

instance encrypted.decidable (h : PartHeader) : Decidable (encrypted h) :=
  inferInstanceAs (Decidable (_ ≠ _))

/-- Whether a PS partition is moved. -/
def movedAsPs (h : PartHeader) : Bool := f.ddr || movedWithoutDdr f h initialWalk.toFlags

def MovedTo (addr : U32) (calls : List Event) : Prop :=
  (∃ source bytes, (⟨.moveImage source (.address addr) bytes, (.success, ())⟩ : Event) ∈ calls) ∨
    ∃ source imageWordLen dataWordLen secure, (⟨.pcapDataTransfer source addr imageWordLen
      dataWordLen secure, Status.success⟩ : Event) ∈ calls

def Decrypted (h : PartHeader) (calls : List Event) : Prop :=
  ∃ source destination, (⟨.pcapDataTransfer source destination h.imageWordLen h.dataWordLen true,
    Status.success⟩ : Event) ∈ calls

/-- Where a PS partition is checked. -/
def psCheckedAddr (imageStartAddress : U32) (h : PartHeader) : U32 :=
  if f.ddr then h.loadAddr else partitionStartAddr f imageStartAddress h

def ChecksumMatches (imageStartAddress : U32) (h : PartHeader) (calls : List Event) : Prop :=
  ∃ digest : Md5,
    (⟨.moveImage (imageStartAddress + h.checkSumOffset <<< 2) .checksum 16,
      (.success, digest)⟩ : Event) ∈ calls ∧
    (⟨.md5 (psCheckedAddr f imageStartAddress h) (h.partitionWordLen <<< 2), digest⟩ : Event)
      ∈ calls

def SignatureVerifies (imageStartAddress : U32) (h : PartHeader) (calls : List Event) : Prop :=
  ∃ hash : Sha256,
    (⟨.sha256 (psCheckedAddr f imageStartAddress h) (signedBytes f h), hash⟩ : Event) ∈ calls ∧
    (⟨.authenticatePartition (psCheckedAddr f imageStartAddress h + h.partitionWordLen <<< 2 -
      f.rsaSignatureSize) hash, Status.success⟩ : Event) ∈ calls

/-- A PS partition has been moved, if it is to be, and has passed its own checks. -/
structure Passed (imageStartAddress : U32) (v : Visit) : Prop where
  moved : movedAsPs f v.header = true → MovedTo v.header.loadAddr v.calls
  checksum : checksummed f v.header → ChecksumMatches f imageStartAddress v.header v.calls
  signature : signed f v.header → SignatureVerifies f imageStartAddress v.header v.calls
  decrypted : encrypted v.header →
    movedAsPs f v.header = true ∨ checksummed f v.header ∨ signed f v.header →
    Decrypted v.header v.calls

variable {f} {imageStartAddress : U32} {h : PartHeader} {fl : Flags} {L : List Event}

/-- The flags of a PS partition while it is handled. -/
structure PsFlags (f : Setup) (h : PartHeader) (fl : Flags) : Prop where
  pl : fl.plPartitionFlag = false
  ps : fl.psPartitionFlag = true
  encrypted : fl.encryptedPartitionFlag = true ↔ encrypted h
  checksum : fl.partitionChecksumFlag = true ↔ checksummed f h
  signature : fl.signedPartitionFlag = true ↔ signed f h

theorem loadFlags_psFlags {w : Walk} (hPs : hasPsImage f h = true) :
    PsFlags f h (loadFlags f h w).toFlags := by
  constructor
  · rw [loadFlags_pl, hPs]
    rfl
  · rw [loadFlags_ps, hPs]
    rfl
  · exact decide_eq_true_iff
  · exact decide_eq_true_iff
  · exact decide_eq_true_iff

theorem MovedTo.mono {addr : U32} {M : List Event} (hMoved : MovedTo addr M)
    (hSub : ∀ event ∈ M, event ∈ L) : MovedTo addr L := by
  obtain ⟨source, bytes, hMem⟩ | ⟨source, i, d, secure, hMem⟩ := hMoved
  · exact .inl ⟨source, bytes, hSub _ hMem⟩
  · exact .inr ⟨source, i, d, secure, hSub _ hMem⟩

theorem Decrypted.mono {M : List Event} (hDecrypted : Decrypted h M)
    (hSub : ∀ event ∈ M, event ∈ L) : Decrypted h L := by
  obtain ⟨source, destination, hMem⟩ := hDecrypted
  exact ⟨source, destination, hSub _ hMem⟩

theorem moveStep_ps (hPl : fl.plPartitionFlag = false) {t t' : Transfer}
    (hRun : Returns (moveStep f fl t) L (some t')) :
    (f.linearBootDeviceFlag = true ∨ MovedTo t.loadAddr L) ∧ t'.loadAddr = t.loadAddr ∧
      t'.imageWordLen = t.imageWordLen ∧ t'.dataWordLen = t.dataWordLen ∧
      t'.secureTransferFlag = t.secureTransferFlag := by
  rw [moveStep] at hRun
  split at hRun
  · obtain ⟨rfl, hSame⟩ := returns_ret.mp hRun
    cases hSame
    exact ⟨.inl ‹_›, rfl, rfl, rfl, rfl⟩
  · rw [hPl] at hRun
    obtain ⟨⟨status, _⟩, M, rfl, hRest⟩ := returns_ask_bind hRun
    obtain ⟨rfl, hSome⟩ := returns_ret.mp hRest
    split at hSome
    · rename_i hSuccess
      cases hSome
      cases hSuccess
      exact ⟨.inr (.inl ⟨_, _, List.mem_cons_self⟩), rfl, rfl, rfl, rfl⟩
    · cases hSome

theorem pcapStep_ps (hPl : fl.plPartitionFlag = false) (hPs : fl.psPartitionFlag = true)
    {t t' : Transfer} (hRun : Returns (pcapStep f fl t) L (some t'))
    (hPcap : f.linearBootDeviceFlag = true ∨ t.secureTransferFlag = true) :
    (⟨.pcapDataTransfer t.sourceAddr t.loadAddr t.imageWordLen t.dataWordLen
      t.secureTransferFlag, Status.success⟩ : Event) ∈ L := by
  have hUses : usesPcap f fl t = true := by
    cases hLinear : f.linearBootDeviceFlag with
    | true => simp [usesPcap, hLinear, hPs]
    | false => simp [usesPcap, hLinear, hPs, hPcap.resolve_left (ne_true_of_eq_false hLinear)]
  rw [pcapStep, if_pos hUses, hPl] at hRun
  obtain ⟨status, M, rfl, hRest⟩ := returns_ask_bind hRun
  obtain ⟨rfl, hSome⟩ := returns_ret.mp hRest
  split at hSome
  · rename_i hSuccess
    cases hSuccess
    exact List.mem_cons_self
  · cases hSome

/-- An encrypted partition that is not checked is decrypted as it is moved. -/
theorem partitionMove_ps (hFlags : PsFlags f h fl)
    (hRun : Returns (partitionMove f imageStartAddress h fl) L .success) :
    MovedTo h.loadAddr L ∧ (encrypted h → fl.whole = false → Decrypted h L) := by
  obtain ⟨t, M, N, rfl, hMove, hRest⟩ := returns_bind hRun
  cases t with
  | none => cases (returns_ret.mp hRest).2
  | some t =>
    obtain ⟨hMoved, hLoad, hImage, hData, hSecure⟩ := moveStep_ps hFlags.pl hMove
    obtain ⟨t', N₁, N₂, rfl, hPcap, hLast⟩ := returns_bind hRest
    cases t' with
    | none => cases (returns_ret.mp hLast).2
    | some t' =>
      have hTransfer := pcapStep_ps hFlags.pl hFlags.ps hPcap
      constructor
      · obtain hLinear | hMoved := hMoved
        · have hMem := hTransfer (.inl hLinear)
          rw [hLoad] at hMem
          exact .inr ⟨_, _, _, _, List.mem_append_right _ (List.mem_append_left _ hMem)⟩
        · exact hMoved.mono fun event hMem => List.mem_append_left _ hMem
      · intro hEncrypted hWhole
        have hOn : t.secureTransferFlag = true := by
          rw [hSecure, transfer, hFlags.encrypted.mpr hEncrypted, hWhole, Bool.and_false]
          rfl
        have hMem := hTransfer (.inr hOn)
        rw [hImage, hData, hOn, transfer, hWhole] at hMem
        exact ⟨_, _, List.mem_append_right _ (List.mem_append_left _ hMem)⟩

theorem placePartition_ps (hFlags : PsFlags f h fl) (hMoves : movedAsPs f h = true)
    (hRun : Returns (placePartition f imageStartAddress h fl) L ()) :
    MovedTo h.loadAddr L ∧ (encrypted h → fl.whole = false → Decrypted h L) := by
  rw [placePartition] at hRun
  split at hRun
  · exact partitionMove_ps hFlags (movePartition_returns hRun)
  · rename_i hDdr
    obtain ⟨_, M, N, rfl, -, hRest⟩ := returns_bind hRun
    obtain ⟨_, M', N', rfl, -, hMove⟩ := returns_bind hRest
    rw [Bool.not_eq_true] at hDdr
    have hMoved : movedWithoutDdr f h fl = true := by
      rw [movedAsPs, hDdr, Bool.false_or] at hMoves
      rw [← hMoves, movedWithoutDdr, hFlags.pl]
      rfl
    rw [if_pos hMoved] at hMove
    obtain ⟨hMoved, hDecrypted⟩ := partitionMove_ps hFlags (movePartition_returns hMove)
    have hSub : ∀ event ∈ N', event ∈ M ++ (M' ++ N') :=
      fun event hMem => List.mem_append_right _ (List.mem_append_right _ hMem)
    exact ⟨hMoved.mono hSub, fun hEncrypted hWhole => (hDecrypted hEncrypted hWhole).mono hSub⟩

theorem checksumStep_ps {startAddr : U32} (hFlag : fl.partitionChecksumFlag = true)
    (hRun : Returns (checksumStep imageStartAddress startAddr h fl) L ()) :
    ∃ digest : Md5,
      (⟨.moveImage (imageStartAddress + h.checkSumOffset <<< 2) .checksum 16,
        (.success, digest)⟩ : Event) ∈ L ∧
      (⟨.md5 startAddr (h.partitionWordLen <<< 2), digest⟩ : Event) ∈ L := by
  rw [checksumStep, if_pos hFlag] at hRun
  obtain ⟨status, M, N, rfl, hValidate, hRequire⟩ := returns_bind hRun
  obtain ⟨rfl, rfl⟩ := returns_require hRequire
  obtain ⟨stored, M, N, rfl, hRead, hRest⟩ := returns_bind hValidate
  obtain ⟨status, digest, rfl, rfl⟩ := returns_readInto hRead
  cases status with
  | failure => cases (returns_ret.mp hRest).2
  | success =>
    obtain ⟨calculated, M, rfl, hLast⟩ := returns_ask_bind hRest
    obtain ⟨rfl, hSame⟩ := returns_ret.mp hLast
    split at hSame
    · rename_i hEq
      cases hEq
      exact ⟨digest, by simp, by simp⟩
    · cases hSame

theorem authenticateStep_ps {startAddr : U32} (hFlag : fl.signedPartitionFlag = true)
    (hRun : Returns (authenticateStep f startAddr h fl) L ()) :
    ∃ hash : Sha256,
      (⟨.sha256 startAddr (signedBytes f h), hash⟩ : Event) ∈ L ∧
      (⟨.authenticatePartition (startAddr + h.partitionWordLen <<< 2 - f.rsaSignatureSize) hash,
        Status.success⟩ : Event) ∈ L := by
  rw [authenticateStep, if_pos hFlag] at hRun
  split at hRun
  · obtain ⟨hash, M, rfl, hRest⟩ := returns_ask_bind hRun
    obtain ⟨status, hSuccess, rfl⟩ := returns_ask_require hRest
    cases hSuccess
    exact ⟨hash, List.mem_cons_self, List.mem_cons_of_mem _ List.mem_cons_self⟩
  · exact (fallback_not_returns hRun).elim

theorem checkPartition_ps (hFlags : PsFlags f h fl) (hRun : Returns (checkPartition f
    imageStartAddress (partitionStartAddr f imageStartAddress h) h fl) L ()) :
    (checksummed f h → ChecksumMatches f imageStartAddress h L) ∧
      (signed f h → SignatureVerifies f imageStartAddress h L) ∧
      (encrypted h → fl.whole = true → Decrypted h L) := by
  rw [checkPartition] at hRun
  split at hRun
  · rename_i hWhole
    have hAddr : checkedAddr f (partitionStartAddr f imageStartAddress h) h fl =
        psCheckedAddr f imageStartAddress h := by
      rw [checkedAddr, hFlags.pl]
      rfl
    simp only [hAddr] at hRun
    obtain ⟨_, M₁, _, rfl, hSum, hRest⟩ := returns_bind hRun
    obtain ⟨_, M₂, _, rfl, hSign, hRest⟩ := returns_bind hRest
    obtain ⟨_, M₃, M₄, rfl, hDecrypt, -⟩ := returns_bind hRest
    refine ⟨fun hChecked => ?_, fun hSigned => ?_, fun hEncrypted _ => ?_⟩
    · obtain ⟨digest, hStored, hCalculated⟩ := checksumStep_ps (hFlags.checksum.mpr hChecked) hSum
      exact ⟨digest, List.mem_append_left _ hStored, List.mem_append_left _ hCalculated⟩
    · obtain ⟨hash, hHash, hAuthentic⟩ := authenticateStep_ps (hFlags.signature.mpr hSigned) hSign
      exact ⟨hash, by simp [hHash], by simp [hAuthentic]⟩
    · have hFlag := hFlags.encrypted.mpr hEncrypted
      rw [decryptStep, if_pos (by rw [hFlag, hFlags.ps]; rfl)] at hDecrypt
      obtain ⟨status, hSuccess, rfl⟩ := returns_ask_require hDecrypt
      cases hSuccess
      exact ⟨psCheckedAddr f imageStartAddress h, psCheckedAddr f imageStartAddress h, by simp⟩
  · rename_i hPlain
    rw [Flags.whole, Bool.or_eq_true, not_or] at hPlain
    refine ⟨fun hChecked => ?_, fun hSigned => ?_, fun _ hWhole => ?_⟩
    · exact absurd (hFlags.checksum.mpr hChecked) hPlain.2
    · exact absurd (hFlags.signature.mpr hSigned) hPlain.1
    · rw [Flags.whole, Bool.or_eq_true] at hWhole
      exact absurd hWhole (not_or.mpr hPlain)

theorem handlePartition_passed {w : Walk} {step : Step} (hFlags : PsFlags f h w.toFlags)
    (hRun : Returns (handlePartition f imageStartAddress h w) L step) {calls : List Event}
    (hSub : ∀ event ∈ L, event ∈ calls) : Passed f imageStartAddress ⟨h, calls⟩ := by
  obtain ⟨-, before, placing, checking, after, rfl, -, hPlacing, hChecking, -⟩ :=
    handlePartition_returns hRun
  have hPlaced : ∀ event ∈ placing, event ∈ calls := fun event hMem => hSub event (by simp [hMem])
  have hChecked : ∀ event ∈ checking, event ∈ calls := fun event hMem => hSub event (by simp [hMem])
  obtain ⟨hSum, hSign, hDecrypt⟩ := checkPartition_ps hFlags hChecking
  constructor
  · intro hMoves
    exact (placePartition_ps hFlags hMoves hPlacing).1.mono hPlaced
  · intro hBit
    obtain ⟨digest, hStored, hCalculated⟩ := hSum hBit
    exact ⟨digest, hChecked _ hStored, hChecked _ hCalculated⟩
  · intro hBit
    obtain ⟨hash, hHash, hAuthentic⟩ := hSign hBit
    exact ⟨hash, hChecked _ hHash, hChecked _ hAuthentic⟩
  · intro hEncrypted hSome
    cases hWhole : w.toFlags.whole with
    | true => exact (hDecrypt hEncrypted hWhole).mono hChecked
    | false =>
      have hUnchecked := Bool.or_eq_false_iff.mp hWhole
      have hMoves : movedAsPs f h = true := by
        obtain hMoves | hBit | hBit := hSome
        · exact hMoves
        · rw [hFlags.checksum.mpr hBit] at hUnchecked
          exact nomatch hUnchecked.2
        · rw [hFlags.signature.mpr hBit] at hUnchecked
          exact nomatch hUnchecked.1
      exact ((placePartition_ps hFlags hMoves hPlacing).2 hEncrypted hWhole).mono hPlaced

end Passed

/-! ## The walk -/

section Walk

variable (f : Setup)

def Visit.psOwned (v : Visit) : Bool := ownedByFsbl f v.header && hasPsImage f v.header

/-- A PS partition that is neither skipped nor ends the walk by its load address. -/
def Visit.handled (v : Visit) : Bool := v.psOwned f && !v.skipped && !lowLoad f v.header

/-- The earliest visit of a PS partition. -/
def firstPs (V : List Visit) : Option Visit := (V.filter (Visit.psOwned f)).getLast?

def firstHandled (V : List Visit) : Option Visit := (V.filter (Visit.handled f)).getLast?

/-- The address latched so far. -/
structure Latched (imageStartAddress : U32) (V : List Visit) (w : Walk) : Prop where
  unset : firstHandled f V = none → w.execAddress = 0
  latched : ∀ v, firstHandled f V = some v →
    w.execAddress = v.header.execAddr ∧ Passed f imageStartAddress v
  flag : w.execAddrFlag = (firstHandled f V).isSome
  application : w.applicationFlag = true → w.execAddrFlag = true
  ps : w.psPartitionFlag = true → w.execAddrFlag = true

variable {f} {imageStartAddress : U32} {h : PartHeader} {w w' : Walk} {calls : List Event}
  {V : List Visit} {v : Visit}

theorem firstHandled_other (hNot : v.handled f = false) :
    firstHandled f (v :: V) = firstHandled f V := by
  rw [firstHandled, List.filter_cons_of_neg (ne_true_of_eq_false hNot)]
  rfl

theorem firstHandled_new (hHandled : v.handled f = true) (hNone : firstHandled f V = none) :
    firstHandled f (v :: V) = some v := by
  rw [firstHandled, List.getLast?_eq_none_iff] at hNone
  rw [firstHandled, List.filter_cons_of_pos hHandled, hNone]
  rfl

theorem firstHandled_old {u : Visit} (hSome : firstHandled f V = some u) (v : Visit) :
    firstHandled f (v :: V) = some u := by
  cases hHandled : v.handled f with
  | false => rw [firstHandled_other hHandled, hSome]
  | true =>
    rw [firstHandled] at hSome
    rw [firstHandled, List.filter_cons_of_pos hHandled, List.getLast?_cons, hSome]
    rfl

theorem firstHandled_of_firstPs {u : Visit} (hFirst : firstPs f V = some u)
    (hHandled : u.handled f = true) : firstHandled f V = some u := by
  have hFilter : V.filter (Visit.handled f) =
      (V.filter (Visit.psOwned f)).filter (Visit.handled f) := by
    rw [List.filter_filter]
    apply List.filter_congr
    intro v _
    cases hPs : v.psOwned f <;> simp [Visit.handled, hPs]
  obtain ⟨earlier, hList⟩ := List.getLast?_eq_some_iff.mp hFirst
  rw [firstHandled, hFilter, hList, List.filter_append, List.filter_cons_of_pos hHandled]
  simp

/-- A visit of a partition that is not handled leaves the address as it is. -/
theorem Latched.other (hLatched : Latched f imageStartAddress V w) (hNot : v.handled f = false)
    (hAddr : w'.execAddress = w.execAddress) (hFlag : w'.execAddrFlag = w.execAddrFlag)
    (hApp : w'.applicationFlag = true → w.applicationFlag = true)
    (hPs : w'.psPartitionFlag = true → w.psPartitionFlag = true) :
    Latched f imageStartAddress (v :: V) w' := by
  have hSame := firstHandled_other (V := V) hNot
  constructor
  · rw [hSame, hAddr]
    exact hLatched.unset
  · rw [hSame, hAddr]
    exact hLatched.latched
  · rw [hSame, hFlag, hLatched.flag]
  · rw [hFlag]
    exact fun h => hLatched.application (hApp h)
  · rw [hFlag]
    exact fun h => hLatched.ps (hPs h)

theorem latchExecAddr_old {w : Walk} (hSet : w.psPartitionFlag = true → w.execAddrFlag = true)
    (h : PartHeader) : latchExecAddr h w = w := by
  rw [latchExecAddr, if_neg]
  rw [Bool.and_eq_true, Bool.not_eq_true']
  rintro ⟨hPs, hFlag⟩
  rw [hSet hPs] at hFlag
  cases hFlag

theorem loadFlags_exec : (loadFlags f h w).execAddress = w.execAddress ∧
    (loadFlags f h w).execAddrFlag = w.execAddrFlag := by
  unfold loadFlags attrFlags psFlags typeFlags
  cases hasPsImage f h <;> cases hasPlImage f h <;> exact ⟨rfl, rfl⟩

/-- The first PS partition that is handled gives the address. -/
theorem Latched.first (hLatched : Latched f imageStartAddress V w) (hHandled : v.handled f = true)
    (hNone : firstHandled f V = none) (hPassed : Passed f imageStartAddress v)
    (hPs : (loadFlags f v.header w).psPartitionFlag = true) :
    Latched f imageStartAddress (v :: V) (latchExecAddr v.header (loadFlags f v.header w)) := by
  have hFirst := firstHandled_new hHandled hNone
  have hUnset : (loadFlags f v.header w).execAddrFlag = false := by
    rw [loadFlags_exec.2, hLatched.flag, hNone]
    rfl
  rw [latchExecAddr, if_pos (by rw [hPs, hUnset]; rfl)]
  constructor
  · rw [hFirst]
    exact nofun
  · rw [hFirst]
    rintro _ ⟨⟩
    exact ⟨rfl, hPassed⟩
  · rw [hFirst]
    rfl
  · exact fun _ => rfl
  · exact fun _ => rfl

/-- Once the address is latched it stays. -/
theorem Latched.later (hLatched : Latched f imageStartAddress V w) {u : Visit}
    (hSome : firstHandled f V = some u) (v : Visit) :
    Latched f imageStartAddress (v :: V) (latchExecAddr h (loadFlags f h w)) := by
  have hOld := firstHandled_old hSome v
  have hSet : (loadFlags f h w).execAddrFlag = true := by
    rw [loadFlags_exec.2, hLatched.flag, hSome]
    rfl
  rw [latchExecAddr_old fun _ => hSet]
  constructor
  · rw [hOld]
    exact nofun
  · rw [hOld, loadFlags_exec.1, ← hSome]
    exact hLatched.latched
  · rw [hSet, hOld]
    rfl
  · exact fun _ => hSet
  · exact fun _ => hSet

theorem subset_calls (reset enc rest : List Event) :
    ∀ event ∈ rest, event ∈ reset ++ (enc ++ rest) :=
  fun _ hMem => List.mem_append_right _ (List.mem_append_right _ hMem)

theorem Latched.next (hLatched : Latched f imageStartAddress V w)
    (hVisit : Visited f imageStartAddress h w calls (.next w')) :
    Latched f imageStartAddress (⟨h, calls⟩ :: V) w' := by
  obtain ⟨hOther, rfl, rfl⟩ | ⟨hOwned, hPl, hReset, -, rfl⟩ |
    ⟨hOwned, hTaken, hHigh, rfl, reset, enc, rest, rfl, hEntry, hHandle⟩ := visited_next hVisit
  · have hNot : (Visit.mk h []).handled f = false := by simp [Visit.handled, Visit.psOwned, hOther]
    exact hLatched.other hNot rfl rfl id id
  · have hNot : (Visit.mk h calls).handled f = false := by
      simp [Visit.handled, Visit.skipped, hReset]
    rw [typeFlags_of_pl hPl]
    exact hLatched.other hNot rfl rfl id nofun
  cases hFirst : firstHandled f V with
  | some u => exact hLatched.later hFirst _
  | none =>
    cases hPs : hasPsImage f h with
    | true =>
      have hFlags := loadFlags_psFlags (w := w) hPs
      have hHandled : (Visit.mk h (reset ++ (enc ++ rest))).handled f = true := by
        simp [Visit.handled, Visit.psOwned, Visit.skipped, hOwned, hPs, hTaken, hHigh hFlags.ps]
      have hPassed := handlePartition_passed hFlags hHandle (subset_calls reset enc rest)
      exact hLatched.first hHandled hFirst hPassed hFlags.ps
    | false =>
      have hNot : (Visit.mk h (reset ++ (enc ++ rest))).handled f = false := by
        simp [Visit.handled, Visit.psOwned, hPs]
      have hStale : (loadFlags f h w).psPartitionFlag = true → w.psPartitionFlag = true := by
        rw [loadFlags_ps, hPs, Bool.false_or, Bool.and_eq_true]
        exact And.right
      have hUnset : w.execAddrFlag = false := by
        rw [hLatched.flag, hFirst]
        rfl
      rw [latchExecAddr_old fun hOn =>
        absurd (hLatched.ps (hStale hOn)) (ne_true_of_eq_false hUnset)]
      apply hLatched.other hNot loadFlags_exec.1 loadFlags_exec.2 _ hStale
      rw [loadFlags_application, hPs, Bool.false_or]
      exact id

theorem toured_latched {table : Table} {num : Nat}
    (hTour : Toured f imageStartAddress table V num w) : Latched f imageStartAddress V w := by
  induction hTour with
  | start => exact ⟨fun _ => rfl, nofun, rfl, nofun, nofun⟩
  | visit _ _ _ hVisit ih => exact ih.next hVisit

theorem ended_latched {table : Table} (hEnded : Ended f imageStartAddress table V w) :
    (firstHandled f V = none → w.execAddress = 0) ∧ ∀ v, firstHandled f V = some v →
      w.execAddress = v.header.execAddr ∧ Passed f imageStartAddress v := by
  cases hEnded with
  | done hTour _ => exact ⟨(toured_latched hTour).unset, (toured_latched hTour).latched⟩
  | @stopped V num w w' calls hTour _ _ hVisit =>
    have hLatched := toured_latched hTour
    obtain ⟨-, hPl, hLate, rfl, rfl⟩ | ⟨-, -, hLow, -, -, -, -, rfl, -⟩ := visited_stop hVisit
    · have hSet := hLatched.application hLate
      rw [hLatched.flag, Option.isSome_iff_exists] at hSet
      obtain ⟨u, hFirst⟩ := hSet
      rw [firstHandled_old hFirst, typeFlags_of_pl hPl, ← hFirst]
      exact ⟨hLatched.unset, hLatched.latched⟩
    · have hNot : (Visit.mk (table.partitionHeader num) calls).handled f = false := by
        simp [Visit.handled, hLow]
      rw [firstHandled_other hNot, loadFlags_exec.1]
      exact ⟨hLatched.unset, hLatched.latched⟩

end Walk

/-! ## The whole boot -/

section Boot

variable (f : Setup)

def isDump : Event → Bool
  | ⟨.headerDump _, _⟩ => true
  | _ => false

/-- The calls before the first partition. -/
def prelude (L : List Event) : List Event := L.takeWhile fun event => !isDump event

def certificateFails : Event → Bool
  | ⟨.moveImage _ (.address addr) _, (status, _)⟩ =>
    addr == f.rsaAcStart && decide (status = .failure)
  | _ => false

def CertificateRead (L : List Event) : Prop := (prelude L).any (certificateFails f) = false

/-- The address is 0, or that of the first PS partition, which has been handled. -/
def HandoffOk (V : List Visit) (address : U32) : Prop :=
  address = 0 ∨ ∃ v imageStartAddress, firstPs f V = some v ∧ address = v.header.execAddr ∧
    v.handled f = true ∧ Passed f imageStartAddress v

/-- No PS partition is left out before the first one that is handled. -/
def NoneLeftOut (V : List Visit) : Prop :=
  ∀ v, firstHandled f V = some v → v.header.execAddr = 0 ∨ firstPs f V = some v

variable {f} {L : List Event}

theorem reads_certificateFails {event : Event} (hReads : event.1.Reads) :
    certificateFails f event = false := by
  obtain ⟨e, answer⟩ := event
  cases e with
  | moveImage source destination bytes => cases destination <;> first | rfl | exact hReads.elim
  | _ => rfl

theorem not_certificateFails_of_only {α : Type} {p : Loader α} {q : Loader α}
    (hOnly : Only Op.Reads p) (hRun : Steps p L q) : L.any (certificateFails f) = false := by
  rw [List.any_eq_false]
  intro event hMem
  rw [reads_certificateFails ((hOnly.steps hRun).1 event hMem)]
  exact Bool.false_ne_true

theorem efuseStatus_returns {imageStartAddress : U32} {table : Table}
    {result : Option (U32 × U32)}
    (hRun : Returns (efuseStatus f imageStartAddress table) L result) :
    L.any (certificateFails f) = result.isNone := by
  rw [efuseStatus] at hRun
  split at hRun
  · obtain ⟨status, M, rfl, hRest⟩ := returns_ask_bind hRun
    obtain ⟨rfl, rfl⟩ := returns_ret.mp hRest
    rfl
  split at hRun
  · obtain ⟨⟨status, _⟩, M, rfl, hRest⟩ := returns_ask_bind hRun
    obtain ⟨rfl, rfl⟩ := returns_ret.mp hRest
    cases status <;> simp [certificateFails]
  · obtain ⟨rfl, rfl⟩ := returns_ret.mp hRun
    rfl

theorem secureHeaders_returns {imageStartAddress : U32} {table : Table} {ready : Bool}
    (hRun : Returns (secureHeaders f imageStartAddress table) L ready) :
    L.any (certificateFails f) = !ready := by
  rw [secureHeaders] at hRun
  split at hRun
  · obtain ⟨status, M, N, rfl, hStatus, hRest⟩ := returns_bind hRun
    rw [List.any_append, efuseStatus_returns hStatus]
    cases status with
    | none =>
      obtain ⟨rfl, rfl⟩ := returns_ret.mp hRest
      rfl
    | some status =>
      obtain ⟨_, N₁, N₂, rfl, hHeaders, hLast⟩ := returns_bind hRest
      obtain ⟨rfl, rfl⟩ := returns_ret.mp hLast
      rw [List.append_nil,
        not_certificateFails_of_only (authenticateHeaders_only f _ _ _ _) hHeaders]
      rfl
  · obtain ⟨rfl, rfl⟩ := returns_ret.mp hRun
    rfl

theorem prepareWalk_certificate {start : Option (U32 × Table)}
    (hRun : Returns (prepareWalk f) L start) :
    L.any (certificateFails f) = start.isNone := by
  obtain ⟨imageStartAddress, M, _, rfl, hStart, hRest⟩ := returns_bind hRun
  obtain ⟨table, M', _, rfl, hTable, hRest⟩ := returns_bind hRest
  have hFetches : ∀ {α : Type} {p : Loader α}, Only Op.Fetches p → Only Op.Reads p :=
    fun hOnly => hOnly.mono fun _ => Op.Fetches.reads
  rw [List.any_append, List.any_append,
    not_certificateFails_of_only (hFetches (imageStart_only f)) hStart,
    not_certificateFails_of_only (hFetches (getPartitionHeaderInfo_only f _)) hTable]
  cases table with
  | none => exact (fallback_not_returns hRest).elim
  | some table =>
    obtain ⟨ready, N, _, rfl, hReady, hLast⟩ := returns_bind hRest
    obtain ⟨rfl, rfl⟩ := returns_ret.mp hLast
    rw [List.append_nil, secureHeaders_returns hReady]
    cases ready <;> rfl

theorem prelude_append {M N : List Event} (hPrelude : ∀ event ∈ M, event.1.Prepares)
    (hWalk : ∀ event ∈ N.head?, isDump event = true) : prelude (M ++ N) = M := by
  have hAll : ∀ event ∈ M, (!isDump event) = true := by
    rintro ⟨e, answer⟩ hMem
    have hPrepares := hPrelude _ hMem
    cases e <;> first | rfl | exact hPrepares.elim
  rw [prelude, List.takeWhile_append_of_pos hAll]
  cases N with
  | nil => simp
  | cons event N => simp [hWalk event rfl]

theorem walkTable_dumps {imageStartAddress : U32} {table : Table} {q : Loader Boot}
    (hRun : Steps (walkTable f imageStartAddress table) L q) :
    ∀ event ∈ L.head?, isDump event = true := by
  cases L with
  | nil => exact nofun
  | cons event L =>
    rintro _ ⟨⟩
    have hHead := hRun.head
    obtain ⟨e, answer⟩ := event
    rw [walkTable] at hHead
    cases hCount : table.partitionCount with
    | zero =>
      rw [hCount] at hHead
      cases hHead
    | succ fuel =>
      rw [hCount, walk] at hHead
      split at hHead
      · cases hHead
        rfl
      · cases hHead

/-- What is returned is as it should be exactly when the certificate is read and no PS partition
is left out before the first one that is handled. -/
theorem handoffAddress_iff {boot : Boot} (hRun : Returns (loadBootImage f) L boot) :
    HandoffOk f (visits L) boot.handoffAddress ↔
      CertificateRead f L ∧ NoneLeftOut f (visits L) := by
  obtain ⟨hPrepare, hNone, rfl⟩ | ⟨imageStartAddress, table, M, N, w, rfl, hPrepare, hWalk, hEnded,
    rfl⟩ := loadBootImage_returns hRun
  · have hPrelude : prelude L = L := by
      have hAppend := prelude_append (N := []) ((prepareWalk_only f).steps hPrepare).1
        (fun _ hMem => nomatch hMem)
      rwa [List.append_nil] at hAppend
    rw [CertificateRead, hPrelude, prepareWalk_certificate hPrepare, hNone]
    constructor
    · rintro (hZero | ⟨v, _, hFirst, _⟩)
      · exact absurd hZero (by decide)
      · cases hFirst
    · exact fun h => nomatch h.1
  · obtain ⟨hUnset, hLatched⟩ := ended_latched hEnded
    have hRead : CertificateRead f (M ++ N) := by
      rw [CertificateRead, prelude_append ((prepareWalk_only f).steps hPrepare).1
        (walkTable_dumps hWalk), prepareWalk_certificate hPrepare]
      rfl
    constructor
    · intro hOk
      refine ⟨hRead, fun v hFirst => ?_⟩
      rw [HandoffOk, (hLatched v hFirst).1] at hOk
      obtain hZero | ⟨u, _, hPs, _, hHandled, _⟩ := hOk
      · exact .inl hZero
      · have hSame := firstHandled_of_firstPs hPs hHandled
        rw [hFirst] at hSame
        cases hSame
        exact .inr hPs
    · rintro ⟨-, hNoneLeft⟩
      cases hFirst : firstHandled f (visits (M ++ N)) with
      | none => exact .inl (hUnset hFirst)
      | some v =>
        obtain ⟨hAddr, hPassed⟩ := hLatched v hFirst
        obtain hZero | hPs := hNoneLeft v hFirst
        · exact .inl (hAddr.trans hZero)
        · have hHandled : v.handled f = true := by
            have hMem := List.mem_of_getLast? hFirst
            exact (List.mem_filter.mp hMem).2
          exact .inr ⟨v, imageStartAddress, hPs, hAddr, hHandled, hPassed⟩

theorem handoffAddress_iff_bench : ∃ boot,
    Returns (loadBootImage bench) (benchPlay [benchApplication] 0 30).1 boot ∧
    (HandoffOk bench (visits (benchPlay [benchApplication] 0 30).1) boot.handoffAddress ↔
      CertificateRead bench (benchPlay [benchApplication] 0 30).1 ∧
        NoneLeftOut bench (visits (benchPlay [benchApplication] 0 30).1)) :=
  have hRun := benchPlay_returns [benchApplication] 0 30 _ rfl
  ⟨_, hRun, handoffAddress_iff hRun⟩

/-- The bench without eFuses. -/
def withoutEfuses : Setup := { bench with rsaWithoutEfuses := true }

/-- A boot loader with a certificate, and an application. -/
def certifiedImage : Nat → PartHeader
  | 0 => { benchHeader 1 1 1 0 0x10 with acOffset := 0x100 }
  | num + 1 => [benchApplication].getD num endMarker

/-- Nothing can be copied from the boot device. -/
def unreadableAnswer : (e : Op) → Option (Answer e)
  | .moveImage _ (.address _) _ => some (.failure, ())
  | e => deviceAnswer certifiedImage (reasonRegister 0) e

/-- The certificate cannot be read, and the handoff address is 1. -/
theorem handoffAddress_failure : ¬ ∀ (f : Setup) (L : List Event) (boot : Boot),
    Returns (loadBootImage f) L boot → HandoffOk f (visits L) boot.handoffAddress := by
  intro hAll
  have hEnd : (play unreadableAnswer 30 (loadBootImage withoutEfuses)).2.returned =
      some ⟨xstFailure, initialWalk.toFlags⟩ := rfl
  have hRun := returns_play hEnd
  have hNone : visits (play unreadableAnswer 30 (loadBootImage withoutEfuses)).1 = [] := rfl
  have hOk := hAll _ _ _ hRun
  rw [hNone] at hOk
  obtain hZero | ⟨v, _, hFirst, _⟩ := hOk
  · exact absurd hZero (by decide)
  · cases hFirst

end Boot

end SoftwarePrototypes.Fsbl
