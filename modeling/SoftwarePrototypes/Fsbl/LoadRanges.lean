import SoftwarePrototypes.Fsbl.DdrBuilds

/-! # Loads inside the DDR

The load address of a PS partition is checked, the end of what is written from there is not.
-/

namespace SoftwarePrototypes.Fsbl

open Interaction Interaction.Prog

/-! ## What a partition writes -/

section Ranges

variable (f : Setup)

/-- So many bytes from an address on, without wrapping around, lie in the DDR. -/
def InDdr (addr : U32) (n : Nat) : Prop :=
  ∀ j < n, f.ddrStartAddr.toNat ≤ addr.toNat + j ∧ addr.toNat + j ≤ f.ddrEndAddr.toNat

/-- A call writes inside the DDR. The byte count of a copy of the CPU is `words` shifted, which may
wrap; the exact length of `words` is what has to fit. -/
def Op.StaysInDdr (words : U32) : Op → Prop
  | .moveImage _ (.address addr) bytes => bytes = words <<< 2 ∧ InDdr f addr (4 * words.toNat)
  | .pcapDataTransfer _ addr _ dataWordLen _ => InDdr f addr (4 * dataWordLen.toNat)
  | _ => True

def Fits (addr : U32) (words : U32) : Prop :=
  words = 0 ∨ f.ddrStartAddr.toNat ≤ addr.toNat ∧
    addr.toNat + 4 * words.toNat ≤ f.ddrEndAddr.toNat + 1

/-- The words of the header that say how much is written fit between the place that the partition
is moved to and the end of the DDR. -/
structure LoadsFit (imageStartAddress : U32) (h : PartHeader) (fl : Flags) : Prop where
  copied : f.linearBootDeviceFlag = false →
    Fits f (destination f fl h.loadAddr) (movedImageWords f h)
  transferred : usesPcap f fl (transfer f imageStartAddress h fl) = true →
    Fits f (destination f fl h.loadAddr) (movedDataWords f h)
  decrypted : fl.psPartitionFlag = true → encrypted h → checked f h = true →
    (signed f h → f.rsaSupport = true) → Fits f (destination f fl h.loadAddr) h.dataWordLen

variable {f} {addr words : U32}

theorem inDdr_iff : InDdr f addr (4 * words.toNat) ↔ Fits f addr words := by
  constructor
  · intro hIn
    by_cases hZero : words = 0
    · exact .inl hZero
    · have hPos : 0 < words.toNat :=
        Nat.pos_of_ne_zero fun hNone => hZero (BitVec.eq_of_toNat_eq hNone)
      have hFirst := hIn 0 (by omega)
      have hLast := hIn (4 * words.toNat - 1) (by omega)
      exact .inr (by omega)
  · rintro (rfl | ⟨hStart, hEnd⟩) j hj
    · exact absurd hj (Nat.not_lt_zero j)
    · omega

theorem Op.Idle.staysInDdr {e : Op} (h : e.Idle) : e.StaysInDdr f words := by
  cases e <;> trivial

theorem Op.Checks.staysInDdr {e : Op} (h : e.Checks) : e.StaysInDdr f words := by
  cases e with
  | moveImage source destination bytes => cases destination <;> trivial
  | _ => trivial

end Ranges

/-! ## The condition is enough -/

section Stays

variable {f : Setup} {imageStartAddress : U32} {h : PartHeader} {w : Walk} {fl : Flags}
  {words : U32} {L : List Event}

theorem require_stays (status : Status) (code : FailCode) :
    Only (Op.StaysInDdr f words) (require status code) :=
  require_only (fun _ => trivial) trivial status code

theorem partitionMove_stays
    (hCopied : f.linearBootDeviceFlag = false → Fits f (destination f fl h.loadAddr)
      (transfer f imageStartAddress h fl).imageWordLen)
    (hTransferred : usesPcap f fl (transfer f imageStartAddress h fl) = true →
      Fits f (destination f fl h.loadAddr) (transfer f imageStartAddress h fl).dataWordLen) :
    Only (Op.StaysInDdr f (transfer f imageStartAddress h fl).imageWordLen)
      (partitionMove f imageStartAddress h fl) := by
  apply Only.bind_returns
  · refine only_ite (fun _ => trivial) fun hLinear => ⟨?_, fun _ => trivial⟩
    exact ⟨rfl, inDdr_iff.mpr (hCopied (eq_false_of_ne_true hLinear))⟩
  rintro L (_ | t) hMove
  · trivial
  obtain ⟨-, rfl⟩ := moveStep_returns.mp hMove
  apply Only.bind
  · refine only_ite (fun hPcap => ⟨?_, fun _ => trivial⟩) fun _ => trivial
    rw [usesPcap_cpuMoved] at hPcap
    change InDdr f (destination f fl _) (4 * BitVec.toNat _)
    rw [destination_cpuMoved, cpuMoved_dataWordLen]
    exact inDdr_iff.mpr (hTransferred hPcap)
  · rintro (_ | t)
    · trivial
    · exact only_ite (fun _ => ⟨trivial, fun _ => trivial⟩) fun _ => trivial

theorem authenticateStep_supported {startAddr : U32}
    (hRun : Returns (authenticateStep f startAddr h fl) L ())
    (hSigned : fl.signedPartitionFlag = true) : f.rsaSupport = true := by
  rw [authenticateStep, if_pos hSigned] at hRun
  split at hRun
  · assumption
  · exact (fallback_not_returns hRun).elim

theorem checkPartition_stays {startAddr : U32} (hDdr : f.ddr = true)
    (hDecrypted : fl.whole = true → fl.encryptedPartitionFlag = true →
      fl.psPartitionFlag = true → (fl.signedPartitionFlag = true → f.rsaSupport = true) →
      Fits f (destination f fl h.loadAddr) h.dataWordLen) :
    Only (Op.StaysInDdr f words) (checkPartition f imageStartAddress startAddr h fl) := by
  refine only_ite (fun hWhole => ?_) fun _ => trivial
  refine Only.bind ((checksumStep_only _ _).mono fun _ => Op.Checks.staysInDdr) fun _ => ?_
  apply Only.bind_returns ((authenticateStep_only _).mono fun _ => Op.Checks.staysInDdr)
  intro L _ hSign
  apply Only.bind
  · refine only_ite (fun hDecrypts => ⟨?_, fun _ => require_stays _ _⟩) fun _ => trivial
    rw [Bool.and_eq_true] at hDecrypts
    have hAddr : checkedAddr f startAddr h fl = destination f fl h.loadAddr := if_pos hDdr
    change InDdr f (checkedAddr f startAddr h fl) _
    rw [hAddr]
    exact inDdr_iff.mpr (hDecrypted hWhole hDecrypts.1 hDecrypts.2
      (authenticateStep_supported hSign))
  · exact fun _ => only_ite (fun _ => ⟨trivial, fun _ => require_stays _ _⟩) fun _ => trivial

theorem loadFlags_whole : (loadFlags f h w).toFlags.whole = checked f h := rfl

theorem transfer_imageWordLen :
    (transfer f imageStartAddress h (loadFlags f h w).toFlags).imageWordLen =
      movedImageWords f h := rfl

theorem LoadsFit.stays (hDdr : f.ddr = true)
    (hFit : LoadsFit f imageStartAddress h (loadFlags f h w).toFlags) :
    Only (Op.StaysInDdr f (movedImageWords f h))
      (handlePartition f imageStartAddress h (loadFlags f h w)) := by
  have hMove : Only (Op.StaysInDdr f (transfer f imageStartAddress h
      (loadFlags f h w).toFlags).imageWordLen)
      (partitionMove f imageStartAddress h (loadFlags f h w).toFlags) :=
    partitionMove_stays hFit.copied hFit.transferred
  rw [transfer_imageWordLen] at hMove
  rw [handlePartition]
  simp only [latchExecAddr_toFlags]
  refine Only.bind ((beforeHook_only _).mono fun _ => Op.Idle.staysInDdr) fun _ => ?_
  apply Only.bind
  · rw [placePartition, if_pos hDdr]
    exact Only.bind hMove fun _ => require_stays _ _
  intro _
  apply Only.bind
  · refine checkPartition_stays hDdr fun hWhole hEncrypted hPs hSupported => ?_
    exact hFit.decrypted hPs (of_decide_eq_true hEncrypted) hWhole
      fun hSigned => hSupported (decide_eq_true hSigned)
  · exact fun _ => Only.bind ((afterHook_only _).mono fun _ => Op.Idle.staysInDdr) fun _ => trivial

end Stays

/-! ## The condition is needed -/

section Needed

variable {f : Setup} {imageStartAddress : U32} {h : PartHeader} {w : Walk} {fl : Flags}
  {words : U32}

theorem stays_moveEvents (hDdr : f.ddr = true)
    (hStays : Only (Op.StaysInDdr f words) (handlePartition f imageStartAddress h w)) :
    ∀ event ∈ moveEvents f imageStartAddress h w.toFlags, event.1.StaysInDdr f words := by
  obtain ⟨before, hBefore⟩ := beforeHook_passes w.toFlags
  have hPlaced : Returns (placePartition f imageStartAddress h w.toFlags) _ () :=
    (placePartition_returns (.inl hDdr)).mpr rfl
  rw [handlePartition] at hStays
  simp only [latchExecAddr_toFlags] at hStays
  have hCalls := (hStays.steps (hBefore.bind (hPlaced.bind (.refl _)))).1
  intro event hMem
  apply hCalls event
  rw [List.append_nil, recordEvents, if_pos hDdr]
  exact List.mem_append_right _ hMem

theorem stays_useEvents (hDdr : f.ddr = true)
    (hSupported : w.signedPartitionFlag = true → f.rsaSupport = true)
    (hStays : Only (Op.StaysInDdr f words) (handlePartition f imageStartAddress h w)) :
    ∀ event ∈ useEvents f (partitionStartAddr f imageStartAddress h) h w.toFlags,
      event.1.StaysInDdr f words := by
  obtain ⟨L, hRun⟩ := handlePartition_passes (.inl hDdr) hSupported imageStartAddress
  obtain ⟨-, before, placing, checking, after, rfl, -, -, hChecking, -⟩ :=
    handlePartition_returns hRun
  obtain ⟨quiet, -, rfl⟩ := checkPartition_returns hChecking
  have hCalls := (hStays.steps hRun).1
  exact fun event hMem => hCalls event (by simp [hMem])

theorem loadsFit_of_stays (hDdr : f.ddr = true)
    (hStays : Only (Op.StaysInDdr f (movedImageWords f h))
      (handlePartition f imageStartAddress h (loadFlags f h w))) :
    LoadsFit f imageStartAddress h (loadFlags f h w).toFlags := by
  have hMoves := stays_moveEvents hDdr hStays
  constructor
  · intro hLinear
    have hCopy := hMoves _ (List.mem_append_left _ (by
      rw [cpuEvents, hLinear]
      exact List.mem_singleton_self _))
    exact inDdr_iff.mp hCopy.2
  · intro hUses
    have hTransfer := hMoves _ (List.mem_append_right _ (List.mem_append_left _ (by
      rw [pcapEvents, usesPcap_cpuMoved, if_pos hUses]
      exact List.mem_singleton_self _)))
    change InDdr f (destination f _ _) (4 * BitVec.toNat _) at hTransfer
    rw [destination_cpuMoved, cpuMoved_dataWordLen] at hTransfer
    exact inDdr_iff.mp hTransfer
  · intro hPs hEncrypted hChecked hSupported
    have hUse := stays_useEvents hDdr (fun hSigned => hSupported (of_decide_eq_true hSigned)) hStays
    rw [useEvents, loadFlags_whole, if_pos hChecked, decryptEvents] at hUse
    have hOn : ((loadFlags f h w).encryptedPartitionFlag && (loadFlags f h w).psPartitionFlag) =
        true := by
      rw [hPs, Bool.and_true]
      exact decide_eq_true hEncrypted
    rw [if_pos hOn] at hUse
    have hAddr : checkedAddr f (partitionStartAddr f imageStartAddress h) h
        (loadFlags f h w).toFlags = destination f (loadFlags f h w).toFlags h.loadAddr :=
      if_pos hDdr
    have hDecrypt := hUse _ (List.mem_append_left _ (List.mem_singleton_self _))
    rw [hAddr] at hDecrypt
    exact inDdr_iff.mp hDecrypt

theorem checkLoadAddr_passed (hLow : w.psPartitionFlag = true → f.ddrStartAddr ≤ h.loadAddr)
    (hHigh : w.psPartitionFlag = true → h.loadAddr ≤ f.ddrEndAddr) :
    checkLoadAddr f imageStartAddress h w = handlePartition f imageStartAddress h w := by
  rw [checkLoadAddr]
  cases hPs : w.psPartitionFlag with
  | true =>
    have hAbove := hLow hPs
    have hBelow := hHigh hPs
    rw [← BitVec.not_lt] at hAbove hBelow
    simp [hAbove, hBelow]
  | false => simp

theorem stays_in_ddr_iff (hDdr : f.ddr = true)
    (hLow : (loadFlags f h w).psPartitionFlag = true → f.ddrStartAddr ≤ h.loadAddr)
    (hHigh : (loadFlags f h w).psPartitionFlag = true → h.loadAddr ≤ f.ddrEndAddr) :
    Only (Op.StaysInDdr f (movedImageWords f h))
        (checkLoadAddr f imageStartAddress h (loadFlags f h w)) ↔
      LoadsFit f imageStartAddress h (loadFlags f h w).toFlags := by
  rw [checkLoadAddr_passed hLow hHigh]
  exact ⟨loadsFit_of_stays hDdr, LoadsFit.stays hDdr⟩

theorem stays_in_ddr_bench :
    Only (Op.StaysInDdr bench (movedImageWords bench benchApplication))
      (checkLoadAddr bench 0 benchApplication (loadFlags bench benchApplication initialWalk)) :=
  (stays_in_ddr_iff rfl (by decide) (by decide)).mpr
    ⟨fun _ => .inr (by decide), fun _ => .inr (by decide), fun _ _ _ _ => .inr (by decide)⟩

/-- Eight words at the end of the DDR. -/
def lastApplication : PartHeader := benchHeader 8 8 8 0x3FFFFFF0 0x10

theorem leaves_ddr : ¬ ∀ (f : Setup) (imageStartAddress : U32) (h : PartHeader) (w : Walk),
    f.ddr = true → validateHeader h = .success →
      ((loadFlags f h w).psPartitionFlag = true → f.ddrStartAddr ≤ h.loadAddr) →
      ((loadFlags f h w).psPartitionFlag = true → h.loadAddr ≤ f.ddrEndAddr) →
      Only (Op.StaysInDdr f (movedImageWords f h))
        (checkLoadAddr f imageStartAddress h (loadFlags f h w)) := by
  intro hStays
  have hLow : (loadFlags bench lastApplication initialWalk).psPartitionFlag = true →
      bench.ddrStartAddr ≤ lastApplication.loadAddr := by decide
  have hHigh : (loadFlags bench lastApplication initialWalk).psPartitionFlag = true →
      lastApplication.loadAddr ≤ bench.ddrEndAddr := by decide
  have hLast := hStays bench 0 lastApplication initialWalk rfl (by decide) hLow hHigh
  rw [checkLoadAddr_passed hLow hHigh] at hLast
  obtain hNone | ⟨-, hEnd⟩ := (loadsFit_of_stays rfl hLast).copied rfl
  · exact absurd hNone (by decide)
  · exact absurd hEnd (by decide)

end Needed

end SoftwarePrototypes.Fsbl
