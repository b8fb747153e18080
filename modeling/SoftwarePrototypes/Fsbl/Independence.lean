import SoftwarePrototypes.Fsbl.Bench
import SoftwarePrototypes.Fsbl.TypeFlags

/-! # What a partition inherits from those before it

The flags for encryption, checksum and signature are set anew for each partition. The partition
type is not, so a partition without an image bit has that of the last one with an image bit.
-/

namespace SoftwarePrototypes.Fsbl

open Interaction Interaction.Prog

section Independence

variable (f : Setup) (imageStartAddress : U32)

/-- A run of `LoadBootImage` has come to the load-address check of a partition. -/
structure AtLoadCheck (table : Table) (V : List Visit) (num : Nat) (w : Walk) : Prop where
  start : ∃ L, Returns (prepareWalk f) L (some (imageStartAddress, table))
  tour : Toured f imageStartAddress table V num w
  more : num < table.partitionCount
  valid : validateHeader (table.partitionHeader num) = .success
  owned : ownedByFsbl f (table.partitionHeader num) = true
  entry : ∃ reset enc, Entry f (table.partitionHeader num) w reset enc

def Step.goesOn : Step → Bool
  | .next _ => true
  | .stop _ => false

/-- All that is done from the load-address check on: the calls, on any answers, and whether the
walk goes on. -/
def handling (h : PartHeader) (w : Walk) : Loader Bool := do
  let step ← checkLoadAddr f imageStartAddress h (loadFlags f h w)
  pure step.goesOn

/-- The partition has the same type in both, and the same is done for it. -/
structure HandledAlike (h : PartHeader) (w : Walk) (h' : PartHeader) (w' : Walk) : Prop where
  pl : (loadFlags f h w).plPartitionFlag = (loadFlags f h' w').plPartitionFlag
  ps : (loadFlags f h w).psPartitionFlag = (loadFlags f h' w').psPartitionFlag
  calls : handling f imageStartAddress h w = handling f imageStartAddress h' w'

/-- The type that the partitions so far leave: PL or not, if one of them has a type. -/
def leftType (V : List Visit) : Option Bool := (lastTyped f V).map (Visit.leavesPl f)

variable {f imageStartAddress} {h : PartHeader} {w w' : Walk} {V V' : List Visit}

/-- The flags that the handling of a partition looks at. -/
structure SameFlags (fl fl' : Flags) : Prop where
  encrypted : fl.encryptedPartitionFlag = fl'.encryptedPartitionFlag
  pl : fl.plPartitionFlag = fl'.plPartitionFlag
  ps : fl.psPartitionFlag = fl'.psPartitionFlag
  signed : fl.signedPartitionFlag = fl'.signedPartitionFlag
  checksum : fl.partitionChecksumFlag = fl'.partitionChecksumFlag

theorem SameFlags.eq {fl fl' : Flags} (hSame : SameFlags fl fl') : fl' =
    { fl with bitstreamFlag := fl'.bitstreamFlag, applicationFlag := fl'.applicationFlag } := by
  obtain ⟨hEncrypted, hPl, hPs, hSigned, hChecksum⟩ := hSame
  cases fl'
  simp_all

theorem handlePartition_congr (hSame : SameFlags w.toFlags w'.toFlags) :
    (handlePartition f imageStartAddress h w >>= fun step => pure step.goesOn) =
      handlePartition f imageStartAddress h w' >>= fun step => pure step.goesOn := by
  have hBefore : beforeHook w'.toFlags = beforeHook w.toFlags := by
    rw [hSame.eq]
    rfl
  have hPlace : placePartition f imageStartAddress h w'.toFlags =
      placePartition f imageStartAddress h w.toFlags := by
    rw [hSame.eq]
    rfl
  have hCheck : ∀ startAddr, checkPartition f imageStartAddress startAddr h w'.toFlags =
      checkPartition f imageStartAddress startAddr h w.toFlags := by
    intro startAddr
    rw [hSame.eq]
    rfl
  have hAfter : afterHook w'.toFlags = afterHook w.toFlags := by
    rw [hSame.eq]
    rfl
  simp only [handlePartition, latchExecAddr_toFlags, bind_assoc, hBefore, hPlace, hCheck, hAfter,
    pure_eq, ret_bind, Step.goesOn]

theorem checkLoadAddr_congr (hSame : SameFlags w.toFlags w'.toFlags) :
    (checkLoadAddr f imageStartAddress h w >>= fun step => pure step.goesOn) =
      checkLoadAddr f imageStartAddress h w' >>= fun step => pure step.goesOn := by
  unfold checkLoadAddr
  rw [← hSame.ps, ← hSame.signed, ← hSame.encrypted]
  split
  · split
    · rfl
    · rfl
  split
  · rfl
  · exact handlePartition_congr hSame

theorem handledAlike_of_type
    (hPl : (loadFlags f h w).plPartitionFlag = (loadFlags f h w').plPartitionFlag)
    (hPs : (loadFlags f h w).psPartitionFlag = (loadFlags f h w').psPartitionFlag) :
    HandledAlike f imageStartAddress h w h w' :=
  ⟨hPl, hPs, checkLoadAddr_congr ⟨rfl, hPl, hPs, rfl, rfl⟩⟩

theorem leftType_eq_iff (hFlags : FlagsAt f V w) (hFlags' : FlagsAt f V' w') :
    leftType f V = leftType f V' ↔
      w.plPartitionFlag = w'.plPartitionFlag ∧ w.psPartitionFlag = w'.psPartitionFlag := by
  rw [hFlags.pl, hFlags.ps, hFlags'.pl, hFlags'.ps, leftType, leftType]
  cases lastTyped f V with
  | none =>
    cases lastTyped f V' with
    | none => simp
    | some v' => cases hLeaves : v'.leavesPl f <;> simp [hLeaves]
  | some v =>
    cases lastTyped f V' with
    | none => cases hLeaves : v.leavesPl f <;> simp [hLeaves]
    | some v' =>
      cases hLeaves : v.leavesPl f <;> cases hLeaves' : v'.leavesPl f <;> simp [hLeaves, hLeaves']

/-- Partitions with the same header are handled alike exactly when the header has an image bit or
the partitions before them leave the same type. -/
theorem handledAlike_iff {table table' : Table} {num num' : Nat}
    (hAt : AtLoadCheck f imageStartAddress table V num w)
    (hAt' : AtLoadCheck f imageStartAddress table' V' num' w')
    (hSame : table.partitionHeader num = table'.partitionHeader num') :
    HandledAlike f imageStartAddress (table.partitionHeader num) w
        (table'.partitionHeader num') w' ↔
      hasPlImage f (table.partitionHeader num) = true ∨
      hasPsImage f (table.partitionHeader num) = true ∨ leftType f V = leftType f V' := by
  rw [← hSame, leftType_eq_iff (toured_flagsAt hAt.tour) (toured_flagsAt hAt'.tour)]
  generalize table.partitionHeader num = h
  constructor
  · intro hAlike
    have hPl := hAlike.pl
    have hPs := hAlike.ps
    rw [loadFlags_pl, loadFlags_pl] at hPl
    rw [loadFlags_ps, loadFlags_ps] at hPs
    cases hPlBit : hasPlImage f h with
    | true => exact .inl rfl
    | false =>
      cases hPsBit : hasPsImage f h with
      | true => exact .inr (.inl rfl)
      | false =>
        rw [hPlBit, hPsBit] at hPl hPs
        exact .inr (.inr ⟨hPl, hPs⟩)
  · intro hTyped
    apply handledAlike_of_type
    · rw [loadFlags_pl, loadFlags_pl]
      obtain hBit | hBit | ⟨hPl, _⟩ := hTyped
      · rw [hBit, Bool.true_or, Bool.true_or]
      · rw [hBit, Bool.not_true, Bool.false_and, Bool.false_and]
      · rw [hPl]
    · rw [loadFlags_ps, loadFlags_ps]
      obtain hBit | hBit | ⟨_, hPs⟩ := hTyped
      · rw [hBit, Bool.not_true, Bool.false_and, Bool.false_and]
      · rw [hBit, Bool.true_or, Bool.true_or]
      · rw [hPs]

end Independence

/-! ## Second partitions on the bench -/

section Second

def pairTable (first second : PartHeader) : Table := ⟨benchImage [first, second], 3, 0⟩

def pairAnswer (first second : PartHeader) : (e : Op) → Option (Answer e) :=
  deviceAnswer (benchImage [first, second]) (reasonRegister 0)

theorem second_atLoadCheck (first second : PartHeader) {w : Walk}
    (hStart : (play (pairAnswer first second) 20 (prepareWalk bench)).2.returned =
      some (some (0, pairTable first second)))
    (hFirst : (play (pairAnswer first second) 20 (partition bench 0 first initialWalk)).2.returned =
      some (.next w))
    (hValid : validateHeader second = .success) (hOwned : ownedByFsbl bench second = true)
    (hPlain : hasPlImage bench second = false)
    (hEnc : (play (pairAnswer first second) 2
      (encOnlyStep bench (loadFlags bench second w).toFlags)).2.returned = some ()) :
    ∃ V, AtLoadCheck bench 0 (pairTable first second) V 2 w := by
  obtain ⟨hFirstValid, calls, -, hVisit⟩ := partition_returns (returns_play hFirst)
  have hCount : 2 < (pairTable first second).partitionCount := Nat.lt_succ_self 2
  have hTour : Toured bench 0 (pairTable first second) [⟨first, calls⟩] 2 w :=
    .visit .start (Nat.lt_of_succ_lt hCount) hFirstValid hVisit
  have hNotPl : ¬ hasPlImage bench second = true := by
    rw [hPlain]
    exact Bool.false_ne_true
  have hEntry : Entry bench second w [] _ :=
    ⟨fun hPl => absurd hPl hNotPl, fun hPl => absurd hPl hNotPl, fun _ => rfl, returns_play hEnc⟩
  exact ⟨_, ⟨_, returns_play hStart⟩, hTour, hCount, hValid, hOwned, [], _, hEntry⟩

theorem handledAlike_iff_bench : ∃ w w',
    HandledAlike bench 0 benchApplication w benchApplication w' ∧
      w.plPartitionFlag ≠ w'.plPartitionFlag := by
  obtain ⟨V, hAt⟩ := second_atLoadCheck benchBitstream benchApplication rfl rfl rfl rfl rfl rfl
  obtain ⟨V', hAt'⟩ := second_atLoadCheck benchApplication benchApplication rfl rfl rfl rfl rfl rfl
  exact ⟨_, _, (handledAlike_iff hAt hAt' rfl).mpr (.inr (.inl rfl)), by decide⟩

/-- After a bitstream an untyped partition is a bitstream, after an application it is none. -/
theorem handled_differently : ¬ ∀ (f : Setup) (imageStartAddress : U32) (table table' : Table)
    (V V' : List Visit) (num num' : Nat) (w w' : Walk),
    AtLoadCheck f imageStartAddress table V num w →
    AtLoadCheck f imageStartAddress table' V' num' w' →
    table.partitionHeader num = table'.partitionHeader num' →
    HandledAlike f imageStartAddress (table.partitionHeader num) w
      (table'.partitionHeader num') w' := by
  intro hAll
  obtain ⟨V, hAt⟩ := second_atLoadCheck benchBitstream benchUntyped rfl rfl rfl rfl rfl rfl
  obtain ⟨V', hAt'⟩ := second_atLoadCheck benchApplication benchUntyped rfl rfl rfl rfl rfl rfl
  have hFalse : true = false := (hAll _ _ _ _ _ _ _ _ _ _ hAt hAt' rfl).pl
  cases hFalse

end Second

end SoftwarePrototypes.Fsbl
