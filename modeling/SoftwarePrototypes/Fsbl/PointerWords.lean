import Mathlib.Data.List.Basic
import SoftwarePrototypes.Fsbl.HandoffAddress

/-! # What the walk writes without DDR

Once a PS partition has been handled, every partition that the boot loader owns is handled as one.
Its visit stores two pointer words for the second boot loader, as its addresses ask for, and moves
data to its load address; a partition that is both encrypted and checked is decrypted where it is
checked.
-/

namespace SoftwarePrototypes.Fsbl

open Interaction Interaction.Prog

section Writes

/-- The words that a trace stores, the earliest first. -/
def storeOf : Event → Option (U32 × U32)
  | ⟨.xilOut32 addr value, _⟩ => some (addr, value)
  | _ => none

def storesOf (L : List Event) : List (U32 × U32) := L.filterMap storeOf

theorem storesOf_cons (event : Event) (L : List Event) :
    storesOf (event :: L) = (storeOf event).toList ++ storesOf L := by
  rw [storesOf, List.filterMap_cons]
  cases storeOf event <;> rfl

/-- Where a call moves data to. -/
def Op.writes : Op → Range
  | .moveImage _ (.address addr) bytes => ⟨addr, bytes.toNat⟩
  | .pcapDataTransfer _ destination _ dataWordLen _ => ⟨destination, 4 * dataWordLen.toNat⟩
  | _ => ⟨0, 0⟩

/-- The calls that move no data and store no word. -/
def Op.Still : Op → Prop
  | .xilOut32 _ _ | .moveImage _ (.address _) _ | .pcapDataTransfer _ _ _ _ _ => False
  | _ => True

theorem Op.Idle.still {e : Op} (h : e.Idle) : e.Still := by
  cases e <;> trivial

theorem Op.Checks.still {e : Op} (h : e.Checks) : e.Still := by
  cases e with
  | moveImage source destination bytes => cases destination <;> trivial
  | _ => trivial

theorem Op.Still.writes_empty {e : Op} (h : e.Still) (a : U32) : a ∉ e.writes.addresses := by
  apply Range.addresses_of_empty
  cases e with
  | moveImage source destination bytes => cases destination <;> first | rfl | exact h.elim
  | _ => first | rfl | exact h.elim

theorem Op.Still.storeOf_none {event : Event} (h : event.1.Still) : storeOf event = none := by
  obtain ⟨e, answer⟩ := event
  cases e <;> first | rfl | exact h.elim

/-- What the stores of a trace are, and that it moves data into a set of addresses only. -/
structure Writes (L : List Event) (stores : List (U32 × U32)) (S : Set U32) : Prop where
  stores : storesOf L = stores
  moves : ∀ event ∈ L, ∀ a ∈ event.1.writes.addresses, a ∈ S

variable {L M : List Event} {stores stores' : List (U32 × U32)} {S T : Set U32}

theorem Writes.append (hFirst : Writes L stores S) (hRest : Writes M stores' S) :
    Writes (L ++ M) (stores ++ stores') S := by
  constructor
  · rw [storesOf, List.filterMap_append, ← storesOf, ← storesOf, hFirst.stores, hRest.stores]
  · intro event hMem
    obtain hMem | hMem := List.mem_append.mp hMem
    · exact hFirst.moves event hMem
    · exact hRest.moves event hMem

theorem Writes.mono (hWrites : Writes L stores S) (hSub : S ⊆ T) : Writes L stores T :=
  ⟨hWrites.stores, fun event hMem a ha => hSub (hWrites.moves event hMem a ha)⟩

theorem writes_nil : Writes [] [] S := ⟨rfl, fun _ hMem => nomatch hMem⟩

theorem writes_still (h : ∀ event ∈ L, event.1.Still) : Writes L [] S := by
  constructor
  · rw [storesOf, List.filterMap_eq_nil_iff]
    exact fun event hMem => (h event hMem).storeOf_none
  · exact fun event hMem a ha => absurd ha ((h event hMem).writes_empty a)

theorem writes_only {α : Type} {p q : Loader α} (hOnly : Only Op.Still p) (hRun : Steps p L q) :
    Writes L [] S :=
  writes_still (hOnly.steps hRun).1

end Writes

/-! ## One partition -/

section Partition

variable (f : Setup) (imageStartAddress : U32)

def checked (h : PartHeader) : Bool := decide (signed f h) || decide (checksummed f h)

def movedImageWords (h : PartHeader) : U32 :=
  if checked f h then h.partitionWordLen else h.imageWordLen

def movedDataWords (h : PartHeader) : U32 :=
  if checked f h then h.partitionWordLen else h.dataWordLen

/-- The bytes moved to the load address of a PS partition. From a device that is not linear an
encrypted partition is copied there and decrypted in place. -/
def movedBytes (h : PartHeader) : Nat :=
  if f.linearBootDeviceFlag then 4 * (movedDataWords f h).toNat
  else max (movedImageWords f h <<< 2).toNat
    (if decide (encrypted h) && !checked f h then 4 * (movedDataWords f h).toNat else 0)

def movedRange (h : PartHeader) : Range := ⟨h.loadAddr, movedBytes f h⟩

/-- The addresses that data is moved to for a PS partition. -/
def touched (h : PartHeader) : Set U32 :=
  {a | ownedByFsbl f h = true ∧ ((movedAsPs f h = true ∧ a ∈ (movedRange f h).addresses) ∨
    (encrypted h ∧ checked f h = true ∧ a ∈
      (Range.mk (partitionStartAddr f imageStartAddress h) (4 * h.dataWordLen.toNat)).addresses))}

def recordsHandoff (h : PartHeader) : Bool := ownedByFsbl f h && inQspiFlash f h.execAddr

def recordsData (h : PartHeader) : Bool :=
  ownedByFsbl f h && (0xFFFC0000 ≤ h.loadAddr && h.loadAddr < 0xFFFF0000)

/-- The pointer words stored for a PS partition. -/
def recordedWords (h : PartHeader) : List (U32 × U32) :=
  (if recordsHandoff f h then [(0xFFFF0004, partitionStartAddr f imageStartAddress h)] else []) ++
    (if recordsData f h then [(0xFFFF0000, partitionStartAddr f imageStartAddress h)] else [])

variable {f imageStartAddress} {h : PartHeader} {fl : Flags} {L : List Event}

theorem PsFlags.whole (hFlags : PsFlags f h fl) : fl.whole = checked f h := by
  have hSigned : fl.signedPartitionFlag = decide (signed f h) :=
    Bool.eq_iff_iff.mpr (hFlags.signature.trans decide_eq_true_iff.symm)
  have hSum : fl.partitionChecksumFlag = decide (checksummed f h) :=
    Bool.eq_iff_iff.mpr (hFlags.checksum.trans decide_eq_true_iff.symm)
  rw [Flags.whole, hSigned, hSum, checked]

theorem moveStep_writes (hPl : fl.plPartitionFlag = false) {t t' : Transfer}
    (hRun : Returns (moveStep f fl t) L (some t')) :
    Writes L [] {a | f.linearBootDeviceFlag = false ∧
      a ∈ (Range.mk t.loadAddr (t.imageWordLen <<< 2).toNat).addresses} := by
  rw [moveStep, hPl] at hRun
  split at hRun
  · obtain ⟨rfl, -⟩ := returns_ret.mp hRun
    exact writes_nil
  · rename_i hLinear
    rw [Bool.not_eq_true] at hLinear
    obtain ⟨answer, M, rfl, hRest⟩ := returns_ask_bind hRun
    obtain ⟨rfl, -⟩ := returns_ret.mp hRest
    refine ⟨rfl, ?_⟩
    rintro event hMem a ha
    rw [List.mem_singleton] at hMem
    subst hMem
    exact ⟨hLinear, ha⟩

theorem pcapStep_writes (hPl : fl.plPartitionFlag = false) {t t' : Transfer}
    (hRun : Returns (pcapStep f fl t) L (some t')) :
    Writes L [] {a | (f.linearBootDeviceFlag = true ∨ t.secureTransferFlag = true) ∧
      a ∈ (Range.mk t.loadAddr (4 * t.dataWordLen.toNat)).addresses} := by
  rw [pcapStep, hPl] at hRun
  split at hRun
  · rename_i hUses
    have hWhen : f.linearBootDeviceFlag = true ∨ t.secureTransferFlag = true := by
      cases hLinear : f.linearBootDeviceFlag with
      | true => exact .inl rfl
      | false =>
        simp [usesPcap, hLinear] at hUses
        exact .inr hUses.2
    obtain ⟨status, M, rfl, hRest⟩ := returns_ask_bind hRun
    obtain ⟨rfl, -⟩ := returns_ret.mp hRest
    refine ⟨rfl, ?_⟩
    rintro event hMem a ha
    rw [List.mem_singleton] at hMem
    subst hMem
    exact ⟨hWhen, ha⟩
  · obtain ⟨rfl, -⟩ := returns_ret.mp hRun
    exact writes_nil

theorem transfer_image (hFlags : PsFlags f h fl) :
    (transfer f imageStartAddress h fl).imageWordLen = movedImageWords f h := by
  rw [transfer, movedImageWords, hFlags.whole]

theorem transfer_data (hFlags : PsFlags f h fl) :
    (transfer f imageStartAddress h fl).dataWordLen = movedDataWords f h := by
  rw [transfer, movedDataWords, hFlags.whole]

theorem transfer_secure (hFlags : PsFlags f h fl) :
    (transfer f imageStartAddress h fl).secureTransferFlag =
      (decide (encrypted h) && !checked f h) := by
  have hEncrypted : fl.encryptedPartitionFlag = decide (encrypted h) :=
    Bool.eq_iff_iff.mpr (hFlags.encrypted.trans decide_eq_true_iff.symm)
  rw [transfer, hFlags.ps, hFlags.whole, hEncrypted, Bool.true_and]

theorem partitionMove_writes (hFlags : PsFlags f h fl)
    (hRun : Returns (partitionMove f imageStartAddress h fl) L .success) :
    Writes L [] (movedRange f h).addresses := by
  obtain ⟨t, M, N, rfl, hMove, hRest⟩ := returns_bind hRun
  cases t with
  | none => cases (returns_ret.mp hRest).2
  | some t =>
    obtain ⟨-, hLoad, -, hData, hSecure⟩ := moveStep_ps hFlags.pl hMove
    obtain ⟨t', N₁, N₂, rfl, hPcap, hLast⟩ := returns_bind hRest
    cases t' with
    | none => cases (returns_ret.mp hLast).2
    | some t' =>
      simp only [bitstreamStep, hFlags.pl, Bool.false_and, Bool.false_eq_true, if_false] at hLast
      obtain ⟨rfl, -⟩ := returns_ret.mp hLast
      rw [List.append_nil, ← List.append_nil ([] : List (U32 × U32))]
      apply Writes.append
      · apply (moveStep_writes hFlags.pl hMove).mono
        rintro a ⟨hLinear, ha⟩
        rw [transfer_image hFlags] at ha
        apply Range.mono _ ha
        rw [movedBytes, hLinear, if_neg Bool.false_ne_true]
        exact Nat.le_max_left _ _
      · apply (pcapStep_writes hFlags.pl hPcap).mono
        rintro a ⟨hWhen, ha⟩
        rw [hLoad, hData, transfer_data hFlags] at ha
        rw [hSecure, transfer_secure hFlags] at hWhen
        apply Range.mono _ ha
        rw [movedBytes]
        split
        · exact Nat.le_refl _
        · rename_i hLinear
          rw [if_pos (hWhen.resolve_left hLinear)]
          exact Nat.le_max_right _ _

theorem writes_store {addr value : U32} {c : Bool} {S : Set U32}
    (hRun : Returns (if c then op (.xilOut32 addr value) else pure ()) L ()) :
    Writes L (if c then [(addr, value)] else []) S := by
  cases c with
  | true =>
    have hRun : Returns (ask (.xilOut32 addr value)) L () := hRun
    obtain rfl := returns_ask.mp hRun
    refine ⟨rfl, ?_⟩
    intro event hMem a ha
    rw [List.mem_singleton] at hMem
    subst hMem
    exact absurd ha (Range.addresses_of_empty rfl a)
  | false =>
    obtain ⟨rfl, -⟩ := returns_ret.mp hRun
    exact writes_nil

theorem placePartition_writes (hDdr : f.ddr = false) (hOwned : ownedByFsbl f h = true)
    (hFlags : PsFlags f h fl)
    (hRun : Returns (placePartition f imageStartAddress h fl) L ()) :
    Writes L (recordedWords f imageStartAddress h) (touched f imageStartAddress h) := by
  rw [placePartition, hDdr, if_neg Bool.false_ne_true] at hRun
  obtain ⟨_, M, _, rfl, hHandoff, hRest⟩ := returns_bind hRun
  obtain ⟨_, M', N, rfl, hData, hMove⟩ := returns_bind hRest
  rw [recordedWords, recordsHandoff, recordsData, hOwned, Bool.true_and, Bool.true_and]
  apply Writes.append
  · exact writes_store hHandoff
  rw [← List.append_nil (ite _ _ _)]
  apply Writes.append
  · rw [recordData, hFlags.ps, Bool.true_and] at hData
    exact writes_store hData
  · split at hMove
    · rename_i hMoved
      apply (partitionMove_writes hFlags (movePartition_returns hMove)).mono
      intro a ha
      refine ⟨hOwned, .inl ⟨?_, ha⟩⟩
      rw [movedAsPs, hDdr, Bool.false_or, ← hMoved, movedWithoutDdr, movedWithoutDdr, hFlags.pl]
      rfl
    · obtain ⟨rfl, -⟩ := returns_ret.mp hMove
      exact writes_nil

theorem checkPartition_writes (hDdr : f.ddr = false) (hOwned : ownedByFsbl f h = true)
    (hFlags : PsFlags f h fl) (hRun : Returns (checkPartition f imageStartAddress
      (partitionStartAddr f imageStartAddress h) h fl) L ()) :
    Writes L [] (touched f imageStartAddress h) := by
  rw [checkPartition] at hRun
  split at hRun
  · rename_i hWhole
    have hAddr : checkedAddr f (partitionStartAddr f imageStartAddress h) h fl =
        partitionStartAddr f imageStartAddress h := by
      rw [checkedAddr, hDdr]
      rfl
    simp only [hAddr] at hRun
    have hNil : ([] : List (U32 × U32)) = [] ++ ([] ++ ([] ++ [])) := rfl
    obtain ⟨_, M₁, _, rfl, hSum, hRest⟩ := returns_bind hRun
    obtain ⟨_, M₂, _, rfl, hSign, hRest⟩ := returns_bind hRest
    obtain ⟨_, M₃, M₄, rfl, hDecrypt, hLast⟩ := returns_bind hRest
    rw [hNil]
    apply Writes.append
    · exact writes_only ((checksumStep_only _ _).mono fun _ => Op.Checks.still) hSum
    apply Writes.append
    · exact writes_only ((authenticateStep_only _).mono fun _ => Op.Checks.still) hSign
    apply Writes.append
    · rw [decryptStep] at hDecrypt
      split at hDecrypt
      · rename_i hOn
        rw [Bool.and_eq_true] at hOn
        obtain ⟨status, -, rfl⟩ := returns_ask_require hDecrypt
        refine ⟨rfl, ?_⟩
        intro event hMem a ha
        rw [List.mem_singleton] at hMem
        subst hMem
        exact ⟨hOwned, .inr ⟨hFlags.encrypted.mp hOn.1, hFlags.whole ▸ hWhole, ha⟩⟩
      · obtain ⟨rfl, -⟩ := returns_ret.mp hDecrypt
        exact writes_nil
    · rw [downloadStep, hFlags.pl, if_neg Bool.false_ne_true] at hLast
      obtain ⟨rfl, -⟩ := returns_ret.mp hLast
      exact writes_nil
  · obtain ⟨rfl, -⟩ := returns_ret.mp hRun
    exact writes_nil

theorem handlePartition_writes {w : Walk} {step : Step} (hDdr : f.ddr = false)
    (hOwned : ownedByFsbl f h = true) (hFlags : PsFlags f h w.toFlags)
    (hRun : Returns (handlePartition f imageStartAddress h w) L step) :
    Writes L (recordedWords f imageStartAddress h) (touched f imageStartAddress h) := by
  obtain ⟨-, before, placing, checking, after, rfl, hBefore, hPlacing, hChecking, hAfter⟩ :=
    handlePartition_returns hRun
  rw [← List.nil_append (recordedWords f imageStartAddress h)]
  apply Writes.append
  · exact writes_only ((beforeHook_only _).mono fun _ => Op.Idle.still) hBefore
  rw [← List.append_nil (recordedWords f imageStartAddress h)]
  apply Writes.append
  · exact placePartition_writes hDdr hOwned hFlags hPlacing
  rw [← List.append_nil ([] : List (U32 × U32))]
  apply Writes.append
  · exact checkPartition_writes hDdr hOwned hFlags hChecking
  · exact writes_only ((afterHook_only _).mono fun _ => Op.Idle.still) hAfter

theorem words_of_other (hOther : ownedByFsbl f h = false) :
    recordedWords f imageStartAddress h = [] := by
  rw [recordedWords, recordsHandoff, recordsData, hOther]
  rfl

end Partition

/-! ## The walk -/

section Walk

variable (f : Setup) (imageStartAddress : U32) (table : Table)

def psPartition (h : PartHeader) : Bool := ownedByFsbl f h && hasPsImage f h

/-- All partitions of the table, the latest first. -/
def partitions : List PartHeader :=
  ((List.range' (firstPartition f) (table.partitionCount - firstPartition f)).map
    table.partitionHeader).reverse

/-- The visit of a PS partition that is not skipped after a watchdog reset. -/
def Visit.started (v : Visit) : Bool := psPartition f v.header && !v.skipped

/-- The visits but for the last one, if that is of a bitstream that ends the walk because it follows
a PS partition. -/
def walked : List Visit → List Visit
  | [] => []
  | v :: V => if V.any (Visit.started f) && (ownedByFsbl f v.header && hasPlImage f v.header) then V
    else v :: V

/-- The partitions visited from the first PS partition on, the latest first. -/
def psVisited : List Visit → List PartHeader
  | [] => []
  | v :: V => if (v :: V).any (Visit.started f) then v.header :: psVisited V else []

/-- The visits before the first PS partition. -/
def earlier : List Visit → List Visit
  | [] => []
  | v :: V => if (v :: V).any (Visit.started f) then earlier V else v :: V

/-- The visit writes what the visit of a PS partition writes. -/
def Visit.AsPs (v : Visit) : Prop :=
  Writes v.calls (recordedWords f imageStartAddress v.header) (touched f imageStartAddress v.header)

/-- From the first PS partition on, the visits are those of PS partitions. -/
def PsOnwards (V : List Visit) : Prop :=
  ∀ v U, v :: U <:+ V → (v :: U).any (Visit.started f) = true → v.AsPs f imageStartAddress

/-- From the first PS partition on, the flags are those of a PS partition. -/
structure WrittenAt (V : List Visit) (w : Walk) : Prop where
  application : w.applicationFlag = V.any (Visit.started f)
  flags : V.any (Visit.started f) = true → w.psPartitionFlag = true ∧ w.plPartitionFlag = false
  asPs : PsOnwards f imageStartAddress V

variable {f imageStartAddress table} {h : PartHeader} {w w' : Walk} {calls : List Event}
  {V : List Visit} {num : Nat}

theorem psFlags_of_load (hPl : (loadFlags f h w).plPartitionFlag = false)
    (hPs : (loadFlags f h w).psPartitionFlag = true) : PsFlags f h (loadFlags f h w).toFlags :=
  ⟨hPl, hPs, decide_eq_true_iff, decide_eq_true_iff, decide_eq_true_iff⟩

/-- One more visit after which the flags are those of a PS partition, if there has been one. -/
theorem WrittenAt.visit {v : Visit} (hWritten : WrittenAt f imageStartAddress V w)
    (hApp : w'.applicationFlag = (v :: V).any (Visit.started f))
    (hNew : (v :: V).any (Visit.started f) = true →
      (w'.psPartitionFlag = true ∧ w'.plPartitionFlag = false) ∧ v.AsPs f imageStartAddress) :
    WrittenAt f imageStartAddress (v :: V) w' := by
  constructor
  · exact hApp
  · exact fun hSome => (hNew hSome).1
  · intro u U hSuffix hSome
    obtain hHere | hBelow := List.suffix_cons_iff.mp hSuffix
    · cases hHere
      exact (hNew hSome).2
    · exact hWritten.asPs u U hBelow hSome

theorem loadFlags_started (hPs : hasPsImage f h = true ∨
      hasPlImage f h = false ∧ w.psPartitionFlag = true ∧ w.plPartitionFlag = false) :
    (loadFlags f h w).psPartitionFlag = true ∧ (loadFlags f h w).plPartitionFlag = false := by
  rw [loadFlags_ps, loadFlags_pl]
  obtain hPs | ⟨hPl, hStale, hNotPl⟩ := hPs
  · rw [hPs]
    exact ⟨rfl, rfl⟩
  · rw [hPl, hStale, hNotPl]
    cases hasPsImage f h <;> exact ⟨rfl, rfl⟩

theorem early_of_reset (hVisit : Visited f imageStartAddress h w calls (.next w'))
    (hReset : calls.any showsReset = true) : w.applicationFlag = false := by
  cases hVisit with
  | passedOver _ => cases hReset
  | skipped _ _ hEarly _ _ => exact hEarly
  | taken _ hEarly hPlain hLoad =>
    rw [taken_skipped hEarly hPlain hLoad] at hReset
    cases hReset

theorem Entry.writes {reset enc : List Event} {S : Set U32} (hEntry : Entry f h w reset enc) :
    Writes (reset ++ enc) [] S := by
  rw [← List.append_nil ([] : List (U32 × U32))]
  apply Writes.append
  · cases hPl : hasPlImage f h with
    | true =>
      exact writes_only ((watchdogReset_only f).mono fun _ => Op.Idle.still) (hEntry.cold hPl)
    | false =>
      rw [hEntry.plain hPl]
      exact writes_nil
  · have hOnly : Only Op.Still (encOnlyStep f (loadFlags f h w).toFlags) :=
      encOnlyStep_only f (fun _ => trivial) (fun _ => trivial) trivial _
    exact writes_only hOnly hEntry.encOnly

/-- A partition that is handled once there has been a PS partition. -/
theorem handled_asPs {reset enc rest : List Event} {step : Step} (hDdr : f.ddr = false)
    (hOwned : ownedByFsbl f h = true) (hEntry : Entry f h w reset enc)
    (hHandle : Returns (handlePartition f imageStartAddress h (loadFlags f h w)) rest step)
    (hFlags : PsFlags f h (loadFlags f h w).toFlags) :
    (Visit.mk h (reset ++ (enc ++ rest))).AsPs f imageStartAddress := by
  rw [Visit.AsPs, ← List.append_assoc, ← List.nil_append (recordedWords _ _ _)]
  exact hEntry.writes.append (handlePartition_writes hDdr hOwned hFlags hHandle)

theorem started_cons {v : Visit} (hWritten : WrittenAt f imageStartAddress V w) :
    (v :: V).any (Visit.started f) = (v.started f || w.applicationFlag) := by
  rw [List.any_cons, hWritten.application]

/-- A partition that is handled is a PS partition, or has the flags of one before it. -/
theorem WrittenAt.handled (hWritten : WrittenAt f imageStartAddress V w)
    (hDdr : f.ddr = false) (hOwned : ownedByFsbl f h = true) {reset enc rest : List Event}
    {step : Step} (hTaken : (reset ++ (enc ++ rest)).any showsReset = false)
    (hEntry : Entry f h w reset enc)
    (hHandle : Returns (handlePartition f imageStartAddress h (loadFlags f h w)) rest step) :
    WrittenAt f imageStartAddress (⟨h, reset ++ (enc ++ rest)⟩ :: V)
      (latchExecAddr h (loadFlags f h w)) := by
  have hStarted : (Visit.mk h (reset ++ (enc ++ rest))).started f = hasPsImage f h := by
    rw [Visit.started, psPartition, hOwned, Visit.skipped, hTaken, Bool.true_and, Bool.not_false,
      Bool.and_true]
  apply hWritten.visit
  · rw [latchExecAddr_toFlags, loadFlags_application, started_cons hWritten, hStarted]
  · intro hSome
    rw [started_cons hWritten, hStarted, Bool.or_eq_true] at hSome
    have hCase : hasPsImage f h = true ∨
        hasPlImage f h = false ∧ w.psPartitionFlag = true ∧ w.plPartitionFlag = false := by
      apply hSome.imp_right
      intro hApp
      refine ⟨?_, hWritten.flags (hWritten.application ▸ hApp)⟩
      rw [← Bool.not_eq_true]
      intro hPl
      rw [hEntry.early hPl] at hApp
      cases hApp
    obtain ⟨hPs, hPl⟩ := loadFlags_started hCase
    refine ⟨?_, handled_asPs hDdr hOwned hEntry hHandle (psFlags_of_load hPl hPs)⟩
    rw [latchExecAddr_toFlags]
    exact ⟨hPs, hPl⟩

theorem WrittenAt.next (hWritten : WrittenAt f imageStartAddress V w) (hDdr : f.ddr = false)
    (hVisit : Visited f imageStartAddress h w calls (.next w')) :
    WrittenAt f imageStartAddress (⟨h, calls⟩ :: V) w' := by
  have hEarly := early_of_reset hVisit
  obtain ⟨hOther, rfl, rfl⟩ | ⟨-, hPl, hReset, -, rfl⟩ |
    ⟨hOwned, hTaken, -, rfl, reset, enc, rest, rfl, hEntry, hHandle⟩ := visited_next hVisit
  · have hSame : (Visit.mk h [] :: V).any (Visit.started f) = V.any (Visit.started f) := by
      rw [List.any_cons, Visit.started, psPartition, hOther]
      rfl
    apply hWritten.visit
    · rw [hSame, hWritten.application]
    · intro hSome
      refine ⟨hWritten.flags (hSame ▸ hSome), ?_⟩
      rw [Visit.AsPs, words_of_other hOther]
      exact writes_nil
  · have hNone : (Visit.mk h calls :: V).any (Visit.started f) = false := by
      rw [started_cons hWritten, hEarly hReset, Visit.started, Visit.skipped, hReset,
        Bool.not_true, Bool.and_false]
      rfl
    apply hWritten.visit
    · rw [hNone, typeFlags_of_pl hPl]
      exact hEarly hReset
    · intro hSome
      rw [hNone] at hSome
      cases hSome
  · exact hWritten.handled hDdr hOwned hTaken hEntry hHandle

theorem toured_writtenAt (hDdr : f.ddr = false)
    (hTour : Toured f imageStartAddress table V num w) : WrittenAt f imageStartAddress V w := by
  induction hTour with
  | start =>
    constructor
    · rfl
    · exact nofun
    · intro v U hSuffix
      cases List.eq_nil_of_suffix_nil hSuffix
  | visit _ _ _ hVisit ih => exact ih.next hDdr hVisit

/-- A walk goes on after each of its visits but the last. -/
theorem toured_walked (hDdr : f.ddr = false)
    (hTour : Toured f imageStartAddress table V num w) : walked f V = V := by
  cases hTour with
  | start => rfl
  | visit hBefore _ _ hVisit =>
    have hWritten := toured_writtenAt hDdr hBefore
    rw [walked, if_neg]
    rw [← hWritten.application, Bool.and_eq_true, Bool.and_eq_true]
    rintro ⟨hApp, hOwned, hPl⟩
    have hEarly := early_of_reset hVisit
    obtain ⟨hOther, -, -⟩ | ⟨-, -, hReset, -, -⟩ | ⟨-, -, -, -, _, _, _, -, hEntry, -⟩ :=
      visited_next hVisit
    · rw [hOther] at hOwned
      cases hOwned
    · rw [hEarly hReset] at hApp
      cases hApp
    · rw [hEntry.early hPl] at hApp
      cases hApp

/-- Without DDR a walk visits the whole table, or ends at a bitstream without a call for it. -/
theorem ended_walked (hDdr : f.ddr = false) (hEnded : Ended f imageStartAddress table V w) :
    (walked f V = V ∨ ∃ h, V = ⟨h, []⟩ :: walked f V) ∧
      PsOnwards f imageStartAddress (walked f V) := by
  cases hEnded with
  | done hTour _ =>
    have hSame := toured_walked hDdr hTour
    rw [hSame]
    exact ⟨.inl rfl, (toured_writtenAt hDdr hTour).asPs⟩
  | stopped hTour _ _ hVisit =>
    have hWritten := toured_writtenAt hDdr hTour
    obtain ⟨hOwned, hPl, hLate, rfl, -⟩ | ⟨-, -, hLow, -⟩ := visited_stop hVisit
    · have hBefore : ∀ {v : Visit} {U : List Visit}, U.any (Visit.started f) = true →
          ownedByFsbl f v.header = true → hasPlImage f v.header = true →
            walked f (v :: U) = U := by
        intro v U hStarted hOwned hPl
        rw [walked, hStarted, hOwned, hPl]
        rfl
      rw [hBefore (hWritten.application ▸ hLate) hOwned hPl]
      exact ⟨.inr ⟨_, rfl⟩, hWritten.asPs⟩
    · rw [lowLoad, hDdr] at hLow
      cases hLow

/-! ### From the first PS partition on -/

theorem PsOnwards.below {v : Visit} (hPs : PsOnwards f imageStartAddress (v :: V)) :
    PsOnwards f imageStartAddress V :=
  fun u U hSuffix => hPs u U (hSuffix.trans (List.suffix_cons v V))

/-- The visits are those before the first PS partition and those that write as PS partitions do. -/
theorem PsOnwards.split (hPs : PsOnwards f imageStartAddress V) :
    ∃ later, V = later ++ earlier f V ∧ later.map Visit.header = psVisited f V ∧
      ∀ u ∈ later, u.AsPs f imageStartAddress := by
  induction V with
  | nil => exact ⟨[], rfl, rfl, nofun⟩
  | cons v V ih =>
    rw [earlier, psVisited]
    split
    · rename_i hStarted
      obtain ⟨later, hSplit, hHeaders, hAs⟩ := ih hPs.below
      refine ⟨v :: later, congrArg (List.cons v) hSplit, congrArg (List.cons v.header) hHeaders, ?_⟩
      exact List.forall_mem_cons.mpr ⟨hPs v V (List.suffix_refl _) hStarted, hAs⟩
    · exact ⟨[], rfl, rfl, nofun⟩

theorem psVisited_started (hMem : ∃ h, h ∈ psVisited f V) :
    V.any (Visit.started f) = true := by
  obtain ⟨h, hMem⟩ := hMem
  cases V with
  | nil => cases hMem
  | cons v V =>
    rw [psVisited] at hMem
    split at hMem
    · assumption
    · cases hMem

/-- After a PS partition all visits count. -/
theorem psVisited_append {later U : List Visit} (hStarted : U.any (Visit.started f) = true) :
    psVisited f (later ++ U) = later.map Visit.header ++ psVisited f U := by
  induction later with
  | nil => rfl
  | cons v later ih =>
    have hAny : (v :: (later ++ U)).any (Visit.started f) = true := by
      rw [List.any_cons, List.any_append, hStarted, Bool.or_true, Bool.or_true]
    rw [List.cons_append, psVisited, if_pos hAny, ih]
    rfl

/-- The last visit of a partition comes after the first PS partition if any of its visits does. -/
theorem started_of_last {later U : List Visit} {h : PartHeader}
    (hMem : h ∈ psVisited f (later ++ U)) (hNone : ∀ u ∈ later, u.header ≠ h) :
    U.any (Visit.started f) = true := by
  induction later with
  | nil => exact psVisited_started ⟨h, hMem⟩
  | cons v later ih =>
    obtain ⟨hHere, hRest⟩ := List.forall_mem_cons.mp hNone
    rw [List.cons_append, psVisited] at hMem
    split at hMem
    · exact ih ((List.mem_cons.mp hMem).resolve_left hHere.symm) hRest
    · cases hMem

theorem PsOnwards.asPs {later U : List Visit} (hPs : PsOnwards f imageStartAddress (later ++ U))
    (hStarted : U.any (Visit.started f) = true) : ∀ u ∈ later, u.AsPs f imageStartAddress := by
  induction later with
  | nil => exact nofun
  | cons v later ih =>
    rw [List.cons_append] at hPs
    refine List.forall_mem_cons.mpr ⟨hPs v _ (List.suffix_refl _) ?_, ih hPs.below⟩
    rw [List.any_cons, List.any_append, hStarted, Bool.or_true, Bool.or_true]

end Walk

end SoftwarePrototypes.Fsbl
