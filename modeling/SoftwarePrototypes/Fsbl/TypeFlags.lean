import SoftwarePrototypes.Fsbl.Visits

/-! # The flags that one partition leaves to the next

A partition with neither image bit is treated as the last typed partition before it was, even if
that was a bitstream that has been skipped after a watchdog reset.
-/

namespace SoftwarePrototypes.Fsbl

open Interaction Interaction.Prog

section Flags

variable (f : Setup)

def Visit.typed (v : Visit) : Bool :=
  ownedByFsbl f v.header && (hasPlImage f v.header || hasPsImage f v.header)

/-- The partition type after the visit is PL; a skipped partition does not get to its PS bit. -/
def Visit.leavesPl (v : Visit) : Bool :=
  hasPlImage f v.header && (v.skipped || !hasPsImage f v.header)

def Visit.runsPs (v : Visit) : Bool :=
  ownedByFsbl f v.header && hasPsImage f v.header && !v.skipped

def lastTyped (V : List Visit) : Option Visit := V.find? (Visit.typed f)

/-- The type flags and the application flag, as the visits so far, the latest first, leave them. -/
structure FlagsAt (V : List Visit) (w : Walk) : Prop where
  pl : w.plPartitionFlag = (lastTyped f V).any (Visit.leavesPl f)
  ps : w.psPartitionFlag = (lastTyped f V).any fun v => !v.leavesPl f
  application : w.applicationFlag = V.any (Visit.runsPs f)

variable {f} {h : PartHeader} {w : Walk}

theorem loadFlags_pl : (loadFlags f h w).plPartitionFlag =
    (!hasPsImage f h && (hasPlImage f h || w.plPartitionFlag)) := by
  unfold loadFlags attrFlags psFlags typeFlags
  cases hasPsImage f h <;> cases hasPlImage f h <;> rfl

theorem loadFlags_ps : (loadFlags f h w).psPartitionFlag =
    (hasPsImage f h || (!hasPlImage f h && w.psPartitionFlag)) := by
  unfold loadFlags attrFlags psFlags typeFlags
  cases hasPsImage f h <;> cases hasPlImage f h <;> rfl

theorem loadFlags_application : (loadFlags f h w).applicationFlag =
    (hasPsImage f h || w.applicationFlag) := by
  unfold loadFlags attrFlags psFlags typeFlags
  cases hasPsImage f h <;> cases hasPlImage f h <;> rfl

theorem loadFlags_bitstream : (loadFlags f h w).bitstreamFlag =
    (hasPlImage f h || w.bitstreamFlag) := by
  unfold loadFlags attrFlags psFlags typeFlags
  cases hasPsImage f h <;> cases hasPlImage f h <;> rfl

theorem typeFlags_of_pl (hPl : hasPlImage f h = true) (w : Walk) : typeFlags f h w =
    { w with plPartitionFlag := true, psPartitionFlag := false, bitstreamFlag := true } :=
  if_pos hPl

theorem typeFlags_of_plain (hPl : hasPlImage f h = false) (w : Walk) : typeFlags f h w = w :=
  if_neg (ne_true_of_eq_false hPl)

variable {V : List Visit} {v : Visit}

theorem FlagsAt.passed (hFlags : FlagsAt f V w) (hOther : ownedByFsbl f v.header = false) :
    FlagsAt f (v :: V) w := by
  have hTyped : lastTyped f (v :: V) = lastTyped f V :=
    List.find?_cons_of_neg (by simp [Visit.typed, hOther])
  constructor
  · rw [hTyped, hFlags.pl]
  · rw [hTyped, hFlags.ps]
  · rw [List.any_cons, hFlags.application, Visit.runsPs, hOther]
    rfl

theorem FlagsAt.skip (hFlags : FlagsAt f V w) (hOwned : ownedByFsbl f v.header = true)
    (hPl : hasPlImage f v.header = true) (hSkipped : v.skipped = true) :
    FlagsAt f (v :: V) { typeFlags f v.header w with bitstreamFlag := false } := by
  have hTyped : lastTyped f (v :: V) = some v :=
    List.find?_cons_of_pos (by simp [Visit.typed, hOwned, hPl])
  rw [typeFlags_of_pl hPl]
  constructor
  · simp [hTyped, Visit.leavesPl, hPl, hSkipped]
  · simp [hTyped, Visit.leavesPl, hPl, hSkipped]
  · simp [hFlags.application, Visit.runsPs, hSkipped]

theorem FlagsAt.load (hFlags : FlagsAt f V w) (hOwned : ownedByFsbl f v.header = true)
    (hTaken : v.skipped = false) : FlagsAt f (v :: V) (loadFlags f v.header w) := by
  cases hTyped : v.typed f with
  | true =>
    have hLast : lastTyped f (v :: V) = some v := List.find?_cons_of_pos hTyped
    rw [Visit.typed, hOwned, Bool.true_and] at hTyped
    constructor
    · rw [hLast, loadFlags_pl, Option.any_some, Visit.leavesPl, hTaken]
      cases hPl : hasPlImage f v.header <;> cases hPs : hasPsImage f v.header <;> simp_all
    · rw [hLast, loadFlags_ps, Option.any_some, Visit.leavesPl, hTaken]
      cases hPl : hasPlImage f v.header <;> cases hPs : hasPsImage f v.header <;> simp_all
    · simp [loadFlags_application, hFlags.application, Visit.runsPs, hOwned, hTaken]
  | false =>
    have hLast : lastTyped f (v :: V) = lastTyped f V :=
      List.find?_cons_of_neg (by simp [hTyped])
    rw [Visit.typed, hOwned, Bool.true_and, Bool.or_eq_false_iff] at hTyped
    constructor
    · rw [hLast, loadFlags_pl, hTyped.1, hTyped.2, hFlags.pl]
      rfl
    · rw [hLast, loadFlags_ps, hTyped.1, hTyped.2, hFlags.ps]
      rfl
    · simp [loadFlags_application, hFlags.application, Visit.runsPs, hTyped.2]

theorem FlagsAt.latch (hFlags : FlagsAt f V w) (h : PartHeader) :
    FlagsAt f V (latchExecAddr h w) := by
  have hSame := latchExecAddr_toFlags h w
  constructor
  · rw [hSame, hFlags.pl]
  · rw [hSame, hFlags.ps]
  · rw [hSame, hFlags.application]

end Flags

/-! ## What one visit leaves -/

section Visit

variable {f : Setup} {imageStartAddress : U32} {h : PartHeader} {w w' : Walk} {calls : List Event}

theorem loads_showsReset {event : Event} (hLoads : event.1.Loads) : showsReset event = false := by
  obtain ⟨e, answer⟩ := event
  cases e <;> first | rfl | exact hLoads.elim

theorem taken_skipped {reset : List Event} {step : Step}
    (hEarly : hasPlImage f h = true →
      w.applicationFlag = false ∧ Returns (watchdogReset f) reset false)
    (hPlain : hasPlImage f h = false → reset = [])
    (hLoad : Returns (loadPartition f imageStartAddress h (typeFlags f h w)) calls step) :
    (reset ++ calls).any showsReset = false := by
  rw [List.any_append, Bool.or_eq_false_iff]
  constructor
  · cases hPl : hasPlImage f h with
    | true => exact returns_watchdogReset (hEarly hPl).2
    | false =>
      rw [hPlain hPl]
      rfl
  · rw [List.any_eq_false]
    intro event hMem
    rw [loads_showsReset (((loadPartition_only _ _).steps hLoad).1 event hMem)]
    exact Bool.false_ne_true

/-- The calls for a partition before its load address is checked. -/
structure Entry (f : Setup) (h : PartHeader) (w : Walk) (reset enc : List Event) : Prop where
  early : hasPlImage f h = true → w.applicationFlag = false
  cold : hasPlImage f h = true → Returns (watchdogReset f) reset false
  plain : hasPlImage f h = false → reset = []
  encOnly : Returns (encOnlyStep f (loadFlags f h w).toFlags) enc ()

/-- Where the walk goes on, the partition was another's, was skipped or was handled. -/
theorem visited_next (hVisit : Visited f imageStartAddress h w calls (.next w')) :
    (ownedByFsbl f h = false ∧ calls = [] ∧ w' = w) ∨
    (ownedByFsbl f h = true ∧ hasPlImage f h = true ∧ calls.any showsReset = true ∧
      Returns (watchdogReset f) calls true ∧
      w' = { typeFlags f h w with bitstreamFlag := false }) ∨
    (ownedByFsbl f h = true ∧ calls.any showsReset = false ∧
      ((loadFlags f h w).psPartitionFlag = true → lowLoad f h = false) ∧
      w' = latchExecAddr h (loadFlags f h w) ∧ ∃ reset enc rest, calls = reset ++ (enc ++ rest) ∧
        Entry f h w reset enc ∧
        Returns (handlePartition f imageStartAddress h (loadFlags f h w)) rest (.next w')) := by
  cases hVisit with
  | passedOver hOther => exact .inl ⟨hOther, rfl, rfl⟩
  | skipped hOwned hPl _ hReset hWarm => exact .inr (.inl ⟨hOwned, hPl, hReset, hWarm, rfl⟩)
  | taken hOwned hEarly hPlain hLoad =>
    have hTaken := taken_skipped hEarly hPlain hLoad
    obtain ⟨_, enc, rest, rfl, hEnc, hRest⟩ := returns_bind hLoad
    rw [show attrFlags f h (psFlags f h (typeFlags f h w)) = loadFlags f h w from rfl] at hEnc hRest
    obtain ⟨_, _, _, _, _, _, hStop⟩ | ⟨hHigh, hHandle⟩ := checkLoadAddr_returns hRest
    · cases hStop
    · have hStep := (handlePartition_returns hHandle).1
      cases hStep
      have hEntry : Entry f h w _ enc :=
        ⟨fun hPl => (hEarly hPl).1, fun hPl => (hEarly hPl).2, hPlain, hEnc⟩
      exact .inr (.inr ⟨hOwned, hTaken, hHigh, rfl, _, enc, rest, rfl, hEntry, hHandle⟩)

/-- Where the walk stops, a bitstream has come after an application, or a partition of the PS has
load address 0. -/
theorem visited_stop (hVisit : Visited f imageStartAddress h w calls (.stop w')) :
    (ownedByFsbl f h = true ∧ hasPlImage f h = true ∧ w.applicationFlag = true ∧ calls = [] ∧
      w' = typeFlags f h w) ∨
    (ownedByFsbl f h = true ∧ calls.any showsReset = false ∧ lowLoad f h = true ∧ h.loadAddr = 0 ∧
      (loadFlags f h w).psPartitionFlag = true ∧ (loadFlags f h w).signedPartitionFlag = false ∧
      (loadFlags f h w).encryptedPartitionFlag = false ∧ w' = loadFlags f h w ∧
      ∃ reset enc, calls = reset ++ enc ∧ Entry f h w reset enc) := by
  cases hVisit with
  | late hOwned hPl hLate => exact .inl ⟨hOwned, hPl, hLate, rfl, rfl⟩
  | taken hOwned hEarly hPlain hLoad =>
    have hTaken := taken_skipped hEarly hPlain hLoad
    obtain ⟨_, enc, rest, rfl, hEnc, hRest⟩ := returns_bind hLoad
    rw [show attrFlags f h (psFlags f h (typeFlags f h w)) = loadFlags f h w from rfl] at hEnc hRest
    obtain ⟨hLow, hPs, hZero, hSigned, hEncrypted, rfl, hStop⟩ | ⟨_, hHandle⟩ :=
      checkLoadAddr_returns hRest
    · cases hStop
      rw [List.append_nil] at hTaken ⊢
      have hEntry : Entry f h w _ enc :=
        ⟨fun hPl => (hEarly hPl).1, fun hPl => (hEarly hPl).2, hPlain, hEnc⟩
      exact .inr ⟨hOwned, hTaken, hLow, hZero, hPs, hSigned, hEncrypted, rfl, _, enc, rfl, hEntry⟩
    · cases (handlePartition_returns hHandle).1

theorem FlagsAt.next {V : List Visit} (hFlags : FlagsAt f V w)
    (hVisit : Visited f imageStartAddress h w calls (.next w')) :
    FlagsAt f (⟨h, calls⟩ :: V) w' := by
  obtain ⟨hOther, -, rfl⟩ | ⟨hOwned, hPl, hReset, -, rfl⟩ | ⟨hOwned, hTaken, -, rfl, -⟩ :=
    visited_next hVisit
  · exact hFlags.passed hOther
  · exact hFlags.skip hOwned hPl hReset
  · exact (hFlags.load (v := ⟨h, calls⟩) hOwned hTaken).latch h

theorem toured_flagsAt {table : Table} {V : List Visit} {num : Nat}
    (hTour : Toured f imageStartAddress table V num w) : FlagsAt f V w := by
  induction hTour with
  | start => exact ⟨rfl, rfl, rfl⟩
  | visit _ _ _ hVisit ih => exact ih.next hVisit

end Visit

end SoftwarePrototypes.Fsbl
