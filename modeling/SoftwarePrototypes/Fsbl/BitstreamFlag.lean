import SoftwarePrototypes.Fsbl.WarmRestart

/-! # The bitstream flag

`LoadBootImage` sets the flag when it sees a PL partition and clears it only when it skips one
after a watchdog reset. The partition may yet not be loaded.
-/

namespace SoftwarePrototypes.Fsbl

open Interaction Interaction.Prog

section BitstreamFlag

variable (f : Setup)

def downloads : Event → Bool
  | ⟨.pcapLoadPartition _ _ _ _ _, status⟩ => decide ((status : Status) = .success)
  | _ => false

def Visit.downloads (v : Visit) : Bool := v.calls.any Fsbl.downloads

/-- A skipped bitstream is the only one so far, one that is seen but not loaded is not the first,
and an untyped partition does not stand for a skipped one. -/
structure Tells (v : Visit) (earlier : List Visit) : Prop where
  skipped : hasPlImage f v.header = true → v.skipped = true → earlier.any Visit.downloads = false
  unloaded : hasPlImage f v.header = true → v.skipped = false →
    hasPsImage f v.header = true ∨ earlier.any (Visit.runsPs f) = true →
    earlier.any Visit.downloads = true
  untyped : v.typed f = false → ∀ u ∈ lastTyped f earlier, hasPlImage f u.header = true →
    u.skipped = false

/-- The flag is true, and is set while a bitstream that was not skipped gives the type. -/
structure Truthful (V : List Visit) (w : Walk) : Prop where
  flag : w.bitstreamFlag = V.any Visit.downloads
  last : ∀ u ∈ lastTyped f V, u.leavesPl f = true → u.skipped = false → w.bitstreamFlag = true

variable {f} {imageStartAddress : U32} {h : PartHeader} {w w' : Walk} {calls : List Event}

theorem leavesPl_downloads {event : Event} (h : event.1.LeavesPl) : downloads event = false := by
  obtain ⟨e, answer⟩ := event
  cases e <;> first | rfl | exact (h trivial).elim

theorem not_downloads_of_only {α : Type} {p : Loader α} {value : α} {L : List Event}
    (hOnly : Only Op.LeavesPl p) (hRun : Returns p L value) : L.any downloads = false := by
  rw [List.any_eq_false]
  intro event hMem
  rw [leavesPl_downloads ((hOnly.steps hRun).1 event hMem)]
  exact Bool.false_ne_true

theorem partitionMove_downloads {fl : Flags} {L : List Event} (hPl : fl.plPartitionFlag = true)
    (hWhole : fl.whole = false)
    (hRun : Returns (partitionMove f imageStartAddress h fl) L .success) :
    L.any downloads = true := by
  obtain ⟨t, M, N, rfl, -, hRest⟩ := returns_bind hRun
  rw [List.any_append, Bool.or_eq_true]
  cases t with
  | none => cases (returns_ret.mp hRest).2
  | some t =>
    obtain ⟨t, N₁, N₂, rfl, -, hLast⟩ := returns_bind hRest
    rw [List.any_append, Bool.or_eq_true]
    cases t with
    | none => cases (returns_ret.mp hLast).2
    | some t =>
      simp only [bitstreamStep, hPl, hWhole, Bool.not_false, Bool.and_self, if_true] at hLast
      rw [returns_ask.mp hLast]
      exact .inr (.inr rfl)

theorem handlePartition_downloads {L : List Event} {step : Step} (hPl : w.plPartitionFlag = true)
    (hRun : Returns (handlePartition f imageStartAddress h w) L step) :
    L.any downloads = true := by
  obtain ⟨-, before, placing, checking, after, rfl, -, hPlacing, hChecking, -⟩ :=
    handlePartition_returns hRun
  simp only [List.any_append, Bool.or_eq_true]
  cases hWhole : w.toFlags.whole with
  | true =>
    rw [checkPartition, if_pos hWhole] at hChecking
    obtain ⟨_, M, _, rfl, -, hChecking⟩ := returns_bind hChecking
    obtain ⟨_, M, _, rfl, -, hChecking⟩ := returns_bind hChecking
    obtain ⟨_, M, _, rfl, -, hDownload⟩ := returns_bind hChecking
    rw [downloadStep, if_pos hPl] at hDownload
    obtain ⟨answer, hSuccess, rfl⟩ := returns_ask_require hDownload
    simp [downloads, hSuccess]
  | false =>
    have hSigned : w.signedPartitionFlag = false := (Bool.or_eq_false_iff.mp hWhole).1
    rw [placePartition] at hPlacing
    split at hPlacing
    · exact .inr (.inl (partitionMove_downloads hPl hWhole (movePartition_returns hPlacing)))
    · obtain ⟨_, M, _, rfl, -, hPlacing⟩ := returns_bind hPlacing
      obtain ⟨_, M, _, rfl, -, hMoving⟩ := returns_bind hPlacing
      rw [if_pos (by simp [movedWithoutDdr, hPl, hSigned])] at hMoving
      simp [partitionMove_downloads hPl hWhole (movePartition_returns hMoving)]

variable {V : List Visit}

theorem lastTyped_cons_of_typed {v : Visit} (h : v.typed f = true) :
    lastTyped f (v :: V) = some v :=
  List.find?_cons_of_pos h

theorem lastTyped_cons_of_untyped {v : Visit} (h : v.typed f = false) :
    lastTyped f (v :: V) = lastTyped f V := List.find?_cons_of_neg (ne_true_of_eq_false h)

theorem Truthful.quiet (hTruth : Truthful f V w) (hFlag : w'.bitstreamFlag = w.bitstreamFlag)
    (hQuiet : calls.any downloads = false)
    (hLeft : (Visit.mk h calls).typed f = true → (Visit.mk h calls).leavesPl f = false) :
    Truthful f (⟨h, calls⟩ :: V) w' := by
  constructor
  · rw [hFlag, hTruth.flag, List.any_cons, Visit.downloads, hQuiet, Bool.false_or]
  · intro u hLast hLeaves hTaken
    rw [hFlag]
    cases hTyped : (Visit.mk h calls).typed f with
    | true =>
      rw [lastTyped_cons_of_typed hTyped] at hLast
      cases hLast
      rw [hLeft hTyped] at hLeaves
      cases hLeaves
    | false =>
      rw [lastTyped_cons_of_untyped hTyped] at hLast
      exact hTruth.last u hLast hLeaves hTaken

theorem Truthful.loaded (hTruth : Truthful f V w) (hFlags : FlagsAt f V w)
    (hTells : Tells f ⟨h, calls⟩ V)
    (hPl : (loadFlags f h w).plPartitionFlag = true) (hLoaded : calls.any downloads = true) :
    Truthful f (⟨h, calls⟩ :: V) (loadFlags f h w) := by
  rw [loadFlags_pl, Bool.and_eq_true, Bool.not_eq_true', Bool.or_eq_true] at hPl
  obtain ⟨hNotPs, hPl⟩ := hPl
  have hSet : (loadFlags f h w).bitstreamFlag = true := by
    rw [loadFlags_bitstream, Bool.or_eq_true]
    cases hBit : hasPlImage f h with
    | true => exact .inl rfl
    | false =>
      have hUntyped : (Visit.mk h calls).typed f = false := by simp [Visit.typed, hBit, hNotPs]
      have hStale : w.plPartitionFlag = true := hPl.resolve_left (ne_true_of_eq_false hBit)
      rw [hFlags.pl, Option.any_eq_true] at hStale
      obtain ⟨u, hLast, hLeaves⟩ := hStale
      have hTyped : hasPlImage f u.header = true := (Bool.and_eq_true _ _ ▸ hLeaves).1
      exact .inr (hTruth.last u hLast hLeaves (hTells.untyped hUntyped u hLast hTyped))
  constructor
  · rw [hSet, List.any_cons, Visit.downloads, hLoaded, Bool.true_or]
  · exact fun _ _ _ _ => hSet

/-- A partition with both image bits is handled as an application. -/
theorem Truthful.unloaded (hTruth : Truthful f V w) (hTells : Tells f ⟨h, calls⟩ V)
    (hTaken : calls.any showsReset = false)
    (hPl : (loadFlags f h w).plPartitionFlag = false) (hQuiet : calls.any downloads = false) :
    Truthful f (⟨h, calls⟩ :: V) (loadFlags f h w) := by
  cases hBit : hasPlImage f h with
  | false =>
    apply hTruth.quiet _ hQuiet
    · intro _
      rw [Visit.leavesPl, hBit, Bool.false_and]
    · rw [loadFlags_bitstream, hBit, Bool.false_or]
  | true =>
    rw [loadFlags_pl, hBit, Bool.true_or, Bool.and_true, Bool.not_eq_false'] at hPl
    have hEarlier := hTells.unloaded hBit hTaken (.inl hPl)
    constructor
    · rw [loadFlags_bitstream, hBit, List.any_cons, hEarlier, Bool.true_or, Bool.or_true]
    · intro _ _ _ _
      rw [loadFlags_bitstream, hBit, Bool.true_or]

theorem Truthful.skip (hOwned : ownedByFsbl f h = true) (hPl : hasPlImage f h = true)
    (hSkipped : calls.any showsReset = true) (hWarm : Returns (watchdogReset f) calls true)
    (hTells : Tells f ⟨h, calls⟩ V) :
    Truthful f (⟨h, calls⟩ :: V) { typeFlags f h w with bitstreamFlag := false } := by
  have hQuiet := not_downloads_of_only watchdogReset_leavesPl hWarm
  have hTyped : (Visit.mk h calls).typed f = true := by simp [Visit.typed, hOwned, hPl]
  constructor
  · rw [List.any_cons, Visit.downloads, hQuiet, hTells.skipped hPl hSkipped]
    rfl
  · intro u hLast _ hTaken
    rw [lastTyped_cons_of_typed hTyped] at hLast
    cases hLast
    rw [Visit.skipped, hSkipped] at hTaken
    cases hTaken

theorem truthful_latch (hTruth : Truthful f V w) (h : PartHeader) :
    Truthful f V (latchExecAddr h w) := by
  have hSame := latchExecAddr_toFlags h w
  constructor
  · rw [hSame, hTruth.flag]
  · rw [hSame]
    exact hTruth.last

theorem Entry.not_downloads {reset enc : List Event} (hEntry : Entry f h w reset enc) :
    (reset ++ enc).any downloads = false := by
  rw [List.any_append, not_downloads_of_only (encOnlyStep_leavesPl _) hEntry.encOnly,
    Bool.or_false]
  cases hPl : hasPlImage f h with
  | true => exact not_downloads_of_only watchdogReset_leavesPl (hEntry.cold hPl)
  | false =>
    rw [hEntry.plain hPl]
    rfl

theorem Truthful.next (hTruth : Truthful f V w) (hFlags : FlagsAt f V w)
    (hVisit : Visited f imageStartAddress h w calls (.next w'))
    (hTells : ownedByFsbl f h = true → Tells f ⟨h, calls⟩ V) :
    Truthful f (⟨h, calls⟩ :: V) w' := by
  obtain ⟨hOther, rfl, rfl⟩ | ⟨hOwned, hPl, hReset, hWarm, rfl⟩ |
    ⟨hOwned, hTaken, -, rfl, reset, enc, rest, rfl, hEntry, hHandle⟩ := visited_next hVisit
  · refine hTruth.quiet rfl rfl fun hTyped => ?_
    rw [Visit.typed, hOther] at hTyped
    cases hTyped
  · exact .skip hOwned hPl hReset hWarm (hTells hOwned)
  apply truthful_latch
  cases hPl : (loadFlags f h w).plPartitionFlag with
  | true =>
    apply hTruth.loaded hFlags (hTells hOwned) hPl
    simp [handlePartition_downloads hPl hHandle]
  | false =>
    apply hTruth.unloaded (hTells hOwned) hTaken hPl
    rw [← List.append_assoc, List.any_append, hEntry.not_downloads,
      not_downloads_of_only (handlePartition_leavesPl hPl _) hHandle]
    rfl

theorem toured_truthful {table : Table} {num : Nat}
    (hTour : Toured f imageStartAddress table V num w)
    (hTells : ∀ v earlier, v :: earlier <:+ V → ownedByFsbl f v.header = true →
      Tells f v earlier) : Truthful f V w := by
  induction hTour with
  | start => exact ⟨rfl, nofun⟩
  | visit hTour _ _ hVisit ih =>
    have hTruth := ih fun v earlier hSuffix =>
      hTells v earlier (hSuffix.trans (List.suffix_cons _ _))
    exact hTruth.next (toured_flagsAt hTour) hVisit (hTells _ _ (List.suffix_refl _))

/-- Where the walk stops, the flag is as the last partition leaves it. -/
theorem Truthful.stop (hTruth : Truthful f V w) (hFlags : FlagsAt f V w)
    (hVisit : Visited f imageStartAddress h w calls (.stop w'))
    (hTells : ownedByFsbl f h = true → Tells f ⟨h, calls⟩ V) :
    w'.bitstreamFlag = (⟨h, calls⟩ :: V : List Visit).any Visit.downloads := by
  obtain ⟨hOwned, hPl, hLate, rfl, rfl⟩ |
    ⟨hOwned, hTaken, -, -, hPs, -, -, rfl, reset, enc, rfl, hEntry⟩ := visited_stop hVisit
  · rw [hFlags.application] at hLate
    rw [typeFlags_of_pl hPl, List.any_cons, (hTells hOwned).unloaded hPl rfl (.inr hLate),
      Bool.or_true]
  · have hPl : (loadFlags f h w).plPartitionFlag = false := by
      rw [loadFlags_ps, hFlags.ps, Bool.or_eq_true] at hPs
      rw [loadFlags_pl, hFlags.pl]
      obtain hBit | hStale := hPs
      · rw [hBit]
        rfl
      · rw [Bool.and_eq_true, Option.any_eq_true] at hStale
        obtain ⟨hPlain, u, hLast, hLeaves⟩ := hStale
        rw [Bool.not_eq_true'] at hPlain hLeaves
        rw [hLast, hPlain, Option.any_some, hLeaves, Bool.or_false, Bool.and_false]
    exact (hTruth.unloaded (hTells hOwned) hTaken hPl hEntry.not_downloads).flag

/-- The flag tells whether a bitstream has been downloaded, in a run whose visits each tell. -/
theorem bitstreamFlag_iff {L : List Event} {boot : Boot} (hRun : Returns (loadBootImage f) L boot)
    (hTells : ∀ v earlier, v :: earlier <:+ visits L → ownedByFsbl f v.header = true →
      Tells f v earlier) :
    boot.flags.bitstreamFlag = true ↔ ∃ event ∈ L, downloads event = true := by
  have hAny : (∃ event ∈ L, downloads event = true) ↔ (visits L).any Visit.downloads = true := by
    simp only [List.any_eq_true, Visit.downloads]
    constructor
    · rintro ⟨event, hMem, hLoads⟩
      have hKind : event.1.Handles ∧ ¬ event.1.Prepares := by
        obtain ⟨e, answer⟩ := event
        cases e <;> first | exact ⟨trivial, id⟩ | cases hLoads
      obtain ⟨v, hV, hIn⟩ := mem_visits hRun hMem hKind.1 hKind.2
      exact ⟨v, hV, event, hIn, hLoads⟩
    · rintro ⟨v, hV, event, hIn, hLoads⟩
      obtain hMem | ⟨_, hNone, _⟩ := mem_of_mem_visits hV hIn
      · exact ⟨event, hMem, hLoads⟩
      · cases hNone
  rw [hAny]
  obtain ⟨-, hNone, rfl⟩ | ⟨imageStartAddress, table, _, _, w, -, -, -, hEnded, rfl⟩ :=
    loadBootImage_returns hRun
  · rw [hNone]
    exact Iff.rfl
  · generalize visits L = V at hTells hEnded
    cases hEnded with
    | done hTour _ => exact iff_of_eq (congrArg (· = true) (toured_truthful hTour hTells).flag)
    | stopped hTour _ _ hVisit =>
      have hTruth := toured_truthful hTour fun v earlier hSuffix =>
        hTells v earlier (hSuffix.trans (List.suffix_cons _ _))
      have hFlag := hTruth.stop (toured_flagsAt hTour) hVisit (hTells _ _ (List.suffix_refl _))
      exact iff_of_eq (congrArg (· = true) hFlag)

/-- A bitstream, then an application, after a power-on reset. -/
def orderedTrace : List Event := (benchPlay [benchBitstream, benchApplication] 0 30).1

theorem bitstreamFlag_iff_bench : ∃ boot, Returns (loadBootImage bench) orderedTrace boot ∧
    (boot.flags.bitstreamFlag = true ↔ ∃ event ∈ orderedTrace, downloads event = true) := by
  have hRun := benchPlay_returns [benchBitstream, benchApplication] 0 30 _ rfl
  refine ⟨_, hRun, bitstreamFlag_iff hRun ?_⟩
  have hTyped : ∀ v ∈ visits orderedTrace, v.typed bench = true := by decide
  have hTaken : ∀ v ∈ visits orderedTrace, v.skipped = false := by decide
  have hHeaders : (visits orderedTrace).map Visit.header = [benchApplication, benchBitstream] := rfl
  intro v earlier hSuffix _
  have hMem : v ∈ visits orderedTrace := hSuffix.subset List.mem_cons_self
  constructor
  · intro _ hSkipped
    rw [hTaken v hMem] at hSkipped
    cases hSkipped
  · intro hPl _ hLate
    have hMap := hSuffix.map Visit.header
    rw [hHeaders, List.map_cons, List.suffix_cons_iff, List.suffix_cons_iff] at hMap
    obtain hMap | hMap | hMap := hMap
    · obtain ⟨hHeader, -⟩ := List.cons.inj hMap
      rw [hHeader] at hPl
      exact absurd hPl (by decide)
    · obtain ⟨hHeader, hRest⟩ := List.cons.inj hMap
      rw [List.map_eq_nil_iff] at hRest
      rw [hHeader, hRest] at hLate
      exact absurd hLate (by decide)
    · exact absurd (List.suffix_nil.mp hMap) (List.cons_ne_nil _ _)
  · intro hUntyped
    rw [hTyped v hMem] at hUntyped
    cases hUntyped

/-- A bitstream after an application sets the flag and is not loaded. -/
theorem bitstreamFlag_unloaded : ¬ ∀ (f : Setup) (L : List Event) (boot : Boot),
    Returns (loadBootImage f) L boot →
    (boot.flags.bitstreamFlag = true ↔ ∃ event ∈ L, downloads event = true) := by
  intro hAll
  have hRun := benchPlay_returns [benchApplication, benchBitstream] 0 30 _ rfl
  have hNone : ∀ event ∈ (benchPlay [benchApplication, benchBitstream] 0 30).1,
      downloads event = false := by decide
  obtain ⟨event, hMem, hLoads⟩ := (hAll bench _ _ hRun).mp rfl
  rw [hNone event hMem] at hLoads
  cases hLoads

end BitstreamFlag

end SoftwarePrototypes.Fsbl
