import SoftwarePrototypes.Fsbl.Bench
import SoftwarePrototypes.Fsbl.TypeFlags

/-! # Warm restart

After a CPU watchdog reset the bitstream is to be left as it is. A partition with neither image
bit that follows a skipped bitstream is taken for one.
-/

namespace SoftwarePrototypes.Fsbl

open Interaction Interaction.Prog

/-! ## The calls that drive the PL -/

section Calls

def Op.DrivesPl : Op → Prop
  | .pcapLoadPartition _ _ _ _ _ | .fsblHookBeforeBitstreamDload
  | .fsblHookAfterBitstreamDload => True
  | _ => False

def Op.LeavesPl (e : Op) : Prop := ¬ e.DrivesPl

theorem Op.Prepares.leavesPl {e : Op} (h : e.Prepares) : e.LeavesPl := by
  cases e <;> first | exact id | exact h.elim

theorem Op.Checks.leavesPl {e : Op} (h : e.Checks) : e.LeavesPl := by
  cases e <;> first | exact id | exact h.elim

variable {f : Setup} {h : PartHeader} {fl : Flags} {w : Walk}

theorem fallback_leavesPl {α : Type} (code : FailCode) :
    Only Op.LeavesPl (fallback code : Loader α) := fallback_only (fun _ => id) id code

theorem require_leavesPl (status : Status) (code : FailCode) :
    Only Op.LeavesPl (require status code) := require_only (fun _ => id) id status code

theorem watchdogReset_leavesPl : Only Op.LeavesPl (watchdogReset f) :=
  only_ite (fun _ => trivial) fun _ => ⟨id, fun _ => trivial⟩

theorem encOnlyStep_leavesPl (fl : Flags) : Only Op.LeavesPl (encOnlyStep f fl) :=
  encOnlyStep_only f (fun _ => id) (fun _ => id) id fl

theorem hook_leavesPl (hPl : fl.plPartitionFlag = false) (call : Loader Status)
    (code : FailCode) : hook call code fl = .ret () := by
  rw [hook, hPl]
  rfl

theorem movePartition_leavesPl (hPl : fl.plPartitionFlag = false) (imageStartAddress : U32) :
    Only Op.LeavesPl (movePartition f imageStartAddress h fl) := by
  refine Only.bind (Only.bind ?_ fun t => ?_) fun _ => require_leavesPl _ _
  · exact only_ite (fun _ => trivial) fun _ => ⟨id, fun _ => trivial⟩
  cases t with
  | none => trivial
  | some t =>
    refine Only.bind ?_ fun t => ?_
    · exact only_ite (fun _ => ⟨id, fun _ => trivial⟩) fun _ => trivial
    cases t with
    | none => trivial
    | some t =>
      simp only [bitstreamStep, hPl, Bool.false_and]
      trivial

theorem placePartition_leavesPl (hPl : fl.plPartitionFlag = false) (imageStartAddress : U32) :
    Only Op.LeavesPl (placePartition f imageStartAddress h fl) := by
  have hMove := movePartition_leavesPl (f := f) (h := h) hPl imageStartAddress
  refine only_ite (fun _ => hMove) fun _ => ?_
  refine Only.bind (only_ite (fun _ => ⟨id, fun _ => trivial⟩) fun _ => trivial) fun _ => ?_
  refine Only.bind (only_ite (fun _ => ⟨id, fun _ => trivial⟩) fun _ => trivial) fun _ => ?_
  exact only_ite (fun _ => hMove) fun _ => trivial

theorem checkPartition_leavesPl (hPl : fl.plPartitionFlag = false)
    (imageStartAddress startAddr : U32) :
    Only Op.LeavesPl (checkPartition f imageStartAddress startAddr h fl) := by
  refine only_ite (fun _ => ?_) fun _ => trivial
  refine Only.bind ((checksumStep_only _ _).mono fun _ => Op.Checks.leavesPl) fun _ => ?_
  refine Only.bind ((authenticateStep_only _).mono fun _ => Op.Checks.leavesPl) fun _ => ?_
  refine Only.bind (only_ite (fun _ => ⟨id, fun _ => require_leavesPl _ _⟩) fun _ => trivial)
    fun _ => ?_
  rw [downloadStep, hPl]
  trivial

theorem handlePartition_leavesPl (hPl : w.plPartitionFlag = false) (imageStartAddress : U32) :
    Only Op.LeavesPl (handlePartition f imageStartAddress h w) := by
  rw [handlePartition]
  simp only [latchExecAddr_toFlags, beforeHook, afterHook, hook_leavesPl hPl, ret_bind]
  refine Only.bind (placePartition_leavesPl hPl _) fun _ => ?_
  exact Only.bind (checkPartition_leavesPl hPl _ _) fun _ => trivial

theorem checkLoadAddr_leavesPl (hPl : w.plPartitionFlag = false) (imageStartAddress : U32) :
    Only Op.LeavesPl (checkLoadAddr f imageStartAddress h w) := by
  refine only_ite (fun _ => ?_) fun _ => ?_
  · exact only_ite (fun _ => trivial) fun _ => fallback_leavesPl _
  · exact only_ite (fun _ => fallback_leavesPl _) fun _ => handlePartition_leavesPl hPl _

end Calls

/-! ## After a watchdog reset -/

section WarmRestart

variable (f : Setup)

/-- Encryption is not mandatory, or the partition is encrypted. -/
def Visit.Admitted (v : Visit) : Prop :=
  f.forceUseAesExclude = true ∨ v.header.dataWordLen ≠ v.header.imageWordLen ∨
    ∃ reg : U32, ⟨.readReg f.statusOffset, reg⟩ ∈ v.calls ∧ reg &&& f.statusEfuseSecEnMask = 0

/-- A valid partition with neither image bit, after a bitstream and no other typed partition. -/
structure InheritsPl (v : Visit) (earlier : List Visit) : Prop where
  owned : ownedByFsbl f v.header = true
  untyped : v.typed f = false
  valid : validateHeader v.header = .success
  admitted : v.Admitted f
  bitstream : ∃ u ∈ lastTyped f earlier, hasPlImage f u.header = true

variable {f} {imageStartAddress : U32} {h : PartHeader} {w : Walk} {calls : List Event} {e : Op}

theorem encOnlyStep_admitted {enc : List Event}
    (hEnc : Returns (encOnlyStep f (loadFlags f h w).toFlags) enc ())
    (hMem : ∀ ev ∈ enc, ev ∈ calls) :
    (Visit.mk h calls).Admitted f := by
  rw [encOnlyStep] at hEnc
  split at hEnc
  · exact .inl ‹_›
  obtain ⟨reg, M, rfl, hRest⟩ := returns_ask_bind hEnc
  split at hRest
  · exact (fallback_not_returns hRest).elim
  rename_i hPass
  by_cases hClear : reg &&& f.statusEfuseSecEnMask = 0
  · exact .inr (.inr ⟨reg, hMem _ List.mem_cons_self, hClear⟩)
  · have hEncrypted : (loadFlags f h w).encryptedPartitionFlag = true := by
      rw [← Bool.not_eq_false]
      exact fun hPlain => hPass ⟨hClear, hPlain⟩
    exact .inr (.inl (of_decide_eq_true hEncrypted))

theorem loadPartition_drivesPl {next : Answer e → Loader Step} (hDrives : e.DrivesPl)
    (hRun : Steps (loadPartition f imageStartAddress h w) calls (.call e next)) :
    (attrFlags f h (psFlags f h w)).plPartitionFlag = true ∧ ∃ enc rest, calls = enc ++ rest ∧
      Returns (encOnlyStep f (attrFlags f h (psFlags f h w)).toFlags) enc () := by
  rw [loadPartition] at hRun
  obtain ⟨_, hEnc⟩ | ⟨_, enc, rest, rfl, hEnc, hRest⟩ := calls_bind hRun
  · exact absurd hDrives ((encOnlyStep_leavesPl _).at_call hEnc)
  · refine ⟨?_, enc, rest, rfl, hEnc⟩
    rw [← Bool.not_eq_false]
    exact fun hPl => (checkLoadAddr_leavesPl hPl _).at_call hRest hDrives

/-- A call that drives the PL is made for an admitted partition whose type is PL. -/
theorem partition_drivesPl {next : Answer e → Loader Step} (hDrives : e.DrivesPl)
    (hVisit : Steps (partition f imageStartAddress h w) (⟨.headerDump h, ()⟩ :: calls)
      (.call e next)) :
    ownedByFsbl f h = true ∧ validateHeader h = .success ∧
      (Visit.mk h calls).Admitted f ∧ (loadFlags f h w).plPartitionFlag = true ∧
      (hasPlImage f h = true → ∃ reset rest, calls = reset ++ rest ∧
        Returns (watchdogReset f) reset false) := by
  obtain ⟨_, hRequire⟩ | ⟨_, R, N, rfl, hRequire, hTyped⟩ := calls_bind (steps_ask_cons hVisit)
  · exact absurd hDrives ((require_leavesPl _ _).at_call hRequire)
  obtain ⟨hValid, rfl⟩ := returns_require hRequire
  split at hTyped
  · cases (steps_ret.mp hTyped).2
  rename_i hOwned
  rw [Bool.not_eq_false] at hOwned
  split at hTyped
  · rename_i hPl
    rw [plPartition, ← typeFlags_of_pl hPl] at hTyped
    split at hTyped
    · cases (steps_ret.mp hTyped).2
    obtain ⟨_, hReset⟩ | ⟨warm, reset, rest, rfl, hReset, hLoad⟩ := calls_bind hTyped
    · exact absurd hDrives (watchdogReset_leavesPl.at_call hReset)
    cases warm with
    | true => cases (steps_ret.mp hLoad).2
    | false =>
      obtain ⟨hFlag, enc, rest, rfl, hEnc⟩ := loadPartition_drivesPl hDrives hLoad
      have hCold : ∃ before after, reset ++ (enc ++ rest) = before ++ after ∧
          Returns (watchdogReset f) before false := ⟨reset, enc ++ rest, rfl, hReset⟩
      refine ⟨hOwned, hValid, encOnlyStep_admitted hEnc ?_, hFlag, fun _ => hCold⟩
      intro event hMem
      simp [hMem]
  · rename_i hPlain
    obtain ⟨hFlag, enc, rest, rfl, hEnc⟩ := loadPartition_drivesPl hDrives hTyped
    rw [← typeFlags_of_plain (by simpa using hPlain) w] at hFlag hEnc
    refine ⟨hOwned, hValid, encOnlyStep_admitted hEnc ?_, hFlag, fun hPl => absurd hPl hPlain⟩
    intro event hMem
    simp [hMem]

/-- Every reading of the reset reason register shows the watchdog reset. -/
def WarmRestart (L : List Event) : Prop :=
  ∀ event ∈ L, event.1 = .xilIn32 0xF800702C → showsReset event = true

theorem not_returns_cold (hWarmReboot : f.noCpuWarmReboot = false) {reset : List Event}
    (hReset : Returns (watchdogReset f) reset false) : ¬ WarmRestart reset := by
  intro hWarm
  have hNone := returns_watchdogReset hReset
  rw [watchdogReset, if_neg (ne_true_of_eq_false hWarmReboot)] at hReset
  obtain ⟨reason, M, rfl, hRest⟩ := returns_ask_bind hReset
  have hShows := hWarm _ List.mem_cons_self rfl
  rw [List.any_cons, hShows] at hNone
  cases hNone

/-- After a watchdog reset the PL is left alone, unless a partition is typed by a bitstream that
has been skipped. -/
theorem warmRestart_leavesPl (hWarmReboot : f.noCpuWarmReboot = false) {L : List Event}
    {next : Answer e → Loader Boot} (hRun : Steps (loadBootImage f) L (.call e next))
    (hWarm : WarmRestart L) (hTyped : ∀ v V, v :: V <:+ visits L → ¬ InheritsPl f v V) :
    ¬ e.DrivesPl := by
  intro hDrives
  have hCalls : ∀ v ∈ visits L, WarmRestart v.calls := by
    intro v hMem event hEvent
    obtain hTrace | ⟨_, hNone, _⟩ := mem_of_mem_visits hMem hEvent
    · exact hWarm event hTrace
    · cases hNone
  obtain ⟨hPrepares, -⟩ | ⟨imageStartAddress, table, _, _, -, -, hVisiting⟩ :=
    loadBootImage_at_call hRun
  · exact hPrepares.leavesPl hDrives
  generalize visits L = V' at hTyped hCalls hVisiting
  cases hVisiting with
  | dump _ _ hDump =>
    subst hDump
    exact hDrives
  | @amid V num w calls _ hTour _ hVisit =>
    obtain ⟨hHere, hBefore⟩ := List.forall_mem_cons.mp hCalls
    obtain ⟨hOwned, hValid, hAdmitted, hFlag, hCold⟩ := partition_drivesPl hDrives hVisit
    have hPlain : hasPlImage f (table.partitionHeader num) = false := by
      rw [← Bool.not_eq_true]
      intro hPl
      obtain ⟨reset, rest, rfl, hReset⟩ := hCold hPl
      refine not_returns_cold hWarmReboot hReset ?_
      exact fun event hMem => hHere event (List.mem_append_left _ hMem)
    rw [loadFlags_pl, hPlain, Bool.false_or, Bool.and_eq_true, Bool.not_eq_true',
      (toured_flagsAt hTour).pl, Option.any_eq_true] at hFlag
    obtain ⟨hNotPs, u, hLast, hLeft⟩ := hFlag
    rw [Visit.leavesPl, Bool.and_eq_true] at hLeft
    refine hTyped _ V (List.suffix_refl _) ⟨hOwned, ?_, hValid, hAdmitted, u, hLast, hLeft.1⟩
    simp [Visit.typed, hPlain, hNotPs]

theorem benchPlay_warm (partitions : List PartHeader) (n : Nat) :
    WarmRestart (benchPlay partitions 0x80000000 n).1 := by
  rintro ⟨e, answer⟩ hMem rfl
  have hAnswer := play_answers n _ _ hMem
  cases hAnswer
  rfl

theorem warmRestart_leavesPl_bench : ∃ e next,
    Steps (loadBootImage bench) (benchPlay [benchBitstream, benchApplication] 0x80000000 10).1
      (.call e next) ∧ ¬ e.DrivesPl := by
  have hTyped : ∀ v ∈ visits (benchPlay [benchBitstream, benchApplication] 0x80000000 10).1,
      v.typed bench = true := by decide
  obtain ⟨next, hRun⟩ := benchPlay_call [benchBitstream, benchApplication] 0x80000000 10
    (.moveImage 0 (.address 0x100000) 16) rfl
  refine ⟨_, next, hRun, warmRestart_leavesPl rfl hRun (benchPlay_warm _ 10) ?_⟩
  intro v V hSuffix hInherits
  have hUntyped := hInherits.untyped
  rw [hTyped v (hSuffix.subset List.mem_cons_self)] at hUntyped
  cases hUntyped

/-- The partition after the skipped bitstream has neither image bit. -/
theorem warmRestart_drivesPl : ¬ ∀ (f : Setup) (L : List Event) (e : Op)
    (next : Answer e → Loader Boot), f.noCpuWarmReboot = false →
    Steps (loadBootImage f) L (.call e next) → WarmRestart L → ¬ e.DrivesPl := by
  intro hAll
  obtain ⟨next, hRun⟩ := benchPlay_call [benchBitstream, benchUntyped] 0x80000000 10
    .fsblHookBeforeBitstreamDload rfl
  exact hAll bench _ _ next rfl hRun (benchPlay_warm _ 10) trivial

end WarmRestart

end SoftwarePrototypes.Fsbl
