import Mathlib.Algebra.BigOperators.Group.List.Basic
import Mathlib.Data.BitVec
import SoftwarePrototypes.Fsbl.WalkOrder

/-! # A changed word in the partition table

The words of a header add up to all ones, in a valid header as in the end marker. A table with one
word changed is not accepted, or is walked up to the changed entry at most.
-/

namespace SoftwarePrototypes.Fsbl

open Interaction Interaction.Prog

/-! ## The checksum -/

section Checksum

variable {h h' : PartHeader}

theorem checksum_iff :
    validatePartitionHeaderChecksum h = .success ↔ h.fields.sum = BitVec.allOnes 32 := by
  have hSum : h.fields.sum = (h.fields.take hdrChecksumWordCount).foldl (· + ·) 0 +
      h.fields.getD hdrChecksumWordCount 0 := by
    rw [List.sum_eq_foldl]
    rfl
  have hOnes : (0xFFFFFFFF : U32) = BitVec.allOnes 32 := rfl
  rw [validatePartitionHeaderChecksum, hOnes, BitVec.xor_allOnes, hSum, BitVec.add_comm,
    ← BitVec.eq_sub_iff_add_eq, BitVec.allOnes_sub_eq_not]
  split
  · rename_i hOther
    exact ⟨nofun, fun hSame => absurd hSame hOther⟩
  · rename_i hSame
    exact ⟨fun _ => not_not.mp hSame, fun _ => rfl⟩

theorem valid_sum (hValid : validateHeader h = .success) : h.fields.sum = BitVec.allOnes 32 := by
  rw [← checksum_iff]
  unfold validateHeader at hValid
  split at hValid
  · cases hValid
  split at hValid
  · cases hValid
  · rename_i hSum
    exact not_not.mp hSum

theorem marker_sum (hEnd : isLastPartition h = .success) :
    h.fields.sum = BitVec.allOnes 32 := by
  rw [isLastPartition] at hEnd
  split at hEnd
  · cases hEnd
  rename_i hLast
  split at hEnd
  · cases hEnd
  rename_i hZero
  rw [not_not] at hLast
  have hWords : h.fields = h.fields.take hdrChecksumWordCount ++
      [h.fields.getD hdrChecksumWordCount 0] := rfl
  have hNone : (h.fields.take hdrChecksumWordCount).sum = 0 := by
    apply List.sum_eq_zero
    intro x hMem
    rw [List.any_eq_true] at hZero
    by_contra hNonzero
    exact hZero ⟨x, hMem, decide_eq_true hNonzero⟩
  rw [hWords, List.sum_append, hNone, hLast]
  rfl

/-- One word has another value. -/
def ChangedWord (h h' : PartHeader) : Prop :=
  ∃ (i : Nat) (value : U32), i < h.fields.length ∧ h.fields[i]? ≠ some value ∧
    h'.fields = h.fields.set i value

theorem ChangedWord.sum_ne (hChanged : ChangedWord h h') : h'.fields.sum ≠ h.fields.sum := by
  obtain ⟨i, value, hi, hOther, hFields⟩ := hChanged
  rw [hFields, List.sum_set', dif_pos hi, Ne, add_eq_left, neg_add_eq_zero]
  rw [List.getElem?_eq_getElem hi, Ne, Option.some.injEq] at hOther
  exact hOther

theorem ChangedWord.rejected (hChanged : ChangedWord h h')
    (hSum : h.fields.sum = BitVec.allOnes 32) :
    validateHeader h' ≠ .success ∧ isLastPartition h' = .failure := by
  have hOther : h'.fields.sum ≠ BitVec.allOnes 32 := hSum ▸ hChanged.sum_ne
  constructor
  · exact fun hValid => hOther (valid_sum hValid)
  · by_contra hEnd
    exact hOther (marker_sum (not_failure hEnd))

end Checksum

/-! ## The table -/

section Table

/-- Valid headers before the end marker. -/
structure WellFormed (f : Setup) (header : Nat → PartHeader) (n : Nat) : Prop where
  bounded : n < f.maxPartitionNumber
  marker : FirstEnd header n
  valid : ∀ i < n, validateHeader (header i) = .success

structure Corrupted (f : Setup) (header header' : Nat → PartHeader) (k : Nat) : Prop where
  changed : ChangedWord (header k) (header' k)
  same : ∀ i < f.maxPartitionNumber, i ≠ k → header' i = header i

variable {f : Setup} {header header' : Nat → PartHeader} {n k : Nat}

theorem WellFormed.sum (hTable : WellFormed f header n) (hk : k ≤ n) :
    (header k).fields.sum = BitVec.allOnes 32 := by
  rcases Nat.eq_or_lt_of_le hk with rfl | hHeader
  · exact marker_sum hTable.marker.1
  · exact valid_sum (hTable.valid k hHeader)

theorem Corrupted.rejected (hCorrupted : Corrupted f header header' k)
    (hTable : WellFormed f header n) (hk : k ≤ n) :
    validateHeader (header' k) ≠ .success ∧ isLastPartition (header' k) = .failure :=
  hCorrupted.changed.rejected (hTable.sum hk)

/-- A changed header is not taken for the end marker. -/
theorem Corrupted.count_eq (hCorrupted : Corrupted f header header' k)
    (hTable : WellFormed f header n) (hk : k < n) : getPartitionCount f header' = n := by
  have hBounded := hTable.bounded
  rw [getPartitionCount_eq_iff hBounded]
  constructor
  · rw [hCorrupted.same n hBounded (Nat.ne_of_gt hk)]
    exact hTable.marker.1
  · intro i hi
    by_cases hHere : i = k
    · rw [hHere]
      exact (hCorrupted.rejected hTable (Nat.le_of_lt hk)).2
    · rw [hCorrupted.same i (Nat.lt_trans hi hBounded) hHere]
      exact hTable.marker.2 i hi

theorem Corrupted.lt_count (hCorrupted : Corrupted f header header' k)
    (hTable : WellFormed f header n) (hk : k ≤ n) : k < getPartitionCount f header' := by
  have hBounded := hTable.bounded
  by_contra hEarly
  rw [Nat.not_lt] at hEarly
  have hEnd := ((getPartitionCount_eq_iff (by omega)).mp
    (rfl : getPartitionCount f header' = getPartitionCount f header')).1
  rcases Nat.eq_or_lt_of_le hEarly with hHere | hBefore
  · rw [hHere, (hCorrupted.rejected hTable hk).2] at hEnd
    cases hEnd
  · rw [hCorrupted.same _ (by omega) (Nat.ne_of_lt hBefore),
      hTable.marker.2 _ (by omega)] at hEnd
    cases hEnd

end Table

/-! ## The run -/

section Run

variable {f : Setup} {imageStartAddress : U32} {table : Table} {h : PartHeader} {w : Walk}
  {V U : List Visit} {v : Visit} {num : Nat} {calls : List Event}

/-- A rejected header leads to the fallback, and to no other call. -/
def Rejected (e : Op) (calls : List Event) : Prop :=
  (calls = [] ∧ e = .outputStatus .invalidHeader) ∨
    (calls = [⟨.outputStatus .invalidHeader, ()⟩] ∧ e = .fsblFallback)

theorem partition_rejects (hBad : validateHeader h ≠ .success) :
    partition f imageStartAddress h w =
      op (.headerDump h) >>= fun _ => fallback .invalidHeader := by
  have hRequire : require (validateHeader h) .invalidHeader = fallback .invalidHeader := if_neg hBad
  rw [partition, hRequire]
  exact congrArg _ (funext fun _ => fallback_bind _ _)

theorem rejected_of_steps {e : Op} {next : Answer e → Loader Step}
    (hBad : validateHeader h ≠ .success)
    (hRun : Steps (partition f imageStartAddress h w) (⟨.headerDump h, ()⟩ :: calls)
      (.call e next)) : Rejected e calls := by
  rw [partition_rejects hBad] at hRun
  have hFallback := steps_ask_cons hRun
  cases hFallback with
  | refl => exact .inl ⟨rfl, rfl⟩
  | call hRest =>
    cases hRest with
    | refl => exact .inr ⟨rfl, rfl⟩
    | call hNever =>
      rename_i never _
      exact nomatch never

theorem toured_valid (hTour : Toured f imageStartAddress table V num w) (hSuffix : v :: U <:+ V) :
    validateHeader (table.partitionHeader (firstPartition f + U.length)) = .success := by
  induction hTour with
  | start => cases List.suffix_nil.mp hSuffix
  | visit hTour _ hValid _ ih =>
    obtain hHere | hBelow := List.suffix_cons_iff.mp hSuffix
    · cases hHere
      rw [← (toured_order hTour).1]
      exact hValid
    · exact ih hBelow

/-- A walk that has come to a bad header is on its way to the fallback. -/
theorem visiting_rejected {e : Op}
    (hBad : validateHeader (table.partitionHeader (firstPartition f + U.length)) ≠ .success)
    (hVisiting : Visiting f imageStartAddress table e V) (hSuffix : v :: U <:+ V) :
    v :: U = V ∧ v.header = table.partitionHeader (firstPartition f + U.length) ∧
      Rejected e v.calls := by
  cases hVisiting with
  | dump hTour _ _ => exact absurd (toured_valid hTour hSuffix) hBad
  | amid hTour _ hVisit =>
    obtain hHere | hBelow := List.suffix_cons_iff.mp hSuffix
    · cases hHere
      obtain ⟨rfl, -⟩ := toured_order hTour
      exact ⟨rfl, rfl, rejected_of_steps hBad hVisit⟩
    · exact absurd (toured_valid hTour hBelow) hBad

theorem ended_valid (hEnded : Ended f imageStartAddress table V w) (hSuffix : v :: U <:+ V) :
    validateHeader (table.partitionHeader (firstPartition f + U.length)) = .success := by
  cases hEnded with
  | done hTour _ => exact toured_valid hTour hSuffix
  | stopped hTour _ hValid _ =>
    obtain hHere | hBelow := List.suffix_cons_iff.mp hSuffix
    · cases hHere
      rw [← (toured_order hTour).1]
      exact hValid
    · exact toured_valid hTour hBelow

/-- The visits of a boot are those of a table that was read and accepted. -/
theorem visits_table {L : List Event} {q : Loader Boot} (hRun : Steps (loadBootImage f) L q)
    (hSome : visits L ≠ []) : ∃ imageStartAddress table fsblLength,
      ReadsTable table.partitionHeader L ∧
      checkCount f table.partitionHeader fsblLength = some table ∧
      ((∃ w, Ended f imageStartAddress table (visits L) w) ∨
        ∃ e next, q = .call e next ∧ Visiting f imageStartAddress table e (visits L)) := by
  have hLater : ∀ {header : Nat → PartHeader} {M : List Event} (N : List Event),
      ReadsTable header M → ReadsTable header (M ++ N) := by
    rintro header M N ⟨source, bytes, hMem⟩
    exact ⟨source, bytes, List.mem_append_left N hMem⟩
  cases q with
  | ret boot =>
    obtain ⟨-, hNone, -⟩ | ⟨imageStartAddress, table, M, N, w, rfl, hPrepare, -, hEnded, -⟩ :=
      loadBootImage_returns hRun
    · exact absurd hNone hSome
    · obtain ⟨hTable, fsblLength, hCheck⟩ := prepareWalk_table hPrepare
      exact ⟨_, table, fsblLength, hLater N hTable, hCheck, .inl ⟨w, hEnded⟩⟩
  | call e next =>
    obtain ⟨-, hNone⟩ | ⟨imageStartAddress, table, M, N, rfl, hPrepare, hVisiting⟩ :=
      loadBootImage_at_call hRun
    · exact absurd hNone hSome
    · obtain ⟨hTable, fsblLength, hCheck⟩ := prepareWalk_table hPrepare
      exact ⟨_, table, fsblLength, hLater N hTable, hCheck, .inr ⟨e, next, rfl, hVisiting⟩⟩

theorem corruption_rejected {header header' : Nat → PartHeader} {n k : Nat} {L : List Event}
    {q : Loader Boot} (hTable : WellFormed f header n) (hk : k ≤ n)
    (hCorrupted : Corrupted f header header' k) (hRun : Steps (loadBootImage f) L q)
    (hDevice : ∀ other, ReadsTable other L → other = header') :
    (∀ fsblLength, checkCount f header' fsblLength = none) ∧ visits L = [] ∨
      k < getPartitionCount f header' ∧ (k < n → getPartitionCount f header' = n) ∧
      ∀ v U, v :: U <:+ visits L → firstPartition f + U.length = k →
        v :: U = visits L ∧ v.header = header' k ∧
          ∃ e next, q = .call e next ∧ Rejected e v.calls := by
  have hWalked : ∀ {v U}, v :: U <:+ visits L → visits L ≠ [] := by
    intro v U hSuffix hNone
    rw [hNone] at hSuffix
    cases List.suffix_nil.mp hSuffix
  by_cases hEnds : EndsInBounds f header'
  · refine .inr ⟨hCorrupted.lt_count hTable hk, hCorrupted.count_eq hTable, ?_⟩
    rintro v U hSuffix rfl
    have hBad := (hCorrupted.rejected hTable hk).1
    obtain ⟨imageStartAddress, table, fsblLength, hRead, -, hWalk⟩ :=
      visits_table hRun (hWalked hSuffix)
    rw [← hDevice _ hRead] at hBad ⊢
    obtain ⟨w, hEnded⟩ | ⟨e, next, rfl, hVisiting⟩ := hWalk
    · exact absurd (ended_valid hEnded hSuffix) hBad
    · obtain ⟨hLast, hHeader, hRejected⟩ := visiting_rejected hBad hVisiting hSuffix
      exact ⟨hLast, hHeader, e, next, rfl, hRejected⟩
  · have hNone : ∀ fsblLength, checkCount f header' fsblLength = none := by
      intro fsblLength
      rw [← Option.not_isSome_iff_eq_none]
      exact fun hSome => hEnds (checkCount_isSome_iff.mp hSome)
    refine .inl ⟨hNone, ?_⟩
    by_contra hSome
    obtain ⟨_, table, fsblLength, hRead, hCheck, -⟩ := visits_table hRun hSome
    rw [hDevice _ hRead, hNone] at hCheck
    cases hCheck

/-! ### On the bench -/

/-- The application's load address has changed, but not its checksum. -/
def changedApplication : PartHeader := { benchApplication with loadAddr := 0x200000 }

theorem benchTable_wellFormed : WellFormed bench (benchTable benchApplication) 2 :=
  ⟨by decide, ⟨rfl, by decide⟩, by decide⟩

theorem changedApplication_corrupted :
    Corrupted bench (benchTable benchApplication) (benchTable changedApplication) 1 where
  changed := ⟨3, 0x200000, by decide, by decide, rfl⟩
  same i _ hOther := by
    cases i with
    | zero => rfl
    | succ i =>
      cases i with
      | zero => exact absurd rfl hOther
      | succ i => rfl

def changedRun : List Event × Loader Boot :=
  play (deviceAnswer (benchTable changedApplication) fun _ => 0) 30 (loadBootImage bench)

theorem changedRun_table {other : Nat → PartHeader} (hRead : ReadsTable other changedRun.1) :
    other = benchTable changedApplication := by
  obtain ⟨source, bytes, hMem⟩ := hRead
  have hAnswer := play_answers 30 _ _ hMem
  cases hAnswer
  rfl

theorem corruption_rejected_bench :
    (∀ fsblLength, checkCount bench (benchTable changedApplication) fsblLength = none) ∧
        visits changedRun.1 = [] ∨
      1 < getPartitionCount bench (benchTable changedApplication) ∧
      (1 < 2 → getPartitionCount bench (benchTable changedApplication) = 2) ∧
      ∀ v U, v :: U <:+ visits changedRun.1 → firstPartition bench + U.length = 1 →
        v :: U = visits changedRun.1 ∧ v.header = changedApplication ∧
          ∃ e next, changedRun.2 = .call e next ∧ Rejected e v.calls :=
  corruption_rejected benchTable_wellFormed (by decide) changedApplication_corrupted
    (steps_play _ 30 _) fun _ => changedRun_table

end Run

end SoftwarePrototypes.Fsbl
