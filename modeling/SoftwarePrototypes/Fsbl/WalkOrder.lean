import Mathlib.Data.List.Basic
import SoftwarePrototypes.Fsbl.Bench
import SoftwarePrototypes.Fsbl.TypeFlags

/-! # The walk from the first partition to the end marker

A table is accepted when it has an end marker early enough. The walk takes the entries before it
one after the other, and in the build with DDR it moves what it does not pass over.
-/

namespace SoftwarePrototypes.Fsbl

open Interaction Interaction.Prog

/-! ## The end marker -/

section Marker

def FirstEnd (header : Nat → PartHeader) (n : Nat) : Prop :=
  isLastPartition (header n) = .success ∧ ∀ i < n, isLastPartition (header i) = .failure

theorem not_failure {status : Status} (h : status ≠ .failure) : status = .success := by
  cases status with
  | success => rfl
  | failure => exact absurd rfl h

variable {header : Nat → PartHeader}

theorem le_countFrom (header : Nat → PartHeader) (left count : Nat) :
    count ≤ countFrom header left count := by
  induction left generalizing count with
  | zero => exact Nat.le_refl count
  | succ left ih =>
    rw [countFrom]
    split
    · exact Nat.le_refl count
    · exact Nat.le_of_succ_le (ih (count + 1))

theorem countFrom_eq_iff {left count n : Nat} (hBelow : count ≤ n) (hn : n < count + left) :
    countFrom header left count = n ↔ isLastPartition (header n) = .success ∧
      ∀ i, count ≤ i → i < n → isLastPartition (header i) = .failure := by
  induction left generalizing count with
  | zero => omega
  | succ left ih =>
    rw [countFrom]
    split
    · rename_i hEnd
      constructor
      · rintro rfl
        exact ⟨not_failure hEnd, fun i hLe hLt => absurd hLt (Nat.not_lt.mpr hLe)⟩
      · rintro ⟨-, hBefore⟩
        by_contra hLater
        exact hEnd (hBefore count (Nat.le_refl _) (Nat.lt_of_le_of_ne hBelow hLater))
    · rename_i hOther
      rw [not_not] at hOther
      rcases Nat.eq_or_lt_of_le hBelow with rfl | hAbove
      · constructor
        · intro hStuck
          have hNext := le_countFrom header left (count + 1)
          omega
        · rintro ⟨hEnd, -⟩
          rw [hOther] at hEnd
          cases hEnd
      · rw [ih hAbove (by omega)]
        apply and_congr_right
        intro _
        constructor
        · intro hBefore i hLe hLt
          rcases Nat.eq_or_lt_of_le hLe with rfl | hLater
          · exact hOther
          · exact hBefore i hLater hLt
        · exact fun hBefore i hLe hLt => hBefore i (by omega) hLt

variable {f : Setup} {fsblLength : U32} {table : Table}

theorem getPartitionCount_eq_iff {n : Nat} (hn : n < f.maxPartitionNumber) :
    getPartitionCount f header = n ↔ FirstEnd header n := by
  rw [getPartitionCount, countFrom_eq_iff (Nat.zero_le n) (by omega), FirstEnd]
  exact and_congr_right fun _ => forall_congr' fun i => forall_prop_of_true (Nat.zero_le i)

/-- The first end marker is in the table, and not before the second entry where the boot loader
itself has one. -/
def EndsInBounds (f : Setup) (header : Nat → PartHeader) : Prop :=
  ∃ n, FirstEnd header n ∧ n < f.maxPartitionNumber ∧ (f.mmcSupport = false → 2 ≤ n)

theorem checkCount_some (hSome : checkCount f header fsblLength = some table) :
    table.partitionHeader = header ∧ FirstEnd header table.partitionCount ∧
      table.partitionCount < f.maxPartitionNumber ∧
      (f.mmcSupport = false → 2 ≤ table.partitionCount) := by
  obtain ⟨rfl, hAccepted⟩ := checkCount_accepted hSome
  rw [hAccepted.count]
  refine ⟨rfl, (getPartitionCount_eq_iff hAccepted.bounded).mp rfl, hAccepted.bounded, ?_⟩
  intro hMmc
  by_contra hFew
  simp only [checkCount, hMmc, if_neg (Nat.not_le.mpr hAccepted.bounded)] at hSome
  rw [if_pos ⟨trivial, by omega⟩] at hSome
  cases hSome

theorem checkCount_isSome_iff :
    (checkCount f header fsblLength).isSome = true ↔ EndsInBounds f header := by
  constructor
  · intro hSome
    obtain ⟨table, hTable⟩ := Option.isSome_iff_exists.mp hSome
    exact ⟨table.partitionCount, (checkCount_some hTable).2⟩
  · rintro ⟨n, hEnd, hn, hMany⟩
    have hCount := (getPartitionCount_eq_iff hn).mpr hEnd
    have hEnough : ¬ (f.mmcSupport = false ∧ n ≤ 1) := by
      rintro ⟨hMmc, hFew⟩
      have hTwo := hMany hMmc
      omega
    simp only [checkCount, hCount, if_neg (Nat.not_le.mpr hn), if_neg hEnough]
    rfl

end Marker

/-! ## The walk -/

section Walk

variable (f : Setup) (imageStartAddress : U32) (table : Table)

/-- One `PartitionMove` that succeeds, after calls that move nothing and before the checks. -/
def MovedOnce (v : Visit) : Prop :=
  ∃ w entry moving rest, v.calls = entry ++ (moving ++ rest) ∧
    (∀ event ∈ entry, event.1.Idle) ∧
    Returns (partitionMove f imageStartAddress v.header (loadFlags f v.header w).toFlags) moving
      .success ∧
    Returns (do
      checkPartition f imageStartAddress (partitionStartAddr f imageStartAddress v.header) v.header
        (loadFlags f v.header w).toFlags
      afterHook (loadFlags f v.header w).toFlags) rest ()

/-- The visits of a walk that has done `L` and has `q` left: those it has gone on from, and
possibly one more, where it is or has stopped. -/
structure Walked (L : List Event) (q : Loader Boot) (passed : List Visit) (last : Option Visit) :
    Prop where
  visits : visits L = last.toList ++ passed
  bounded : firstPartition f + (last.toList ++ passed).length ≤ table.partitionCount
  order : ((last.toList ++ passed).map Visit.header).reverse =
    (List.range' (firstPartition f) (last.toList ++ passed).length).map table.partitionHeader
  moved : f.ddr = true → ∀ v ∈ passed, ownedByFsbl f v.header = true → v.skipped = false →
    MovedOnce f imageStartAddress v
  staying : ∀ v ∈ last, ∃ w r, Steps (partition f imageStartAddress v.header w)
    (⟨.headerDump v.header, ()⟩ :: v.calls) r ∧ ∀ w', r ≠ .ret (.next w')
  complete : last = none → ∀ boot, q = .ret boot →
    firstPartition f + passed.length = table.partitionCount

variable {f imageStartAddress table} {h : PartHeader} {w w' : Walk} {calls : List Event}
  {V : List Visit} {num : Nat}

theorem Entry.idle {reset enc : List Event} (hEntry : Entry f h w reset enc) :
    ∀ event ∈ reset ++ enc, event.1.Idle := by
  intro event hMem
  obtain hMem | hMem := List.mem_append.mp hMem
  · cases hPl : hasPlImage f h with
    | true => exact ((watchdogReset_only f).steps (hEntry.cold hPl)).1 event hMem
    | false =>
      rw [hEntry.plain hPl] at hMem
      cases hMem
  · have hOnly : Only Op.Idle (encOnlyStep f (loadFlags f h w).toFlags) :=
      encOnlyStep_only f (fun _ => trivial) (fun _ => trivial) trivial _
    exact (hOnly.steps hEntry.encOnly).1 event hMem

theorem movedOnce_of_next (hDdr : f.ddr = true)
    (hVisit : Visited f imageStartAddress h w calls (.next w'))
    (hOwned : ownedByFsbl f h = true) (hTaken : calls.any showsReset = false) :
    MovedOnce f imageStartAddress ⟨h, calls⟩ := by
  obtain ⟨hOther, -⟩ | ⟨-, -, hReset, -⟩ | ⟨-, -, -, -, reset, enc, rest, rfl, hEntry, hHandle⟩ :=
    visited_next hVisit
  · rw [hOwned] at hOther
    cases hOther
  · rw [hTaken] at hReset
    cases hReset
  · obtain ⟨-, before, placing, checking, after, rfl, hBefore, hPlacing, hChecking, hAfter⟩ :=
      handlePartition_returns hHandle
    rw [placePartition, if_pos hDdr] at hPlacing
    refine ⟨w, (reset ++ enc) ++ before, placing, checking ++ after, ?_, ?_, ?_, ?_⟩
    · simp only [List.append_assoc]
    · intro event hMem
      obtain hMem | hMem := List.mem_append.mp hMem
      · exact hEntry.idle event hMem
      · exact ((beforeHook_only _).steps hBefore).1 event hMem
    · exact movePartition_returns hPlacing
    · exact hChecking.bind hAfter

/-- What `Visited` says is all that a partition does. -/
theorem Visited.returns {step : Step} (hValid : validateHeader h = .success)
    (hVisit : Visited f imageStartAddress h w calls step) :
    Returns (partition f imageStartAddress h w) (⟨.headerDump h, ()⟩ :: calls) step := by
  have hRequire : Returns (require (validateHeader h) .invalidHeader) [] () := by
    rw [require, if_pos hValid]
    exact .refl _
  have hTyped : hasPlImage f h = true → typeFlags f h w =
      { w with plPartitionFlag := true, psPartitionFlag := false, bitstreamFlag := true } :=
    fun hPl => if_pos hPl
  refine .call (Returns.bind hRequire ?_)
  cases hVisit with
  | passedOver hOther =>
    rw [if_pos hOther]
    exact .refl _
  | late hOwned hPl hLate =>
    rw [if_neg (ne_false_of_eq_true hOwned), if_pos hPl, plPartition, hTyped hPl]
    simp only [hLate, if_true]
    exact .refl _
  | skipped hOwned hPl hEarly _ hWarm =>
    rw [if_neg (ne_false_of_eq_true hOwned), if_pos hPl, plPartition, hTyped hPl]
    simp only [hEarly, Bool.false_eq_true, if_false]
    rw [← List.append_nil calls]
    exact hWarm.bind (.refl _)
  | taken hOwned hEarly hPlain hLoad =>
    rw [if_neg (ne_false_of_eq_true hOwned)]
    cases hPl : hasPlImage f h with
    | true =>
      obtain ⟨hNoApp, hCold⟩ := hEarly hPl
      rw [hTyped hPl] at hLoad
      rw [if_pos rfl, plPartition]
      dsimp only
      rw [if_neg (ne_true_of_eq_false hNoApp)]
      exact hCold.bind hLoad
    | false =>
      rw [hPlain hPl, List.nil_append, if_neg Bool.false_ne_true]
      rw [typeFlags_of_plain hPl] at hLoad
      exact hLoad

theorem toured_order (hTour : Toured f imageStartAddress table V num w) :
    num = firstPartition f + V.length ∧ (V.map Visit.header).reverse =
      (List.range' (firstPartition f) V.length).map table.partitionHeader := by
  induction hTour with
  | start => exact ⟨rfl, rfl⟩
  | visit _ _ _ _ ih =>
    obtain ⟨rfl, hOrder⟩ := ih
    refine ⟨rfl, ?_⟩
    rw [List.map_cons, List.reverse_cons, hOrder, List.length_cons, List.range'_1_concat,
      List.map_append]
    rfl

theorem toured_moved (hDdr : f.ddr = true) (hTour : Toured f imageStartAddress table V num w)
    {v : Visit} (hMem : v ∈ V) (hOwned : ownedByFsbl f v.header = true)
    (hTaken : v.skipped = false) : MovedOnce f imageStartAddress v := by
  induction hTour with
  | start => cases hMem
  | visit _ _ _ hVisit ih =>
    obtain rfl | hMem := List.mem_cons.mp hMem
    · exact movedOnce_of_next hDdr hVisit hOwned hTaken
    · exact ih hMem

theorem toured_le (hFirst : firstPartition f ≤ table.partitionCount)
    (hTour : Toured f imageStartAddress table V num w) : num ≤ table.partitionCount := by
  cases hTour with
  | start => exact hFirst
  | visit _ hMore => exact hMore

/-- The visits of entry after entry. -/
theorem walked_of_toured {L : List Event} {q : Loader Boot} {last : Option Visit}
    (hFirst : firstPartition f ≤ table.partitionCount)
    (hTour : Toured f imageStartAddress table V num w)
    (hVisits : visits L = last.toList ++ V)
    (hLast : ∀ v ∈ last, num < table.partitionCount ∧ v.header = table.partitionHeader num ∧
      ∃ w r, Steps (partition f imageStartAddress v.header w)
        (⟨.headerDump v.header, ()⟩ :: v.calls) r ∧ ∀ w', r ≠ .ret (.next w'))
    (hComplete : last = none → ∀ boot, q = .ret boot → num = table.partitionCount) :
    Walked f imageStartAddress table L q V last := by
  obtain ⟨rfl, hOrder⟩ := toured_order hTour
  have hMoved : f.ddr = true → ∀ v ∈ V, ownedByFsbl f v.header = true → v.skipped = false →
      MovedOnce f imageStartAddress v := fun hDdr _ hMem => toured_moved hDdr hTour hMem
  cases last with
  | none =>
    refine ⟨hVisits, toured_le hFirst hTour, hOrder, hMoved, fun v hMem => ?_, hComplete⟩
    exact absurd hMem (Option.not_mem_none v)
  | some v =>
    obtain ⟨hMore, hHeader, hHere⟩ := hLast v rfl
    refine ⟨hVisits, hMore, ?_, hMoved, ?_, fun hNone => absurd hNone (Option.some_ne_none v)⟩
    · simp only [Option.toList, List.singleton_append, List.map_cons, List.reverse_cons, hOrder,
        List.length_cons, List.range'_1_concat, List.map_append, hHeader]
      rfl
    · rintro _ ⟨⟩
      exact hHere

theorem walkTable_walked {L : List Event} {q : Loader Boot}
    (hFirst : firstPartition f ≤ table.partitionCount)
    (hRun : Steps (walkTable f imageStartAddress table) L q) :
    ∃ passed last, Walked f imageStartAddress table L q passed last := by
  cases q with
  | ret boot =>
    obtain ⟨w, M, N, rfl, hWalk, hLast⟩ := returns_bind hRun
    obtain ⟨rfl, -⟩ := returns_ret.mp hLast
    rw [List.append_nil]
    have hEnded := walk_returns _ .start (Nat.le_add_left _ _) hWalk
    rw [← visits] at hEnded
    generalize hAll : visits M = all at hEnded
    cases hEnded with
    | done hTour hDone =>
      refine ⟨_, none, walked_of_toured hFirst hTour hAll ?_ fun _ _ _ => ?_⟩
      · exact fun v hMem => absurd hMem (Option.not_mem_none v)
      · exact Nat.le_antisymm (toured_le hFirst hTour) hDone
    | stopped hTour hMore hValid hVisit =>
      refine ⟨_, some _, walked_of_toured hFirst hTour hAll ?_ fun hNone => ?_⟩
      · rintro _ ⟨⟩
        refine ⟨hMore, rfl, _, _, hVisit.returns hValid, ?_⟩
        rintro w' ⟨⟩
      · cases hNone
  | call e next =>
    obtain ⟨next', hWalk⟩ | ⟨w, M, N, rfl, -, hLast⟩ := calls_bind hRun
    · have hVisiting := walk_at_call _ .start hWalk
      rw [← visits] at hVisiting
      generalize hAll : visits L = all at hVisiting
      cases hVisiting with
      | dump hTour hMore hDump =>
        refine ⟨_, none, walked_of_toured hFirst hTour hAll ?_ fun _ _ hRet => ?_⟩
        · exact fun v hMem => absurd hMem (Option.not_mem_none v)
        · cases hRet
      | amid hTour hMore hVisit =>
        refine ⟨_, some _, walked_of_toured hFirst hTour hAll ?_ fun hNone => ?_⟩
        · rintro _ ⟨⟩
          refine ⟨hMore, rfl, _, _, hVisit, ?_⟩
          rintro w' ⟨⟩
        · cases hNone
    · cases (steps_ret.mp hLast).2

/-- The loop ends by its own condition. -/
theorem walk_fuel {fuel : Nat} (hFuel : table.partitionCount ≤ num + fuel) (more : Nat) :
    walk f imageStartAddress table (fuel + more) num w =
      walk f imageStartAddress table fuel num w := by
  induction fuel generalizing num w with
  | zero =>
    cases more with
    | zero => rfl
    | succ more => rw [Nat.zero_add, walk, walk, if_neg (by omega)]
  | succ fuel ih =>
    have hSucc : fuel + 1 + more = fuel + more + 1 := by omega
    rw [hSucc, walk, walk]
    have hRest : ∀ w, walk f imageStartAddress table (fuel + more) (num + 1) w =
        walk f imageStartAddress table fuel (num + 1) w := fun w => ih (by omega)
    simp only [hRest]

theorem walk_congr {table' : Table} (hCount : table.partitionCount = table'.partitionCount)
    (hSame : ∀ i < table.partitionCount, table.partitionHeader i = table'.partitionHeader i)
    (fuel : Nat) : walk f imageStartAddress table fuel num w =
      walk f imageStartAddress table' fuel num w := by
  induction fuel generalizing num w with
  | zero => rfl
  | succ fuel ih =>
    rw [walk, walk, ← hCount]
    split
    · rename_i hMore
      rw [hSame num hMore]
      simp only [ih]
    · rfl

end Walk

/-! ## The table read -/

section Table

variable (f : Setup) (imageStartAddress : U32) (table : Table)

/-- The walk ends, depends on the entries before the count alone, and takes them in order. -/
structure WalksInOrder : Prop where
  ends : ∀ more, walk f imageStartAddress table (table.partitionCount + more) (firstPartition f)
      initialWalk =
    walk f imageStartAddress table table.partitionCount (firstPartition f) initialWalk
  inside : ∀ table' : Table, table.partitionCount = table'.partitionCount →
    (∀ i < table.partitionCount, table.partitionHeader i = table'.partitionHeader i) →
    walkTable f imageStartAddress table = walkTable f imageStartAddress table'
  inOrder : ∀ L q, Steps (walkTable f imageStartAddress table) L q →
    ∃ passed last, Walked f imageStartAddress table L q passed last

def ReadSucceeds : Event → Prop
  | ⟨.moveImage _ _ _, answer⟩ => answer.1 = .success
  | _ => True

def ReadsTable (header : Nat → PartHeader) (L : List Event) : Prop :=
  ∃ source bytes, (⟨.moveImage source .partitionHeader bytes, (.success, header)⟩ : Event) ∈ L

variable {f imageStartAddress table} {L : List Event}

theorem walksInOrder (hFirst : firstPartition f ≤ table.partitionCount) :
    WalksInOrder f imageStartAddress table where
  ends more := walk_fuel (Nat.le_add_left _ _) more
  inside table' hCount hSame := by
    rw [walkTable, walkTable, ← hCount, walk_congr hCount hSame]
  inOrder _ _ hRun := walkTable_walked hFirst hRun

theorem returns_read_success {α : Type} {destination : Destination} {source bytes : U32}
    {rest : Option destination.Data → Loader α} {value : α}
    (hRun : Returns (readInto destination source bytes >>= rest) L value)
    (hReads : ∀ event ∈ L, ReadSucceeds event) :
    ∃ data M, L = ⟨.moveImage source destination bytes, (.success, data)⟩ :: M ∧
      Returns (rest (some data)) M value ∧ ∀ event ∈ M, ReadSucceeds event := by
  obtain ⟨result, _, M, rfl, hRead, hRest⟩ := returns_bind hRun
  obtain ⟨status, data, rfl, rfl⟩ := returns_readInto hRead
  obtain ⟨hFirst, hLater⟩ := List.forall_mem_cons.mp hReads
  obtain rfl : status = .success := hFirst
  exact ⟨data, M, rfl, hRest, hLater⟩

theorem getPartitionHeaderInfo_reads {imageBaseAddress : U32} {result : Option Table}
    (hRun : Returns (getPartitionHeaderInfo f imageBaseAddress) L result)
    (hReads : ∀ event ∈ L, ReadSucceeds event) :
    ∃ header fsblLength, ReadsTable header L ∧ result = checkCount f header fsblLength := by
  obtain ⟨fsblLength, _, rfl, hOffset, hReads⟩ := returns_read_success hRun hReads
  obtain ⟨offset, _, rfl, hHeader, hReads⟩ := returns_read_success hOffset hReads
  obtain ⟨header, _, rfl, hCheck, -⟩ := returns_read_success hHeader hReads
  obtain ⟨rfl, hResult⟩ := returns_ret.mp hCheck
  exact ⟨header, fsblLength, ⟨_, _, .tail _ (.tail _ (.head _))⟩, hResult⟩

theorem firstPartition_le (hMany : f.mmcSupport = false → 2 ≤ table.partitionCount) :
    firstPartition f ≤ table.partitionCount := by
  rw [firstPartition]
  split
  · exact Nat.zero_le _
  · rename_i hMmc
    exact Nat.le_of_succ_le (hMany (eq_false_of_ne_true hMmc))

/-- The walk is that of a table read and accepted. -/
theorem prepareWalk_table
    (hRun : Returns (prepareWalk f) L (some (imageStartAddress, table))) :
    ReadsTable table.partitionHeader L ∧
      ∃ fsblLength, checkCount f table.partitionHeader fsblLength = some table := by
  obtain ⟨start, reading, securing, rfl, -, hInfo, -⟩ := prepareWalk_returns hRun
  obtain ⟨fsblLength, _, rfl, hOffset⟩ := returns_read hInfo rfl nofun
  obtain ⟨offset, _, rfl, hHeader⟩ := returns_read hOffset rfl nofun
  obtain ⟨header, _, rfl, hCheck⟩ := returns_read hHeader rfl nofun
  obtain ⟨rfl, hSome⟩ := returns_ret.mp hCheck
  have hSame := (checkCount_some hSome.symm).1
  refine ⟨?_, fsblLength, hSame ▸ hSome.symm⟩
  rw [hSame]
  exact ⟨_, _, List.mem_append_right _ (.tail _ (.tail _ (.head _)))⟩

/-- A boot that has come to the walk of a table, or of one that is walked alike. -/
theorem loadBootImage_walked {M : List Event} {q : Loader Boot} {table' : Table}
    (hRun : Steps (loadBootImage f) (L ++ M) q)
    (hWalk : Returns (prepareWalk f) L (some (imageStartAddress, table')))
    (hFirst : firstPartition f ≤ table.partitionCount)
    (hSame : walkTable f imageStartAddress table = walkTable f imageStartAddress table') :
    ∃ passed last, Walked f imageStartAddress table (L ++ M) q passed last := by
  rw [loadBootImage_eq] at hRun
  have hTable : Steps (walkTable f imageStartAddress table') M q := hWalk.rest hRun
  rw [← hSame] at hTable
  obtain ⟨passed, last, hWalked⟩ := walkTable_walked hFirst hTable
  have hNone : visits L = [] := visits_of_prepares ((prepareWalk_only f).steps hWalk).1
  refine ⟨passed, last, { hWalked with visits := ?_ }⟩
  rw [visits, List.foldl_append, ← visits, hNone]
  exact hWalked.visits

theorem walk_complete {imageBaseAddress : U32} {result : Option Table}
    (hRun : Returns (getPartitionHeaderInfo f imageBaseAddress) L result)
    (hReads : ∀ event ∈ L, ReadSucceeds event) :
    ∃ header, ReadsTable header L ∧ (result.isSome = true ↔ EndsInBounds f header) ∧
      ∀ table, result = some table → table.partitionHeader = header ∧
        FirstEnd header table.partitionCount ∧
        ∀ imageStartAddress, WalksInOrder f imageStartAddress table := by
  obtain ⟨header, fsblLength, hTable, rfl⟩ := getPartitionHeaderInfo_reads hRun hReads
  refine ⟨header, hTable, checkCount_isSome_iff, fun table hSome => ?_⟩
  obtain ⟨hHeader, hEnd, -, hMany⟩ := checkCount_some hSome
  exact ⟨hHeader, hEnd, fun _ => walksInOrder (firstPartition_le hMany)⟩

/-! ### On the bench -/

theorem deviceAnswer_reads {header : Nat → PartHeader} {register : U32 → U32} {event : Event}
    (hAnswer : deviceAnswer header register event.1 = some event.2) : ReadSucceeds event := by
  obtain ⟨e, answer⟩ := event
  cases e with
  | moveImage source destination bytes =>
    obtain rfl := Option.some.inj hAnswer
    rfl
  | _ => trivial

def benchRead : List Event × Loader (Option Table) :=
  play (deviceAnswer (benchTable benchApplication) fun _ => 0) 4 (getPartitionHeaderInfo bench 0)

theorem walk_complete_bench : ∃ header, ReadsTable header benchRead.1 ∧
    ((checkCount bench (benchTable benchApplication) 0).isSome = true ↔
      EndsInBounds bench header) ∧
    ∀ table, checkCount bench (benchTable benchApplication) 0 = some table →
      table.partitionHeader = header ∧ FirstEnd header table.partitionCount ∧
      ∀ imageStartAddress, WalksInOrder bench imageStartAddress table :=
  walk_complete (returns_play rfl) fun event hMem =>
    deviceAnswer_reads (play_answers 4 _ event hMem)

end Table

end SoftwarePrototypes.Fsbl
