import SoftwarePrototypes.Fsbl.PointerWords
import SoftwarePrototypes.Ssbl.Main

/-! # The agreement of the boot loaders

Without DDR the first boot loader leaves two pointer words in the OCM for the second one: where the
data of the application starts in the flash, and where to hand off to. It records the start of a
partition for both, and the second boot loader copies to the start of the high OCM whatever load
address the data has.
-/

namespace SoftwarePrototypes.Ssbl

open Interaction Interaction.Prog Interaction.Memory Fsbl

/-! ## The memory that the walk leaves -/

section Left

variable (f : Setup) (ocmCfg : U32)

def storeWords (stores : List (U32 × U32)) (m : Mem Cell) : Mem Cell :=
  stores.foldl (fun m store => store32 (cell ocmCfg) m store.1 store.2) m

/-- A call leaves the block that the boot loaders share as it is, but for the word that it stores
and where it moves data to. The rest of the memory may change: the first boot loader runs there. -/
def Leaves (event : Event) (m m' : Mem Cell) : Prop :=
  ∀ a : U32, 0xFFFF0000 ≤ a.toNat → a ∉ event.1.writes.addresses →
    m' (cell ocmCfg a) = storeWords ocmCfg (storeOf event).toList m (cell ocmCfg a)

def LeavesAll : List Event → Mem Cell → Mem Cell → Prop
  | [], m, m' => ∀ a : U32, 0xFFFF0000 ≤ a.toNat → m' (cell ocmCfg a) = m (cell ocmCfg a)
  | event :: L, m, m' => ∃ m₁, Leaves ocmCfg event m m₁ ∧ LeavesAll L m₁ m'

/-- The memory after each visit; the visits are listed with the latest first. -/
def Remembers (V : List Visit) (mem : List Visit → Mem Cell) : Prop :=
  ∀ v U, v :: U <:+ V → LeavesAll ocmCfg v.calls (mem U) (mem (v :: U))

variable {f ocmCfg} {stores stores' : List (U32 × U32)} {m m' : Mem Cell} {a : U32} {c : Cell}

theorem storeWords_nil : storeWords ocmCfg [] m = m := rfl

theorem storeWords_append : storeWords ocmCfg (stores ++ stores') m =
    storeWords ocmCfg stores' (storeWords ocmCfg stores m) :=
  List.foldl_append

theorem storeWords_congr (h : m c = m' c) :
    storeWords ocmCfg stores m c = storeWords ocmCfg stores m' c := by
  induction stores generalizing m m' with
  | nil => exact h
  | cons store stores ih => exact ih (storeBytes_congr h)

theorem storeWords_of_ne (h : ∀ store ∈ stores, ∀ i < 4, a ≠ store.1 + BitVec.ofNat 32 i) :
    storeWords ocmCfg stores m (cell ocmCfg a) = m (cell ocmCfg a) := by
  induction stores generalizing m with
  | nil => rfl
  | cons store stores ih =>
    obtain ⟨hFirst, hRest⟩ := List.forall_mem_cons.mp h
    refine (ih hRest).trans (store32_of_ne fun i hi hSame => ?_)
    exact hFirst i hi (cell_injective _ hSame)

theorem leavesAll_shared {L : List Event} (hLeaves : LeavesAll ocmCfg L m m')
    (hAddr : 0xFFFF0000 ≤ a.toNat) (hOut : ∀ event ∈ L, a ∉ event.1.writes.addresses) :
    m' (cell ocmCfg a) = storeWords ocmCfg (storesOf L) m (cell ocmCfg a) := by
  induction L generalizing m with
  | nil => exact hLeaves a hAddr
  | cons event L ih =>
    obtain ⟨m₁, hFirst, hRest⟩ := hLeaves
    obtain ⟨hHere, hLater⟩ := List.forall_mem_cons.mp hOut
    rw [storesOf_cons, storeWords_append, ih hRest hLater]
    exact storeWords_congr (hFirst a hAddr hHere)

theorem Remembers.below {v : Visit} {V : List Visit} {mem : List Visit → Mem Cell}
    (hMem : Remembers ocmCfg (v :: V) mem) : Remembers ocmCfg V mem :=
  fun u U hSuffix => hMem u U (hSuffix.trans (List.suffix_cons v V))

end Left

/-! ## The pointer words -/

section Pointers

variable {f : Setup} {imageStartAddress ocmCfg : U32} {h : PartHeader} {m : Mem Cell} {a : U32}

theorem pointers_apart {i j : Nat} (hi : i < 4) (hj : j < 4) :
    handoffPtrAddr + BitVec.ofNat 32 i ≠ flashDataPtrAddr + BitVec.ofNat 32 j := by
  intro hSame
  have hNat := congrArg BitVec.toNat hSame
  rw [handoffPtrAddr_add hi, flashDataPtrAddr_add hj] at hNat
  omega

theorem eq_of_mem_ite {c : Bool} {store one : U32 × U32}
    (hMem : store ∈ if c then [one] else []) : store = one := by
  cases c with
  | true => exact List.mem_singleton.mp hMem
  | false => cases hMem

theorem recorded_handoff {i : Nat} (hi : i < 4) :
    storeWords ocmCfg (recordedWords f imageStartAddress h) m
        (cell ocmCfg (handoffPtrAddr + BitVec.ofNat 32 i)) =
      if recordsHandoff f h then byteOf (partitionStartAddr f imageStartAddress h) i
      else m (cell ocmCfg (handoffPtrAddr + BitVec.ofNat 32 i)) := by
  rw [recordedWords, storeWords_append, storeWords_of_ne]
  · cases recordsHandoff f h with
    | true => exact store32_at (cell_injective _) (by decide) hi
    | false => rfl
  · intro store hMem j hj
    rw [eq_of_mem_ite hMem]
    exact pointers_apart hi hj

theorem recorded_data {i : Nat} (hi : i < 4) :
    storeWords ocmCfg (recordedWords f imageStartAddress h) m
        (cell ocmCfg (flashDataPtrAddr + BitVec.ofNat 32 i)) =
      if recordsData f h then byteOf (partitionStartAddr f imageStartAddress h) i
      else m (cell ocmCfg (flashDataPtrAddr + BitVec.ofNat 32 i)) := by
  rw [recordedWords, storeWords_append]
  cases recordsData f h with
  | true => exact store32_at (cell_injective _) (by decide) hi
  | false =>
    have hNone : ¬ (false = true) := Bool.false_ne_true
    rw [if_neg hNone, if_neg hNone, storeWords_nil]
    refine storeWords_of_ne fun store hMem j hj => ?_
    rw [eq_of_mem_ite hMem]
    exact (pointers_apart hj hi).symm

theorem recorded_other (hHandoff : ∀ i < 4, a ≠ handoffPtrAddr + BitVec.ofNat 32 i)
    (hData : ∀ i < 4, a ≠ flashDataPtrAddr + BitVec.ofNat 32 i) :
    storeWords ocmCfg (recordedWords f imageStartAddress h) m (cell ocmCfg a) =
      m (cell ocmCfg a) := by
  refine storeWords_of_ne fun store hMem i hi => ?_
  obtain hMem | hMem := List.mem_append.mp hMem
  · rw [eq_of_mem_ite hMem]
    exact hHandoff i hi
  · rw [eq_of_mem_ite hMem]
    exact hData i hi

end Pointers

/-! ## Runs -/

section Runs

variable (f : Setup) (imageStartAddress ocmCfg : U32)

/-- The partitions from the last one with a property on, the latest first. -/
def fromLast (r : PartHeader → Bool) : List PartHeader → List PartHeader
  | [] => []
  | h :: R => if r h then [h] else h :: fromLast r R

/-- A word where the visit of a partition with the property stores the start of the partition. -/
structure Pointer (p : U32) (r : PartHeader → Bool) : Prop where
  high : ∀ i < 4, 0xFFFF0000 ≤ (p + BitVec.ofNat 32 i).toNat
  recorded : ∀ h m, ∀ i < 4, storeWords ocmCfg (recordedWords f imageStartAddress h) m
    (cell ocmCfg (p + BitVec.ofNat 32 i)) = if r h then
      byteOf (partitionStartAddr f imageStartAddress h) i
      else m (cell ocmCfg (p + BitVec.ofNat 32 i))

variable {f imageStartAddress ocmCfg} {V : List Visit} {mem : List Visit → Mem Cell} {v : Visit}
  {a : U32}

theorem handoffPointer :
    Pointer f imageStartAddress ocmCfg handoffPtrAddr (recordsHandoff f) := by
  constructor
  · intro i hi
    rw [handoffPtrAddr_add hi]
    omega
  · exact fun h m i hi => recorded_handoff hi

theorem dataPointer : Pointer f imageStartAddress ocmCfg flashDataPtrAddr (recordsData f) := by
  constructor
  · intro i hi
    rw [flashDataPtrAddr_add hi]
    omega
  · exact fun h m i hi => recorded_data hi

theorem visit_leaves (hAs : v.AsPs f imageStartAddress)
    (hMem : Remembers ocmCfg (v :: V) mem) (hAddr : 0xFFFF0000 ≤ a.toNat)
    (hOut : a ∉ touched f imageStartAddress v.header) :
    mem (v :: V) (cell ocmCfg a) =
      storeWords ocmCfg (recordedWords f imageStartAddress v.header) (mem V) (cell ocmCfg a) := by
  rw [← hAs.stores]
  exact leavesAll_shared (hMem v V (List.suffix_refl _)) hAddr
    fun event hEvent ha => hOut (hAs.moves event hEvent a ha)

/-- After some visits, a byte of a pointer word is that of the last partition recorded, if any, and
if no data is moved over it from then on. -/
theorem pointer_byte {p : U32} {r : PartHeader → Bool} {later U : List Visit} {i : Nat}
    (hPointer : Pointer f imageStartAddress ocmCfg p r)
    (hAs : ∀ u ∈ later, u.AsPs f imageStartAddress) (hMem : Remembers ocmCfg (later ++ U) mem)
    (hKept : ∀ h ∈ fromLast r (later.map Visit.header),
      p + BitVec.ofNat 32 i ∉ touched f imageStartAddress h) (hi : i < 4) :
    mem (later ++ U) (cell ocmCfg (p + BitVec.ofNat 32 i)) =
      match (later.map Visit.header).find? r with
      | some h => byteOf (partitionStartAddr f imageStartAddress h) i
      | none => mem U (cell ocmCfg (p + BitVec.ofNat 32 i)) := by
  induction later with
  | nil => rfl
  | cons v later ih =>
    obtain ⟨hHere, hRest⟩ := List.forall_mem_cons.mp hAs
    rw [List.map_cons, fromLast] at hKept
    have hOut : p + BitVec.ofNat 32 i ∉ touched f imageStartAddress v.header := by
      apply hKept
      split <;> exact List.mem_cons_self
    rw [List.cons_append] at hMem
    rw [List.cons_append, visit_leaves hHere hMem (hPointer.high i hi) hOut,
      hPointer.recorded _ _ i hi, List.map_cons]
    cases hRecords : r v.header with
    | true => rw [if_pos rfl, List.find?_cons_of_pos hRecords]
    | false =>
      have hNot : ¬ (false = true) := Bool.false_ne_true
      rw [hRecords, if_neg hNot] at hKept
      rw [if_neg hNot, List.find?_cons_of_neg (by rw [hRecords]; exact hNot)]
      exact ih hRest hMem.below fun h hIn => hKept h (List.mem_cons_of_mem _ hIn)

/-- Once a partition has been moved, it stays where nothing is moved over it or recorded. -/
theorem byte_kept {later U : List Visit} (hAs : ∀ u ∈ later, u.AsPs f imageStartAddress)
    (hMem : Remembers ocmCfg (later ++ U) mem) (hAddr : 0xFFFF0000 ≤ a.toNat)
    (hHandoff : ∀ i < 4, a ≠ handoffPtrAddr + BitVec.ofNat 32 i)
    (hData : ∀ i < 4, a ≠ flashDataPtrAddr + BitVec.ofNat 32 i)
    (hOut : ∀ u ∈ later, a ∉ touched f imageStartAddress u.header) :
    mem (later ++ U) (cell ocmCfg a) = mem U (cell ocmCfg a) := by
  induction later with
  | nil => rfl
  | cons v later ih =>
    obtain ⟨hHere, hRest⟩ := List.forall_mem_cons.mp hAs
    obtain ⟨hClear, hClearRest⟩ := List.forall_mem_cons.mp hOut
    rw [List.cons_append] at hMem
    rw [List.cons_append, visit_leaves hHere hMem hAddr hClear, recorded_other hHandoff hData]
    exact ih hRest hMem.below hClearRest

/-- The bytes of a pointer word after the walk are those of the last partition recorded in it, if
any, and if no data is moved over it from then on. -/
theorem pointer_final {p : U32} {r : PartHeader → Bool} {i : Nat}
    (hPointer : Pointer f imageStartAddress ocmCfg p r) (hPs : PsOnwards f imageStartAddress V)
    (hMem : Remembers ocmCfg V mem)
    (hKept : ∀ u ∈ fromLast r (psVisited f V),
      p + BitVec.ofNat 32 i ∉ touched f imageStartAddress u)
    (hi : i < 4) :
    mem V (cell ocmCfg (p + BitVec.ofNat 32 i)) =
      match (psVisited f V).find? r with
      | some h => byteOf (partitionStartAddr f imageStartAddress h) i
      | none => mem (earlier f V) (cell ocmCfg (p + BitVec.ofNat 32 i)) := by
  obtain ⟨later, hSplit, hHeaders, hAs⟩ := hPs.split
  rw [hSplit] at hMem
  have hByte := pointer_byte hPointer hAs hMem (hHeaders ▸ hKept) hi
  rwa [← hSplit, hHeaders] at hByte

end Runs

/-! ## The agreement -/

section Agreement

variable (f : Setup) (imageStartAddress : U32)

/-- A boot of an image without DDR, with the flash below the OCM at the top. -/
structure XipBoard (ocmCfg : U32) : Prop where
  noDdr : f.ddr = false
  shared : SharedHigh ocmCfg
  flashAbove : 0x40000 ≤ f.qspiFlashBaseaddr.toNat
  flashBelow : f.qspiFlashHighaddr.toNat < 0xFF000000

/-- The PS partitions are, in any order, the text and the data of an application that is executed
in place, and the second boot loader. The walk gets to the data, which it records, and to the second
boot loader, which it moves. -/
structure XipImage (table : Table) (V : List Visit) (text data ssbl : PartHeader) : Prop where
  partitions : ((partitions f table).filter (psPartition f)).Perm [text, data, ssbl]
  textInFlash : inQspiFlash f text.execAddr = true
  dataLoadAddr : 0xFFFC0000 ≤ data.loadAddr.toNat ∧ data.loadAddr.toNat < 0xFFFF0000
  dataExecAddr : data.execAddr = 0
  dataFits : data.loadAddr.toNat - 0xFFFC0000 + 4 * data.imageWordLen.toNat ≤ lowOcmSize
  dataInFlash : inQspiFlash f (partitionStartAddr f imageStartAddress data) = true
  dataVisited : data ∈ psVisited f V
  ssblVisited : ssbl ∈ psVisited f V
  ssblLoadAddr : 0xFFFF0000 ≤ ssbl.loadAddr.toNat
  ssblMoved : movedAsPs f ssbl = true
  ssblFits : ssbl.loadAddr.toNat + movedBytes f ssbl ≤ 0x100000000

/-- The table of the image that a run finds. -/
def FindsTable (table : Table) (L : List Event) : Prop :=
  ∃ M N, L = M ++ N ∧ Returns (prepareWalk f) M (some (imageStartAddress, table))

/-- The data is in place, the handoff goes to the text, and the second boot loader is as it was when
it had been moved to the OCM. -/
structure Agrees (V : List Visit) (mem : List Visit → Mem Cell) (b : Board)
    (text data ssbl : PartHeader) : Prop where
  copied : ∀ j < 4 * data.imageWordLen.toNat,
    (main b).board.memory (cell (main b).board.ocmCfg (data.loadAddr + BitVec.ofNat 32 j)) =
      b.memory (.bus (partitionStartAddr f imageStartAddress data + BitVec.ofNat 32 j))
  jump : (main b).jump = text.execAddr
  image : ∀ later v U, V = later ++ v :: U → v.header = ssbl → (∀ u ∈ later, u.header ≠ ssbl) →
    ∀ a ∈ (movedRange f ssbl).addresses,
      (main b).board.memory (cell (main b).board.ocmCfg a) = mem (v :: U) (cell b.ocmCfg a)

/-- Nothing is moved over the pointer words once they have been recorded, and no partition over the
second boot loader once it has been moved. The last start recorded for the data is in the flash. -/
structure Undisturbed (V : List Visit) (ssbl : PartHeader) : Prop where
  source : ∀ h, (psVisited f V).find? (recordsData f) = some h →
    inQspiFlash f (partitionStartAddr f imageStartAddress h) = true
  handoffKept : ∀ u ∈ fromLast (recordsHandoff f) (psVisited f V), ∀ i < 4,
    handoffPtrAddr + BitVec.ofNat 32 i ∉ touched f imageStartAddress u
  dataKept : ∀ u ∈ fromLast (recordsData f) (psVisited f V), ∀ i < 4,
    flashDataPtrAddr + BitVec.ofNat 32 i ∉ touched f imageStartAddress u
  imageKept : ∀ u ∈ fromLast (fun h => decide (h = ssbl)) (psVisited f V), u ≠ ssbl →
    ∀ a ∈ (movedRange f ssbl).addresses, a ∉ touched f imageStartAddress u

/-- Where a pointer word is recorded inside the second boot loader, its bytes are there already. -/
def HoldsPointer (ocmCfg p : U32) (r : PartHeader → Bool) (later : List Visit) (m : Mem Cell)
    (ssbl : PartHeader) : Prop :=
  ∀ h, (later.map Visit.header).find? r = some h → ∀ i < 4,
    p + BitVec.ofNat 32 i ∈ (movedRange f ssbl).addresses →
      m (cell ocmCfg (p + BitVec.ofNat 32 i)) = byteOf (partitionStartAddr f imageStartAddress h) i

/-- The last partition with an execution address in the flash starts at that of the text, or the
handoff word has held it from the start; the flash holds the data also at the offset of its load
address from where the copy starts, and the second boot loader is not changed by the pointer
words. -/
structure Aligned (V : List Visit) (mem : List Visit → Mem Cell) (b : Board)
    (text data ssbl : PartHeader) : Prop where
  entry : ∀ h, (psVisited f V).find? (recordsHandoff f) = some h →
    partitionStartAddr f imageStartAddress h = text.execAddr
  stale : (psVisited f V).find? (recordsHandoff f) = none →
    load32 (cell b.ocmCfg) (mem (earlier f V)) handoffPtrAddr = text.execAddr
  data : ∀ h, (psVisited f V).find? (recordsData f) = some h → ∀ j < 4 * data.imageWordLen.toNat,
    b.memory (.bus (partitionStartAddr f imageStartAddress h +
        BitVec.ofNat 32 (data.loadAddr.toNat - 0xFFFC0000 + j))) =
      b.memory (.bus (partitionStartAddr f imageStartAddress data + BitVec.ofNat 32 j))
  image : ∀ later v U, V = later ++ v :: U → v.header = ssbl → (∀ u ∈ later, u.header ≠ ssbl) →
    HoldsPointer f imageStartAddress b.ocmCfg handoffPtrAddr (recordsHandoff f) later
        (mem (v :: U)) ssbl ∧
      HoldsPointer f imageStartAddress b.ocmCfg flashDataPtrAddr (recordsData f) later
        (mem (v :: U)) ssbl

variable {f imageStartAddress} {L : List Event} {boot : Boot} {table : Table} {b : Board}
  {mem : List Visit → Mem Cell} {text data ssbl : PartHeader} {V : List Visit}
  {R : List PartHeader}

theorem FindsTable.ended (hFound : FindsTable f imageStartAddress table L)
    (hRun : Returns (loadBootImage f) L boot) :
    ∃ w, Ended f imageStartAddress table (visits L) w := by
  obtain ⟨M, N, rfl, hPrepare⟩ := hFound
  rw [loadBootImage_eq] at hRun
  obtain ⟨w, N, _, rfl, hWalk, hLast⟩ := returns_bind (hPrepare.rest hRun)
  obtain ⟨rfl, rfl⟩ := returns_ret.mp hLast
  refine ⟨w, ?_⟩
  rw [List.append_nil, visits, List.foldl_append, ← visits,
    visits_of_prepares ((prepareWalk_only f).steps hPrepare).1]
  exact walk_returns _ .start (Nat.le_add_left _ _) hWalk

theorem mem_fromLast {r : PartHeader → Bool} {h : PartHeader} (R' : List PartHeader) (hMem : h ∈ R)
    (hNone : ∀ u ∈ R, r u = false) : h ∈ fromLast r (R ++ R') := by
  induction R with
  | nil => cases hMem
  | cons u R ih =>
    obtain ⟨hHere, hRest⟩ := List.forall_mem_cons.mp hNone
    rw [List.cons_append, fromLast, hHere, if_neg Bool.false_ne_true]
    obtain rfl | hMem := List.mem_cons.mp hMem
    · exact List.mem_cons_self
    · exact List.mem_cons_of_mem _ (ih hMem hRest)

theorem of_mem_fromLast {r : PartHeader → Bool} {h : PartHeader} (hMem : h ∈ fromLast r R) :
    h ∈ R := by
  induction R with
  | nil => cases hMem
  | cons u R ih =>
    rw [fromLast] at hMem
    split at hMem
    · rw [List.mem_singleton.mp hMem]
      exact List.mem_cons_self
    · obtain rfl | hMem := List.mem_cons.mp hMem
      · exact List.mem_cons_self
      · exact List.mem_cons_of_mem _ (ih hMem)

theorem toNat_of_mem {r : Range} {a : U32} (hMem : a ∈ r.addresses)
    (hFits : r.start.toNat + r.bytes ≤ 0x100000000) : r.start.toNat ≤ a.toNat := by
  obtain ⟨j, hj, rfl⟩ := hMem
  rw [toNat_add_ofNat (by omega)]
  omega

theorem XipImage.data_records (hImage : XipImage f imageStartAddress table V text data ssbl) :
    recordsData f data = true := by
  have hOwned : data ∈ (Fsbl.partitions f table).filter (psPartition f) :=
    hImage.partitions.mem_iff.mpr (List.mem_cons_of_mem _ List.mem_cons_self)
  have hPs := (List.mem_filter.mp hOwned).2
  rw [psPartition, Bool.and_eq_true] at hPs
  have hLow : (0xFFFC0000 : U32) ≤ data.loadAddr := hImage.dataLoadAddr.1
  have hHigh : data.loadAddr < (0xFFFF0000 : U32) := hImage.dataLoadAddr.2
  rw [recordsData, hPs.1, decide_eq_true hLow, decide_eq_true hHigh]
  rfl

/-- The second boot loader starts after a walk of the first one. What it finds in the block that
they share is what the walk has left. -/
structure Booted (f : Setup) (imageStartAddress : U32) (table : Table) (V : List Visit)
    (mem : List Visit → Mem Cell) (b : Board) (text data ssbl : PartHeader) : Prop where
  board : XipBoard f b.ocmCfg
  image : XipImage f imageStartAddress table V text data ssbl
  remembers : Remembers b.ocmCfg V mem
  memory : ∀ a : U32, 0xFFFF0000 ≤ a.toNat → b.memory (cell b.ocmCfg a) = mem V (cell b.ocmCfg a)
  undisturbed : Undisturbed f imageStartAddress V ssbl
  psOnwards : PsOnwards f imageStartAddress V

section Run

variable (hBooted : Booted f imageStartAddress table V mem b text data ssbl)
include hBooted

/-- The handoff goes to the start of the last partition with an execution address in the flash. -/
theorem jump_eq {h : PartHeader} (hLast : (psVisited f V).find? (recordsHandoff f) = some h) :
    (main b).jump = partitionStartAddr f imageStartAddress h := by
  rw [main_jump hBooted.board.shared]
  apply load32_eq
  intro i hi
  have hFinal := pointer_final handoffPointer hBooted.psOnwards hBooted.remembers
    (fun u hU => hBooted.undisturbed.handoffKept u hU i hi) hi
  rw [hLast] at hFinal
  rw [hBooted.memory _ (handoffPtrAddr_add hi ▸ by omega), hFinal]

/-- Where no such partition is visited, the handoff word is as it was. -/
theorem jump_stale (hNone : (psVisited f V).find? (recordsHandoff f) = none) :
    (main b).jump = load32 (cell b.ocmCfg) (mem (earlier f V)) handoffPtrAddr := by
  rw [main_jump hBooted.board.shared]
  apply load32_eq
  intro i hi
  have hFinal := pointer_final handoffPointer hBooted.psOnwards hBooted.remembers
    (fun u hU => hBooted.undisturbed.handoffKept u hU i hi) hi
  rw [hNone] at hFinal
  rw [hBooted.memory _ (handoffPtrAddr_add hi ▸ by omega), hFinal, byteOf_load32 hi]

theorem source_eq {h : PartHeader} (hLast : (psVisited f V).find? (recordsData f) = some h) :
    load32 (cell b.ocmCfg) b.memory flashDataPtrAddr =
      partitionStartAddr f imageStartAddress h := by
  apply load32_eq
  intro i hi
  have hFinal := pointer_final dataPointer hBooted.psOnwards hBooted.remembers
    (fun u hU => hBooted.undisturbed.dataKept u hU i hi) hi
  rw [hLast] at hFinal
  rw [hBooted.memory _ (flashDataPtrAddr_add hi ▸ by omega), hFinal]

/-- The data is taken from the offset of its load address, whatever is there. -/
theorem copied_eq {h : PartHeader} (hLast : (psVisited f V).find? (recordsData f) = some h)
    {j : Nat} (hj : j < 4 * data.imageWordLen.toNat) :
    (main b).board.memory (cell (main b).board.ocmCfg (data.loadAddr + BitVec.ofNat 32 j)) =
      b.memory (.bus (partitionStartAddr f imageStartAddress h +
        BitVec.ofNat 32 (data.loadAddr.toNat - 0xFFFC0000 + j))) := by
  have hSource := source_eq hBooted hLast
  have hFlash := hBooted.undisturbed.source h hLast
  rw [inQspiFlash, Bool.and_eq_true, decide_eq_true_iff, decide_eq_true_iff] at hFlash
  obtain ⟨hLow, hHigh⟩ := hFlash
  rw [BitVec.le_def] at hLow hHigh
  have hAbove := hBooted.board.flashAbove
  have hBelow := hBooted.board.flashBelow
  have hFits := hBooted.image.dataFits
  have hAddr : data.loadAddr + BitVec.ofNat 32 j =
      ocmHighAddr + BitVec.ofNat 32 (data.loadAddr.toNat - 0xFFFC0000 + j) := by
    have hBase : data.loadAddr =
        ocmHighAddr + BitVec.ofNat 32 (data.loadAddr.toNat - 0xFFFC0000) := by
      apply BitVec.eq_of_toNat_eq
      rw [ocmHighAddr_add (by omega)]
      have hLoad := hBooted.image.dataLoadAddr.1
      omega
    rw [← add_ofNat_add, ← hBase]
  rw [hAddr]
  apply main_copied hBooted.board.shared hSource
  · omega
  · simp only [lowOcmSize]
    omega
  · omega

section Last

variable {later U : List Visit} {v : Visit} (hSplit : V = later ++ v :: U)
  (hNone : ∀ u ∈ later, u.header ≠ ssbl)
include hSplit hNone

theorem last_started : (v :: U).any (Visit.started f) = true :=
  started_of_last (hSplit ▸ hBooted.image.ssblVisited) hNone

theorem last_asPs : ∀ u ∈ later, u.AsPs f imageStartAddress :=
  (hSplit ▸ hBooted.psOnwards).asPs (last_started hBooted hSplit hNone)

/-- No partition is moved over the second boot loader later. -/
theorem image_clear {a : U32} (ha : a ∈ (movedRange f ssbl).addresses) :
    ∀ u ∈ later, a ∉ touched f imageStartAddress u.header := by
  intro u hU
  have hDiffer : ∀ h ∈ later.map Visit.header, decide (h = ssbl) = false := by
    intro h hIn
    obtain ⟨u, hU, rfl⟩ := List.mem_map.mp hIn
    exact decide_eq_false (hNone u hU)
  have hFrom := mem_fromLast (psVisited f (v :: U)) (List.mem_map_of_mem hU) hDiffer
  rw [← psVisited_append (last_started hBooted hSplit hNone), ← hSplit] at hFrom
  exact hBooted.undisturbed.imageKept _ hFrom (hNone u hU) a ha

/-- A pointer word recorded inside the second boot loader replaces its bytes. -/
theorem pointer_inside {p : U32} {r : PartHeader → Bool}
    (hPointer : Pointer f imageStartAddress b.ocmCfg p r) :
    HoldsPointer f imageStartAddress b.ocmCfg p r later (mem (v :: U)) ssbl ↔
      ∀ i < 4, p + BitVec.ofNat 32 i ∈ (movedRange f ssbl).addresses →
        mem V (cell b.ocmCfg (p + BitVec.ofNat 32 i)) =
          mem (v :: U) (cell b.ocmCfg (p + BitVec.ofNat 32 i)) := by
  have hByte : ∀ i < 4, p + BitVec.ofNat 32 i ∈ (movedRange f ssbl).addresses →
      mem V (cell b.ocmCfg (p + BitVec.ofNat 32 i)) =
        match (later.map Visit.header).find? r with
        | some h => byteOf (partitionStartAddr f imageStartAddress h) i
        | none => mem (v :: U) (cell b.ocmCfg (p + BitVec.ofNat 32 i)) := by
    intro i hi ha
    have hClear := image_clear hBooted hSplit hNone ha
    have hAs := last_asPs hBooted hSplit hNone
    have hMem := hBooted.remembers
    rw [hSplit] at hMem ⊢
    apply pointer_byte hPointer hAs hMem _ hi
    intro h hFrom
    obtain ⟨u, hU, rfl⟩ := List.mem_map.mp (of_mem_fromLast hFrom)
    exact hClear u hU
  constructor
  · intro hHolds i hi ha
    rw [hByte i hi ha]
    cases hFind : (later.map Visit.header).find? r with
    | none => rfl
    | some h => exact (hHolds h hFind i hi ha).symm
  · intro hSame h hFind i hi ha
    rw [← hSame i hi ha, hByte i hi ha, hFind]

/-- The second boot loader is as it was moved exactly when it holds the pointer words recorded
inside it. -/
theorem image_iff :
    (∀ a ∈ (movedRange f ssbl).addresses, (main b).board.memory (cell (main b).board.ocmCfg a) =
        mem (v :: U) (cell b.ocmCfg a)) ↔
      HoldsPointer f imageStartAddress b.ocmCfg handoffPtrAddr (recordsHandoff f) later
          (mem (v :: U)) ssbl ∧
        HoldsPointer f imageStartAddress b.ocmCfg flashDataPtrAddr (recordsData f) later
          (mem (v :: U)) ssbl := by
  have hFinal : ∀ a ∈ (movedRange f ssbl).addresses,
      0xFFFF0000 ≤ a.toNat ∧ (main b).board.memory (cell (main b).board.ocmCfg a) =
        mem V (cell b.ocmCfg a) := by
    intro a ha
    have hAddr := hBooted.image.ssblLoadAddr.trans (toNat_of_mem ha hBooted.image.ssblFits)
    exact ⟨hAddr, (main_kept hBooted.board.shared hAddr).trans (hBooted.memory a hAddr)⟩
  rw [pointer_inside hBooted hSplit hNone handoffPointer,
    pointer_inside hBooted hSplit hNone dataPointer]
  constructor
  · intro hAll
    constructor
    · exact fun i _ ha => (hFinal _ ha).2.symm.trans (hAll _ ha)
    · exact fun i _ ha => (hFinal _ ha).2.symm.trans (hAll _ ha)
  · rintro ⟨hHandoff, hData⟩ a ha
    obtain ⟨hAddr, hSame⟩ := hFinal a ha
    rw [hSame]
    by_cases hInHandoff : ∃ i < 4, a = handoffPtrAddr + BitVec.ofNat 32 i
    · obtain ⟨i, hi, rfl⟩ := hInHandoff
      exact hHandoff i hi ha
    by_cases hInData : ∃ i < 4, a = flashDataPtrAddr + BitVec.ofNat 32 i
    · obtain ⟨i, hi, rfl⟩ := hInData
      exact hData i hi ha
    have hClear := image_clear hBooted hSplit hNone ha
    have hAs := last_asPs hBooted hSplit hNone
    have hMem := hBooted.remembers
    rw [hSplit] at hMem ⊢
    apply byte_kept hAs hMem hAddr _ _ hClear
    · exact fun i hi hSame => hInHandoff ⟨i, hi, hSame⟩
    · exact fun i hi hSame => hInData ⟨i, hi, hSame⟩

end Last

end Run

/-- The visit of a bitstream that ends the walk changes nothing that the boot loaders share. -/
theorem walked_memory {V : List Visit} (hMem : Remembers b.ocmCfg V mem)
    (hWalked : walked f V = V ∨ ∃ h, V = ⟨h, []⟩ :: walked f V) :
    Remembers b.ocmCfg (walked f V) mem ∧ ∀ a : U32, 0xFFFF0000 ≤ a.toNat →
      mem V (cell b.ocmCfg a) = mem (walked f V) (cell b.ocmCfg a) := by
  obtain hSame | ⟨h, hLast⟩ := hWalked
  · rw [hSame]
    exact ⟨hMem, fun _ _ => rfl⟩
  · rw [hLast] at hMem
    refine ⟨hMem.below, ?_⟩
    have hNone := hMem _ _ (List.suffix_refl _)
    rw [← hLast] at hNone
    exact hNone

/-- If no move disturbs what the first boot loader leaves, the boot loaders agree exactly when the
start of the text is where it is to be executed, the data in the flash looks the same from the
offset of its load address, and the second boot loader holds the pointer words recorded inside
it. -/
theorem agrees_iff (hBoard : XipBoard f b.ocmCfg) (hRun : Returns (loadBootImage f) L boot)
    (hFound : FindsTable f imageStartAddress table L)
    (hImage : XipImage f imageStartAddress table (walked f (visits L)) text data ssbl)
    (hMem : Remembers b.ocmCfg (visits L) mem) (hBoot : b.memory = mem (visits L))
    (hUndisturbed : Undisturbed f imageStartAddress (walked f (visits L)) ssbl) :
    Agrees f imageStartAddress (walked f (visits L)) mem b text data ssbl ↔
      Aligned f imageStartAddress (walked f (visits L)) mem b text data ssbl := by
  obtain ⟨w, hEnded⟩ := hFound.ended hRun
  obtain ⟨hWalked, hPs⟩ := ended_walked hBoard.noDdr hEnded
  obtain ⟨hRemembers, hMemory⟩ := walked_memory hMem hWalked
  have hBooted : Booted f imageStartAddress table (walked f (visits L)) mem b text data ssbl :=
    ⟨hBoard, hImage, hRemembers, fun a hAddr => hBoot ▸ hMemory a hAddr, hUndisturbed, hPs⟩
  obtain ⟨h, hFrom⟩ : ∃ h, (psVisited f (walked f (visits L))).find? (recordsData f) = some h := by
    apply Option.isSome_iff_exists.mp
    rw [List.find?_isSome]
    exact ⟨data, hImage.dataVisited, hImage.data_records⟩
  have hCopied := fun j => copied_eq (j := j) hBooted hFrom
  constructor
  · intro hAgrees
    constructor
    · exact fun h hLast => (jump_eq hBooted hLast).symm.trans hAgrees.jump
    · exact fun hNone => (jump_stale hBooted hNone).symm.trans hAgrees.jump
    · intro h hLast j hj
      rw [hFrom] at hLast
      cases hLast
      rw [← hCopied j hj, hAgrees.copied j hj]
    · intro later v U hSplit hSsbl hNone
      rw [← image_iff hBooted hSplit hNone]
      exact hAgrees.image later v U hSplit hSsbl hNone
  · intro hAligned
    constructor
    · intro j hj
      rw [hCopied j hj, hAligned.data _ hFrom j hj]
    · cases hLast : (psVisited f (walked f (visits L))).find? (recordsHandoff f) with
      | none => exact (jump_stale hBooted hLast).trans (hAligned.stale hLast)
      | some h => exact (jump_eq hBooted hLast).trans (hAligned.entry h hLast)
    · intro later v U hSplit hSsbl hNone
      rw [image_iff hBooted hSplit hNone]
      exact hAligned.image later v U hSplit hSsbl hNone

/-- The condition holds of an application that is linked as the boot loaders expect: the data at the
start of the high OCM, the entry point at the start of the text, and nothing of the second boot
loader in the pointer words. -/
theorem aligned_of_linked (hText : (psVisited f V).find? (recordsHandoff f) = some text)
    (hData : (psVisited f V).find? (recordsData f) = some data)
    (hEntry : partitionStartAddr f imageStartAddress text = text.execAddr)
    (hLoad : data.loadAddr = ocmHighAddr) (hBehind : 0xFFFF0008 ≤ ssbl.loadAddr.toNat)
    (hFits : ssbl.loadAddr.toNat + movedBytes f ssbl ≤ 0x100000000)
    (mem : List Visit → Mem Cell) (b : Board) :
    Aligned f imageStartAddress V mem b text data ssbl := by
  constructor
  · intro h hLast
    rw [hText] at hLast
    cases hLast
    exact hEntry
  · intro hNone
    rw [hText] at hNone
    cases hNone
  · intro h hLast j _
    rw [hData] at hLast
    cases hLast
    have hOffset : data.loadAddr.toNat - 0xFFFC0000 = 0 := by
      rw [hLoad]
      rfl
    rw [hOffset, Nat.zero_add]
  · intro later v U _ _ _
    constructor
    · intro h _ i hi ha
      have hAddr := toNat_of_mem ha hFits
      rw [handoffPtrAddr_add hi] at hAddr
      change ssbl.loadAddr.toNat ≤ _ at hAddr
      omega
    · intro h _ i hi ha
      have hAddr := toNat_of_mem ha hFits
      rw [flashDataPtrAddr_add hi] at hAddr
      change ssbl.loadAddr.toNat ≤ _ at hAddr
      omega

end Agreement

/-! ## A boot on the bench -/

section Bench

/-- The memory when the moves bring nothing new. -/
def storedMemory (ocmCfg : U32) (m : Mem Cell) : List Visit → Mem Cell
  | [] => m
  | v :: U => storeWords ocmCfg (storesOf v.calls) (storedMemory ocmCfg m U)

theorem leavesAll_stored (ocmCfg : U32) (L : List Event) (m : Mem Cell) :
    LeavesAll ocmCfg L m (storeWords ocmCfg (storesOf L) m) := by
  induction L generalizing m with
  | nil => exact fun _ _ => rfl
  | cons event L ih =>
    refine ⟨storeWords ocmCfg (storeOf event).toList m, fun _ _ _ => rfl, ?_⟩
    rw [storesOf_cons, storeWords_append]
    exact ih _

theorem remembers_stored (ocmCfg : U32) (m : Mem Cell) (V : List Visit) :
    Remembers ocmCfg V (storedMemory ocmCfg m) :=
  fun v U _ => leavesAll_stored ocmCfg v.calls (storedMemory ocmCfg m U)

def xipBench : Setup :=
  { bench with ddr := false, linearBootDeviceFlag := true, flashReadBaseAddress := 0xFC000000 }

def xipHeader (words loadAddr execAddr partitionStart : U32) : PartHeader :=
  let sum := words + words + words + loadAddr + execAddr + partitionStart + 0x10
  ⟨words, words, words, loadAddr, execAddr, partitionStart, 0x10, 0, 0, 0, 0, (0, 0, 0, 0),
    sum ^^^ 0xFFFFFFFF⟩

def xipSsbl : PartHeader := xipHeader 4 0xFFFF0040 0xFFFF0040 0x1000

/-- The text starts at `0xFC010000`, with its entry point behind it. -/
def xipText : PartHeader := xipHeader 8 0xFC010000 0xFC010040 0x4000

def xipData : PartHeader := xipHeader 4 0xFFFC0000 0 0x8000

def xipPlay (n : Nat) : List Event × Loader Boot :=
  play (deviceAnswer (benchImage [xipSsbl, xipText, xipData]) (reasonRegister 0)) n
    (loadBootImage xipBench)

def xipTable : Table := ⟨benchImage [xipSsbl, xipText, xipData], 4, 0⟩

def xipBoard (V : List Visit) : Board := ⟨storedMemory 0x18 (fun _ => 0) V, 0x18, false⟩

theorem xip_board : XipBoard xipBench 0x18 := ⟨rfl, rfl, by decide, by decide⟩

theorem xipPlay_returns : Returns (loadBootImage xipBench) (xipPlay 40).1
    ⟨0xFFFF0040, ⟨false, false, true, false, false, false, true⟩⟩ := returns_play rfl

theorem xipPlay_finds : FindsTable xipBench 0 xipTable (xipPlay 40).1 :=
  ⟨(play (deviceAnswer (benchImage [xipSsbl, xipText, xipData]) (reasonRegister 0)) 20
    (prepareWalk xipBench)).1, (xipPlay 40).1.drop 6, rfl, returns_play rfl⟩

def xipVisits : List Visit := walked xipBench (visits (xipPlay 40).1)

theorem xip_visited : psVisited xipBench xipVisits = [xipData, xipText, xipSsbl] := rfl

theorem xip_image : XipImage xipBench 0 xipTable xipVisits xipText xipData xipSsbl := by
  constructor
  · exact List.Perm.swap xipText xipData [xipSsbl]
  · rfl
  · decide
  · rfl
  · decide
  · rfl
  · rw [xip_visited]
    exact List.mem_cons_self
  · rw [xip_visited]
    exact List.mem_cons_of_mem _ (List.mem_cons_of_mem _ List.mem_cons_self)
  · decide
  · rfl
  · decide

/-- Everything that a run of the bench moves is behind the pointer words. -/
theorem xip_touched {h : PartHeader} (hMem : h ∈ psVisited xipBench xipVisits) {a : U32}
    (ha : a ∈ touched xipBench 0 h) : h = xipSsbl ∧ 0xFFFF0040 ≤ a.toNat := by
  rw [xip_visited] at hMem
  obtain ⟨-, ⟨hMoved, ha⟩ | ⟨hEncrypted, -⟩⟩ := ha
  · simp only [List.mem_cons, List.not_mem_nil, or_false] at hMem
    obtain rfl | rfl | rfl := hMem
    · cases hMoved
    · cases hMoved
    · exact ⟨rfl, toNat_of_mem ha (by decide)⟩
  · simp only [List.mem_cons, List.not_mem_nil, or_false] at hMem
    obtain rfl | rfl | rfl := hMem <;> exact absurd rfl hEncrypted

theorem xip_undisturbed : Undisturbed xipBench 0 xipVisits xipSsbl := by
  constructor
  · rintro h ⟨⟩
    rfl
  · intro u hU i hi ha
    have hAddr := (xip_touched (of_mem_fromLast hU) ha).2
    rw [handoffPtrAddr_add hi] at hAddr
    omega
  · intro u hU i hi ha
    have hAddr := (xip_touched (of_mem_fromLast hU) ha).2
    rw [flashDataPtrAddr_add hi] at hAddr
    omega
  · intro u hU hOther a _ ha
    exact hOther (xip_touched (of_mem_fromLast hU) ha).1

theorem agrees_iff_bench :
    Agrees xipBench 0 xipVisits (storedMemory 0x18 fun _ => 0)
        (xipBoard (visits (xipPlay 40).1)) xipText xipData xipSsbl ↔
      Aligned xipBench 0 xipVisits (storedMemory 0x18 fun _ => 0)
        (xipBoard (visits (xipPlay 40).1)) xipText xipData xipSsbl :=
  agrees_iff xip_board xipPlay_returns xipPlay_finds xip_image
    (remembers_stored 0x18 _ (visits (xipPlay 40).1)) rfl xip_undisturbed

/-- The handoff goes to the start of the text, not to its entry point. -/
theorem agrees_failure : ¬ ∀ (f : Setup) (imageStartAddress : U32) (table : Table)
    (L : List Event) (boot : Boot) (b : Board) (mem : List Visit → Mem Cell)
    (text data ssbl : PartHeader), XipBoard f b.ocmCfg → Returns (loadBootImage f) L boot →
    FindsTable f imageStartAddress table L →
    XipImage f imageStartAddress table (walked f (visits L)) text data ssbl →
    Remembers b.ocmCfg (visits L) mem → b.memory = mem (visits L) →
    Agrees f imageStartAddress (walked f (visits L)) mem b text data ssbl := by
  intro hAll
  have hAgrees := hAll _ _ _ _ _ (xipBoard (visits (xipPlay 40).1)) _ _ _ _ xip_board
    xipPlay_returns xipPlay_finds xip_image
    (remembers_stored 0x18 _ (visits (xipPlay 40).1)) rfl
  have hJump := hAgrees.jump
  rw [main_jump xip_board.shared] at hJump
  exact absurd hJump (by decide)

end Bench

end SoftwarePrototypes.Ssbl
