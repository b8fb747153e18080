import SoftwarePrototypes.Fsbl.ImageMover
import SoftwarePrototypes.Interaction.Reachability

/-! # Reasoning about the partition walk

Notes of the calls are the only state that the boot loader's surroundings have here. A property
of every call is proved partition by partition: what one partition keeps, the walk keeps.
-/

namespace SoftwarePrototypes.Fsbl

open Interaction Interaction.Prog

section Rules

variable {σ α β : Type} {allowed : (e : Op) → Answer e → Prop}
  {record : (e : Op) → Answer e → σ → σ} {safe : Op → σ → Prop}

abbrev Holds (allowed : (e : Op) → Answer e → Prop) (record : (e : Op) → Answer e → σ → σ)
    (safe : Op → σ → Prop) (post : α → σ → Prop) (p : Loader α) (s : σ) : Prop :=
  Always (· = ·) (notes allowed record) safe post p s

variable {post : α → σ → Prop} {s : σ}

theorem holds_ret {value : α} (h : post value s) :
    Holds allowed record safe post (.ret value) s := by
  rintro _ rfl
  exact h

theorem holds_ask {e : Op} {rest : Answer e → Loader α} (hSafe : safe e s)
    (hNext : ∀ answer, allowed e answer →
      Holds allowed record safe post (rest answer) (record e answer s)) :
    Holds allowed record safe post (op e >>= rest) s := by
  rintro _ rfl
  refine ⟨hSafe, ?_⟩
  rintro answer _ ⟨hAllowed, rfl⟩
  exact hNext answer hAllowed

theorem holds_bind {p : Loader α} {rest : α → Loader β} {last : β → σ → Prop}
    (h : Holds allowed record safe (fun value s' => Holds allowed record safe last (rest value) s')
      p s) : Holds allowed record safe last (p >>= rest) s :=
  Always.bind (fun _ => rfl) h

theorem holds_mono {post' : α → σ → Prop} {p : Loader α}
    (h : Holds allowed record safe post p s) (hPost : ∀ value s, post value s → post' value s) :
    Holds allowed record safe post' p s :=
  Always.mono (fun _ _ => id) hPost h

def FallbackSafe (safe : Op → σ → Prop) : Prop :=
  ∀ s, (∀ code, safe (.outputStatus code) s) ∧ safe .fsblFallback s

theorem holds_fallback (hFallback : FallbackSafe safe) (code : FailCode) :
    Holds allowed record safe post (fallback code) s := by
  refine holds_ask ((hFallback s).1 code) fun _ _ => ?_
  exact holds_ask (hFallback _).2 fun never _ => nomatch never

theorem holds_require (hFallback : FallbackSafe safe) {status : Status} {code : FailCode}
    {post : Unit → σ → Prop} (h : status = .success → post () s) :
    Holds allowed record safe post (require status code) s := by
  rw [require]
  split
  · rename_i hSuccess
    exact holds_ret (h hSuccess)
  · exact holds_fallback hFallback code

theorem holds_ite {c : Prop} [Decidable c] {p q : Loader α}
    (hThen : c → Holds allowed record safe post p s)
    (hElse : ¬ c → Holds allowed record safe post q s) :
    Holds allowed record safe post (if c then p else q) s := by
  split
  · exact hThen ‹c›
  · exact hElse ‹¬ c›

theorem holds_readInto {destination : Destination} {source bytes : U32}
    {post : Option destination.Data → σ → Prop}
    (hSafe : safe (.moveImage source destination bytes) s)
    (hFailed : ∀ data, allowed (.moveImage source destination bytes) (.failure, data) →
      post none (record (.moveImage source destination bytes) (.failure, data) s))
    (hRead : ∀ data, allowed (.moveImage source destination bytes) (.success, data) →
      post (some data) (record (.moveImage source destination bytes) (.success, data) s)) :
    Holds allowed record safe post (readInto destination source bytes) s := by
  refine holds_ask hSafe ?_
  rintro ⟨status, data⟩ hAllowed
  cases status with
  | success => exact holds_ret (hRead data hAllowed)
  | failure => exact holds_ret (hFailed data hAllowed)

@[simp] theorem latchExecAddr_toFlags (h : PartHeader) (w : Walk) :
    (latchExecAddr h w).toFlags = w.toFlags := by
  unfold latchExecAddr
  split <;> rfl

/-- What a partition keeps, the walk keeps. `I` holds between partitions, with the number of the
next one. -/
theorem holds_walk {f : Setup} {imageStartAddress : U32} {table : Table}
    {I : Nat → Walk → σ → Prop} {post : Walk → σ → Prop}
    (hPartition : ∀ num w s, num < table.partitionCount → I num w s →
      Holds allowed record safe (fun step s' => match step with
        | .next w' => I (num + 1) w' s'
        | .stop w' => post w' s')
        (partition f imageStartAddress (table.partitionHeader num) w) s)
    (hDone : ∀ num w s, I num w s → post w s) (fuel : Nat) {num : Nat} {w : Walk}
    (hInit : I num w s) :
    Holds allowed record safe post (walk f imageStartAddress table fuel num w) s := by
  induction fuel generalizing num w s with
  | zero => exact holds_ret (hDone num w s hInit)
  | succ fuel ih =>
    rw [walk]
    refine holds_ite (fun hMore => ?_) fun _ => holds_ret (hDone num w s hInit)
    apply holds_bind
    apply holds_mono (hPartition num w s hMore hInit)
    intro step s' hStep
    cases step with
    | next w' => exact ih hStep
    | stop w' => exact holds_ret hStep

end Rules

/-! ## Which calls are made where -/

/-- Reading and writing registers. -/
def Op.Registers : Op → Prop
  | .xilIn32 _ | .xilOut32 _ _ | .readReg _ => True
  | _ => False

/-- The calls before the walk. -/
def Op.Prepares : Op → Prop
  | .pcapDataTransfer _ _ _ _ _ | .pcapLoadPartition _ _ _ _ _ | .headerDump _
  | .fsblHookBeforeBitstreamDload | .fsblHookAfterBitstreamDload => False
  | _ => True

/-- The calls before the walk that copy nothing into memory. -/
def Op.Reads : Op → Prop
  | .moveImage _ (.address _) _ => False
  | e => e.Prepares

/-- The calls that look for the image and its headers. -/
def Op.Fetches : Op → Prop
  | .moveImage _ (.address _) _ => False
  | .xilIn32 _ | .xilOut32 _ _ | .readReg _ | .moveImage _ _ _ | .outputStatus _
  | .fsblFallback => True
  | _ => False

/-- The calls for one partition, after its `HeaderDump`. -/
def Op.Handles : Op → Prop
  | .headerDump _ => False
  | _ => True

/-- Calls that move no data and start no partition. -/
def Op.Idle : Op → Prop
  | .xilIn32 _ | .readReg _ | .fsblHookBeforeBitstreamDload | .fsblHookAfterBitstreamDload
  | .outputStatus _ | .fsblFallback => True
  | _ => False

/-- The calls for one partition once it is known that it is not skipped. -/
def Op.Loads : Op → Prop
  | .headerDump _ | .xilIn32 _ => False
  | _ => True

/-- The calls for the checksum and the signature of a partition. -/
def Op.Checks : Op → Prop
  | .moveImage _ .checksum _ | .md5 _ _ | .sha256 _ _ | .authenticatePartition _ _
  | .outputStatus _ | .fsblFallback => True
  | _ => False

theorem Op.Idle.handles {e : Op} (h : e.Idle) : e.Handles := by
  cases e <;> trivial

theorem Op.Loads.handles {e : Op} (h : e.Loads) : e.Handles := by
  cases e <;> trivial

theorem Op.Checks.loads {e : Op} (h : e.Checks) : e.Loads := by
  cases e <;> trivial

theorem Op.Reads.prepares {e : Op} (h : e.Reads) : e.Prepares := by
  cases e <;> trivial

theorem Op.Fetches.reads {e : Op} (h : e.Fetches) : e.Reads := by
  cases e with
  | moveImage source destination bytes => cases destination <;> trivial
  | _ => trivial

theorem Op.Registers.fetches {e : Op} (h : e.Registers) : e.Fetches := by
  cases e <;> trivial

theorem Op.Prepares.handles {e : Op} (h : e.Prepares) : e.Handles := by
  cases e <;> trivial

section Calls

variable {P : Op → Prop}

theorem fallback_only {α : Type} (hStatus : ∀ code, P (.outputStatus code))
    (hStop : P .fsblFallback) (code : FailCode) : Only P (fallback code : Loader α) :=
  ⟨hStatus code, fun _ => ⟨hStop, fun never => nomatch never⟩⟩

theorem require_only (hStatus : ∀ code, P (.outputStatus code)) (hStop : P .fsblFallback)
    (status : Status) (code : FailCode) : Only P (require status code) :=
  only_ite (fun _ => trivial) fun _ => fallback_only hStatus hStop code

theorem readInto_only {destination : Destination} {source bytes : U32}
    (h : P (.moveImage source destination bytes)) : Only P (readInto destination source bytes) :=
  ⟨h, fun _ => trivial⟩

variable (f : Setup)

theorem imageStart_registers : Only Op.Registers (imageStart f) := by
  refine (only_ask_bind _ _).mpr ⟨trivial, fun rebootStatus => ?_⟩
  refine only_ite (fun _ => ?_) fun _ => ⟨trivial, fun _ => trivial⟩
  apply Only.bind
  · exact only_ite (fun _ => ⟨trivial, fun _ => trivial⟩) fun _ => trivial
  · exact fun _ => ⟨trivial, fun _ => trivial⟩

theorem imageStart_only : Only Op.Fetches (imageStart f) :=
  (imageStart_registers f).mono fun _ => Op.Registers.fetches

theorem getNAuthImageHeader_only (imageBaseAddress : U32) (header : Nat → PartHeader) :
    Only Op.Reads (getNAuthImageHeader f imageBaseAddress header) := by
  refine Only.bind (readInto_only trivial) fun offset => ?_
  cases offset with
  | none => trivial
  | some offset =>
    refine Only.bind (readInto_only trivial) fun images => ?_
    cases images with
    | none => trivial
    | some images =>
      refine Only.bind (readInto_only trivial) fun offset => ?_
      cases offset with
      | none => trivial
      | some offset =>
        refine Only.bind (readInto_only trivial) fun signature => ?_
        cases signature with
        | none => trivial
        | some signature => exact ⟨trivial, fun _ => ⟨trivial, fun _ => trivial⟩⟩

theorem efuseStatus_only (imageStartAddress : U32) (table : Table) :
    Only Op.Prepares (efuseStatus f imageStartAddress table) := by
  refine only_ite (fun _ => ⟨trivial, fun _ => trivial⟩) fun _ => ?_
  exact only_ite (fun _ => ⟨trivial, fun _ => trivial⟩) fun _ => trivial

theorem authenticateHeaders_only (imageStartAddress : U32) (table : Table)
    (status fsblLength : U32) :
    Only Op.Reads (authenticateHeaders f imageStartAddress table status fsblLength) := by
  refine only_ite (fun _ => ?_) fun _ => trivial
  refine only_ite (fun _ => ?_) fun _ => fallback_only (fun _ => trivial) trivial _
  refine (only_ask_bind _ _).mpr ⟨trivial, fun _ => ?_⟩
  refine Only.bind (getNAuthImageHeader_only f _ _) fun _ => ?_
  exact require_only (fun _ => trivial) trivial _ _

theorem partitionMove_only (imageStartAddress : U32) (h : PartHeader) (fl : Flags) :
    Only Op.Loads (partitionMove f imageStartAddress h fl) := by
  refine Only.bind ?_ fun t => ?_
  · exact only_ite (fun _ => trivial) fun _ => ⟨trivial, fun _ => trivial⟩
  cases t with
  | none => trivial
  | some t =>
    refine Only.bind ?_ fun t => ?_
    · exact only_ite (fun _ => ⟨trivial, fun _ => trivial⟩) fun _ => trivial
    cases t with
    | none => trivial
    | some t => exact only_ite (fun _ => ⟨trivial, fun _ => trivial⟩) fun _ => trivial

theorem movePartition_only (imageStartAddress : U32) (h : PartHeader) (fl : Flags) :
    Only Op.Loads (movePartition f imageStartAddress h fl) :=
  Only.bind (partitionMove_only f imageStartAddress h fl) fun _ =>
    require_only (fun _ => trivial) trivial _ _

theorem placePartition_only (imageStartAddress : U32) (h : PartHeader) (fl : Flags) :
    Only Op.Loads (placePartition f imageStartAddress h fl) := by
  refine only_ite (fun _ => movePartition_only f _ _ _) fun _ => ?_
  apply Only.bind
  · exact only_ite (fun _ => ⟨trivial, fun _ => trivial⟩) fun _ => trivial
  intro _
  apply Only.bind
  · exact only_ite (fun _ => ⟨trivial, fun _ => trivial⟩) fun _ => trivial
  · exact fun _ => only_ite (fun _ => movePartition_only f _ _ _) fun _ => trivial

theorem hook_only (hStatus : ∀ code, P (.outputStatus code)) (hStop : P .fsblFallback)
    {call : Loader Status} (hCall : Only P call) (code : FailCode) (fl : Flags) :
    Only P (hook call code fl) := by
  refine only_ite (fun _ => ?_) fun _ => trivial
  exact Only.bind hCall fun _ => require_only hStatus hStop _ _

theorem beforeHook_only (fl : Flags) : Only Op.Idle (beforeHook fl) :=
  hook_only (fun _ => trivial) trivial ((only_ask _).mpr trivial) _ fl

theorem afterHook_only (fl : Flags) : Only Op.Idle (afterHook fl) :=
  hook_only (fun _ => trivial) trivial ((only_ask _).mpr trivial) _ fl

theorem watchdogReset_only : Only Op.Idle (watchdogReset f) :=
  only_ite (fun _ => trivial) fun _ => ⟨trivial, fun _ => trivial⟩

theorem encOnlyStep_only (hRead : ∀ offset, P (.readReg offset))
    (hStatus : ∀ code, P (.outputStatus code)) (hStop : P .fsblFallback) (fl : Flags) :
    Only P (encOnlyStep f fl) := by
  refine only_ite (fun _ => trivial) fun _ => ⟨hRead _, fun _ => ?_⟩
  exact only_ite (fun _ => fallback_only hStatus hStop _) fun _ => trivial

variable {f} {h : PartHeader} {fl : Flags}

theorem checksumStep_only (imageStartAddress startAddr : U32) :
    Only Op.Checks (checksumStep imageStartAddress startAddr h fl) := by
  refine only_ite (fun _ => ?_) fun _ => trivial
  refine Only.bind ?_ fun _ => require_only (fun _ => trivial) trivial _ _
  refine Only.bind (readInto_only trivial) fun checksum => ?_
  cases checksum with
  | none => trivial
  | some checksum => exact ⟨trivial, fun _ => trivial⟩

theorem authenticateStep_only (startAddr : U32) :
    Only Op.Checks (authenticateStep f startAddr h fl) := by
  refine only_ite (fun _ => ?_) fun _ => trivial
  refine only_ite (fun _ => ?_) fun _ => fallback_only (fun _ => trivial) trivial _
  exact ⟨trivial, fun _ => ⟨trivial, fun _ => require_only (fun _ => trivial) trivial _ _⟩⟩

theorem downloadStep_only (startAddr : U32) : Only Op.Loads (downloadStep startAddr h fl) := by
  refine only_ite (fun _ => ?_) fun _ => trivial
  exact ⟨trivial, fun _ => require_only (fun _ => trivial) trivial _ _⟩

theorem decryptStep_only (startAddr : U32) : Only Op.Loads (decryptStep startAddr h fl) := by
  refine only_ite (fun _ => ?_) fun _ => trivial
  exact ⟨trivial, fun _ => require_only (fun _ => trivial) trivial _ _⟩

theorem checkPartition_only (imageStartAddress startAddr : U32) :
    Only Op.Loads (checkPartition f imageStartAddress startAddr h fl) := by
  refine only_ite (fun _ => ?_) fun _ => trivial
  refine Only.bind ((checksumStep_only _ _).mono fun _ => Op.Checks.loads) fun _ => ?_
  refine Only.bind ((authenticateStep_only _).mono fun _ => Op.Checks.loads) fun _ => ?_
  exact Only.bind (decryptStep_only _) fun _ => downloadStep_only _

theorem handlePartition_only (imageStartAddress : U32) (w : Walk) :
    Only Op.Loads (handlePartition f imageStartAddress h w) := by
  have hHook : ∀ {call : Loader Status} {code : FailCode} (fl : Flags),
      Only Op.Loads call → Only Op.Loads (hook call code fl) :=
    fun fl hCall => hook_only (fun _ => trivial) trivial hCall _ fl
  refine Only.bind (hHook _ ((only_ask _).mpr trivial)) fun _ => ?_
  refine Only.bind (placePartition_only f _ _ _) fun _ => ?_
  refine Only.bind (checkPartition_only _ _) fun _ => ?_
  exact Only.bind (hHook _ ((only_ask _).mpr trivial)) fun _ => trivial

theorem loadPartition_only (imageStartAddress : U32) (w : Walk) :
    Only Op.Loads (loadPartition f imageStartAddress h w) := by
  have hFail : ∀ code, Only Op.Loads (fallback code : Loader Step) :=
    fallback_only (fun _ => trivial) trivial
  refine Only.bind (encOnlyStep_only f (fun _ => trivial) (fun _ => trivial) trivial _) fun _ => ?_
  refine only_ite (fun _ => only_ite (fun _ => trivial) fun _ => hFail _) fun _ => ?_
  exact only_ite (fun _ => hFail _) fun _ => handlePartition_only _ _

end Calls

/-! ## The partition at hand -/

def Flags.Exclusive (fl : Flags) : Prop :=
  ¬ (fl.plPartitionFlag = true ∧ fl.psPartitionFlag = true)

theorem exclusive_of_pl {fl : Flags} (hPl : fl.plPartitionFlag = false) : fl.Exclusive := by
  rintro ⟨hSet, _⟩
  rw [hPl] at hSet
  cases hSet

theorem exclusive_of_ps {fl : Flags} (hPs : fl.psPartitionFlag = false) : fl.Exclusive := by
  rintro ⟨_, hSet⟩
  rw [hPs] at hSet
  cases hSet

section AtHand

variable {f : Setup} {h : PartHeader}

theorem psFlags_flags (w : Walk) :
    (hasPsImage f h = true ∧ (psFlags f h w).psPartitionFlag = true ∧
      (psFlags f h w).plPartitionFlag = false) ∨
    (hasPsImage f h = false ∧ psFlags f h w = w) := by
  unfold psFlags
  split
  · rename_i hPs
    exact .inl ⟨hPs, rfl, rfl⟩
  · rename_i hNoPs
    exact .inr ⟨Bool.eq_false_iff.mpr hNoPs, rfl⟩

theorem attrFlags_exclusive {w : Walk} (hExclusive : w.toFlags.Exclusive) :
    (attrFlags f h (psFlags f h w)).toFlags.Exclusive := by
  rcases psFlags_flags (f := f) (h := h) w with ⟨_, _, hPl⟩ | ⟨_, hSame⟩
  · exact exclusive_of_pl hPl
  · rw [attrFlags, hSame]
    exact hExclusive

/-- Where the boot image has been found, and the last header that was dumped. -/
structure AtHand where
  image : Option U32
  header : Option PartHeader

variable (f) in
/-- The image is looked for first where its length is read. -/
def imageBase : Op → Option U32 → Option U32
  | .moveImage source .fsblLength _, base => some (base.getD (source - f.imageTotByteLenOffset))
  | _, base => base

def lastHeader : Op → Option PartHeader → Option PartHeader
  | .headerDump h, _ => some h
  | _, header => header

variable (f) in
def AtHand.after (e : Op) (A : AtHand) : AtHand := ⟨imageBase f e A.image, lastHeader e A.header⟩

variable (f) in
/-- Where the partition lies in the boot device, and where PCAP reads it if that is linear. -/
def partitionSource (image : U32) (h : PartHeader) : U32 :=
  image + h.partitionStart <<< 2 + if f.linearBootDeviceFlag then f.flashReadBaseAddress else 0

variable (f) in
def AtHand.source (A : AtHand) : Option U32 :=
  match A.image, A.header with
  | some image, some h => some (partitionSource f image h)
  | _, _ => none

theorem imageBase_some (e : Op) (image : U32) : imageBase f e (some image) = some image := by
  cases e with
  | moveImage source destination bytes => cases destination <;> rfl
  | _ => rfl

theorem imageBase_registers {e : Op} (hRegisters : e.Registers) (base : Option U32) :
    imageBase f e base = base := by
  cases e <;> first | rfl | exact hRegisters.elim

theorem imageBase_fsblLength (image : U32) (bytes : U32) :
    imageBase f (.moveImage (image + f.imageTotByteLenOffset) .fsblLength bytes) none =
      some image :=
  congrArg some (BitVec.add_sub_cancel image f.imageTotByteLenOffset)

theorem lastHeader_handles {e : Op} (hHandles : e.Handles) (header : Option PartHeader) :
    lastHeader e header = header := by
  cases e <;> first | rfl | exact hHandles.elim

theorem AtHand.after_handles {e : Op} (hHandles : e.Handles) {A : AtHand} {image : U32}
    (hImage : A.image = some image) : A.after f e = A := by
  rw [AtHand.after, hImage, imageBase_some, lastHeader_handles hHandles, ← hImage]

theorem AtHand.after_prepares {e : Op} (hPrepares : e.Prepares) {A : AtHand} {base : Option U32}
    (hBefore : A = ⟨base, none⟩) : A.after f e = ⟨imageBase f e base, none⟩ := by
  rw [hBefore, AtHand.after, lastHeader_handles hPrepares.handles]

end AtHand

section Boot

variable {σ : Type} {allowed : (e : Op) → Answer e → Prop}
  {record : (e : Op) → Answer e → σ → σ} {safe : Op → σ → Prop} {s : σ}

theorem holds_of_only {α : Type} {P : Op → Prop} {I : σ → Prop}
    (hKeep : ∀ e answer s, P e → allowed e answer → I s → I (record e answer s))
    (hSafe : ∀ e s, P e → I s → safe e s) {p : Loader α} (hOnly : Only P p) (hInit : I s) :
    Holds allowed record safe (fun _ s' => I s') p s := by
  apply Always.of_invariant _ _ hSafe hOnly hInit
  · rintro s _ h rfl
    exact h
  · rintro e s answer _ hPrepares h ⟨hAllowed, rfl⟩
    exact hKeep e answer s hPrepares hAllowed h

/-- The partitions are those before the end marker. -/
structure Table.Accepted (f : Setup) (table : Table) : Prop where
  count : table.partitionCount = getPartitionCount f table.partitionHeader
  bounded : getPartitionCount f table.partitionHeader < f.maxPartitionNumber

theorem checkCount_accepted {f : Setup} {header : Nat → PartHeader} {fsblLength : U32}
    {table : Table} (hSome : checkCount f header fsblLength = some table) :
    header = table.partitionHeader ∧ table.Accepted f := by
  simp only [checkCount] at hSome
  split at hSome
  · cases hSome
  rename_i hBounded
  split at hSome
  · cases hSome
  · cases hSome
    exact ⟨rfl, rfl, Nat.lt_of_not_le hBounded⟩

/-! The rules before the walk: `I` holds with where the image has been found. -/

section Prepare

variable {f : Setup} {T : (Nat → PartHeader) → Prop} {I : Option U32 → σ → Prop}
  {base : Option U32} {image : U32}
  (hKeep : ∀ base e answer s, e.Prepares → allowed e answer → I base s →
    I (imageBase f e base) (record e answer s))
  (hSafe : ∀ base e s, e.Prepares → I base s → safe e s)

include hKeep hSafe

theorem holds_prepareRead {destination : Destination} {source bytes : U32} (hHere : I base s) :
    Holds allowed record safe (fun result s' =>
        I (imageBase f (.moveImage source destination bytes) base) s' ∧
        ∀ data, result = some data → allowed (.moveImage source destination bytes) (.success, data))
      (readInto destination source bytes) s := by
  apply holds_readInto (hSafe _ _ s trivial hHere)
  · exact fun data hAllowed => ⟨hKeep _ _ _ s trivial hAllowed hHere, nofun⟩
  · rintro data hAllowed
    refine ⟨hKeep _ _ _ s trivial hAllowed hHere, ?_⟩
    rintro _ ⟨⟩
    exact hAllowed

theorem holds_imageStart (hInit : I none s) :
    Holds allowed record safe (fun _ s' => I none s') (imageStart f) s := by
  apply holds_of_only (I := I none) _ _ (imageStart_registers f) hInit
  · intro e answer s hRegisters hAllowed hHere
    have hThere := hKeep _ e answer s hRegisters.fetches.reads.prepares hAllowed hHere
    rwa [imageBase_registers hRegisters] at hThere
  · exact fun e s hRegisters => hSafe _ e s hRegisters.fetches.reads.prepares

theorem holds_prepares {α : Type} {p : Loader α} (hOnly : Only Op.Prepares p)
    (hHere : I (some image) s) :
    Holds allowed record safe (fun _ s' => I (some image) s') p s := by
  apply holds_of_only (I := I (some image)) _ (hSafe _) hOnly hHere
  intro e answer s hPrepares hAllowed hHere
  have hThere := hKeep _ e answer s hPrepares hAllowed hHere
  rwa [imageBase_some] at hThere

variable (hTable : ∀ source bytes header,
  allowed (.moveImage source .partitionHeader bytes) (.success, header) → T header)

include hTable

theorem holds_getPartitionHeaderInfo (imageBaseAddress : U32) (hInit : I none s) :
    Holds allowed record safe (fun result s' => I (some imageBaseAddress) s' ∧
      ∀ table, result = some table → T table.partitionHeader ∧ table.Accepted f)
      (getPartitionHeaderInfo f imageBaseAddress) s := by
  apply holds_bind
  apply holds_mono (holds_prepareRead hKeep hSafe hInit)
  rintro fsblLength s ⟨hHere, _⟩
  rw [imageBase_fsblLength] at hHere
  cases fsblLength with
  | none => exact holds_ret ⟨hHere, nofun⟩
  | some fsblLength =>
    apply holds_bind
    apply holds_mono (holds_prepareRead hKeep hSafe hHere)
    rintro offset s ⟨hHere, _⟩
    rw [imageBase_some] at hHere
    cases offset with
    | none => exact holds_ret ⟨hHere, nofun⟩
    | some offset =>
      apply holds_bind
      apply holds_mono (holds_prepareRead hKeep hSafe hHere)
      rintro header s ⟨hHere, hHeader⟩
      rw [imageBase_some] at hHere
      cases header with
      | none => exact holds_ret ⟨hHere, nofun⟩
      | some header =>
        refine holds_ret ⟨hHere, ?_⟩
        intro table hSome
        obtain ⟨rfl, hAccepted⟩ := checkCount_accepted hSome
        exact ⟨hTable _ _ _ (hHeader _ rfl), hAccepted⟩

theorem holds_loadBootImage {post : Boot → σ → Prop}
    (hFailed : ∀ image s, I (some image) s → post ⟨xstFailure, initialWalk.toFlags⟩ s)
    (hWalk : ∀ image table s, I (some image) s → T table.partitionHeader → table.Accepted f →
      Holds allowed record safe post (walkTable f image table) s)
    (hInit : I none s) : Holds allowed record safe post (loadBootImage f) s := by
  apply holds_bind
  apply holds_mono (holds_imageStart hKeep hSafe hInit)
  intro image s hHere
  apply holds_bind
  apply holds_mono (holds_getPartitionHeaderInfo hKeep hSafe hTable image hHere)
  rintro table s ⟨hHere, hRead⟩
  cases table with
  | none =>
    refine holds_ask (hSafe _ _ s trivial hHere) fun answer hAllowed => ?_
    have hThere := hKeep _ _ answer s trivial hAllowed hHere
    exact holds_ask (hSafe _ _ _ trivial hThere) fun never _ => nomatch never
  | some table =>
    obtain ⟨hGood, hAccepted⟩ := hRead table rfl
    refine holds_ite (fun _ => ?_) fun _ => hWalk _ _ s hHere hGood hAccepted
    apply holds_bind
    apply holds_mono (holds_prepares hKeep hSafe (efuseStatus_only f _ _) hHere)
    intro status s hHere
    cases status with
    | none => exact holds_ret (hFailed _ s hHere)
    | some status =>
      apply holds_bind
      have hOnly := (authenticateHeaders_only f image table status.1 status.2).mono
        fun _ => Op.Reads.prepares
      apply holds_mono (holds_prepares hKeep hSafe hOnly hHere)
      exact fun _ s hHere => hWalk _ _ s hHere hGood hAccepted

end Prepare

end Boot

end SoftwarePrototypes.Fsbl
