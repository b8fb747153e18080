import SoftwarePrototypes.Fsbl.Bench
import SoftwarePrototypes.Fsbl.Transfers
import SoftwarePrototypes.Interaction.Arithmetic

/-! # Addresses and lengths computed from a header

`LoadBootImage` and `PartitionMove` compute with 32-bit words. What they compute for one partition
is listed, every address and length that is passed on is in the list, and the list is exact under
bounds that the header's checks do not enforce.
-/

namespace SoftwarePrototypes.Fsbl

open Interaction Interaction.Prog Interaction.Arithmetic

/-! ## The computations -/

section Computations

variable (f : Setup) (imageStartAddress : U32) (h : PartHeader) (fl : Flags)

def bytesExpr (words : U32) : Expr 32 := .shift (.word words) 2

def offsetExpr : Expr 32 := .add (.word imageStartAddress) (bytesExpr h.partitionStart)

def flashExpr : Expr 32 := .add (offsetExpr imageStartAddress h) (.word f.flashReadBaseAddress)

def sourceExpr : Expr 32 :=
  if f.linearBootDeviceFlag then flashExpr f imageStartAddress h else offsetExpr imageStartAddress h

def checksumExpr : Expr 32 := .add (.word imageStartAddress) (bytesExpr h.checkSumOffset)

def hashExpr : Expr 32 := .sub (bytesExpr h.partitionWordLen) (.word f.rsaPartitionSignatureSize)

/-- Where a partition is checked, an address of the DDR or one computed before. -/
def checkedExpr : Expr 32 :=
  if f.ddr then .word (destination f fl h.loadAddr) else flashExpr f imageStartAddress h

def certificateExpr : Expr 32 :=
  .sub (.add (checkedExpr f imageStartAddress h fl) (bytesExpr h.partitionWordLen))
    (.word f.rsaSignatureSize)

def copiedWords : U32 := if fl.whole then h.partitionWordLen else h.imageWordLen

/-- Whether `PartitionMove` is called. -/
def moves : Bool := f.ddr || movedWithoutDdr f h fl

/-- What is computed for a partition whose calls all succeed. -/
def computations : List (Expr 32) :=
  (if f.ddr = false then [flashExpr f imageStartAddress h] else []) ++
  (if moves f h fl then [sourceExpr f imageStartAddress h] else []) ++
  (if moves f h fl ∧ f.linearBootDeviceFlag = false then [bytesExpr (copiedWords h fl)] else []) ++
  (if fl.partitionChecksumFlag then
    [bytesExpr h.partitionWordLen, checksumExpr imageStartAddress h] else []) ++
  (if fl.signedPartitionFlag ∧ f.rsaSupport then
    [hashExpr f h, certificateExpr f imageStartAddress h fl] else [])

/-- The addresses read from and the lengths that a call is given. -/
def Op.operands : Op → List U32
  | .moveImage source (.address _) bytes => [source, bytes]
  | .moveImage source .checksum _ => [source]
  | .pcapDataTransfer source _ _ _ _ | .pcapLoadPartition source _ _ _ _ => [source]
  | .md5 addr length | .sha256 addr length => [addr, length]
  | .authenticatePartition ac _ => [ac]
  | .xilOut32 _ value => [value]
  | _ => []

/-- An operand that has been computed, or that is an address to load to. -/
def Known (x : U32) : Prop :=
  x = destination f fl h.loadAddr ∨ ∃ e ∈ computations f imageStartAddress h fl, e.eval = x

def Op.Computed (e : Op) : Prop := ∀ x ∈ e.operands, Known f imageStartAddress h fl x

variable {f imageStartAddress h fl}

theorem Op.Idle.computed {e : Op} (hIdle : e.Idle) : e.Computed f imageStartAddress h fl := by
  cases e <;> first | exact hIdle.elim | exact nofun

theorem known_destination : Known f imageStartAddress h fl (destination f fl h.loadAddr) := .inl rfl

theorem known_flash (hDdr : f.ddr = false) :
    Known f imageStartAddress h fl (partitionStartAddr f imageStartAddress h) :=
  .inr ⟨flashExpr f imageStartAddress h, by simp [computations, hDdr], rfl⟩

theorem known_source (hMoves : moves f h fl = true) :
    Known f imageStartAddress h fl (transfer f imageStartAddress h fl).sourceAddr := by
  refine .inr ⟨sourceExpr f imageStartAddress h, by simp [computations, hMoves], ?_⟩
  rw [transfer, sourceExpr]
  cases f.linearBootDeviceFlag with
  | true => rfl
  | false => exact (BitVec.add_zero _).symm

theorem known_copied (hMoves : moves f h fl = true) (hLinear : f.linearBootDeviceFlag = false) :
    Known f imageStartAddress h fl ((transfer f imageStartAddress h fl).imageWordLen <<< 2) :=
  .inr ⟨bytesExpr (copiedWords h fl), by simp [computations, hMoves, hLinear], rfl⟩

theorem known_checked : Known f imageStartAddress h fl
    (checkedAddr f (partitionStartAddr f imageStartAddress h) h fl) := by
  rw [checkedAddr]
  split
  · exact known_destination
  · rename_i hDdr
    exact known_flash (eq_false_of_ne_true hDdr)

end Computations

/-! ## Every operand is known -/

section Operands

variable {f : Setup} {imageStartAddress : U32} {h : PartHeader} {fl : Flags} {w : Walk}

theorem require_computed (status : Status) (code : FailCode) :
    Only (Op.Computed f imageStartAddress h fl) (require status code) :=
  require_only (fun _ => nofun) nofun status code

theorem partitionMove_computed (hMoves : moves f h fl = true) :
    Only (Op.Computed f imageStartAddress h fl) (partitionMove f imageStartAddress h fl) := by
  apply Only.bind_returns
  · refine only_ite (fun _ => trivial) fun hLinear => ⟨?_, fun _ => trivial⟩
    intro x hMem
    simp only [Op.operands, List.mem_cons, List.not_mem_nil, or_false] at hMem
    obtain rfl | rfl := hMem
    · exact known_source hMoves
    · exact known_copied hMoves (eq_false_of_ne_true hLinear)
  rintro L (_ | t) hMove
  · trivial
  obtain ⟨-, rfl⟩ := moveStep_returns.mp hMove
  have hMoved : Known f imageStartAddress h fl
      (cpuMoved f fl (transfer f imageStartAddress h fl)).sourceAddr := by
    rw [cpuMoved]
    split
    · exact known_source hMoves
    · exact known_destination
  apply Only.bind_returns
  · refine only_ite (fun _ => ⟨?_, fun _ => trivial⟩) fun _ => trivial
    intro x hMem
    rw [List.mem_singleton.mp hMem]
    exact hMoved
  rintro L (_ | t) hPcap
  · trivial
  obtain ⟨-, rfl⟩ := pcapStep_returns.mp hPcap
  refine only_ite (fun _ => ⟨?_, fun _ => trivial⟩) fun _ => trivial
  intro x hMem
  rw [List.mem_singleton.mp hMem, pcapMoved]
  split
  · change Known f imageStartAddress h fl (destination f fl _)
    rw [destination_cpuMoved]
    exact known_destination
  · exact hMoved

theorem movePartition_computed (hMoves : moves f h fl = true) :
    Only (Op.Computed f imageStartAddress h fl) (movePartition f imageStartAddress h fl) :=
  Only.bind (partitionMove_computed hMoves) fun _ => require_computed _ _

theorem store_computed {c : Bool} {addr : U32} (hDdr : f.ddr = false) :
    Only (Op.Computed f imageStartAddress h fl)
      (if c then op (.xilOut32 addr (partitionStartAddr f imageStartAddress h)) else pure ()) := by
  refine only_ite (fun _ => (only_ask _).mpr ?_) fun _ => trivial
  intro x hMem
  rw [List.mem_singleton.mp hMem]
  exact known_flash hDdr

theorem placePartition_computed :
    Only (Op.Computed f imageStartAddress h fl) (placePartition f imageStartAddress h fl) := by
  refine only_ite (fun hDdr => movePartition_computed ?_) fun hDdr => ?_
  · rw [moves, hDdr, Bool.true_or]
  rw [Bool.not_eq_true] at hDdr
  refine Only.bind (store_computed hDdr) fun _ => Only.bind (store_computed hDdr) fun _ => ?_
  refine only_ite (fun hMoved => movePartition_computed ?_) fun _ => trivial
  rw [moves, hMoved, Bool.or_true]

theorem checksumStep_computed (startAddr : U32)
    (hStart : Known f imageStartAddress h fl startAddr) :
    Only (Op.Computed f imageStartAddress h fl)
      (checksumStep imageStartAddress startAddr h fl) := by
  refine only_ite (fun hSum => ?_) fun _ => trivial
  refine Only.bind (Only.bind ⟨?_, fun _ => trivial⟩ ?_) fun _ => require_computed _ _
  · intro x hMem
    rw [List.mem_singleton.mp hMem]
    exact .inr ⟨checksumExpr imageStartAddress h, by simp [computations, hSum], rfl⟩
  · rintro (_ | checksum)
    · trivial
    · refine ⟨?_, fun _ => trivial⟩
      simp only [Op.Computed, Op.operands, List.forall_mem_cons]
      refine ⟨hStart, .inr ⟨bytesExpr h.partitionWordLen, ?_, rfl⟩, nofun⟩
      simp [computations, hSum]

theorem authenticateStep_computed : Only (Op.Computed f imageStartAddress h fl) (authenticateStep f
    (checkedAddr f (partitionStartAddr f imageStartAddress h) h fl) h fl) := by
  refine only_ite (fun hSigned => only_ite (fun hRsa => ?_) fun _ => ?_) fun _ => trivial
  · refine ⟨?_, fun _ => ⟨?_, fun _ => require_computed _ _⟩⟩
    · simp only [Op.Computed, Op.operands, List.forall_mem_cons]
      refine ⟨known_checked, .inr ⟨hashExpr f h, ?_, rfl⟩, nofun⟩
      simp [computations, hSigned, hRsa]
    · intro x hMem
      rw [List.mem_singleton.mp hMem]
      refine .inr ⟨certificateExpr f imageStartAddress h fl, ?_, ?_⟩
      · simp [computations, hSigned, hRsa]
      · rw [certificateExpr, checkedExpr, checkedAddr]
        cases f.ddr <;> rfl
  · exact fallback_only (fun _ => nofun) nofun _

/-- A transfer from where the partition is checked. -/
theorem transfer_computed {e : Op} {startAddr : U32} {code : FailCode}
    {toStatus : Answer e → Status} (hStart : Known f imageStartAddress h fl startAddr)
    (hOperands : e.operands = [startAddr]) : Only (Op.Computed f imageStartAddress h fl)
      (op e >>= fun answer => require (toStatus answer) code) := by
  refine ⟨?_, fun _ => require_computed _ _⟩
  intro x hMem
  rw [hOperands] at hMem
  rw [List.mem_singleton.mp hMem]
  exact hStart

theorem checkPartition_computed : Only (Op.Computed f imageStartAddress h fl)
    (checkPartition f imageStartAddress (partitionStartAddr f imageStartAddress h) h fl) := by
  refine only_ite (fun _ => ?_) fun _ => trivial
  refine Only.bind (checksumStep_computed _ known_checked) fun _ => ?_
  refine Only.bind authenticateStep_computed fun _ => Only.bind ?_ fun _ => ?_
  · exact only_ite (fun _ => transfer_computed known_checked rfl) fun _ => trivial
  · exact only_ite (fun _ => transfer_computed known_checked rfl) fun _ => trivial

theorem handlePartition_computed : Only (Op.Computed f imageStartAddress h w.toFlags)
    (handlePartition f imageStartAddress h w) := by
  rw [handlePartition]
  simp only [latchExecAddr_toFlags]
  refine Only.bind ((beforeHook_only _).mono fun _ => Op.Idle.computed) fun _ => ?_
  refine Only.bind placePartition_computed fun _ => Only.bind checkPartition_computed fun _ => ?_
  exact Only.bind ((afterHook_only _).mono fun _ => Op.Idle.computed) fun _ => trivial

end Operands

/-! ## The bounds -/

section Bounds

variable (f : Setup) (imageStartAddress : U32) (h : PartHeader) (fl : Flags)

def flashOffset : Nat := imageStartAddress.toNat + 4 * h.partitionStart.toNat

def checkedStart : Nat :=
  if f.ddr then (destination f fl h.loadAddr).toNat
  else flashOffset imageStartAddress h + f.flashReadBaseAddress.toNat

/-- Bounds on the words of a valid header. -/
structure WordsBounded : Prop where
  flash : f.ddr = false →
    flashOffset imageStartAddress h + f.flashReadBaseAddress.toNat < 2 ^ 32
  source : moves f h fl = true → flashOffset imageStartAddress h +
    (if f.linearBootDeviceFlag then f.flashReadBaseAddress.toNat else 0) < 2 ^ 32
  copied : moves f h fl = true → f.linearBootDeviceFlag = false →
    if fl.whole then h.partitionWordLen.toNat < 2 ^ 30 else h.imageWordLen ≠ maximumImageWordLen
  checksum : fl.partitionChecksumFlag = true → h.partitionWordLen.toNat < 2 ^ 30 ∧
    imageStartAddress.toNat + 4 * h.checkSumOffset.toNat < 2 ^ 32
  signature : fl.signedPartitionFlag = true → f.rsaSupport = true →
    (h.partitionWordLen.toNat < 2 ^ 30 ∧
      f.rsaPartitionSignatureSize.toNat ≤ 4 * h.partitionWordLen.toNat) ∧
    checkedStart f imageStartAddress h fl + 4 * h.partitionWordLen.toNat < 2 ^ 32 ∧
    f.rsaSignatureSize.toNat ≤ checkedStart f imageStartAddress h fl + 4 * h.partitionWordLen.toNat

variable {f imageStartAddress h fl}

theorem bytes_inRange (n : U32) : (bytesExpr n).InRange ↔ n.toNat < 2 ^ 30 := by
  simp only [bytesExpr, inRange_shift, inRange_word, Expr.value, and_true]
  omega

theorem sum_inRange (a n : U32) : (Expr.add (.word a) (bytesExpr n)).InRange ↔
    a.toNat + 4 * n.toNat < 2 ^ 32 := by
  rw [inRange_add, bytes_inRange]
  simp only [bytesExpr, inRange_word, Expr.value, true_and]
  omega

theorem flash_inRange : (flashExpr f imageStartAddress h).InRange ↔
    flashOffset imageStartAddress h + f.flashReadBaseAddress.toNat < 2 ^ 32 := by
  rw [flashExpr, inRange_add, offsetExpr, sum_inRange, flashOffset]
  simp only [bytesExpr, inRange_word, Expr.value, and_true]
  omega

theorem source_inRange : (sourceExpr f imageStartAddress h).InRange ↔
    flashOffset imageStartAddress h +
      (if f.linearBootDeviceFlag then f.flashReadBaseAddress.toNat else 0) < 2 ^ 32 := by
  rw [sourceExpr]
  split
  · exact flash_inRange
  · exact sum_inRange _ _

theorem checksum_inRange : (checksumExpr imageStartAddress h).InRange ↔
    imageStartAddress.toNat + 4 * h.checkSumOffset.toNat < 2 ^ 32 := sum_inRange _ _

theorem hash_inRange : (hashExpr f h).InRange ↔ h.partitionWordLen.toNat < 2 ^ 30 ∧
    f.rsaPartitionSignatureSize.toNat ≤ 4 * h.partitionWordLen.toNat := by
  rw [hashExpr, inRange_sub, bytes_inRange]
  simp only [bytesExpr, inRange_word, Expr.value, and_true]
  omega

theorem certificate_inRange : (certificateExpr f imageStartAddress h fl).InRange ↔
    checkedStart f imageStartAddress h fl + 4 * h.partitionWordLen.toNat < 2 ^ 32 ∧
    f.rsaSignatureSize.toNat ≤
      checkedStart f imageStartAddress h fl + 4 * h.partitionWordLen.toNat := by
  rw [certificateExpr, inRange_sub, inRange_add, bytes_inRange, checkedExpr, checkedStart]
  split
  · simp only [bytesExpr, inRange_word, Expr.value, and_true, true_and]
    omega
  · rw [flash_inRange]
    simp only [flashExpr, offsetExpr, bytesExpr, inRange_word, Expr.value, and_true, flashOffset]
    omega

theorem copied_inRange (hValid : validateHeader h = .success) :
    (bytesExpr (copiedWords h fl)).InRange ↔ if fl.whole then h.partitionWordLen.toNat < 2 ^ 30
      else h.imageWordLen ≠ maximumImageWordLen := by
  rw [bytes_inRange, copiedWords]
  split
  · exact Iff.rfl
  · have hMost := imageWordLen_le_of_valid hValid
    rw [Ne, ← BitVec.toNat_inj]
    change _ ↔ ¬ h.imageWordLen.toNat = 2 ^ 30
    omega

theorem forall_mem_ite {α : Type} {P : α → Prop} {c : Prop} [Decidable c] {l : List α} :
    (∀ a ∈ (if c then l else []), P a) ↔ (c → ∀ a ∈ l, P a) := by
  split
  · rename_i hThen
    exact ⟨fun hAll _ => hAll, fun hAll => hAll hThen⟩
  · rename_i hElse
    exact ⟨fun _ hThen => absurd hThen hElse, fun _ => nofun⟩

theorem exact_iff_wordsBounded (hValid : validateHeader h = .success) :
    (∀ e ∈ computations f imageStartAddress h fl, e.Exact) ↔
      WordsBounded f imageStartAddress h fl := by
  simp only [Expr.exact_iff, computations, List.forall_mem_append, forall_mem_ite,
    List.forall_mem_cons, List.not_mem_nil, false_implies, implies_true, and_true, flash_inRange,
    source_inRange, copied_inRange hValid, bytes_inRange, checksum_inRange, hash_inRange,
    certificate_inRange, and_imp]
  constructor
  · rintro ⟨⟨⟨⟨hFlash, hSource⟩, hCopied⟩, hChecksum⟩, hSignature⟩
    exact ⟨hFlash, hSource, hCopied, hChecksum, hSignature⟩
  · rintro ⟨hFlash, hSource, hCopied, hChecksum, hSignature⟩
    exact ⟨⟨⟨⟨hFlash, hSource⟩, hCopied⟩, hChecksum⟩, hSignature⟩

/-- Every operand of a call for the partition is known, and the computations are exact under the
bounds. -/
theorem arithmetic_exact_iff {w : Walk} (hValid : validateHeader h = .success) :
    Only (Op.Computed f imageStartAddress h w.toFlags) (handlePartition f imageStartAddress h w) ∧
      ((∀ e ∈ computations f imageStartAddress h w.toFlags, e.Exact) ↔
        WordsBounded f imageStartAddress h w.toFlags) :=
  ⟨handlePartition_computed, exact_iff_wordsBounded hValid⟩

def benchLoad (h : PartHeader) : Walk := loadFlags bench h initialWalk

theorem arithmetic_exact_bench :
    Only (Op.Computed bench 0 benchApplication (benchLoad benchApplication).toFlags)
      (handlePartition bench 0 benchApplication (benchLoad benchApplication)) ∧
    ((∀ e ∈ computations bench 0 benchApplication (benchLoad benchApplication).toFlags, e.Exact) ↔
      WordsBounded bench 0 benchApplication (benchLoad benchApplication).toFlags) :=
  arithmetic_exact_iff (by decide)

/-- The longest image that `ValidateHeader` lets pass has 0 bytes. -/
def longestApplication : PartHeader :=
  benchHeader maximumImageWordLen maximumImageWordLen 4 0x100000 0x10

theorem arithmetic_wraps : validateHeader longestApplication = .success ∧
    ¬ ∀ e ∈ computations bench 0 longestApplication (benchLoad longestApplication).toFlags,
      e.Exact := by
  refine ⟨by decide, fun hExact => ?_⟩
  have hBytes := hExact (bytesExpr maximumImageWordLen) (by decide) _ (.head _)
  exact absurd hBytes (by decide)

end Bounds

end SoftwarePrototypes.Fsbl
