import SoftwarePrototypes.Fsbl.Bench
import SoftwarePrototypes.Fsbl.Ranges
import SoftwarePrototypes.Fsbl.Transfers

/-! # Encryption-only boot

With the eFuse set, every partition that is delivered should have been decrypted. A partition with
neither image bit is typed by the flags of the one before it; if there is none, it is copied to
its load address as it is in the boot device.
-/

namespace SoftwarePrototypes.Fsbl

open Interaction Interaction.Prog

/-! ## The moves of a partition -/

/-- Words are copied as they are, decrypted, or sent to the PL. -/
inductive Move where
  | copied (source : U32) (words : Range)
  | decrypted (source destination imageWordLen dataWordLen : U32)
  | loaded (source imageWordLen dataWordLen : U32) (secure : Bool)

/-- The moves since the last `HeaderDump`, the latest first. -/
structure Progress extends AtHand where
  moves : List Move

def Progress.start : Progress := ⟨⟨none, none⟩, []⟩

def Progress.dumped (image : U32) (h : PartHeader) : Progress := ⟨⟨some image, some h⟩, []⟩

/-- What a secure transfer leaves that fails counts as copied. -/
def noteMove : (e : Op) → Answer e → List Move → List Move
  | .headerDump _, _, _ => []
  | .moveImage source (.address destination) bytes, _, moves =>
    .copied source ⟨destination, bytes.toNat⟩ :: moves
  | .pcapDataTransfer source destination imageWordLen dataWordLen true, .success, moves =>
    .decrypted source destination imageWordLen dataWordLen :: moves
  | .pcapDataTransfer source destination _ dataWordLen _, _, moves =>
    .copied source ⟨destination, 4 * dataWordLen.toNat⟩ :: moves
  | .pcapLoadPartition source _ imageWordLen dataWordLen secure, status, moves =>
    .loaded source imageWordLen dataWordLen (secure && decide (status = .success)) :: moves
  | _, _, moves => moves

def note (f : Setup) (e : Op) (answer : Answer e) (P : Progress) : Progress :=
  ⟨P.toAtHand.after f e, noteMove e answer P.moves⟩

/-- The move puts words at the load address of the partition, or in the PL. -/
def Move.Delivers (h : PartHeader) : Move → Prop
  | .copied _ words => h.loadAddr ∈ words.addresses
  | .decrypted _ destination _ dataWordLen =>
    h.loadAddr ∈ (Range.mk destination (4 * dataWordLen.toNat)).addresses
  | .loaded _ _ _ _ => True

def Delivered (P : Progress) (h : PartHeader) : Prop := ∃ move ∈ P.moves, move.Delivers h

section Spec

variable (f : Setup)

/-- The words of a partition, stored from `part` on in the boot device, are found at an address:
PCAP reads them in a linear boot device, or they have been copied there. -/
def LiesAt (part addr : U32) : List Move → Prop
  | [] => f.linearBootDeviceFlag = true ∧ addr = part
  | [.copied source words] => source = part ∧ words.start = addr
  | _ => False

/-- The last move takes the words of the partition from where they are, through a secure transfer
of the lengths of its header, to its load address or to the PL. Before it they have been copied at
most once, and nothing else has been moved. -/
def EndsDecrypted (part : U32) (h : PartHeader) : List Move → Prop
  | .decrypted source destination imageWordLen dataWordLen :: moves =>
    destination = h.loadAddr ∧ imageWordLen = h.imageWordLen ∧ dataWordLen = h.dataWordLen ∧
      LiesAt f part source moves
  | .loaded source imageWordLen dataWordLen secure :: moves =>
    secure = true ∧ imageWordLen = h.imageWordLen ∧ dataWordLen = h.dataWordLen ∧
      LiesAt f part source moves
  | _ => False

/-- What is delivered of the partition at hand has been decrypted. -/
def Secured (P : Progress) : Prop :=
  ∀ h, P.header = some h → Delivered P h →
    ∃ part, P.source f = some part ∧ EndsDecrypted f part h P.moves

/-- The walk can pass the entry, and does not set a type there. -/
structure PassesUntyped (h : PartHeader) : Prop where
  valid : validateHeader h = .success
  pl : ownedByFsbl f h = true → hasPlImage f h = false
  ps : ownedByFsbl f h = true → hasPsImage f h = false
  encrypted : ownedByFsbl f h = true → h.dataWordLen ≠ h.imageWordLen
  supported : ownedByFsbl f h = true → h.partitionAttr &&& f.rsaPresentMask ≠ 0 →
    f.rsaSupport = true

/-- What `MoveImage` is asked to copy of a partition. -/
def moveBytes (h : PartHeader) : Nat :=
  if h.partitionAttr &&& f.rsaPresentMask ≠ 0 ∨ h.partitionAttr &&& f.checksumTypeMask ≠ 0 then
    (h.partitionWordLen <<< 2).toNat
  else (h.imageWordLen <<< 2).toNat

/-- The CPU copies no partition of the boot loader before one has been typed. -/
def TypedFirst (header : Nat → PartHeader) : Prop :=
  f.linearBootDeviceFlag = true ∨ f.maxPartitionNumber ≤ getPartitionCount f header ∨
    ∀ num, firstPartition f ≤ num → num < getPartitionCount f header →
      ownedByFsbl f (header num) = true →
      (∀ k, firstPartition f ≤ k → k ≤ num → PassesUntyped f (header k)) →
      moveBytes f (header num) = 0

/-- The eFuse is set, and the boot device delivers a table that satisfies `T`. -/
def EncOnly (T : (Nat → PartHeader) → Prop) : (e : Op) → Answer e → Prop
  | .readReg offset, value => offset = f.statusOffset → value &&& f.statusEfuseSecEnMask ≠ 0
  | .moveImage _ .partitionHeader _, (.success, header) => T header
  | _, _ => True

def MovesOn (e : Op) (P : Progress) : Prop := ∀ h, e = .headerDump h → Secured f P

abbrev Progresses {α : Type} (post : α → Progress → Prop) (p : Loader α) (P : Progress) : Prop :=
  Holds (EncOnly f (TypedFirst f)) (note f) (MovesOn f) post p P

end Spec

/-! ## One partition -/

section Partition

variable {f : Setup} {P : Progress} {image : U32} {h : PartHeader} {fl : Flags}

theorem movesOn_of_handles {e : Op} (h : e.Handles) (P : Progress) : MovesOn f e P := by
  rintro h' rfl
  exact h.elim

theorem fallback_movesOn : FallbackSafe (MovesOn f) := by
  intro P
  constructor
  · exact fun code => movesOn_of_handles (by trivial) P
  · exact movesOn_of_handles (by trivial) P

/-- The partition at hand, if it has been delivered, has been decrypted. -/
structure Settled (f : Setup) (image : U32) (h : PartHeader) (P : Progress) : Prop where
  atHand : P.toAtHand = ⟨some image, some h⟩
  decrypted : Delivered P h → EndsDecrypted f (partitionSource f image h) h P.moves

theorem Settled.secured (hSettled : Settled f image h P) : Secured f P := by
  intro h' hHeader hDelivered
  rw [hSettled.atHand] at hHeader
  cases hHeader
  refine ⟨partitionSource f image h, ?_, hSettled.decrypted hDelivered⟩
  rw [hSettled.atHand]
  rfl

theorem settled_dumped (image : U32) (h : PartHeader) : Settled f image h (.dumped image h) :=
  ⟨rfl, fun ⟨_, hMem, _⟩ => absurd hMem List.not_mem_nil⟩

/-- Calls that move nothing. -/
def Op.Silent : Op → Prop
  | .headerDump _ | .moveImage _ (.address _) _ | .pcapDataTransfer _ _ _ _ _
  | .pcapLoadPartition _ _ _ _ _ => False
  | _ => True

theorem Op.Idle.silent {e : Op} (h : e.Idle) : e.Silent := by
  cases e <;> trivial

theorem Op.Checks.silent {e : Op} (h : e.Checks) : e.Silent := by
  cases e with
  | moveImage source destination bytes => cases destination <;> trivial
  | _ => trivial

theorem noteMove_silent {e : Op} (hSilent : e.Silent) (answer : Answer e) (moves : List Move) :
    noteMove e answer moves = moves := by
  unfold noteMove
  split <;> first | rfl | exact hSilent.elim

theorem idle_progresses {α : Type} {p : Loader α} (hOnly : Only Op.Idle p)
    (hImage : P.image = some image) : Progresses f (fun _ P' => P' = P) p P := by
  refine holds_of_only (I := fun P' : Progress => P' = P) ?_ ?_ hOnly rfl
  · rintro e answer _ hIdle _ rfl
    rw [note, AtHand.after_handles hIdle.handles hImage, noteMove_silent hIdle.silent]
  · exact fun e P' hIdle _ => movesOn_of_handles hIdle.handles P'

theorem handles_progresses {α : Type} {p : Loader α} (hOnly : Only Op.Handles p) :
    Progresses f (fun _ _ => True) p P :=
  holds_of_only (I := fun _ => True) (fun _ _ _ _ _ _ => trivial)
    (fun _ P hHandles _ => movesOn_of_handles hHandles P) hOnly trivial

/-! ### Its moves along a trace -/

def movesOf (L : List Event) (moves : List Move) : List Move :=
  L.foldl (fun moves event => noteMove event.1 event.2 moves) moves

theorem movesOf_append (L M : List Event) (moves : List Move) :
    movesOf (L ++ M) moves = movesOf M (movesOf L moves) := List.foldl_append

theorem movesOf_silent {L : List Event} (h : ∀ event ∈ L, event.1.Silent) (moves : List Move) :
    movesOf L moves = moves := by
  induction L generalizing moves with
  | nil => rfl
  | cons event L ih =>
    obtain ⟨hFirst, hRest⟩ := List.forall_mem_cons.mp h
    rw [movesOf, List.foldl_cons, noteMove_silent hFirst]
    exact ih hRest moves

theorem foldl_note {L : List Event} (hHandles : ∀ event ∈ L, event.1.Handles)
    (hImage : P.image = some image) :
    L.foldl (fun P event => note f event.1 event.2 P) P = ⟨P.toAtHand, movesOf L P.moves⟩ := by
  induction L generalizing P with
  | nil => rfl
  | cons event L ih =>
    obtain ⟨hFirst, hRest⟩ := List.forall_mem_cons.mp hHandles
    rw [List.foldl_cons, note, AtHand.after_handles hFirst hImage]
    exact ih (P := ⟨P.toAtHand, _⟩) hRest hImage

/-- The moves of a partition are those of `PartitionMove` and of the use of a checked one. -/
theorem handlePartition_moves (hDdr : f.ddr = true) {w : Walk} {L : List Event} {step : Step}
    (hRun : Returns (handlePartition f image h w) L step) :
    step = .next (latchExecAddr h w) ∧ movesOf L [] = movesOf (moveEvents f image h w.toFlags ++
      useEvents f (partitionStartAddr f image h) h w.toFlags) [] := by
  obtain ⟨rfl, before, placing, checking, after, rfl, hBefore, hPlacing, hChecking, hAfter⟩ :=
    handlePartition_returns hRun
  obtain ⟨quiet, hQuiet, rfl⟩ := checkPartition_returns hChecking
  have hBeforeIdle := ((beforeHook_only w.toFlags).steps hBefore).1
  have hAfterIdle := ((afterHook_only w.toFlags).steps hAfter).1
  rw [(placePartition_returns (.inl hDdr)).mp hPlacing, recordEvents, if_pos hDdr,
    List.nil_append]
  simp only [movesOf_append]
  rw [movesOf_silent fun event hMem => (hBeforeIdle event hMem).silent,
    movesOf_silent fun event hMem => (hQuiet event hMem).silent,
    movesOf_silent fun event hMem => (hAfterIdle event hMem).silent]
  exact ⟨trivial, rfl⟩

theorem handlePartition_settled (hDdr : f.ddr = true) {w : Walk}
    (hSettled : Settled f image h ⟨⟨some image, some h⟩, movesOf (moveEvents f image h w.toFlags ++
      useEvents f (partitionStartAddr f image h) h w.toFlags) []⟩) :
    Progresses f (fun step P' => Settled f image h P' ∧ step = .next (latchExecAddr h w))
      (handlePartition f image h w) (.dumped image h) := by
  have hOnly := (handlePartition_only (f := f) (h := h) image w).mono fun _ => Op.Loads.handles
  refine Always.of_returns (fun e P hHandles => movesOn_of_handles hHandles P) hOnly ?_
  intro L step hRun
  obtain ⟨hStep, hMoves⟩ := handlePartition_moves hDdr hRun
  rw [foldl_note (hOnly.steps hRun).1 rfl]
  refine ⟨?_, hStep⟩
  rw [← hMoves] at hSettled
  exact hSettled

/-- A partition with a type is decrypted where it is delivered. -/
theorem decrypted_typed (hDdr : f.ddr = true) (hEncrypted : fl.encryptedPartitionFlag = true)
    (hType : fl.plPartitionFlag = !fl.psPartitionFlag) (startAddr : U32) :
    EndsDecrypted f (partitionSource f image h) h
      (movesOf (moveEvents f image h fl ++ useEvents f startAddr h fl) []) := by
  cases hWhole : fl.whole <;> cases hLinear : f.linearBootDeviceFlag
  · rw [moveEvents_copied_plain hLinear hType hWhole, useEvents, hWhole]
    cases hPs : fl.psPartitionFlag <;>
      simp [movesOf, noteMove, EndsDecrypted, LiesAt, partitionSource, destination, hLinear, hType,
        hPs, hEncrypted]
  · rw [moveEvents_linear_plain hLinear hType hWhole, useEvents, hWhole, hEncrypted]
    cases hPs : fl.psPartitionFlag <;>
      simp [movesOf, noteMove, EndsDecrypted, LiesAt, partitionSource, partitionStartAddr, hLinear]
  · rw [moveEvents_copied_whole hLinear hType hWhole, useEvents, if_pos hWhole]
    cases hPs : fl.psPartitionFlag <;>
      simp [movesOf, noteMove, EndsDecrypted, LiesAt, partitionSource, destination, checkedAddr,
        decryptEvents, downloadEvents, hDdr, hLinear, hType, hPs, hEncrypted]
  · rw [moveEvents_linear_whole hLinear hType hWhole, useEvents, if_pos hWhole]
    cases hPs : fl.psPartitionFlag <;>
      simp [movesOf, noteMove, EndsDecrypted, LiesAt, partitionSource, partitionStartAddr,
        destination, checkedAddr, decryptEvents, downloadEvents, hDdr, hLinear, hType, hPs,
        hEncrypted]

/-! ### Partitions without a type -/

def WholeMarked (f : Setup) (h : PartHeader) (fl : Flags) : Prop :=
  fl.whole = true ↔
    h.partitionAttr &&& f.rsaPresentMask ≠ 0 ∨ h.partitionAttr &&& f.checksumTypeMask ≠ 0

theorem transfer_bytes (hMarks : WholeMarked f h fl) (imageStartAddress : U32) :
    ((transfer f imageStartAddress h fl).imageWordLen <<< 2).toNat = moveBytes f h := by
  simp only [moveBytes, transfer]
  cases hWhole : fl.whole with
  | true => rw [if_pos (hMarks.mp hWhole), if_pos rfl]
  | false =>
    have hPlain : ¬ (h.partitionAttr &&& f.rsaPresentMask ≠ 0 ∨
        h.partitionAttr &&& f.checksumTypeMask ≠ 0) := by
      intro hBits
      rw [hMarks.mpr hBits] at hWhole
      cases hWhole
    rw [if_neg hPlain, if_neg Bool.false_ne_true]

/-- Without a type, only the CPU moves words of a partition. -/
theorem moveEvents_untyped (hPl : fl.plPartitionFlag = false) (hPs : fl.psPartitionFlag = false) :
    moveEvents f image h fl = cpuEvents f fl (transfer f image h fl) := by
  simp [moveEvents, pcapEvents, bitstreamEvents, usesPcap, hPl, hPs]

theorem useEvents_untyped (hPl : fl.plPartitionFlag = false) (hPs : fl.psPartitionFlag = false)
    (startAddr : U32) : useEvents f startAddr h fl = [] := by
  simp [useEvents, decryptEvents, downloadEvents, hPl, hPs]

theorem undelivered_untyped (hPl : fl.plPartitionFlag = false) (hPs : fl.psPartitionFlag = false)
    (hMarks : WholeMarked f h fl) (hEmpty : f.linearBootDeviceFlag = true ∨ moveBytes f h = 0)
    (startAddr : U32) : ∀ move ∈ movesOf (moveEvents f image h fl ++ useEvents f startAddr h fl) [],
      ¬ move.Delivers h := by
  rw [moveEvents_untyped hPl hPs, useEvents_untyped hPl hPs, List.append_nil, cpuEvents]
  split
  · exact fun _ hMem => absurd hMem List.not_mem_nil
  · rename_i hCpu
    intro move hMem
    obtain rfl := List.mem_singleton.mp hMem
    apply Range.addresses_of_empty
    exact (transfer_bytes hMarks image).trans (hEmpty.resolve_left hCpu)

/-! ## The walk -/

/-- Between partitions: the last one is secured, and without a type none has been typed yet. -/
structure Between (f : Setup) (image : U32) (header : Nat → PartHeader) (num : Nat) (w : Walk)
    (P : Progress) : Prop where
  found : P.image = some image
  secured : Secured f P
  first : firstPartition f ≤ num
  exclusive : w.toFlags.Exclusive
  untyped : w.plPartitionFlag = false → w.psPartitionFlag = false →
    ∀ k, firstPartition f ≤ k → k < num → PassesUntyped f (header k)

def StepOk (f : Setup) (image : U32) (header : Nat → PartHeader) (num : Nat) (step : Step)
    (P : Progress) : Prop :=
  match step with
  | .next w => Between f image header (num + 1) w P
  | .stop _ => Secured f P

end Partition

section Walk

variable {f : Setup} {P : Progress} {image : U32} {h : PartHeader}

theorem handlePartition_typed (hDdr : f.ddr = true) {w : Walk}
    (hEncrypted : w.encryptedPartitionFlag = true)
    (hTyped : w.plPartitionFlag = true ∨ w.psPartitionFlag = true)
    (hExclusive : w.toFlags.Exclusive) :
    Progresses f (fun step P' => Settled f image h P' ∧ step = .next (latchExecAddr h w))
      (handlePartition f image h w) (.dumped image h) := by
  refine handlePartition_settled hDdr ⟨rfl, fun _ => decrypted_typed hDdr hEncrypted ?_ _⟩
  cases hPs : w.psPartitionFlag with
  | true => exact Bool.eq_false_iff.mpr fun hPl => hExclusive ⟨hPl, hPs⟩
  | false => exact hTyped.resolve_right (ne_true_of_eq_false hPs)

theorem handlePartition_untyped (hDdr : f.ddr = true) {w : Walk}
    (hPl : w.plPartitionFlag = false) (hPs : w.psPartitionFlag = false)
    (hMarks : WholeMarked f h w.toFlags)
    (hEmpty : f.linearBootDeviceFlag = true ∨ moveBytes f h = 0) :
    Progresses f (fun step P' => Settled f image h P' ∧ step = .next (latchExecAddr h w))
      (handlePartition f image h w) (.dumped image h) := by
  refine handlePartition_settled hDdr ⟨rfl, ?_⟩
  rintro ⟨move, hMem, hDelivers⟩
  exact absurd hDelivers (undelivered_untyped hPl hPs hMarks hEmpty _ move hMem)

/-- A signed partition does not pass a boot loader without RSA. -/
theorem handlePartition_unsupported {w : Walk} (hSigned : w.signedPartitionFlag = true)
    (hNoRsa : f.rsaSupport = false) :
    Progresses f (fun _ _ => False) (handlePartition f image h w) P := by
  rw [handlePartition]
  simp only [latchExecAddr_toFlags]
  apply holds_bind
  apply holds_mono (handles_progresses ((beforeHook_only _).mono fun _ => Op.Idle.handles))
  intro _ P _
  apply holds_bind
  apply holds_mono (handles_progresses ((placePartition_only f _ _ _).mono fun _ =>
    Op.Loads.handles))
  intro _ P _
  apply holds_bind
  rw [checkPartition, if_pos (by rw [Flags.whole, hSigned]; rfl)]
  apply holds_bind
  apply holds_mono (handles_progresses ((checksumStep_only _ _).mono fun _ h => h.loads.handles))
  intro _ P _
  apply holds_bind
  rw [authenticateStep, if_pos hSigned, if_neg (ne_true_of_eq_false hNoRsa)]
  exact holds_fallback fallback_movesOn _

theorem encOnlyStep_progresses (hAes : f.forceUseAesExclude = false) {fl : Flags} :
    Progresses f (fun _ P' => P' = .dumped image h ∧ fl.encryptedPartitionFlag = true)
      (encOnlyStep f fl) (.dumped image h) := by
  rw [encOnlyStep, if_neg (ne_true_of_eq_false hAes)]
  refine holds_ask (movesOn_of_handles (by trivial) _) fun reg hSet => ?_
  refine holds_ite (fun _ => holds_fallback fallback_movesOn _) fun hPass => ?_
  refine holds_ret ⟨rfl, ?_⟩
  rw [← Bool.not_eq_false]
  exact fun hPlain => hPass ⟨hSet rfl, hPlain⟩

variable {header : Nat → PartHeader} {num : Nat}

theorem attrFlags_marked (w : Walk) : WholeMarked f h (attrFlags f h w).toFlags := by
  simp only [WholeMarked, Flags.whole, attrFlags, Bool.or_eq_true, decide_eq_true_eq]

theorem attrFlags_untyped {w : Walk}
    (hPl : (attrFlags f h (psFlags f h w)).plPartitionFlag = false)
    (hPs : (attrFlags f h (psFlags f h w)).psPartitionFlag = false) :
    w.plPartitionFlag = false ∧ w.psPartitionFlag = false ∧ hasPsImage f h = false := by
  rcases psFlags_flags (f := f) (h := h) w with ⟨_, hTyped, _⟩ | ⟨hNoPs, hSame⟩
  · rw [attrFlags, hTyped] at hPs
    cases hPs
  · rw [attrFlags, hSame] at hPl hPs
    exact ⟨hPl, hPs, hNoPs⟩

theorem between_next {w : Walk} {P : Progress} (hSettled : Settled f image (header num) P)
    (hFirst : firstPartition f ≤ num)
    (hExclusive : w.toFlags.Exclusive)
    (hUntyped : w.plPartitionFlag = false → w.psPartitionFlag = false →
      ∀ k, firstPartition f ≤ k → k ≤ num → PassesUntyped f (header k)) :
    Between f image header (num + 1) w P where
  found := congrArg AtHand.image hSettled.atHand
  secured := hSettled.secured
  first := by omega
  exclusive := hExclusive
  untyped := fun hPl hPs k hLow hHigh => hUntyped hPl hPs k hLow (by omega)

/-- The flags of the partition are set. -/
theorem checkLoadAddr_progresses (hDdr : f.ddr = true) {w : Walk} (hFirst : firstPartition f ≤ num)
    (hEncrypted : w.encryptedPartitionFlag = true) (hExclusive : w.toFlags.Exclusive)
    (hMarks : WholeMarked f (header num) w.toFlags)
    (hUntyped : w.plPartitionFlag = false → w.psPartitionFlag = false →
      (w.signedPartitionFlag = true → f.rsaSupport = true) →
      (∀ k, firstPartition f ≤ k → k ≤ num → PassesUntyped f (header k)) ∧
        (f.linearBootDeviceFlag = true ∨ moveBytes f (header num) = 0)) :
    Progresses f (StepOk f image header num) (checkLoadAddr f image (header num) w)
      (.dumped image (header num)) := by
  have hSettled := (settled_dumped (f := f) image (header num)).secured
  rw [checkLoadAddr]
  refine holds_ite (fun _ => ?_) fun _ => ?_
  · exact holds_ite (fun _ => holds_ret hSettled) fun _ => holds_fallback fallback_movesOn _
  refine holds_ite (fun _ => holds_fallback fallback_movesOn _) fun _ => ?_
  by_cases hSupported : w.signedPartitionFlag = true ∧ f.rsaSupport = false
  · apply holds_mono (handlePartition_unsupported hSupported.1 hSupported.2)
    exact fun _ _ hNever => hNever.elim
  have hRsa : w.signedPartitionFlag = true → f.rsaSupport = true := by
    intro hSigned
    rw [← Bool.not_eq_false]
    exact fun hNoRsa => hSupported ⟨hSigned, hNoRsa⟩
  rcases Bool.eq_false_or_eq_true (w.plPartitionFlag || w.psPartitionFlag) with hTyped | hNone
  · rw [Bool.or_eq_true] at hTyped
    apply holds_mono (handlePartition_typed hDdr hEncrypted hTyped hExclusive)
    rintro _ P ⟨hSettled, rfl⟩
    apply between_next hSettled hFirst <;> rw [latchExecAddr_toFlags]
    · exact hExclusive
    · exact fun hPl hPs => (hUntyped hPl hPs hRsa).1
  · rw [Bool.or_eq_false_iff] at hNone
    obtain ⟨hPassed, hEmpty⟩ := hUntyped hNone.1 hNone.2 hRsa
    apply holds_mono (handlePartition_untyped hDdr hNone.1 hNone.2 hMarks hEmpty)
    rintro _ P ⟨hSettled, rfl⟩
    apply between_next hSettled hFirst
    · rw [latchExecAddr_toFlags]
      exact hExclusive
    · exact fun _ _ => hPassed

theorem loadPartition_progresses (hDdr : f.ddr = true) (hAes : f.forceUseAesExclude = false)
    {w : Walk} (hFirst : firstPartition f ≤ num) (hExclusive : w.toFlags.Exclusive)
    (hUntyped : w.plPartitionFlag = false → w.psPartitionFlag = false →
      hasPsImage f (header num) = false → (header num).dataWordLen ≠ (header num).imageWordLen →
      ((header num).partitionAttr &&& f.rsaPresentMask ≠ 0 → f.rsaSupport = true) →
      (∀ k, firstPartition f ≤ k → k ≤ num → PassesUntyped f (header k)) ∧
        (f.linearBootDeviceFlag = true ∨ moveBytes f (header num) = 0)) :
    Progresses f (StepOk f image header num) (loadPartition f image (header num) w)
      (.dumped image (header num)) := by
  rw [loadPartition]
  apply holds_bind
  apply holds_mono (encOnlyStep_progresses hAes)
  rintro _ _ ⟨rfl, hEncrypted⟩
  apply checkLoadAddr_progresses hDdr hFirst hEncrypted (attrFlags_exclusive hExclusive)
    (attrFlags_marked _)
  intro hPl hPs hRsa
  obtain ⟨hNoPl, hNoPs, hNoImage⟩ := attrFlags_untyped hPl hPs
  exact hUntyped hNoPl hNoPs hNoImage (of_decide_eq_true hEncrypted)
    fun hBit => hRsa (decide_eq_true hBit)

theorem plPartition_progresses (hDdr : f.ddr = true) (hAes : f.forceUseAesExclude = false)
    (hFirst : firstPartition f ≤ num) (w : Walk) :
    Progresses f (StepOk f image header num) (plPartition f image (header num) w)
      (.dumped image (header num)) := by
  have hSettled := settled_dumped (f := f) image (header num)
  rw [plPartition]
  refine holds_ite (fun _ => holds_ret hSettled.secured) fun _ => ?_
  apply holds_bind
  apply holds_mono (idle_progresses (watchdogReset_only f) rfl)
  rintro warm _ rfl
  refine holds_ite (fun _ => holds_ret ?_) fun _ => ?_
  · exact between_next hSettled hFirst (exclusive_of_ps rfl)
      fun hPl => absurd hPl.symm Bool.false_ne_true
  · exact loadPartition_progresses hDdr hAes hFirst (exclusive_of_ps rfl)
      fun hPl => absurd hPl.symm Bool.false_ne_true

theorem Between.extend {w : Walk} (hBetween : Between f image header num w P)
    (hPl : w.plPartitionFlag = false) (hPs : w.psPartitionFlag = false)
    (hHere : PassesUntyped f (header num)) :
    ∀ k, firstPartition f ≤ k → k ≤ num → PassesUntyped f (header k) := by
  intro k hLow hHigh
  rcases Nat.lt_or_eq_of_le hHigh with hOld | rfl
  · exact hBetween.untyped hPl hPs k hLow hOld
  · exact hHere

theorem partition_progresses (hDdr : f.ddr = true) (hAes : f.forceUseAesExclude = false)
    (hTable : TypedFirst f header) (hBounded : getPartitionCount f header < f.maxPartitionNumber)
    (hNum : num < getPartitionCount f header) {w : Walk}
    (hBetween : Between f image header num w P) :
    Progresses f (StepOk f image header num) (partition f image (header num) w) P := by
  have hSettled := settled_dumped (f := f) image (header num)
  refine holds_ask (fun _ _ => hBetween.secured) fun _ _ => ?_
  have hDumped : note f (.headerDump (header num)) () P = .dumped image (header num) := by
    rw [note, AtHand.after, hBetween.found]
    rfl
  rw [hDumped]
  apply holds_bind
  refine holds_require fallback_movesOn fun hValid => ?_
  refine holds_ite (fun hOther => ?_) fun hOwned => ?_
  · have hHere : PassesUntyped f (header num) := by
      constructor
      · exact hValid
      all_goals
        intro hOwned
        rw [hOwned] at hOther
        cases hOther
    apply holds_ret
    exact between_next hSettled hBetween.first hBetween.exclusive
      fun hPl hPs => hBetween.extend hPl hPs hHere
  rw [Bool.not_eq_false] at hOwned
  refine holds_ite (fun _ => ?_) fun hNoPl => ?_
  · exact plPartition_progresses hDdr hAes hBetween.first w
  · apply loadPartition_progresses hDdr hAes hBetween.first hBetween.exclusive
    intro hPl hPs hNoPs hEncrypted hRsa
    have hPassed := hBetween.extend hPl hPs
      ⟨hValid, fun _ => Bool.eq_false_iff.mpr hNoPl, fun _ => hNoPs, fun _ => hEncrypted,
        fun _ => hRsa⟩
    refine ⟨hPassed, hTable.imp_right fun hRest => ?_⟩
    exact hRest.resolve_left (not_le.mpr hBounded) num hBetween.first hNum hOwned hPassed

end Walk

/-! ## Whole runs -/

theorem loadBootImage_progresses {f : Setup} (hDdr : f.ddr = true)
    (hAes : f.forceUseAesExclude = false) :
    Progresses f (fun _ P => Secured f P) (loadBootImage f) Progress.start := by
  have hNone : ∀ {base : Option U32} {P : Progress}, P.toAtHand = ⟨base, none⟩ → Secured f P := by
    intro base P hAtHand h hHeader
    rw [hAtHand] at hHeader
    cases hHeader
  refine holds_loadBootImage (I := fun base (P : Progress) => P.toAtHand = ⟨base, none⟩)
    (T := TypedFirst f) ?_ ?_ ?_ ?_ ?_ rfl
  · exact fun _ _ _ _ hPrepares _ hAtHand => AtHand.after_prepares hPrepares hAtHand
  · exact fun _ e P hPrepares _ => movesOn_of_handles hPrepares.handles P
  · exact fun _ _ _ hTable => hTable
  · exact fun _ P hAtHand => hNone hAtHand
  · intro image table P hAtHand hTable hAccepted
    apply holds_bind
    have hWalk : Progresses f (fun _ P => Secured f P) (walk f image table
        table.partitionCount (firstPartition f) initialWalk) P := by
      refine holds_walk (I := Between f image table.partitionHeader) ?_ ?_ _ ?_
      · intro num w P hNum hBetween
        rw [hAccepted.count] at hNum
        apply holds_mono (partition_progresses hDdr hAes hTable hAccepted.bounded hNum hBetween)
        intro step P hStep
        cases step <;> exact hStep
      · exact fun num w P hBetween => hBetween.secured
      · refine ⟨congrArg AtHand.image hAtHand, hNone hAtHand, le_rfl,
          exclusive_of_pl rfl, ?_⟩
        intro _ _ k hLow hHigh
        omega
    exact holds_mono hWalk fun w P hSecured => holds_ret hSecured

/-- When a run moves on to another partition, and when it returns, what was delivered has been
decrypted. -/
theorem delivered_secured {f : Setup} (hDdr : f.ddr = true) (hAes : f.forceUseAesExclude = false)
    {p : Loader Boot} {P : Progress}
    (hRun : Reaches (notes (EncOnly f (TypedFirst f)) (note f)) (loadBootImage f) .start p P)
    (hDone : (∃ boot, p = .ret boot) ∨ ∃ h rest, p = .call (.headerDump h) rest) : Secured f P := by
  have hBoot := loadBootImage_progresses hDdr hAes
  rcases hDone with ⟨boot, rfl⟩ | ⟨h, rest, rfl⟩
  · exact hBoot.at_return (fun _ => rfl) hRun
  · exact hBoot.at_call (fun _ => rfl) hRun h rfl

def encryptedHeader (partitionAttr : U32) : PartHeader :=
  benchHeader 8 4 8 0x100000 partitionAttr

def encryptedRun (partitionAttr : U32) : Loader Boot × Progress :=
  benchRun (note bench) (encryptedHeader partitionAttr) 8 20 .start

theorem encryptedRun_reaches {T : (Nat → PartHeader) → Prop} (partitionAttr : U32)
    (hTable : T (benchTable (encryptedHeader partitionAttr))) :
    Reaches (notes (EncOnly bench T) (note bench)) (loadBootImage bench) .start
      (encryptedRun partitionAttr).1 (encryptedRun partitionAttr).2 := by
  apply benchRun_reaches
  intro e answer hAnswer
  cases e with
  | readReg offset =>
    cases hAnswer
    rintro rfl
    decide
  | moveImage source destination bytes =>
    cases hAnswer
    cases destination <;> first | exact hTable | trivial
  | _ => trivial

theorem typedFirst_bench : TypedFirst bench (benchTable (encryptedHeader 0x10)) := by
  refine .inr (.inr fun num hLow hHigh hOwned hPassed => ?_)
  have hNum : num = 1 := by
    have hCount : getPartitionCount bench (benchTable (encryptedHeader 0x10)) = 2 := by decide
    have hFirst : firstPartition bench = 1 := rfl
    omega
  subst hNum
  exact absurd ((hPassed 1 le_rfl le_rfl).ps hOwned) (by decide)

theorem delivered_secured_bench : Secured bench (encryptedRun 0x10).2 :=
  delivered_secured rfl rfl (encryptedRun_reaches 0x10 typedFirst_bench) (.inl ⟨_, rfl⟩)

/-- An encrypted partition with neither image bit is left as it is in the boot device. -/
theorem delivered_unsecured : ¬ ∀ (f : Setup) (boot : Boot) (P : Progress), f.ddr = true →
    f.forceUseAesExclude = false →
    Reaches (notes (EncOnly f fun _ => True) (note f)) (loadBootImage f) .start (.ret boot) P →
    Secured f P := by
  intro hAll
  have hRun := encryptedRun_reaches (T := fun _ => True) 0 trivial
  obtain ⟨boot, hReturn⟩ : ∃ boot, (encryptedRun 0).1 = .ret boot := ⟨_, rfl⟩
  rw [hReturn] at hRun
  have hDelivered : Delivered (encryptedRun 0).2 (encryptedHeader 0) :=
    ⟨.copied 0 ⟨0x100000, 32⟩, List.mem_cons_self, 0, by decide, by decide⟩
  obtain ⟨part, _, hDecrypted⟩ := hAll bench _ _ rfl rfl hRun _ rfl hDelivered
  exact hDecrypted

end SoftwarePrototypes.Fsbl
