import SoftwarePrototypes.Fsbl.Visits
import SoftwarePrototypes.Interaction.Memory

/-! # What the transfers of a partition leave

The bytes in memory and those sent to the PL, along a trace of calls that succeed. The transfers of
one partition are written down as the list of their events.
-/

namespace SoftwarePrototypes.Fsbl

open Interaction Interaction.Prog Interaction.Memory

/-- The boot device by byte offset, the decryption of the bytes of an image, and the addresses at
which a store changes nothing. -/
structure Device where
  content : Nat → Byte
  decrypt : List Byte → Nat → Byte
  readOnly : U32 → Bool

structure Ram where
  mem : Mem U32
  sent : List Byte

/-- The bytes that a transfer of the PCAP delivers. -/
def Device.output (d : Device) (m : Mem U32) (source imageWordLen : U32) (secure : Bool) :
    Nat → Byte :=
  if secure then d.decrypt (loadBlock m source (4 * imageWordLen.toNat))
  else fun j => m (source + BitVec.ofNat 32 j)

def Device.store (d : Device) (destination : U32) (n : Nat) (bytes : Nat → Byte) (s : Ram) : Ram :=
  ⟨storeBlock d.readOnly destination n bytes s.mem, s.sent⟩

def Ram.send (s : Ram) (n : Nat) (bytes : Nat → Byte) : Ram :=
  ⟨s.mem, s.sent ++ (List.range n).map bytes⟩

def Device.effect (d : Device) (s : Ram) : Event → Ram
  | ⟨.moveImage source (.address destination) bytes, _⟩ =>
    d.store destination bytes.toNat (fun j => d.content (source.toNat + j)) s
  | ⟨.pcapDataTransfer source destination imageWordLen dataWordLen secure, _⟩ =>
    d.store destination (4 * dataWordLen.toNat) (d.output s.mem source imageWordLen secure) s
  | ⟨.pcapLoadPartition source _ imageWordLen dataWordLen secure, _⟩ =>
    s.send (4 * dataWordLen.toNat) (d.output s.mem source imageWordLen secure)
  | ⟨.xilOut32 addr value, _⟩ => d.store addr 4 (byteOf value) s
  | _ => s

def Device.after (d : Device) (L : List Event) (s : Ram) : Ram := L.foldl d.effect s

/-- The calls that neither store nor send anything. -/
def Op.Passive : Op → Prop
  | .moveImage _ (.address _) _ | .pcapDataTransfer _ _ _ _ _ | .pcapLoadPartition _ _ _ _ _
  | .xilOut32 _ _ => False
  | _ => True

section After

variable {d : Device} {s : Ram} {L M : List Event}

theorem Device.after_append : d.after (L ++ M) s = d.after M (d.after L s) := List.foldl_append

theorem Device.effect_passive {event : Event} (h : event.1.Passive) : d.effect s event = s := by
  obtain ⟨e, answer⟩ := event
  cases e with
  | moveImage source destination bytes => cases destination <;> first | rfl | exact h.elim
  | _ => first | rfl | exact h.elim

theorem Device.after_passive (h : ∀ event ∈ L, event.1.Passive) : d.after L s = s := by
  induction L generalizing s with
  | nil => rfl
  | cons event L ih =>
    obtain ⟨hFirst, hRest⟩ := List.forall_mem_cons.mp h
    rw [Device.after, List.foldl_cons, Device.effect_passive hFirst]
    exact ih hRest

theorem Device.store_inside {destination a : U32} {n : Nat} {bytes : Nat → Byte}
    (hIn : (a - destination).toNat < n) (hWritable : d.readOnly a = false) :
    (d.store destination n bytes s).mem a = bytes (a - destination).toNat :=
  storeBlock_inside hIn hWritable

theorem Device.store_at {destination : U32} {n j : Nat} {bytes : Nat → Byte} (hj : j < 2 ^ 32)
    (hIn : j < n) (hWritable : d.readOnly (destination + BitVec.ofNat 32 j) = false) :
    (d.store destination n bytes s).mem (destination + BitVec.ofNat 32 j) = bytes j :=
  storeBlock_at hj hIn hWritable

theorem Device.store_beyond {destination : U32} {n j : Nat} {bytes : Nat → Byte}
    (hj : j < 2 ^ 32) (hOut : n ≤ j) :
    (d.store destination n bytes s).mem (destination + BitVec.ofNat 32 j) =
      s.mem (destination + BitVec.ofNat 32 j) := storeBlock_beyond hj hOut

theorem Device.store_readOnly {destination a : U32} {n : Nat} {bytes : Nat → Byte}
    (h : d.readOnly a = true) : (d.store destination n bytes s).mem a = s.mem a :=
  storeBlock_readOnly h

theorem Device.effect_readOnly {event : Event} {a : U32} (h : d.readOnly a = true) :
    (d.effect s event).mem a = s.mem a := by
  unfold Device.effect
  split <;> first | rfl | exact Device.store_readOnly h

theorem Device.after_readOnly {a : U32} (h : d.readOnly a = true) :
    (d.after L s).mem a = s.mem a := by
  induction L generalizing s with
  | nil => rfl
  | cons event L ih =>
    rw [Device.after, List.foldl_cons]
    exact ih.trans (Device.effect_readOnly h)

end After

theorem Op.Idle.passive {e : Op} (h : e.Idle) : e.Passive := by
  cases e <;> trivial

theorem Op.Checks.passive {e : Op} (h : e.Checks) : e.Passive := by
  cases e with
  | moveImage source destination bytes => cases destination <;> trivial
  | _ => trivial

/-! ## The move of a partition -/

section Move

variable (f : Setup)

def destination (fl : Flags) (loadAddr : U32) : U32 :=
  if fl.plPartitionFlag then f.ddrTempStartAddr else loadAddr

def Transfer.placed (t : Transfer) (fl : Flags) : Transfer :=
  { t with sourceAddr := destination f fl t.loadAddr, loadAddr := destination f fl t.loadAddr }

def cpuEvents (fl : Flags) (t : Transfer) : List Event :=
  if f.linearBootDeviceFlag then []
  else [⟨.moveImage t.sourceAddr (.address (destination f fl t.loadAddr)) (t.imageWordLen <<< 2),
    (.success, ())⟩]

def cpuMoved (fl : Flags) (t : Transfer) : Transfer :=
  if f.linearBootDeviceFlag then t else t.placed f fl

def pcapEvents (fl : Flags) (t : Transfer) : List Event :=
  if usesPcap f fl t then [⟨.pcapDataTransfer t.sourceAddr (destination f fl t.loadAddr)
    t.imageWordLen t.dataWordLen (if fl.plPartitionFlag then false else t.secureTransferFlag),
    Status.success⟩]
  else []

def pcapMoved (fl : Flags) (t : Transfer) : Transfer :=
  if usesPcap f fl t then t.placed f fl else t

def bitstreamEvents (h : PartHeader) (fl : Flags) (t : Transfer) : List Event :=
  if fl.plPartitionFlag && !fl.whole then [⟨.pcapLoadPartition t.sourceAddr h.loadAddr
    h.imageWordLen h.dataWordLen fl.encryptedPartitionFlag, Status.success⟩]
  else []

/-- The events of a `PartitionMove` that succeeds. -/
def moveEvents (imageBaseAddress : U32) (h : PartHeader) (fl : Flags) : List Event :=
  let t := transfer f imageBaseAddress h fl
  cpuEvents f fl t ++ (pcapEvents f fl (cpuMoved f fl t) ++
    bitstreamEvents h fl (pcapMoved f fl (cpuMoved f fl t)))

variable {f} {imageStartAddress : U32} {h : PartHeader} {fl : Flags} {t t' : Transfer}
  {L : List Event}

theorem cpuMoved_dataWordLen : (cpuMoved f fl t).dataWordLen = t.dataWordLen := by
  rw [cpuMoved]
  split <;> rfl

theorem usesPcap_cpuMoved :
    usesPcap f fl (cpuMoved f fl t) = usesPcap f fl t := by
  rw [cpuMoved]
  split <;> rfl

theorem destination_cpuMoved :
    destination f fl (cpuMoved f fl t).loadAddr = destination f fl t.loadAddr := by
  rw [cpuMoved]
  split
  · rfl
  · simp only [Transfer.placed, destination]
    split <;> rfl

theorem moveStep_returns : Returns (moveStep f fl t) L (some t') ↔
    L = cpuEvents f fl t ∧ t' = cpuMoved f fl t := by
  rw [moveStep, cpuEvents, cpuMoved]
  split
  · rw [pure_eq, returns_ret, Option.some.injEq]
  · constructor
    · intro hRun
      obtain ⟨⟨status, _⟩, M, rfl, hRest⟩ := returns_ask_bind hRun
      obtain ⟨rfl, hSome⟩ := returns_ret.mp hRest
      cases status with
      | success => exact ⟨rfl, Option.some.inj hSome⟩
      | failure => cases hSome
    · rintro ⟨rfl, rfl⟩
      exact .call (.refl _)

theorem pcapStep_returns : Returns (pcapStep f fl t) L (some t') ↔
    L = pcapEvents f fl t ∧ t' = pcapMoved f fl t := by
  rw [pcapStep, pcapEvents, pcapMoved]
  split
  · constructor
    · intro hRun
      obtain ⟨status, M, rfl, hRest⟩ := returns_ask_bind hRun
      obtain ⟨rfl, hSome⟩ := returns_ret.mp hRest
      cases status with
      | success => exact ⟨rfl, Option.some.inj hSome⟩
      | failure => cases hSome
    · rintro ⟨rfl, rfl⟩
      exact .call (.refl _)
  · rw [pure_eq, returns_ret, Option.some.injEq]

theorem bitstreamStep_returns : Returns (bitstreamStep h fl t) L .success ↔
    L = bitstreamEvents h fl t := by
  rw [bitstreamStep, bitstreamEvents]
  split
  · exact returns_ask
  · rw [pure_eq, returns_ret]
    exact and_iff_left rfl

theorem partitionMove_returns : Returns (partitionMove f imageStartAddress h fl) L .success ↔
    L = moveEvents f imageStartAddress h fl := by
  constructor
  · intro hRun
    obtain ⟨t, M, N, rfl, hCpu, hRest⟩ := returns_bind hRun
    cases t with
    | none => cases (returns_ret.mp hRest).2
    | some t =>
      obtain ⟨rfl, rfl⟩ := moveStep_returns.mp hCpu
      obtain ⟨t', N₁, N₂, rfl, hPcap, hLast⟩ := returns_bind hRest
      cases t' with
      | none => cases (returns_ret.mp hLast).2
      | some t' =>
        obtain ⟨rfl, rfl⟩ := pcapStep_returns.mp hPcap
        rw [bitstreamStep_returns.mp hLast]
        rfl
  · rintro rfl
    refine Returns.bind (moveStep_returns.mpr ⟨rfl, rfl⟩) ?_
    refine Returns.bind (pcapStep_returns.mpr ⟨rfl, rfl⟩) ?_
    exact bitstreamStep_returns.mpr rfl

/-! ### The four ways to move a partition with a type -/

theorem moveEvents_linear_whole (hLinear : f.linearBootDeviceFlag = true)
    (hType : fl.plPartitionFlag = !fl.psPartitionFlag) (hWhole : fl.whole = true) :
    moveEvents f imageStartAddress h fl =
      [⟨.pcapDataTransfer (partitionStartAddr f imageStartAddress h)
        (destination f fl h.loadAddr) h.partitionWordLen h.partitionWordLen false,
        Status.success⟩] := by
  cases hPs : fl.psPartitionFlag <;>
    simp [moveEvents, cpuEvents, cpuMoved, pcapEvents, usesPcap, bitstreamEvents, transfer,
      partitionStartAddr, hLinear, hType, hWhole, hPs]

theorem moveEvents_linear_plain (hLinear : f.linearBootDeviceFlag = true)
    (hType : fl.plPartitionFlag = !fl.psPartitionFlag) (hWhole : fl.whole = false) :
    moveEvents f imageStartAddress h fl =
      if fl.psPartitionFlag then
        [⟨.pcapDataTransfer (partitionStartAddr f imageStartAddress h) h.loadAddr h.imageWordLen
          h.dataWordLen fl.encryptedPartitionFlag, Status.success⟩]
      else
        [⟨.pcapLoadPartition (partitionStartAddr f imageStartAddress h) h.loadAddr h.imageWordLen
          h.dataWordLen fl.encryptedPartitionFlag, Status.success⟩] := by
  cases hPs : fl.psPartitionFlag <;>
    simp [moveEvents, cpuEvents, cpuMoved, pcapEvents, pcapMoved, usesPcap, bitstreamEvents,
      transfer, destination, partitionStartAddr, hLinear, hType, hWhole, hPs]

theorem moveEvents_copied_whole (hLinear : f.linearBootDeviceFlag = false)
    (hType : fl.plPartitionFlag = !fl.psPartitionFlag) (hWhole : fl.whole = true) :
    moveEvents f imageStartAddress h fl =
      [⟨.moveImage (imageStartAddress + h.partitionStart <<< 2)
        (.address (destination f fl h.loadAddr)) (h.partitionWordLen <<< 2),
        (.success, ())⟩] := by
  cases hPs : fl.psPartitionFlag <;>
    simp [moveEvents, cpuEvents, cpuMoved, Transfer.placed, pcapEvents, usesPcap,
      bitstreamEvents, transfer, hLinear, hType, hWhole, hPs]

theorem moveEvents_copied_plain (hLinear : f.linearBootDeviceFlag = false)
    (hType : fl.plPartitionFlag = !fl.psPartitionFlag) (hWhole : fl.whole = false) :
    moveEvents f imageStartAddress h fl =
      ⟨.moveImage (imageStartAddress + h.partitionStart <<< 2)
        (.address (destination f fl h.loadAddr)) (h.imageWordLen <<< 2), (.success, ())⟩ ::
      if fl.psPartitionFlag then
        if fl.encryptedPartitionFlag then
          [⟨.pcapDataTransfer h.loadAddr h.loadAddr h.imageWordLen h.dataWordLen true,
            Status.success⟩]
        else []
      else
        [⟨.pcapLoadPartition f.ddrTempStartAddr h.loadAddr h.imageWordLen h.dataWordLen
          fl.encryptedPartitionFlag, Status.success⟩] := by
  cases hPs : fl.psPartitionFlag <;> cases hEncrypted : fl.encryptedPartitionFlag <;>
    simp [moveEvents, cpuEvents, cpuMoved, Transfer.placed, pcapEvents, pcapMoved, usesPcap,
      bitstreamEvents, transfer, destination, hLinear, hType, hWhole, hPs, hEncrypted]

end Move

/-! ## The use of a checked partition -/

section Use

variable (f : Setup)

def decryptEvents (startAddr : U32) (h : PartHeader) (fl : Flags) : List Event :=
  if fl.encryptedPartitionFlag && fl.psPartitionFlag then
    [⟨.pcapDataTransfer startAddr startAddr h.imageWordLen h.dataWordLen true, Status.success⟩]
  else []

def downloadEvents (startAddr : U32) (h : PartHeader) (fl : Flags) : List Event :=
  if fl.plPartitionFlag then [⟨.pcapLoadPartition startAddr h.loadAddr h.imageWordLen h.dataWordLen
    fl.encryptedPartitionFlag, Status.success⟩]
  else []

/-- What follows the checks of a partition that is checked. -/
def useEvents (startAddr : U32) (h : PartHeader) (fl : Flags) : List Event :=
  if fl.whole then decryptEvents (checkedAddr f startAddr h fl) h fl ++
    downloadEvents (checkedAddr f startAddr h fl) h fl
  else []

variable {f} {imageStartAddress startAddr : U32} {h : PartHeader} {fl : Flags} {L : List Event}

theorem required_returns {p : Loader Status} {code : FailCode} {done : List Event}
    (hDone : ∀ M, Returns p M .success ↔ M = done) :
    Returns (p >>= fun status => require status code) L () ↔ L = done := by
  constructor
  · intro hRun
    obtain ⟨status, M, N, rfl, hStatus, hRequire⟩ := returns_bind hRun
    obtain ⟨rfl, rfl⟩ := returns_require hRequire
    rw [(hDone M).mp hStatus, List.append_nil]
  · rintro rfl
    rw [← List.append_nil L]
    exact Returns.bind ((hDone L).mpr rfl) (.refl _)

theorem optional_returns {c : Bool} {p : Loader Unit} {done : List Event}
    (hDone : Returns p L () ↔ L = done) :
    Returns (if c then p else pure ()) L () ↔ L = if c then done else [] := by
  cases c with
  | true => exact hDone
  | false => exact returns_ret.trans (and_iff_left rfl)

theorem decryptStep_returns : Returns (decryptStep startAddr h fl) L () ↔
    L = decryptEvents startAddr h fl :=
  optional_returns (required_returns fun _ => returns_ask)

theorem downloadStep_returns : Returns (downloadStep startAddr h fl) L () ↔
    L = downloadEvents startAddr h fl :=
  optional_returns (required_returns fun _ => returns_ask)

theorem checkPartition_returns
    (hRun : Returns (checkPartition f imageStartAddress startAddr h fl) L ()) :
    ∃ quiet, (∀ event ∈ quiet, event.1.Checks) ∧ L = quiet ++ useEvents f startAddr h fl := by
  rw [checkPartition] at hRun
  rw [useEvents]
  split at hRun
  · rename_i hWhole
    rw [if_pos hWhole]
    obtain ⟨_, sums, _, rfl, hSum, hRest⟩ := returns_bind hRun
    obtain ⟨_, signs, _, rfl, hSign, hUse⟩ := returns_bind hRest
    obtain ⟨_, M, N, rfl, hDecrypt, hDownload⟩ := returns_bind hUse
    rw [decryptStep_returns.mp hDecrypt, downloadStep_returns.mp hDownload]
    refine ⟨sums ++ signs, fun event hMem => ?_, (List.append_assoc _ _ _).symm⟩
    obtain hMem | hMem := List.mem_append.mp hMem
    · exact ((checksumStep_only _ _).steps hSum).1 event hMem
    · exact ((authenticateStep_only _).steps hSign).1 event hMem
  · rename_i hPlain
    rw [if_neg hPlain]
    obtain ⟨rfl, -⟩ := returns_ret.mp hRun
    exact ⟨[], nofun, rfl⟩

end Use

/-! ## One partition -/

section Partition

/-- The words stored in OCM for the second boot loader. -/
def recordEvents (f : Setup) (imageStartAddress : U32) (h : PartHeader) (fl : Flags) :
    List Event :=
  if f.ddr then [] else
  (if inQspiFlash f h.execAddr then
    [⟨.xilOut32 0xFFFF0004 (partitionStartAddr f imageStartAddress h), ()⟩] else []) ++
  (if fl.psPartitionFlag && 0xFFFC0000 ≤ h.loadAddr && h.loadAddr < 0xFFFF0000 then
    [⟨.xilOut32 0xFFFF0000 (partitionStartAddr f imageStartAddress h), ()⟩] else [])

variable {f : Setup} {imageStartAddress : U32} {h : PartHeader} {w : Walk} {fl : Flags}
  {L : List Event} {step : Step} {d : Device} {s : Ram}

theorem movePartition_iff : Returns (movePartition f imageStartAddress h fl) L () ↔
    L = moveEvents f imageStartAddress h fl := required_returns fun _ => partitionMove_returns

theorem placePartition_returns (hMoved : f.ddr = true ∨ movedWithoutDdr f h fl = true) :
    Returns (placePartition f imageStartAddress h fl) L () ↔
      L = recordEvents f imageStartAddress h fl ++ moveEvents f imageStartAddress h fl := by
  rw [placePartition, recordEvents]
  split
  · exact movePartition_iff
  · rename_i hNoDdr
    rw [if_pos (hMoved.resolve_left hNoDdr)]
    constructor
    · intro hRun
      obtain ⟨_, M, N, rfl, hHandoff, hRest⟩ := returns_bind hRun
      obtain ⟨_, M', N', rfl, hData, hMove⟩ := returns_bind hRest
      rw [(optional_returns returns_ask).mp hHandoff, (optional_returns returns_ask).mp hData,
        movePartition_iff.mp hMove, List.append_assoc]
    · rintro rfl
      rw [List.append_assoc]
      exact Returns.bind ((optional_returns returns_ask).mpr rfl)
        (Returns.bind ((optional_returns returns_ask).mpr rfl) (movePartition_iff.mpr rfl))

theorem handlePartition_after (hMoved : f.ddr = true ∨ movedWithoutDdr f h w.toFlags = true)
    (hRun : Returns (handlePartition f imageStartAddress h w) L step) :
    d.after L s = d.after (useEvents f (partitionStartAddr f imageStartAddress h) h w.toFlags)
      (d.after (moveEvents f imageStartAddress h w.toFlags)
        (d.after (recordEvents f imageStartAddress h w.toFlags) s)) := by
  obtain ⟨-, before, placing, checking, after, rfl, hBefore, hPlacing, hChecking, hAfter⟩ :=
    handlePartition_returns hRun
  obtain ⟨quiet, hQuiet, rfl⟩ := checkPartition_returns hChecking
  have hIdle : ∀ {L : List Event} {fl : Flags} {call : Loader Status} {code : FailCode},
      Only Op.Idle (hook call code fl) → Returns (hook call code fl) L () →
        ∀ event ∈ L, event.1.Passive :=
    fun hOnly hHook event hMem => ((hOnly.steps hHook).1 event hMem).passive
  rw [(placePartition_returns hMoved).mp hPlacing]
  simp only [Device.after_append]
  rw [Device.after_passive (hIdle (beforeHook_only _) hBefore),
    Device.after_passive fun event hMem => (hQuiet event hMem).passive,
    Device.after_passive (hIdle (afterHook_only _) hAfter)]

end Partition

end SoftwarePrototypes.Fsbl
