import SoftwarePrototypes.Fsbl.PointerWords
import SoftwarePrototypes.Fsbl.Transfers

/-! # Builds with and without DDR

From a linear boot device both builds move a PS partition in the same way, but without DDR it is
checked, and decrypted, where it lies in the flash. An encrypted partition that is checked keeps
the bytes of the flash at its load address.
-/

namespace SoftwarePrototypes.Fsbl

open Interaction Interaction.Prog Interaction.Memory

/-! ## Runs in which everything succeeds -/

section Passes

variable {f : Setup} {h : PartHeader} {fl : Flags} {w : Walk} {L : List Event}

theorem checksumStep_passes (imageStartAddress startAddr : U32) (h : PartHeader) (fl : Flags) :
    ∃ L, Returns (checksumStep imageStartAddress startAddr h fl) L () := by
  rw [checksumStep]
  split
  · have hRead : Returns (readInto .checksum (imageStartAddress + h.checkSumOffset <<< 2) 16)
        [⟨.moveImage (imageStartAddress + h.checkSumOffset <<< 2) .checksum 16,
          (.success, (0 : Md5))⟩] (some 0) := .call (.refl _)
    have hSum : Returns (validateParition startAddr (h.partitionWordLen <<< 2)
        (imageStartAddress + h.checkSumOffset <<< 2))
        ([_] ++ [⟨.md5 startAddr (h.partitionWordLen <<< 2), (0 : Md5)⟩]) .success :=
      Returns.bind hRead (.call (.refl _))
    exact ⟨_, Returns.bind hSum (.refl _)⟩
  · exact ⟨[], .refl _⟩

theorem authenticateStep_passes (hSupported : fl.signedPartitionFlag = true → f.rsaSupport = true)
    (startAddr : U32) (h : PartHeader) :
    ∃ L, Returns (authenticateStep f startAddr h fl) L () := by
  rw [authenticateStep]
  split
  · rename_i hSigned
    rw [if_pos (hSupported hSigned)]
    refine ⟨[⟨_, (0 : Sha256)⟩, ⟨_, Status.success⟩], .call (.call (.refl _))⟩
  · exact ⟨[], .refl _⟩

theorem checkPartition_passes
    (hSupported : fl.signedPartitionFlag = true → f.rsaSupport = true)
    (imageStartAddress startAddr : U32) (h : PartHeader) :
    ∃ L, Returns (checkPartition f imageStartAddress startAddr h fl) L () := by
  rw [checkPartition]
  split
  · obtain ⟨L, hSum⟩ := checksumStep_passes imageStartAddress (checkedAddr f startAddr h fl) h fl
    obtain ⟨M, hSign⟩ := authenticateStep_passes hSupported (checkedAddr f startAddr h fl) h
    exact ⟨_, Returns.bind hSum (Returns.bind hSign (Returns.bind (decryptStep_returns.mpr rfl)
      (downloadStep_returns.mpr rfl)))⟩
  · exact ⟨[], .refl _⟩

theorem hook_passes {call : Loader Status} (code : FailCode) (fl : Flags)
    (hCall : Returns call L .success) : ∃ M, Returns (hook call code fl) M () := by
  rw [hook]
  split
  · exact ⟨_, hCall.bind (.refl _)⟩
  · exact ⟨[], .refl _⟩

theorem beforeHook_passes (fl : Flags) : ∃ L, Returns (beforeHook fl) L () :=
  hook_passes _ _ (returns_ask.mpr rfl)

theorem afterHook_passes (fl : Flags) : ∃ L, Returns (afterHook fl) L () :=
  hook_passes _ _ (returns_ask.mpr rfl)

theorem handlePartition_passes (hMoved : f.ddr = true ∨ movedWithoutDdr f h w.toFlags = true)
    (hSupported : w.signedPartitionFlag = true → f.rsaSupport = true)
    (imageStartAddress : U32) :
    ∃ L, Returns (handlePartition f imageStartAddress h w) L (.next (latchExecAddr h w)) := by
  rw [handlePartition]
  simp only [latchExecAddr_toFlags]
  have hPlaced : Returns (placePartition f imageStartAddress h w.toFlags) _ () :=
    (placePartition_returns hMoved).mpr rfl
  obtain ⟨N, hChecked⟩ := checkPartition_passes hSupported imageStartAddress
    (partitionStartAddr f imageStartAddress h) h
  obtain ⟨before, hBefore⟩ := beforeHook_passes w.toFlags
  obtain ⟨after, hAfter⟩ := afterHook_passes w.toFlags
  exact ⟨_, hBefore.bind (hPlaced.bind (hChecked.bind (hAfter.bind (.refl _))))⟩

end Passes

/-! ## What the two builds leave -/

def Setup.withDdr (f : Setup) (ddr : Bool) : Setup := { f with ddr := ddr }

section Builds

variable (f : Setup) (readOnly : U32 → Bool) (imageStartAddress : U32) (h : PartHeader) (w : Walk)

/-- A PS partition in the flash of a linear boot device that the boot loader without DDR moves. The
flash is read only, and the partition is loaded elsewhere. -/
structure LiesInFlash : Prop where
  linear : f.linearBootDeviceFlag = true
  ps : hasPsImage f h = true
  moved : movedWithoutDdr f h (loadFlags f h w).toFlags = true
  supported : signed f h → f.rsaSupport = true
  loadAddr : readOnly h.loadAddr = false
  start : readOnly (partitionStartAddr f imageStartAddress h) = true
  image : ∀ j < 4 * h.imageWordLen.toNat,
    readOnly (partitionStartAddr f imageStartAddress h + BitVec.ofNat 32 j) = true

/-- The bytes of the partition, decrypted if it is encrypted. -/
def plain (d : Device) (m : Mem U32) : Nat → Byte :=
  d.output m (partitionStartAddr f imageStartAddress h) h.imageWordLen (decide (encrypted h))

/-- A run of the build that goes on to the next partition leaves the plain data. -/
def LeavesPlain (ddr : Bool) (d : Device) (s : Ram) : Prop :=
  ∀ L w', Returns (checkLoadAddr (f.withDdr ddr) imageStartAddress h (loadFlags f h w)) L
    (.next w') → ∀ j < 4 * h.dataWordLen.toNat,
      (d.after L s).mem (h.loadAddr + BitVec.ofNat 32 j) =
        plain f imageStartAddress h d s.mem j

/-- The builds agree on the words at the load address, whatever the flash holds. -/
def BuildsAgree : Prop :=
  ∀ (d : Device) (s : Ram), d.readOnly = readOnly → ∀ ddr,
    LeavesPlain f imageStartAddress h w ddr d s

/-- The partition is not both encrypted and checked, one that is checked is moved as a whole, and
its data end before the flash. -/
def LoadsPlain : Prop :=
  (encrypted h → checked f h = true → h.dataWordLen = 0) ∧
    (checked f h = true → h.dataWordLen.toNat ≤ h.partitionWordLen.toNat) ∧
    ∀ j < 4 * h.dataWordLen.toNat, readOnly (h.loadAddr + BitVec.ofNat 32 j) = false

variable {f readOnly imageStartAddress h w} {ddr : Bool} {d : Device} {s : Ram} {L : List Event}
  {w' : Walk} {step : Step}

theorem moved_ps {fl : Flags} (hFlags : PsFlags f h fl) (hLinear : f.linearBootDeviceFlag = true) :
    d.after (moveEvents f imageStartAddress h fl) s =
      d.store h.loadAddr (4 * (movedDataWords f h).toNat)
        (d.output s.mem (partitionStartAddr f imageStartAddress h) (movedImageWords f h)
          (decide (encrypted h) && !checked f h)) s := by
  have hSource : (transfer f imageStartAddress h fl).sourceAddr =
      partitionStartAddr f imageStartAddress h := by
    rw [transfer, if_pos hLinear]
    rfl
  have hUses : usesPcap f fl (transfer f imageStartAddress h fl) = true := by
    simp [usesPcap, hLinear, hFlags.ps]
  have hEvents : moveEvents f imageStartAddress h fl = [⟨.pcapDataTransfer
      (partitionStartAddr f imageStartAddress h) h.loadAddr (movedImageWords f h)
      (movedDataWords f h) (decide (encrypted h) && !checked f h), Status.success⟩] := by
    have hCpu : cpuMoved f fl (transfer f imageStartAddress h fl) =
        transfer f imageStartAddress h fl := if_pos hLinear
    simp only [moveEvents, hCpu]
    rw [cpuEvents, if_pos hLinear, pcapEvents, if_pos hUses, bitstreamEvents, destination,
      hFlags.pl, hSource, transfer_image hFlags, transfer_data hFlags, transfer_secure hFlags]
    rfl
  rw [hEvents]
  rfl

/-- A partition that is checked is decrypted after its move. -/
def decryptedAt (addr : U32) (f : Setup) (h : PartHeader) (d : Device) (s : Ram) : Ram :=
  if encrypted h ∧ checked f h = true then
    d.store addr (4 * h.dataWordLen.toNat) (d.output s.mem addr h.imageWordLen true) s
  else s

theorem used_ps {fl : Flags} (hFlags : PsFlags f h fl) :
    d.after (useEvents f (partitionStartAddr f imageStartAddress h) h fl) s =
      decryptedAt (psCheckedAddr f imageStartAddress h) f h d s := by
  have hAddr : checkedAddr f (partitionStartAddr f imageStartAddress h) h fl =
      psCheckedAddr f imageStartAddress h := by
    rw [checkedAddr, hFlags.pl]
    rfl
  have hEncrypted : fl.encryptedPartitionFlag = decide (encrypted h) :=
    Bool.eq_iff_iff.mpr (hFlags.encrypted.trans decide_eq_true_iff.symm)
  rw [useEvents, hAddr, hFlags.whole, decryptedAt, decryptEvents, downloadEvents, hFlags.pl,
    hFlags.ps, hEncrypted, Bool.and_true, if_neg Bool.false_ne_true, List.append_nil]
  by_cases hChecked : checked f h = true
  · by_cases hOn : encrypted h
    · rw [if_pos hChecked, if_pos (decide_eq_true hOn), if_pos ⟨hOn, hChecked⟩]
      rfl
    · rw [if_pos hChecked, if_neg fun hDec => hOn (of_decide_eq_true hDec),
        if_neg fun hBoth => hOn hBoth.1]
      rfl
  · rw [if_neg hChecked, if_neg fun hBoth => hChecked hBoth.2]
    rfl

/-- What a build leaves of a partition in the flash. -/
def loaded (f : Setup) (imageStartAddress : U32) (h : PartHeader) (w : Walk) (ddr : Bool)
    (d : Device) (s : Ram) : Ram :=
  let recorded := d.after (recordEvents (f.withDdr ddr) imageStartAddress h
    (loadFlags f h w).toFlags) s
  decryptedAt (psCheckedAddr (f.withDdr ddr) imageStartAddress h) f h d
    (d.store h.loadAddr (4 * (movedDataWords f h).toNat)
      (d.output recorded.mem (partitionStartAddr f imageStartAddress h) (movedImageWords f h)
        (decide (encrypted h) && !checked f h)) recorded)

theorem LiesInFlash.handled_after
    (hFlash : LiesInFlash f readOnly imageStartAddress h w)
    (hRun : Returns (handlePartition (f.withDdr ddr) imageStartAddress h (loadFlags f h w)) L
      step) : d.after L s = loaded f imageStartAddress h w ddr d s := by
  have hFlags : PsFlags (f.withDdr ddr) h (loadFlags f h w).toFlags :=
    loadFlags_psFlags (f := f.withDdr ddr) hFlash.ps
  have hMoved : movedWithoutDdr (f.withDdr ddr) h (loadFlags f h w).toFlags = true :=
    hFlash.moved
  rw [handlePartition_after (.inr hMoved) hRun, used_ps hFlags, moved_ps hFlags hFlash.linear]
  rfl

theorem LiesInFlash.build_after (hFlash : LiesInFlash f readOnly imageStartAddress h w)
    (hRun : Returns (checkLoadAddr (f.withDdr ddr) imageStartAddress h (loadFlags f h w)) L
      (.next w')) : d.after L s = loaded f imageStartAddress h w ddr d s := by
  obtain ⟨_, _, _, _, _, _, hStop⟩ | ⟨-, hHandle⟩ := checkLoadAddr_returns hRun
  · cases hStop
  · exact hFlash.handled_after hHandle

theorem LiesInFlash.passes (hFlash : LiesInFlash f readOnly imageStartAddress h w) :
    ∃ L w', Returns (checkLoadAddr (f.withDdr false) imageStartAddress h (loadFlags f h w)) L
      (.next w') := by
  have hFlags : PsFlags (f.withDdr false) h (loadFlags f h w).toFlags :=
    loadFlags_psFlags (f := f.withDdr false) hFlash.ps
  obtain ⟨L, hPass⟩ := handlePartition_passes (f := f.withDdr false) (.inr hFlash.moved)
    (fun hSigned => hFlash.supported (hFlags.signature.mp hSigned)) imageStartAddress
  exact ⟨L, _, hPass⟩

theorem LiesInFlash.leaves_of_agree (hFlash : LiesInFlash f readOnly imageStartAddress h w)
    (hAgree : BuildsAgree f readOnly imageStartAddress h w) (hRead : d.readOnly = readOnly)
    {j : Nat} (hj : j < 4 * h.dataWordLen.toNat) :
    (loaded f imageStartAddress h w false d s).mem (h.loadAddr + BitVec.ofNat 32 j) =
      plain f imageStartAddress h d s.mem j := by
  obtain ⟨L, w', hRun⟩ := hFlash.passes
  rw [← hFlash.build_after hRun]
  exact hAgree d s hRead false L w' hRun j hj

/-! ### Plain data -/

theorem recorded_readOnly {a : U32} {fl : Flags} (hRead : d.readOnly = readOnly)
    (hFixed : readOnly a = true) :
    (d.after (recordEvents f imageStartAddress h fl) s).mem a = s.mem a :=
  Device.after_readOnly (hRead ▸ hFixed)

/-- Data that do not reach the flash do not wrap around either. -/
theorem LiesInFlash.data_fits (hFlash : LiesInFlash f readOnly imageStartAddress h w)
    (hWritable : ∀ j < 4 * h.dataWordLen.toNat, readOnly (h.loadAddr + BitVec.ofNat 32 j) = false) :
    4 * h.dataWordLen.toNat ≤ 2 ^ 32 := by
  by_contra hLong
  have hFar := (partitionStartAddr f imageStartAddress h - h.loadAddr).isLt
  have hStart := hWritable (partitionStartAddr f imageStartAddress h - h.loadAddr).toNat (by omega)
  rw [add_offset, hFlash.start] at hStart
  cases hStart

theorem LiesInFlash.leaves_plain (hFlash : LiesInFlash f readOnly imageStartAddress h w)
    (hLoads : LoadsPlain f readOnly h) (hRead : d.readOnly = readOnly) :
    LeavesPlain f imageStartAddress h w ddr d s := by
  intro L w' hRun j hj
  obtain ⟨hSecret, hWhole, hWritable⟩ := hLoads
  have hFits := hFlash.data_fits hWritable
  have hOnce : ¬ (encrypted h ∧ checked f h = true) := by
    rintro ⟨hEncrypted, hChecked⟩
    rw [hSecret hEncrypted hChecked] at hj
    exact absurd hj (Nat.not_lt_zero j)
  rw [hFlash.build_after hRun, loaded, decryptedAt, if_neg hOnce]
  have hSpan : j < 4 * (movedDataWords f h).toNat := by
    rw [movedDataWords]
    split
    · exact Nat.lt_of_lt_of_le hj (Nat.mul_le_mul_left 4 (hWhole ‹_›))
    · exact hj
  have hCell := hWritable j hj
  rw [← hRead] at hCell
  rw [Device.store_at (by omega) hSpan hCell, plain]
  by_cases hEncrypted : encrypted h
  · have hPlain : ¬ checked f h = true := fun hChecked => hOnce ⟨hEncrypted, hChecked⟩
    rw [movedImageWords, if_neg hPlain, decide_eq_true hEncrypted,
      eq_false_of_ne_true hPlain]
    simp only [Device.output, Bool.not_false, Bool.and_self, if_true]
    congr 1
    exact loadBlock_congr fun k hk => recorded_readOnly hRead (hFlash.image k hk)
  · have hSame : h.dataWordLen = h.imageWordLen := not_not.mp hEncrypted
    rw [decide_eq_false hEncrypted]
    rw [hSame] at hj
    exact recorded_readOnly hRead (hFlash.image j hj)

/-! ### Flash contents that tell the builds apart -/

theorem store_congr {d' : Device} {s' : Ram} {dest a : U32} {n : Nat} {bytes bytes' : Nat → Byte}
    (hRead : d.readOnly = d'.readOnly) (hByte : bytes (a - dest).toNat = bytes' (a - dest).toNat)
    (hHere : s.mem a = s'.mem a) :
    (d.store dest n bytes s).mem a = (d'.store dest n bytes' s').mem a := by
  simp only [Device.store, storeBlock, hRead, hByte, hHere]

/-- The words recorded for the second boot loader do not depend on the flash. -/
theorem recorded_congr {d' : Device} {s' : Ram} {a : U32} {fl : Flags}
    (hRead : d.readOnly = d'.readOnly) (hHere : s.mem a = s'.mem a) :
    (d.after (recordEvents f imageStartAddress h fl) s).mem a =
      (d'.after (recordEvents f imageStartAddress h fl) s').mem a := by
  rw [recordEvents]
  split
  · exact hHere
  · rw [Device.after_append, Device.after_append]
    have hFirst : ∀ {c : Bool} {addr value : U32} {s s' : Ram}, s.mem a = s'.mem a →
        (d.after (if c then [⟨.xilOut32 addr value, ()⟩] else []) s).mem a =
          (d'.after (if c then [⟨.xilOut32 addr value, ()⟩] else []) s').mem a := by
      intro c addr value s s' hSame
      cases c with
      | true => exact store_congr hRead rfl hSame
      | false => exact hSame
    exact hFirst (hFirst hHere)

/-- Data that would be loaded into the flash are lost. -/
theorem LiesInFlash.writable_of_agree (hFlash : LiesInFlash f readOnly imageStartAddress h w)
    (hAgree : BuildsAgree f readOnly imageStartAddress h w) {j : Nat}
    (hj : j < 4 * h.dataWordLen.toNat) : readOnly (h.loadAddr + BitVec.ofNat 32 j) = false := by
  by_contra hFixed
  rw [Bool.not_eq_false] at hFixed
  have hKept : ∀ {d : Device} {s : Ram}, d.readOnly = readOnly →
      s.mem (h.loadAddr + BitVec.ofNat 32 j) = plain f imageStartAddress h d s.mem j := by
    intro d s hRead
    have hHere : d.readOnly (h.loadAddr + BitVec.ofNat 32 j) = true := hRead ▸ hFixed
    rw [← hFlash.leaves_of_agree hAgree hRead hj, loaded, decryptedAt]
    split
    · rw [Device.store_readOnly hHere, Device.store_readOnly hHere, Device.after_readOnly hHere]
    · rw [Device.store_readOnly hHere, Device.after_readOnly hHere]
  by_cases hEncrypted : encrypted h
  · have hZero := hKept (d := ⟨fun _ => 0, fun _ _ => 1, readOnly⟩) (s := ⟨fun _ => 0, []⟩) rfl
    rw [plain, decide_eq_true hEncrypted] at hZero
    have hByte : (0 : Byte) = 1 := hZero
    exact absurd hByte (by decide)
  · have hOne := hKept (d := ⟨fun _ => 0, fun _ _ => 0, readOnly⟩)
      (s := ⟨fun a => if a = h.loadAddr + BitVec.ofNat 32 j then 1 else 0, []⟩) rfl
    have hApart : partitionStartAddr f imageStartAddress h + BitVec.ofNat 32 j ≠
        h.loadAddr + BitVec.ofNat 32 j := by
      rw [Ne, BitVec.add_left_inj]
      intro hSame
      have hStart := hFlash.start
      rw [hSame, hFlash.loadAddr] at hStart
      cases hStart
    rw [plain, decide_eq_false hEncrypted] at hOne
    simp only [Device.output, Bool.false_eq_true, if_false, if_true, if_neg hApart] at hOne
    exact absurd hOne (by decide)

/-- What is not moved is not loaded. -/
theorem LiesInFlash.whole_of_agree (hFlash : LiesInFlash f readOnly imageStartAddress h w)
    (hAgree : BuildsAgree f readOnly imageStartAddress h w) (hPlain : ¬ encrypted h)
    (hChecked : checked f h = true) : h.dataWordLen.toNat ≤ h.partitionWordLen.toNat := by
  by_contra hShort
  have hWritable : ∀ j < 4 * h.dataWordLen.toNat,
      readOnly (h.loadAddr + BitVec.ofNat 32 j) = false :=
    fun j hj => hFlash.writable_of_agree hAgree hj
  have hFits := hFlash.data_fits hWritable
  have hEnd : 4 * h.partitionWordLen.toNat < 4 * h.dataWordLen.toNat := by omega
  have hFree := hWritable _ hEnd
  have hRead := hFlash.image _ (not_not.mp hPlain ▸ hEnd)
  let d : Device := ⟨fun _ => 0, fun _ _ => 0, readOnly⟩
  let flash : Byte → Ram := fun v => ⟨fun a => if readOnly a then v else 0, []⟩
  -- the first byte beyond the move keeps what the pointer words left there
  have hKept : ∀ v, (d.after (recordEvents (f.withDdr false) imageStartAddress h
      (loadFlags f h w).toFlags) (flash v)).mem
        (h.loadAddr + BitVec.ofNat 32 (4 * h.partitionWordLen.toNat)) = v := by
    intro v
    have hLeft := hFlash.leaves_of_agree hAgree (d := d) (s := flash v) rfl hEnd
    rw [loaded, decryptedAt, if_neg fun hBoth => hPlain hBoth.1, movedDataWords, if_pos hChecked,
      Device.store_beyond (by omega) (Nat.le_refl _), plain, decide_eq_false hPlain] at hLeft
    rw [hLeft]
    exact if_pos hRead
  have hSame : (flash 0).mem (h.loadAddr + BitVec.ofNat 32 (4 * h.partitionWordLen.toNat)) =
      (flash 1).mem (h.loadAddr + BitVec.ofNat 32 (4 * h.partitionWordLen.toNat)) :=
    (if_neg (ne_true_of_eq_false hFree)).trans (if_neg (ne_true_of_eq_false hFree)).symm
  have hByte : (0 : Byte) = 1 := by
    rw [← hKept 0, ← hKept 1]
    exact recorded_congr rfl hSame
  exact absurd hByte (by decide)

/-- What is decrypted in the flash is lost. -/
theorem LiesInFlash.empty_of_agree (hFlash : LiesInFlash f readOnly imageStartAddress h w)
    (hAgree : BuildsAgree f readOnly imageStartAddress h w) (hEncrypted : encrypted h)
    (hChecked : checked f h = true) : h.dataWordLen = 0 := by
  by_contra hSome
  have hFirst : 0 < 4 * h.dataWordLen.toNat := by
    have hPos : h.dataWordLen.toNat ≠ 0 := fun hZero => hSome (BitVec.eq_of_toNat_eq hZero)
    omega
  have hApart : (h.loadAddr - partitionStartAddr f imageStartAddress h).toNat ≠ 0 := by
    intro hZero
    have hSame := add_offset (partitionStartAddr f imageStartAddress h) h.loadAddr
    rw [hZero, add_ofNat_zero] at hSame
    have hStart := hFlash.start
    rw [hSame, hFlash.loadAddr] at hStart
    cases hStart
  let d : Byte → Device := fun v => ⟨fun _ => 0, fun _ j => if j = 0 then v else 0, readOnly⟩
  let s : Ram := ⟨fun _ => 0, []⟩
  have hLeft : ∀ v, (loaded f imageStartAddress h w false (d v) s).mem h.loadAddr = v := by
    intro v
    have hPlain := hFlash.leaves_of_agree hAgree (d := d v) (s := s) rfl hFirst
    rw [add_ofNat_zero, plain, decide_eq_true hEncrypted] at hPlain
    exact hPlain
  -- the first byte of the plain data is never stored
  have hByte : (0 : Byte) = 1 := by
    rw [← hLeft 0, ← hLeft 1, loaded, loaded, decryptedAt, decryptedAt,
      if_pos ⟨hEncrypted, hChecked⟩, if_pos ⟨hEncrypted, hChecked⟩, decide_eq_true hEncrypted,
      hChecked]
    apply store_congr rfl
    · exact (if_neg hApart).trans (if_neg hApart).symm
    · exact store_congr rfl (recorded_congr rfl rfl) (recorded_congr rfl rfl)
  exact absurd hByte (by decide)

theorem builds_agree_iff (hFlash : LiesInFlash f readOnly imageStartAddress h w) :
    BuildsAgree f readOnly imageStartAddress h w ↔ LoadsPlain f readOnly h := by
  constructor
  · intro hAgree
    have hSecret : encrypted h → checked f h = true → h.dataWordLen = 0 :=
      fun hEncrypted hChecked => hFlash.empty_of_agree hAgree hEncrypted hChecked
    refine ⟨hSecret, fun hChecked => ?_, fun j hj => hFlash.writable_of_agree hAgree hj⟩
    by_cases hEncrypted : encrypted h
    · rw [hSecret hEncrypted hChecked]
      exact Nat.zero_le _
    · exact hFlash.whole_of_agree hAgree hEncrypted hChecked
  · intro hLoads d s hRead ddr
    exact hFlash.leaves_plain hLoads hRead

end Builds

/-! ### On the bench -/

/-- The bench with its boot image in the linear QSPI flash. -/
def flashBench : Setup :=
  { bench with linearBootDeviceFlag := true, flashReadBaseAddress := 0xFC000000 }

def benchFlash (a : U32) : Bool := 0xFC000000 ≤ a && a ≤ 0xFCFFFFFF

def flashHeader (dataWordLen partitionAttr : U32) : PartHeader :=
  { benchHeader 8 dataWordLen 8 0x200000 partitionAttr with execAddr := 0x200000 }

theorem flashHeader_start (dataWordLen partitionAttr : U32) :
    partitionStartAddr flashBench 0 (flashHeader dataWordLen partitionAttr) = 0xFC000000 := by
  change (0 : U32) + 0 <<< 2 + 0xFC000000 = 0xFC000000
  decide

theorem flashHeader_lies (dataWordLen partitionAttr : U32)
    (hPs : hasPsImage flashBench (flashHeader dataWordLen partitionAttr) = true) :
    LiesInFlash flashBench benchFlash 0 (flashHeader dataWordLen partitionAttr) initialWalk where
  linear := rfl
  ps := hPs
  moved := by
    rw [movedWithoutDdr, loadFlags_pl, hPs]
    rfl
  supported := fun _ => rfl
  loadAddr := rfl
  start := by
    rw [flashHeader_start]
    rfl
  image := by
    have hLength : (flashHeader dataWordLen partitionAttr).imageWordLen = 8 := rfl
    rw [flashHeader_start, hLength]
    decide

theorem builds_agree_signed :
    BuildsAgree flashBench benchFlash 0 (flashHeader 8 0x8010) initialWalk :=
  (builds_agree_iff (flashHeader_lies 8 0x8010 rfl)).mpr
    ⟨fun hEncrypted => absurd rfl hEncrypted, fun _ => Nat.le_refl 8,
      (by decide : ∀ j < 32, benchFlash (0x200000 + BitVec.ofNat 32 j) = false)⟩

/-- An encrypted partition with a checksum. -/
theorem builds_disagree : ¬ ∀ (f : Setup) (readOnly : U32 → Bool) (imageStartAddress : U32)
    (h : PartHeader) (w : Walk), LiesInFlash f readOnly imageStartAddress h w →
      BuildsAgree f readOnly imageStartAddress h w := by
  intro hAgree
  have hFlash := flashHeader_lies 6 0x1010 rfl
  have hEmpty := hFlash.empty_of_agree (hAgree _ _ _ _ _ hFlash) (by decide) rfl
  exact absurd hEmpty (by decide)

end SoftwarePrototypes.Fsbl
