import SoftwarePrototypes.Fsbl.DdrBuilds

/-! # Linear and other boot devices

The PCAP reads a linear boot device where it appears in memory. From any other device the CPU
copies a partition first, to where it is loaded or, for the PL, to a temporary address.
-/

namespace SoftwarePrototypes.Fsbl

open Interaction Interaction.Prog Interaction.Memory

/-! ## Bytes of the device in memory -/

section Shown

/-- The bytes that a partition of the device holds, decrypted if it is to be. -/
def Device.image (d : Device) (start : Nat) (imageWordLen : U32) (secure : Bool) : Nat → Byte :=
  if secure then
    d.decrypt ((List.range (4 * imageWordLen.toNat)).map fun j => d.content (start + j))
  else fun j => d.content (start + j)

def Device.ShownAt (d : Device) (m : Mem U32) (addr : U32) (start n : Nat) : Prop :=
  ∀ j < n, m (addr + BitVec.ofNat 32 j) = d.content (start + j)

def Device.Writable (d : Device) (addr : U32) (n : Nat) : Prop :=
  ∀ j < n, d.readOnly (addr + BitVec.ofNat 32 j) = false

variable {d : Device} {s : Ram} {m : Mem U32} {addr imageWordLen : U32} {start n : Nat}

theorem Device.ShownAt.output {secure : Bool}
    (hShown : d.ShownAt m addr start (4 * imageWordLen.toNat)) {j : Nat}
    (hj : secure = false → j < 4 * imageWordLen.toNat) :
    d.output m addr imageWordLen secure j = d.image start imageWordLen secure j := by
  cases secure with
  | true =>
    simp only [Device.output, Device.image, if_true]
    congr 1
    exact List.map_congr_left fun k hk => hShown k (List.mem_range.mp hk)
  | false => exact hShown j (hj rfl)

theorem Device.Writable.inside (hRam : d.Writable addr n) {a : U32}
    (ha : (a - addr).toNat < n) : d.readOnly a = false := by
  rw [← add_offset addr a]
  exact hRam _ ha

theorem Device.Writable.store_shown (hRam : d.Writable addr n) (hn : n ≤ 2 ^ 32) :
    d.ShownAt (d.store addr n (fun j => d.content (start + j)) s).mem addr start n :=
  fun j hj => Device.store_at (Nat.lt_of_lt_of_le hj hn) hj (hRam j hj)

/-- A copy of what is shown elsewhere. -/
theorem Device.ShownAt.store {dest : U32} (hShown : d.ShownAt s.mem addr start n) :
    d.store dest n (fun j => s.mem (addr + BitVec.ofNat 32 j)) s =
      d.store dest n (fun j => d.content (start + j)) s :=
  congrArg (Ram.mk · s.sent) (storeBlock_congr hShown)

end Shown

/-! ## Both kinds of device -/

def Setup.withLinear (f : Setup) (linear : Bool) : Setup :=
  { f with linearBootDeviceFlag := linear }

section Devices

variable (imageStartAddress : U32) (h : PartHeader)

def deviceOffset : Nat := imageStartAddress.toNat + 4 * h.partitionStart.toNat

/-- The partition lies in a boot device smaller than 4 GiB. -/
structure OnDevice (size : Nat) : Prop where
  small : size < 2 ^ 32
  image : deviceOffset imageStartAddress h + 4 * h.imageWordLen.toNat ≤ size
  partition : deviceOffset imageStartAddress h + 4 * h.partitionWordLen.toNat ≤ size

variable {imageStartAddress h} {f : Setup} {size : Nat} {d : Device} {s : Ram} {fl : Flags}

theorem OnDevice.start_toNat (hOn : OnDevice imageStartAddress h size) :
    (imageStartAddress + h.partitionStart <<< 2).toNat = deviceOffset imageStartAddress h := by
  have hSmall := hOn.small
  have hImage := hOn.image
  rw [deviceOffset] at hImage ⊢
  rw [BitVec.toNat_add, toNat_shiftLeft_two, Nat.mod_eq_of_lt (by omega : 4 * _ < _),
    Nat.mod_eq_of_lt (by omega)]

theorem OnDevice.image_toNat (hOn : OnDevice imageStartAddress h size) :
    (h.imageWordLen <<< 2).toNat = 4 * h.imageWordLen.toNat := by
  have hSmall := hOn.small
  have hImage := hOn.image
  rw [toNat_shiftLeft_two, Nat.mod_eq_of_lt (by omega)]

theorem OnDevice.partition_toNat (hOn : OnDevice imageStartAddress h size) :
    (h.partitionWordLen <<< 2).toNat = 4 * h.partitionWordLen.toNat := by
  have hSmall := hOn.small
  have hPartition := hOn.partition
  rw [toNat_shiftLeft_two, Nat.mod_eq_of_lt (by omega)]

/-- The device appears at the read address of the flash. -/
def Device.Appears (d : Device) (m : Mem U32) (base : U32) (size : Nat) : Prop :=
  ∀ j < size, m (base + BitVec.ofNat 32 j) = d.content j

theorem OnDevice.shown (hOn : OnDevice imageStartAddress h size)
    (hAppears : d.Appears s.mem f.flashReadBaseAddress size) {n : Nat}
    (hn : deviceOffset imageStartAddress h + n ≤ size) :
    d.ShownAt s.mem (partitionStartAddr f imageStartAddress h)
      (deviceOffset imageStartAddress h) n := by
  intro j hj
  have hAddr : partitionStartAddr f imageStartAddress h = f.flashReadBaseAddress +
      BitVec.ofNat 32 (deviceOffset imageStartAddress h) := by
    rw [partitionStartAddr, ← hOn.start_toNat, BitVec.ofNat_toNat, BitVec.setWidth_eq,
      BitVec.add_comm]
  rw [hAddr, add_ofNat_add]
  exact hAppears _ (by omega)

theorem OnDevice.moved_whole (hOn : OnDevice imageStartAddress h size)
    (hAppears : d.Appears s.mem f.flashReadBaseAddress size)
    (hType : fl.plPartitionFlag = !fl.psPartitionFlag) (hWhole : fl.whole = true) :
    d.after (moveEvents (f.withLinear true) imageStartAddress h fl) s =
      d.after (moveEvents (f.withLinear false) imageStartAddress h fl) s := by
  have hShown := hOn.shown (f := f) hAppears hOn.partition
  rw [moveEvents_linear_whole rfl hType hWhole, moveEvents_copied_whole rfl hType hWhole]
  simp only [Device.after, List.foldl_cons, List.foldl_nil, Device.effect, hOn.partition_toNat,
    hOn.start_toNat]
  exact hShown.store

theorem OnDevice.copied_shown (hOn : OnDevice imageStartAddress h size) {addr : U32}
    (hRam : d.Writable addr (4 * h.imageWordLen.toNat)) :
    d.ShownAt (d.store addr (4 * h.imageWordLen.toNat)
      (fun j => d.content (deviceOffset imageStartAddress h + j)) s).mem addr
      (deviceOffset imageStartAddress h) (4 * h.imageWordLen.toNat) := by
  have hSmall := hOn.small
  have hImage := hOn.image
  exact hRam.store_shown (by omega)

/-- What is not checked is sent, or loaded, in one transfer of the PCAP or from a copy. -/
theorem OnDevice.sent_plain (hOn : OnDevice imageStartAddress h size)
    (hRam : d.Writable (destination f fl h.loadAddr) (4 * h.imageWordLen.toNat))
    (hAppears : d.Appears s.mem f.flashReadBaseAddress size)
    (hType : fl.plPartitionFlag = !fl.psPartitionFlag) (hWhole : fl.whole = false)
    (hPlain : fl.encryptedPartitionFlag = false → h.dataWordLen = h.imageWordLen) :
    (d.after (moveEvents (f.withLinear true) imageStartAddress h fl) s).sent =
      (d.after (moveEvents (f.withLinear false) imageStartAddress h fl) s).sent := by
  have hFlash := hOn.shown (f := f) hAppears hOn.image
  rw [moveEvents_linear_plain rfl hType hWhole, moveEvents_copied_plain rfl hType hWhole]
  cases hPs : fl.psPartitionFlag with
  | true =>
    cases fl.encryptedPartitionFlag <;> rfl
  | false =>
    have hDest : destination (f.withLinear false) fl h.loadAddr = f.ddrTempStartAddr := by
      rw [destination, hType, hPs]
      rfl
    simp only [Device.after, List.foldl_cons, List.foldl_nil, Device.effect, hOn.image_toNat,
      hOn.start_toNat, hDest, Bool.false_eq_true, if_false, Ram.send]
    congr 1
    have hCopy := hOn.copied_shown (s := s) (hDest ▸ hRam)
    apply List.map_congr_left
    intro j hj
    rw [List.mem_range] at hj
    have hIn : fl.encryptedPartitionFlag = false → j < 4 * h.imageWordLen.toNat :=
      fun hOff => hPlain hOff ▸ hj
    exact (hFlash.output hIn).trans (hCopy.output hIn).symm

theorem OnDevice.loaded_plain (hOn : OnDevice imageStartAddress h size)
    (hRam : d.Writable h.loadAddr (4 * h.imageWordLen.toNat))
    (hLoad : d.Writable h.loadAddr (4 * h.dataWordLen.toNat))
    (hAppears : d.Appears s.mem f.flashReadBaseAddress size)
    (hType : fl.plPartitionFlag = !fl.psPartitionFlag) (hPs : fl.psPartitionFlag = true)
    (hWhole : fl.whole = false)
    (hPlain : fl.encryptedPartitionFlag = false → h.dataWordLen = h.imageWordLen) {a : U32}
    (ha : (a - h.loadAddr).toNat < 4 * h.dataWordLen.toNat) :
    (d.after (moveEvents (f.withLinear true) imageStartAddress h fl) s).mem a =
      (d.after (moveEvents (f.withLinear false) imageStartAddress h fl) s).mem a := by
  have hFlash := hOn.shown (f := f) hAppears hOn.image
  have hDest : destination (f.withLinear false) fl h.loadAddr = h.loadAddr := by
    rw [destination, hType, hPs]
    rfl
  rw [moveEvents_linear_plain rfl hType hWhole, moveEvents_copied_plain rfl hType hWhole,
    if_pos hPs, if_pos hPs]
  simp only [Device.after, List.foldl_cons, List.foldl_nil, Device.effect, hOn.image_toNat,
    hOn.start_toNat, hDest]
  rw [Device.store_inside ha (hLoad.inside ha)]
  cases hEncrypted : fl.encryptedPartitionFlag with
  | true =>
    have hOff : ∀ j, true = false → j < 4 * h.imageWordLen.toNat := by
      intro j hFalse
      cases hFalse
    refine (hFlash.output (hOff _)).trans ?_
    simp only [if_true, List.foldl_cons, List.foldl_nil, Device.effect]
    rw [Device.store_inside ha (hLoad.inside ha)]
    exact ((hOn.copied_shown hRam).output (hOff _)).symm
  | false =>
    rw [hPlain hEncrypted] at ha
    refine (hFlash.output fun _ => ha).trans ?_
    exact (Device.store_inside ha (hRam.inside ha)).symm

end Devices

/-! ## Processing a partition -/

section Agreement

variable {f : Setup} {imageStartAddress : U32} {h : PartHeader} {w u v : Walk} {size : Nat}
  {d : Device} {s : Ram} {L M : List Event}

theorem loadFlags_type (hType : hasPlImage f h = true ∨ hasPsImage f h = true) :
    (loadFlags f h w).plPartitionFlag = !(loadFlags f h w).psPartitionFlag := by
  rw [loadFlags_pl, loadFlags_ps]
  obtain hPl | hPs := hType
  · rw [hPl]
    cases hasPsImage f h <;> rfl
  · rw [hPs]
    rfl

/-- In the build with DDR the stages of a partition follow each other without stores between. -/
theorem checkLoadAddr_after (hDdr : f.ddr = true)
    (hRun : Returns (checkLoadAddr f imageStartAddress h w) L (.next u)) :
    d.after L s = d.after (useEvents f (partitionStartAddr f imageStartAddress h) h w.toFlags)
      (d.after (moveEvents f imageStartAddress h w.toFlags) s) := by
  obtain ⟨_, _, _, _, _, _, hStop⟩ | ⟨-, hHandle⟩ := checkLoadAddr_returns hRun
  · cases hStop
  · rw [handlePartition_after (.inl hDdr) hHandle, recordEvents, if_pos hDdr]
    rfl

theorem devices_agree (hDdr : f.ddr = true)
    (hType : hasPlImage f h = true ∨ hasPsImage f h = true)
    (hOn : OnDevice imageStartAddress h size)
    (hRam : d.Writable (destination f (loadFlags f h w).toFlags h.loadAddr)
      (4 * h.imageWordLen.toNat))
    (hLoad : hasPsImage f h = true → d.Writable h.loadAddr (4 * h.dataWordLen.toNat))
    (hAppears : d.Appears s.mem f.flashReadBaseAddress size)
    (hLinear : Returns (checkLoadAddr (f.withLinear true) imageStartAddress h (loadFlags f h w)) L
      (.next u))
    (hOther : Returns (checkLoadAddr (f.withLinear false) imageStartAddress h (loadFlags f h w)) M
      (.next v)) :
    (d.after L s).sent = (d.after M s).sent ∧ (hasPsImage f h = true →
      ∀ j < 4 * h.dataWordLen.toNat, (d.after L s).mem (h.loadAddr + BitVec.ofNat 32 j) =
        (d.after M s).mem (h.loadAddr + BitVec.ofNat 32 j)) := by
  have hFlags := loadFlags_type (w := w) hType
  rw [checkLoadAddr_after (f := f.withLinear true) hDdr hLinear,
    checkLoadAddr_after (f := f.withLinear false) hDdr hOther]
  cases hWhole : (loadFlags f h w).toFlags.whole with
  | true =>
    rw [hOn.moved_whole hAppears hFlags hWhole]
    exact ⟨rfl, fun _ _ _ => rfl⟩
  | false =>
    have hUnused : ∀ linear, useEvents (f.withLinear linear)
        (partitionStartAddr (f.withLinear linear) imageStartAddress h) h
        (loadFlags f h w).toFlags = [] := by
      intro linear
      rw [useEvents, hWhole]
      rfl
    have hPlain : (loadFlags f h w).encryptedPartitionFlag = false →
        h.dataWordLen = h.imageWordLen := fun hOff => not_not.mp (of_decide_eq_false hOff)
    rw [hUnused, hUnused]
    refine ⟨hOn.sent_plain hRam hAppears hFlags hWhole hPlain, fun hPs j hj => ?_⟩
    have hPsFlag : (loadFlags f h w).psPartitionFlag = true := by
      rw [loadFlags_ps, hPs]
      rfl
    have hDest : destination f (loadFlags f h w).toFlags h.loadAddr = h.loadAddr := by
      rw [destination, hFlags, hPsFlag]
      rfl
    apply hOn.loaded_plain (hDest ▸ hRam) (hLoad hPs) hAppears hFlags hPsFlag hWhole hPlain
    rw [BitVec.add_comm, BitVec.add_sub_cancel, BitVec.toNat_ofNat]
    exact Nat.lt_of_le_of_lt (Nat.mod_le _ _) hj

end Agreement

/-! ### On the bench -/

/-- A read-only flash with its offsets as its content. -/
def benchDevice : Device :=
  ⟨fun n => BitVec.ofNat 8 n, fun bytes j => bytes.getD j 0, benchFlash⟩

def benchRam : Ram := ⟨fun a => BitVec.ofNat 8 (a - 0xFC000000).toNat, []⟩

def benchMove (linear : Bool) (h : PartHeader) : List Event × Loader Step :=
  play (deviceAnswer (benchTable h) fun _ => 0) 8
    (checkLoadAddr (flashBench.withLinear linear) 0 h (loadFlags flashBench h initialWalk))

theorem benchDevice_appears : benchDevice.Appears benchRam.mem 0xFC000000 0x1000 := by
  intro j hj
  change BitVec.ofNat 8 (0xFC000000 + BitVec.ofNat 32 j - 0xFC000000).toNat = BitVec.ofNat 8 j
  rw [add_ofNat_sub _ (by omega)]

/-- An encrypted PS partition. -/
theorem devices_agree_bench :
    (benchDevice.after (benchMove true (flashHeader 6 0x10)).1 benchRam).sent =
      (benchDevice.after (benchMove false (flashHeader 6 0x10)).1 benchRam).sent ∧
    (hasPsImage flashBench (flashHeader 6 0x10) = true →
      ∀ j < 4 * (flashHeader 6 0x10).dataWordLen.toNat,
        (benchDevice.after (benchMove true (flashHeader 6 0x10)).1 benchRam).mem
            ((flashHeader 6 0x10).loadAddr + BitVec.ofNat 32 j) =
          (benchDevice.after (benchMove false (flashHeader 6 0x10)).1 benchRam).mem
            ((flashHeader 6 0x10).loadAddr + BitVec.ofNat 32 j)) :=
  devices_agree (f := flashBench) rfl (.inr rfl)
    ⟨by decide, by decide, by decide⟩
    (by decide : ∀ j < 32, benchFlash (0x200000 + BitVec.ofNat 32 j) = false)
    (fun _ => (by decide : ∀ j < 24, benchFlash (0x200000 + BitVec.ofNat 32 j) = false))
    benchDevice_appears (returns_play rfl) (returns_play rfl)

end SoftwarePrototypes.Fsbl
