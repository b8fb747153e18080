import SoftwarePrototypes.Interaction.Memory

/-! # The second stage boot loader

`main` of `ssbl_main.c` and the handoff of `ssbl_handoff.S`, over the memory of the processor.
Console output and cache maintenance are left out.
-/

namespace SoftwarePrototypes.Ssbl

open Interaction.Memory

abbrev U32 : Type := BitVec 32

def ocmHighAddr : U32 := 0xFFFC0000

def flashDataPtrAddr : U32 := 0xFFFF0000

def handoffPtrAddr : U32 := 0xFFFF0004

def lowOcmSize : Nat := 192 * 1024

/-- A byte of the OCM, or whatever else the bus leads to. -/
inductive Cell where
  | ocm (offset : BitVec 18)
  | bus (addr : U32)
  deriving DecidableEq

/-- The bit of the remap register for the block of 64 KB that the address is in. -/
def mapsHigh (ocmCfg addr : U32) : Bool := ocmCfg.getLsbD (addr.toNat / 0x10000 % 4)

/-- Each block of the OCM is either at the top of the address space or at its bottom. -/
def cell (ocmCfg addr : U32) : Cell :=
  if 0xFFFC0000 ≤ addr then
    if mapsHigh ocmCfg addr then .ocm (addr.setWidth 18) else .bus addr
  else if addr < 0x40000 then
    if mapsHigh ocmCfg addr then .bus addr else .ocm (addr.setWidth 18)
  else .bus addr

structure Board where
  memory : Mem Cell
  ocmCfg : U32
  slcrUnlocked : Bool

/-- Two registers unlock and lock the SLCR, whose remap register can be written while it is
unlocked. -/
def xilOut32 (addr value : U32) (b : Board) : Board :=
  if addr = 0xF8000008 then { b with slcrUnlocked := b.slcrUnlocked || value = 0xDF0D }
  else if addr = 0xF8000004 then { b with slcrUnlocked := b.slcrUnlocked && value ≠ 0x767B }
  else if addr = 0xF8000910 then if b.slcrUnlocked then { b with ocmCfg := value } else b
  else { b with memory := store32 (cell b.ocmCfg) b.memory addr value }

def xilIn32 (addr : U32) (b : Board) : U32 :=
  if addr = 0xF8000910 then b.ocmCfg else load32 (cell b.ocmCfg) b.memory addr

def remapOcm (b : Board) : Board :=
  let b := xilOut32 0xF8000008 0xDF0D b
  let ocmCfg := xilIn32 0xF8000910 b
  let b := xilOut32 0xF8000910 (ocmCfg ||| 0xF) b
  xilOut32 0xF8000004 0x767B b

def copyData (b : Board) : Board :=
  let src := load32 (cell b.ocmCfg) b.memory flashDataPtrAddr
  { b with memory := copyWords (cell b.ocmCfg) (lowOcmSize / 4) src ocmHighAddr b.memory }

structure Handoff where
  board : Board
  jump : U32

/-- `SsblHandoffExit` jumps to its argument. -/
def main (b : Board) : Handoff :=
  let b := copyData (remapOcm b)
  ⟨b, load32 (cell b.ocmCfg) b.memory handoffPtrAddr⟩

/-! ## The memory map -/

section Map

variable {ocmCfg addr : U32}

theorem atTop : (0xFFFC0000 : U32) ≤ addr ↔ 0xFFFC0000 ≤ addr.toNat := Iff.rfl

theorem atBottom : addr < (0x40000 : U32) ↔ addr.toNat < 0x40000 := Iff.rfl

theorem cell_bus (hAbove : 0x40000 ≤ addr.toNat) (hBelow : addr.toNat < 0xFFFC0000) :
    cell ocmCfg addr = .bus addr := by
  rw [cell, if_neg (mt atTop.mp (by omega)), if_neg (mt atBottom.mp (by omega))]

theorem cell_high (hAddr : 0xFFFC0000 ≤ addr.toNat) (hHigh : mapsHigh ocmCfg addr = true) :
    cell ocmCfg addr = .ocm (addr.setWidth 18) := by
  rw [cell, if_pos (atTop.mpr hAddr), if_pos hHigh]

/-- The OCM holds an address at the top or at the bottom. -/
theorem cell_ocm {offset : BitVec 18} (h : cell ocmCfg addr = .ocm offset) :
    offset = addr.setWidth 18 ∧
      (0xFFFC0000 ≤ addr.toNat ∧ mapsHigh ocmCfg addr = true ∨
        addr.toNat < 0x40000 ∧ mapsHigh ocmCfg addr = false) := by
  unfold cell at h
  split at h
  · rename_i hTop
    split at h
    · cases h
      exact ⟨rfl, .inl ⟨atTop.mp hTop, ‹_›⟩⟩
    · cases h
  split at h
  · rename_i hBottom
    split at h
    · cases h
    · rename_i hLow
      cases h
      exact ⟨rfl, .inr ⟨atBottom.mp hBottom, by simpa using hLow⟩⟩
  · cases h

theorem cell_bus_inv {busAddr : U32} (h : cell ocmCfg addr = .bus busAddr) : busAddr = addr := by
  unfold cell at h
  split at h <;> split at h <;> (try split at h) <;> cases h <;> rfl

theorem cell_injective (ocmCfg : U32) : Function.Injective (cell ocmCfg) := by
  intro a b hSame
  cases hCell : cell ocmCfg b with
  | bus busAddr =>
    have hFirst := cell_bus_inv (hSame.trans hCell)
    exact hFirst.symm.trans (cell_bus_inv hCell)
  | ocm offset =>
    obtain ⟨rfl, hA⟩ := cell_ocm (hSame.trans hCell)
    obtain ⟨hOffset, hB⟩ := cell_ocm hCell
    have hLow := congrArg BitVec.toNat hOffset
    rw [BitVec.toNat_setWidth, BitVec.toNat_setWidth] at hLow
    have hBlock : mapsHigh ocmCfg a = mapsHigh ocmCfg b := by
      have hDigit : a.toNat / 0x10000 % 4 = b.toNat / 0x10000 % 4 := by omega
      rw [mapsHigh, hDigit, mapsHigh]
    have hLtA := a.isLt
    have hLtB := b.isLt
    apply BitVec.eq_of_toNat_eq
    obtain ⟨hA, hBit⟩ | ⟨hA, hBit⟩ := hA <;> obtain ⟨hB, hBit'⟩ | ⟨hB, hBit'⟩ := hB
    · omega
    · rw [hBlock, hBit'] at hBit
      cases hBit
    · rw [hBlock, hBit'] at hBit
      cases hBit
    · omega

theorem mapsHigh_remapped (ocmCfg addr : U32) : mapsHigh (ocmCfg ||| 0xF) addr = true := by
  have hDigit : ∀ k < 4, (0xF : U32).getLsbD k = true := by decide
  rw [mapsHigh, BitVec.getLsbD_or, hDigit _ (Nat.mod_lt _ (by omega)), Bool.or_true]

end Map

/-! ## What `main` does -/

section Main

variable {b : Board}

theorem remapOcm_memory (b : Board) : (remapOcm b).memory = b.memory := by
  simp [remapOcm, xilOut32, xilIn32]

theorem remapOcm_ocmCfg (b : Board) : (remapOcm b).ocmCfg = b.ocmCfg ||| 0xF := by
  simp [remapOcm, xilOut32, xilIn32]

theorem main_ocmCfg (b : Board) : (main b).board.ocmCfg = b.ocmCfg ||| 0xF :=
  remapOcm_ocmCfg b

/-- The block that the boot loaders share is mapped high from the start. -/
def SharedHigh (ocmCfg : U32) : Prop := ocmCfg.getLsbD 3 = true

theorem cell_shared {ocmCfg : U32} (hShared : SharedHigh ocmCfg) {addr : U32}
    (hAddr : 0xFFFF0000 ≤ addr.toNat) : cell ocmCfg addr = .ocm (addr.setWidth 18) := by
  apply cell_high (by omega)
  have hDigit : addr.toNat / 0x10000 % 4 = 3 := by
    have hLt := addr.isLt
    omega
  rw [mapsHigh, hDigit]
  exact hShared

theorem cell_remapped {addr : U32} (hAddr : 0xFFFC0000 ≤ addr.toNat) :
    cell (b.ocmCfg ||| 0xF) addr = .ocm (addr.setWidth 18) :=
  cell_high hAddr (mapsHigh_remapped _ _)

theorem main_memory (b : Board) : (main b).board.memory =
    copyWords (cell (b.ocmCfg ||| 0xF)) (lowOcmSize / 4)
      (load32 (cell (b.ocmCfg ||| 0xF)) b.memory flashDataPtrAddr) ocmHighAddr b.memory := by
  simp only [main, copyData, remapOcm_memory, remapOcm_ocmCfg]

/-- A pointer into a region that does not wrap. -/
theorem toNat_add_ofNat {a : U32} {j : Nat} (hFit : a.toNat + j < 0x100000000) :
    (a + BitVec.ofNat 32 j).toNat = a.toNat + j := by
  rw [BitVec.toNat_add, BitVec.toNat_ofNat]
  omega

theorem ocmHighAddr_add {j : Nat} (hj : j < lowOcmSize) :
    (ocmHighAddr + BitVec.ofNat 32 j).toNat = 0xFFFC0000 + j := by
  simp only [lowOcmSize] at hj
  apply toNat_add_ofNat
  change 0xFFFC0000 + j < _
  omega

theorem flashDataPtrAddr_add {i : Nat} (hi : i < 4) :
    (flashDataPtrAddr + BitVec.ofNat 32 i).toNat = 0xFFFF0000 + i := by
  apply toNat_add_ofNat
  change 0xFFFF0000 + i < _
  omega

theorem handoffPtrAddr_add {i : Nat} (hi : i < 4) :
    (handoffPtrAddr + BitVec.ofNat 32 i).toNat = 0xFFFF0004 + i := by
  apply toNat_add_ofNat
  change 0xFFFF0004 + i < _
  omega

/-- The copy stays below the block that the boot loaders share. -/
theorem main_kept (hShared : SharedHigh b.ocmCfg) {addr : U32} (hAddr : 0xFFFF0000 ≤ addr.toNat) :
    (main b).board.memory (cell (main b).board.ocmCfg addr) =
      b.memory (cell b.ocmCfg addr) := by
  rw [main_ocmCfg, main_memory, copyWords_of_ne]
  · rw [cell_shared hShared hAddr, cell_remapped (by omega)]
  · intro j hj hSame
    have hNat := congrArg BitVec.toNat (cell_injective _ hSame)
    simp only [lowOcmSize] at hj
    rw [ocmHighAddr_add (by simp only [lowOcmSize]; omega)] at hNat
    omega

theorem main_jump (hShared : SharedHigh b.ocmCfg) :
    (main b).jump = load32 (cell b.ocmCfg) b.memory handoffPtrAddr := by
  change load32 (cell (main b).board.ocmCfg) (main b).board.memory handoffPtrAddr = _
  apply load32_eq
  intro i hi
  rw [byteOf_load32 hi]
  exact main_kept hShared (handoffPtrAddr_add hi ▸ by omega)

/-- Data is copied from where the first word of the shared block says, if that is elsewhere. -/
theorem main_copied (hShared : SharedHigh b.ocmCfg) {src : U32}
    (hSrc : load32 (cell b.ocmCfg) b.memory flashDataPtrAddr = src)
    (hAbove : 0x40000 ≤ src.toNat) (hBelow : src.toNat + lowOcmSize ≤ 0xFFFC0000) {j : Nat}
    (hj : j < lowOcmSize) :
    (main b).board.memory (cell (main b).board.ocmCfg (ocmHighAddr + BitVec.ofNat 32 j)) =
      b.memory (.bus (src + BitVec.ofNat 32 j)) := by
  have hSame : load32 (cell (b.ocmCfg ||| 0xF)) b.memory flashDataPtrAddr = src := by
    rw [← hSrc]
    apply load32_eq
    intro i hi
    have hHigh : 0xFFFF0000 ≤ (flashDataPtrAddr + BitVec.ofNat 32 i).toNat := by
      rw [flashDataPtrAddr_add hi]
      omega
    rw [byteOf_load32 hi, cell_shared hShared hHigh, cell_remapped (by omega)]
  have hNat : ∀ i < lowOcmSize, (src + BitVec.ofNat 32 i).toNat = src.toNat + i := by
    intro i hi
    exact toNat_add_ofNat (by omega)
  have hWords : 4 * (lowOcmSize / 4) = lowOcmSize := rfl
  rw [main_ocmCfg, main_memory, hSame, copyWords_at (cell_injective _)]
  · rw [cell_bus]
    · rw [hNat j hj]
      omega
    · rw [hNat j hj]
      omega
  · decide
  · intro i hi k hk hEq
    rw [hWords] at hi hk
    have hEqNat := congrArg BitVec.toNat hEq
    rw [hNat i hi, ocmHighAddr_add hk] at hEqNat
    omega
  · rw [hWords]
    exact hj

end Main

end SoftwarePrototypes.Ssbl
