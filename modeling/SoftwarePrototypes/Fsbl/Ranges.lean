import Mathlib.Algebra.Group.Nat.Defs
import Mathlib.Data.Set.Basic
import SoftwarePrototypes.Fsbl.Interface

/-! # Ranges of addresses

Addresses wrap at the end of the 32-bit address space.
-/

namespace SoftwarePrototypes.Fsbl

/-- A number of words in bytes. -/
theorem toNat_shiftLeft_two (n : U32) : (n <<< 2).toNat = 4 * n.toNat % 2 ^ 32 := by
  rw [BitVec.toNat_shiftLeft, Nat.shiftLeft_eq, Nat.mul_comm]

structure Range where
  start : U32
  bytes : Nat

def Range.addresses (r : Range) : Set U32 := {a | ∃ j < r.bytes, a = r.start + BitVec.ofNat 32 j}

theorem Range.mono {start : U32} {n m : Nat} (hLe : n ≤ m) :
    (Range.mk start n).addresses ⊆ (Range.mk start m).addresses := by
  rintro _ ⟨j, hj, rfl⟩
  exact ⟨j, lt_of_lt_of_le hj hLe, rfl⟩

theorem Range.subset_iff {start : U32} {n m : Nat} (hSmall : n ≤ 0x100000000) :
    (Range.mk start n).addresses ⊆ (Range.mk start m).addresses ↔ n ≤ m := by
  constructor
  · intro hSubset
    by_contra hMore
    obtain ⟨j, hj, hSame⟩ := hSubset ⟨m, not_le.mp hMore, rfl⟩
    have hEq : BitVec.ofNat 32 m = BitVec.ofNat 32 j := by simpa using hSame
    have hNat := congrArg BitVec.toNat hEq
    simp only [BitVec.toNat_ofNat] at hNat
    change j < m at hj
    rw [Nat.mod_eq_of_lt (by omega), Nat.mod_eq_of_lt (by omega)] at hNat
    omega
  · exact Range.mono

theorem Range.addresses_of_empty {r : Range} (h : r.bytes = 0) (a : U32) : a ∉ r.addresses := by
  rintro ⟨j, hj, _⟩
  omega

/-! ## Overlapping ranges -/

theorem Range.mem_addresses {r : Range} {a : U32} :
    a ∈ r.addresses ↔ (a - r.start).toNat < r.bytes := by
  constructor
  · rintro ⟨j, hj, rfl⟩
    rw [BitVec.add_comm, BitVec.add_sub_cancel, BitVec.toNat_ofNat]
    exact lt_of_le_of_lt (Nat.mod_le j _) hj
  · intro hLt
    refine ⟨_, hLt, ?_⟩
    rw [BitVec.ofNat_toNat, BitVec.setWidth_eq, BitVec.add_comm, BitVec.sub_add_cancel]

theorem Range.start_mem {r : Range} (h : 0 < r.bytes) : r.start ∈ r.addresses := by
  rw [Range.mem_addresses, BitVec.sub_self]
  exact h

def Range.Apart (r s : Range) : Prop := ∀ a ∈ r.addresses, a ∉ s.addresses

/-- Of two ranges with a common address, one starts inside the other. -/
theorem Range.apart_iff {r s : Range} :
    r.Apart s ↔ r.bytes = 0 ∨ s.bytes = 0 ∨
      (r.bytes ≤ (s.start - r.start).toNat ∧ s.bytes ≤ (r.start - s.start).toNat) := by
  constructor
  · intro hApart
    by_contra hMeet
    rw [not_or, not_or] at hMeet
    obtain ⟨hr, hs, hMeet⟩ := hMeet
    by_cases hStart : (s.start - r.start).toNat < r.bytes
    · exact hApart _ (Range.mem_addresses.mpr hStart) (Range.start_mem (Nat.pos_of_ne_zero hs))
    · refine hApart _ (Range.start_mem (Nat.pos_of_ne_zero hr)) (Range.mem_addresses.mpr ?_)
      omega
  · intro hClear a hr hs
    rw [Range.mem_addresses] at hr hs
    rcases Nat.le_total (a - s.start).toNat (a - r.start).toNat with hLe | hLe
    · have hSub : (s.start - r.start).toNat = (a - r.start).toNat - (a - s.start).toNat := by
        bv_omega
      omega
    · have hSub : (r.start - s.start).toNat = (a - s.start).toNat - (a - r.start).toNat := by
        bv_omega
      omega

instance Range.Apart.decidable (r s : Range) : Decidable (r.Apart s) :=
  decidable_of_iff' _ Range.apart_iff

end SoftwarePrototypes.Fsbl
