import Mathlib.Data.Set.Lattice
import Mathlib.Order.CompletePartialOrder
import SoftwarePrototypes.DmaProxy.Interface

/-! # Addresses inside the allocation of a channel

One channel owns `bufferCount` channel buffers in a row. The fields that a transfer may fill are
kept apart from one another and from the status and length words.
-/

namespace SoftwarePrototypes.DmaProxy

def allocationSize : Nat := sizeofChannelBuffer * bufferCount

/-- `dma_handle` of a BD as `create_channel` computes it. -/
def dmaHandle (physAddr bd : Nat) : Nat := physAddr + sizeofChannelBuffer * bd + offsetofBuffer

def span (start length : Nat) : Set Nat := {address | start ≤ address ∧ address < start + length}

def bufferField (physAddr bd : Nat) : Set Nat := span (dmaHandle physAddr bd) bufferSize

def statusWord (physAddr bd : Nat) : Set Nat :=
  span (physAddr + sizeofChannelBuffer * bd + offsetofStatus) sizeofWord

def lengthWord (physAddr bd : Nat) : Set Nat :=
  span (physAddr + sizeofChannelBuffer * bd + offsetofLength) sizeofWord

theorem span_subset {start length start' length' : Nat} (hStart : start' ≤ start)
    (hEnd : start + length ≤ start' + length') : span start length ⊆ span start' length' := by
  rintro address ⟨hLow, hHigh⟩
  exact ⟨hStart.trans hLow, hHigh.trans_le hEnd⟩

theorem span_disjoint {start length start' length' : Nat}
    (h : start + length ≤ start' ∨ start' + length' ≤ start) :
    Disjoint (span start length) (span start' length') := by
  apply Set.disjoint_left.mpr
  rintro address ⟨hLow, hHigh⟩ ⟨hLow', hHigh'⟩
  omega

theorem bufferField_disjoint (physAddr : Nat) {i j : Nat} (h : i ≠ j) :
    Disjoint (bufferField physAddr i) (bufferField physAddr j) := by
  apply span_disjoint
  simp only [dmaHandle, sizeofChannelBuffer, offsetofLength, offsetofStatus, offsetofBuffer,
    bufferSize, sizeofWord]
  omega

theorem bufferField_statusWord (physAddr i j : Nat) :
    Disjoint (bufferField physAddr i) (statusWord physAddr j) := by
  apply span_disjoint
  simp only [dmaHandle, sizeofChannelBuffer, offsetofLength, offsetofStatus, offsetofBuffer,
    bufferSize, sizeofWord]
  omega

theorem bufferField_lengthWord (physAddr i j : Nat) :
    Disjoint (bufferField physAddr i) (lengthWord physAddr j) := by
  apply span_disjoint
  simp only [dmaHandle, sizeofChannelBuffer, offsetofLength, offsetofStatus, offsetofBuffer,
    bufferSize, sizeofWord]
  omega

end SoftwarePrototypes.DmaProxy
