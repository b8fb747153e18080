import Mathlib.Data.Nat.ModEq
import Mathlib.Data.List.Range
import Mathlib.Tactic.Linarith
import Mathlib.Tactic.Ring

/-! # Rings of buffers visited with a stride

Positions `0`, `stride`, `2 * stride`, ... below `size` are the slots of the ring; the step after
the last one leads back to the first. Transfers are numbered in the order of their start, and
transfer `k` uses slot `k`.
-/

namespace Interaction

structure Ring where
  size : Nat
  stride : Nat
  slots : Nat
  slots_pos : 0 < slots
  last_lt : (slots - 1) * stride < size
  size_le : size ≤ slots * stride
  closed : slots * stride % size = 0

namespace Ring

variable (r : Ring)

def slot (k : Nat) : Nat := k % r.slots * r.stride

theorem stride_pos : 0 < r.stride := by
  have hLast := r.last_lt
  have hSize := r.size_le
  rcases Nat.eq_zero_or_pos r.stride with hZero | hPos
  · rw [hZero] at hLast hSize
    omega
  · exact hPos

theorem slot_of_lt {k : Nat} (h : k < r.slots) : r.slot k = k * r.stride := by
  rw [slot, Nat.mod_eq_of_lt h]

theorem mul_stride_lt {k : Nat} : k * r.stride < r.size ↔ k < r.slots := by
  constructor
  · intro h
    exact Nat.lt_of_mul_lt_mul_right (h.trans_le r.size_le)
  · intro h
    exact (Nat.mul_le_mul_right r.stride (by omega)).trans_lt r.last_lt

theorem slot_lt (k : Nat) : r.slot k < r.size := r.mul_stride_lt.mpr (Nat.mod_lt k r.slots_pos)

theorem slot_add_slots (k : Nat) : r.slot (k + r.slots) = r.slot k := by
  rw [slot, Nat.add_mod_right, slot]

theorem slot_next (k : Nat) : (r.slot k + r.stride) % r.size = r.slot (k + 1) := by
  have hMod := Nat.mod_lt k r.slots_pos
  have hNext : r.slot k + r.stride = (k % r.slots + 1) * r.stride := by
    rw [slot, Nat.add_mul, Nat.one_mul]
  rw [hNext, slot, Nat.add_mod]
  rcases Nat.lt_or_ge (k % r.slots + 1) r.slots with hInner | hWrap
  · rw [Nat.mod_eq_of_lt (r.mul_stride_lt.mpr hInner)]
    rcases Nat.lt_or_ge 1 r.slots with hMany | hOne
    · rw [Nat.mod_eq_of_lt hMany, Nat.mod_eq_of_lt hInner]
    · omega
  · have hLast : k % r.slots + 1 = r.slots := by omega
    rw [hLast, r.closed]
    rcases Nat.lt_or_ge 1 r.slots with hMany | hOne
    · rw [Nat.mod_eq_of_lt hMany, hLast, Nat.mod_self, Nat.zero_mul]
    · have hSlots : r.slots = 1 := by
        have := r.slots_pos
        omega
      rw [hSlots, Nat.mod_one, Nat.zero_mul]

theorem slot_ne {i j : Nat} (h : i < j) (hNear : j < i + r.slots) : r.slot i ≠ r.slot j := by
  intro hSame
  have hMod : i % r.slots = j % r.slots := Nat.eq_of_mul_eq_mul_right r.stride_pos hSame
  have hDvd : r.slots ∣ j - i := (Nat.modEq_iff_dvd' h.le).mp hMod
  exact absurd (Nat.le_of_dvd (by omega) hDvd) (by omega)

theorem slots_mul_stride (h : r.stride ≤ r.size) : r.slots * r.stride = r.size := by
  have hLast := r.last_lt
  have hSize := r.size_le
  have hPos := r.slots_pos
  have hMul : (r.slots - 1) * r.stride + r.stride = r.slots * r.stride := by
    rw [← Nat.succ_mul, Nat.succ_eq_add_one, Nat.sub_add_cancel hPos]
  have hRest : r.slots * r.stride - r.size = 0 := by
    rw [← Nat.mod_eq_of_lt (a := r.slots * r.stride - r.size) (b := r.size) (by omega),
      ← Nat.mod_eq_sub_mod hSize]
    exact r.closed
  omega

def ofDvd (size stride : Nat) (hSize : 0 < size) (hStride : 0 < stride) (hDvd : stride ∣ size) :
    Ring where
  size := size
  stride := stride
  slots := size / stride
  slots_pos := Nat.div_pos (Nat.le_of_dvd hSize hDvd) hStride
  last_lt := by
    have hMul := Nat.div_mul_cancel hDvd
    have hPos := Nat.div_pos (Nat.le_of_dvd hSize hDvd) hStride
    rw [Nat.sub_mul, hMul]
    omega
  size_le := (Nat.div_mul_cancel hDvd).ge
  closed := by rw [Nat.div_mul_cancel hDvd, Nat.mod_self]

/-- From every slot, a step that wraps at `size` leads to a slot. -/
def Revisits (size stride : Nat) : Prop :=
  ∀ k, k * stride < size → ∃ j, j * stride < size ∧ (k * stride + stride) % size = j * stride

/-- A step from the last slot leads back to the first, also where the stride does not divide the
size. -/
theorem Revisits.wraps {size stride slots : Nat} (h : Revisits size stride)
    (hLast : (slots - 1) * stride < size) (hSize : size ≤ slots * stride) (hSlots : 0 < slots) :
    slots * stride % size = 0 := by
  obtain ⟨j, _, hStep⟩ := h (slots - 1) hLast
  have hMul : (slots - 1) * stride + stride = slots * stride := by
    rw [← Nat.succ_mul, Nat.succ_eq_add_one, Nat.sub_add_cancel hSlots]
  rw [hMul] at hStep
  have hSmall : slots * stride % size < stride := by
    rw [Nat.mod_eq_sub_mod hSize]
    exact (Nat.mod_le _ _).trans_lt (by omega)
  rw [hStep] at hSmall ⊢
  rcases Nat.eq_zero_or_pos j with hZero | hPos
  · rw [hZero, Nat.zero_mul]
  · exact absurd (Nat.le_mul_of_pos_left stride hPos) (by omega)

def ofRevisits (size stride : Nat) (hSize : 0 < size) (hStride : 0 < stride)
    (h : Revisits size stride) : Ring :=
  have hSlots : 0 < (size + stride - 1) / stride := Nat.div_pos (by omega) hStride
  have hLe : size ≤ (size + stride - 1) / stride * stride := by
    have := Nat.lt_div_mul_add hStride (a := size + stride - 1)
    omega
  have hLast : ((size + stride - 1) / stride - 1) * stride < size := by
    have := Nat.div_mul_le_self (size + stride - 1) stride
    rw [Nat.sub_mul]
    omega
  { size := size
    stride := stride
    slots := (size + stride - 1) / stride
    slots_pos := hSlots
    last_lt := hLast
    size_le := hLe
    closed := h.wraps hLast hLe hSlots }

end Ring

end Interaction
