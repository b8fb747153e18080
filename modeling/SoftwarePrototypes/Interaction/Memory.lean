import Mathlib.Algebra.Group.Nat.Defs
import Mathlib.Logic.Function.Basic

/-! # Byte memories

A memory holds a byte in each cell, and is reached through a map that decodes addresses into
cells. Words have four bytes, the least significant one first.
-/

namespace Interaction.Memory

abbrev Byte : Type := BitVec 8

abbrev Mem (κ : Type) : Type := κ → Byte

def byteOf (word : BitVec 32) (i : Nat) : Byte := word.extractLsb' (8 * i) 8

/-! ### Offsets -/

section Offsets

variable {w : Nat}

theorem add_ofNat_add (a : BitVec w) (i j : Nat) :
    a + BitVec.ofNat w i + BitVec.ofNat w j = a + BitVec.ofNat w (i + j) := by
  rw [BitVec.add_assoc, ← BitVec.ofNat_add]

theorem add_ofNat_zero (a : BitVec w) : a + BitVec.ofNat w 0 = a := BitVec.add_zero a

theorem add_one_ofNat (a : BitVec w) (i : Nat) :
    a + 1 + BitVec.ofNat w i = a + BitVec.ofNat w (i + 1) := by
  have hOne : (1 : BitVec w) = BitVec.ofNat w 1 := rfl
  rw [hOne, add_ofNat_add, Nat.add_comm 1 i]

theorem add_ofNat_inj {i j : Nat} (hi : i < 2 ^ w) (hj : j < 2 ^ w) (a : BitVec w) :
    a + BitVec.ofNat w i = a + BitVec.ofNat w j ↔ i = j := by
  rw [BitVec.add_right_inj]
  constructor
  · intro h
    have hNat := congrArg BitVec.toNat h
    rw [BitVec.toNat_ofNat, BitVec.toNat_ofNat, Nat.mod_eq_of_lt hi, Nat.mod_eq_of_lt hj] at hNat
    exact hNat
  · rintro rfl
    rfl

theorem add_offset (a b : BitVec w) : a + BitVec.ofNat w (b - a).toNat = b := by
  rw [BitVec.ofNat_toNat, BitVec.setWidth_eq, BitVec.add_comm]
  exact BitVec.sub_add_cancel b a

theorem add_ofNat_sub (a : BitVec w) {j : Nat} (hj : j < 2 ^ w) :
    (a + BitVec.ofNat w j - a).toNat = j := by
  rw [BitVec.add_comm, BitVec.add_sub_cancel, BitVec.toNat_ofNat, Nat.mod_eq_of_lt hj]

end Offsets

section Memory

variable {κ : Type} [DecidableEq κ] {w : Nat} (cell : BitVec w → κ)

/-- The bytes are stored one after the other. -/
def storeBytes : Nat → (Nat → Byte) → BitVec w → Mem κ → Mem κ
  | 0, _, _, m => m
  | n + 1, bytes, a, m =>
    storeBytes n (fun i => bytes (i + 1)) (a + 1) (Function.update m (cell a) (bytes 0))

def store32 (m : Mem κ) (a : BitVec w) (word : BitVec 32) : Mem κ :=
  storeBytes cell 4 (byteOf word) a m

omit [DecidableEq κ] in
def load32 (m : Mem κ) (a : BitVec w) : BitVec 32 :=
  m (cell (a + BitVec.ofNat w 3)) ++ m (cell (a + BitVec.ofNat w 2)) ++
    m (cell (a + BitVec.ofNat w 1)) ++ m (cell a)

/-- `*dest++ = *src++`, so many times. -/
def copyWords : Nat → BitVec w → BitVec w → Mem κ → Mem κ
  | 0, _, _, m => m
  | n + 1, src, dest, m =>
    copyWords n (src + BitVec.ofNat w 4) (dest + BitVec.ofNat w 4)
      (store32 cell m dest (load32 cell m src))

variable {cell} {m : Mem κ} {a : BitVec w}

/-- What a store leaves in a cell depends on that cell alone. -/
theorem storeBytes_congr {n : Nat} {bytes : Nat → Byte} {m' : Mem κ} {c : κ} (h : m c = m' c) :
    storeBytes cell n bytes a m c = storeBytes cell n bytes a m' c := by
  induction n generalizing a bytes m m' with
  | zero => exact h
  | succ n ih =>
    apply ih
    rw [Function.update_apply, Function.update_apply, h]

theorem storeBytes_of_ne {n : Nat} {bytes : Nat → Byte} {c : κ}
    (h : ∀ i < n, c ≠ cell (a + BitVec.ofNat w i)) : storeBytes cell n bytes a m c = m c := by
  induction n generalizing a bytes m with
  | zero => rfl
  | succ n ih =>
    rw [storeBytes, ih]
    · have hFirst := h 0 (Nat.succ_pos n)
      rw [add_ofNat_zero] at hFirst
      exact Function.update_of_ne hFirst _ _
    · intro i hi
      rw [add_one_ofNat]
      exact h (i + 1) (by omega)

theorem store32_of_ne {word : BitVec 32} {c : κ}
    (h : ∀ i < 4, c ≠ cell (a + BitVec.ofNat w i)) : store32 cell m a word c = m c :=
  storeBytes_of_ne h

theorem storeBytes_at (hCell : Function.Injective cell) {n i : Nat} {bytes : Nat → Byte}
    (hFit : n ≤ 2 ^ w) (hi : i < n) :
    storeBytes cell n bytes a m (cell (a + BitVec.ofNat w i)) = bytes i := by
  induction n generalizing a bytes m i with
  | zero => omega
  | succ n ih =>
    rw [storeBytes]
    cases i with
    | zero =>
      rw [storeBytes_of_ne, add_ofNat_zero, Function.update_self]
      intro j hj hSame
      have hEq := hCell hSame
      rw [add_one_ofNat, add_ofNat_inj (by omega) (by omega)] at hEq
      omega
    | succ i =>
      rw [← add_one_ofNat]
      exact ih (by omega) (by omega)

theorem store32_at (hCell : Function.Injective cell) {i : Nat} {word : BitVec 32}
    (hFit : 4 ≤ 2 ^ w) (hi : i < 4) :
    store32 cell m a word (cell (a + BitVec.ofNat w i)) = byteOf word i :=
  storeBytes_at hCell hFit hi

omit [DecidableEq κ] in
theorem byteOf_load32 {i : Nat} (hi : i < 4) :
    byteOf (load32 cell m a) i = m (cell (a + BitVec.ofNat w i)) := by
  have hCases : i = 0 ∨ i = 1 ∨ i = 2 ∨ i = 3 := by omega
  apply BitVec.eq_of_getLsbD_eq
  intro k hk
  rw [byteOf, BitVec.getLsbD_extractLsb', load32, decide_eq_true hk, Bool.true_and]
  simp only [BitVec.getLsbD_append]
  obtain rfl | rfl | rfl | rfl := hCases
  · have hBit : 8 * 0 + k = k := by omega
    rw [if_pos (by omega), hBit, add_ofNat_zero]
  · have hBit : 8 * 1 + k - 8 = k := by omega
    rw [if_neg (by omega), if_pos (by omega), hBit]
  · have hBit : 8 * 2 + k - 8 - 8 = k := by omega
    rw [if_neg (by omega), if_neg (by omega), if_pos (by omega), hBit]
  · have hBit : 8 * 3 + k - 8 - 8 - 8 = k := by omega
    rw [if_neg (by omega), if_neg (by omega), if_neg (by omega), hBit]

theorem word_ext {word word' : BitVec 32} (h : ∀ i < 4, byteOf word i = byteOf word' i) :
    word = word' := by
  apply BitVec.eq_of_getLsbD_eq
  intro k hk
  have hByte := congrArg (fun b => b.getLsbD (k % 8)) (h (k / 8) (by omega))
  simp only [byteOf, BitVec.getLsbD_extractLsb'] at hByte
  have hMod : k % 8 < 8 := Nat.mod_lt k (by omega)
  rw [Nat.div_add_mod] at hByte
  simpa [hMod] using hByte

omit [DecidableEq κ] in
theorem load32_eq {word : BitVec 32}
    (h : ∀ i < 4, m (cell (a + BitVec.ofNat w i)) = byteOf word i) : load32 cell m a = word :=
  word_ext fun i hi => (byteOf_load32 hi).trans (h i hi)

/-! ### Copying -/

theorem copyWords_of_ne {n : Nat} {src dest : BitVec w} {c : κ}
    (h : ∀ j < 4 * n, c ≠ cell (dest + BitVec.ofNat w j)) :
    copyWords cell n src dest m c = m c := by
  induction n generalizing src dest m with
  | zero => rfl
  | succ n ih =>
    rw [copyWords, ih]
    · exact store32_of_ne fun i hi => h i (by omega)
    · intro j hj
      rw [add_ofNat_add]
      exact h (4 + j) (by omega)

/-- A copy from elsewhere. -/
theorem copyWords_at (hCell : Function.Injective cell) {n j : Nat} {src dest : BitVec w}
    (hFit : 4 * n ≤ 2 ^ w) (hApart : ∀ i < 4 * n, ∀ j < 4 * n,
      src + BitVec.ofNat w i ≠ dest + BitVec.ofNat w j) (hj : j < 4 * n) :
    copyWords cell n src dest m (cell (dest + BitVec.ofNat w j)) =
      m (cell (src + BitVec.ofNat w j)) := by
  induction n generalizing src dest m j with
  | zero => omega
  | succ n ih =>
    rw [copyWords]
    rcases Nat.lt_or_ge j 4 with hFirst | hLater
    · rw [copyWords_of_ne, store32_at hCell (by omega) hFirst, byteOf_load32 hFirst]
      intro i hi hSame
      have hEq := hCell hSame
      rw [add_ofNat_add, add_ofNat_inj (by omega) (by omega)] at hEq
      omega
    · obtain ⟨j, rfl⟩ := Nat.exists_eq_add_of_le hLater
      rw [← add_ofNat_add, ih (by omega) _ (by omega), add_ofNat_add]
      · refine store32_of_ne fun i hi hSame => ?_
        exact hApart (4 + j) (by omega) i (by omega) (hCell hSame)
      · intro i hi k hk
        rw [add_ofNat_add, add_ofNat_add]
        exact hApart (4 + i) (by omega) (4 + k) (by omega)

end Memory

/-! ### Blocks -/

section Block

variable {w : Nat}

/-- A block stored at once; at the addresses that are read only nothing changes. -/
def storeBlock (readOnly : BitVec w → Bool) (dest : BitVec w) (n : Nat) (bytes : Nat → Byte)
    (m : Mem (BitVec w)) : Mem (BitVec w) :=
  fun a => if (a - dest).toNat < n ∧ readOnly a = false then bytes (a - dest).toNat else m a

def loadBlock (m : Mem (BitVec w)) (src : BitVec w) (n : Nat) : List Byte :=
  (List.range n).map fun j => m (src + BitVec.ofNat w j)

variable {readOnly : BitVec w → Bool} {dest : BitVec w} {n : Nat} {bytes bytes' : Nat → Byte}
  {m m' : Mem (BitVec w)}

theorem storeBlock_inside {a : BitVec w} (hIn : (a - dest).toNat < n)
    (hWritable : readOnly a = false) :
    storeBlock readOnly dest n bytes m a = bytes (a - dest).toNat :=
  if_pos ⟨hIn, hWritable⟩

theorem storeBlock_at {j : Nat} (hj : j < 2 ^ w) (hIn : j < n)
    (hWritable : readOnly (dest + BitVec.ofNat w j) = false) :
    storeBlock readOnly dest n bytes m (dest + BitVec.ofNat w j) = bytes j := by
  rw [storeBlock, add_ofNat_sub dest hj, if_pos ⟨hIn, hWritable⟩]

theorem storeBlock_beyond {j : Nat} (hj : j < 2 ^ w) (hOut : n ≤ j) :
    storeBlock readOnly dest n bytes m (dest + BitVec.ofNat w j) =
      m (dest + BitVec.ofNat w j) := by
  rw [storeBlock, add_ofNat_sub dest hj, if_neg fun h => absurd h.1 (Nat.not_lt.mpr hOut)]

theorem storeBlock_readOnly {a : BitVec w} (h : readOnly a = true) :
    storeBlock readOnly dest n bytes m a = m a := by
  rw [storeBlock, if_neg]
  rw [h]
  exact fun hBoth => nomatch hBoth.2

theorem storeBlock_congr (hBytes : ∀ j < n, bytes j = bytes' j) :
    storeBlock readOnly dest n bytes m = storeBlock readOnly dest n bytes' m := by
  funext a
  simp only [storeBlock]
  split
  · rename_i hIn
    exact hBytes _ hIn.1
  · rfl

theorem loadBlock_congr {src src' : BitVec w}
    (h : ∀ j < n, m (src + BitVec.ofNat w j) = m' (src' + BitVec.ofNat w j)) :
    loadBlock m src n = loadBlock m' src' n :=
  List.map_congr_left fun j hj => h j (List.mem_range.mp hj)

end Block

end Interaction.Memory
