import SoftwarePrototypes.DmaProxyTest.Bench

/-! # The size of a transfer

`main` takes the size in KB from the command line and bounds it by `BUFFER_SIZE` as an `int`. The
threads store it as an `unsigned int` and compare it with indices as a `size_t`.
-/

namespace SoftwarePrototypes.DmaProxyTest

open Interaction Interaction.Prog
open SoftwarePrototypes.DmaProxy (bufferSize txBufferCount rxBufferCount bufferIncrement)

/-- `test_size` for the second argument of the application. -/
def testSize (kb : BitVec 32) : BitVec 32 :=
  let size := kb * 1024
  if (BitVec.ofNat 32 bufferSize).slt size then BitVec.ofNat 32 bufferSize else size

/-- A `size_t` has at least the bits of an `int`. -/
def sizeT (extra : Nat) (size : BitVec 32) : Nat := (size.signExtend (32 + extra)).toNat

def application (extra : Nat) (verify : Bool) (kb : BitVec 32) : Config where
  txBufferCount := txBufferCount
  rxBufferCount := rxBufferCount
  bufferIncrement := bufferIncrement
  verify := verify
  testSize := sizeT extra (testSize kb)

/-- The length stored, as the driver reads it, and the bytes of a word written lie in the buffer. -/
def WithinBuffer : Op → Prop
  | .setLength _ length => length.toNat ≤ bufferSize
  | .writeWord _ i _ => 4 * (i + 1) ≤ bufferSize
  | _ => True

/-- Every call of both threads, in any number of rounds and whatever is answered. -/
def StaysWithin (extra : Nat) (verify : Bool) (kb : BitVec 32) : Prop :=
  ∀ side n, Only WithinBuffer (rounds (body (application extra verify kb) side) n (.fill 0 0))

variable {extra : Nat} {kb : BitVec 32}

theorem msb_of_nonneg {size : BitVec 32} (h : 0 ≤ size.toInt) : size.msb = false := by
  rw [BitVec.msb_eq_toInt]
  exact decide_eq_false (not_lt.mpr h)

theorem testSize_le (h : 0 ≤ (kb * 1024).toInt) : (testSize kb).toNat ≤ bufferSize := by
  simp only [testSize]
  split
  · decide
  · rename_i hSmall
    rw [BitVec.slt_iff_toInt_lt] at hSmall
    have hExact := BitVec.toInt_eq_toNat_of_msb (msb_of_nonneg h)
    have hLimit : (BitVec.ofNat 32 bufferSize).toInt = bufferSize := by decide
    omega

theorem testSize_nonneg (h : 0 ≤ (kb * 1024).toInt) : 0 ≤ (testSize kb).toInt := by
  simp only [testSize]
  split
  · decide
  · exact h

/-- The low bits of a `size_t` are those of the `int` it comes from. -/
theorem storedLength_application (verify : Bool) :
    storedLength (application extra verify kb) = testSize kb := by
  change BitVec.ofNat 32 ((testSize kb).signExtend (32 + extra)).toNat = testSize kb
  rw [BitVec.ofNat_toNat]
  apply BitVec.eq_of_getLsbD_eq
  intro i hi
  rw [BitVec.getLsbD_setWidth, BitVec.getLsbD_signExtend]
  simp [hi, Nat.lt_add_right extra hi]

theorem storedLength_le {verify : Bool} (h : 0 ≤ (kb * 1024).toInt) :
    (storedLength (application extra verify kb)).toNat ≤ bufferSize := by
  rw [storedLength_application]
  exact testSize_le h

theorem sizeT_eq (h : 0 ≤ (kb * 1024).toInt) : sizeT extra (testSize kb) = (testSize kb).toNat := by
  rw [sizeT, BitVec.signExtend_eq_setWidth_of_msb_false (msb_of_nonneg (testSize_nonneg h)),
    BitVec.toNat_setWidth_of_le (Nat.le_add_right 32 extra)]

theorem word_within {verify : Bool} (h : 0 ≤ (kb * 1024).toInt) {i : Nat}
    (hi : i < wordCount (application extra verify kb)) : 4 * (i + 1) ≤ bufferSize := by
  have hSize := testSize_le h
  have hWords : wordCount (application extra verify kb) = (testSize kb).toNat / 4 :=
    congrArg (· / 4) (sizeT_eq h)
  omega

section Threads

variable {verify : Bool} (h : 0 ≤ (kb * 1024).toInt)

include h

theorem txWords_within (bufferId : Nat) (counter : Int) :
    Only WithinBuffer (txWords (application extra verify kb) bufferId counter) := by
  rw [txWords]
  apply only_ite
  · intro _
    apply Only.forM
    intro i hi
    exact (only_ask _).mpr (word_within h (List.mem_range.mp hi))
  · exact fun _ => trivial

theorem txThread_within (next : Next) :
    Only WithinBuffer (txThread (application extra verify kb) next) := by
  cases next with
  | fill bufferId inProgressCount =>
    refine (only_ask_bind _ _).mpr ⟨storedLength_le h, fun _ => Only.bind ?_ fun _ => ?_⟩
    · apply only_ite
      · exact fun _ => (only_ask _).mpr (show 4 * (0 + 1) ≤ bufferSize by decide)
      · exact fun _ => trivial
    · refine (only_ask_bind _ _).mpr ⟨trivial, fun _ => (only_ask_bind _ _).mpr ⟨trivial, ?_⟩⟩
      exact fun done => only_ite (fun _ => trivial) fun _ => trivial
  | loop l =>
    refine (only_ask_bind _ _).mpr ⟨trivial, fun status => Only.bind ?_ fun _ => ?_⟩
    · exact only_ite (fun _ => (only_ask _).mpr trivial) fun _ => trivial
    refine (only_ask_bind _ _).mpr ⟨trivial, fun done => only_ite (fun _ => trivial) fun _ => ?_⟩
    apply Only.bind
    · refine (only_ask_bind _ _).mpr ⟨trivial, fun stop => only_ite (fun _ => ?_) fun _ => trivial⟩
      exact (only_ask_bind _ _).mpr ⟨trivial, fun _ => trivial⟩
    · refine fun stop => (only_ask_bind _ _).mpr ⟨trivial, fun full => ?_⟩
      refine only_ite (fun _ => trivial) fun _ => Only.bind (txWords_within h _ _) fun _ => ?_
      exact (only_ask_bind _ _).mpr ⟨trivial, fun _ => trivial⟩
  | returned count => trivial
  | exited => trivial

theorem rxThread_within (next : Next) :
    Only WithinBuffer (rxThread (application extra verify kb) next) := by
  cases next with
  | fill bufferId inProgressCount =>
    refine (only_ask_bind _ _).mpr ⟨storedLength_le h, fun _ => ?_⟩
    refine (only_ask_bind _ _).mpr ⟨trivial, fun _ => (only_ask_bind _ _).mpr ⟨trivial, ?_⟩⟩
    exact fun done => only_ite (fun _ => trivial) fun _ => trivial
  | loop l =>
    refine (only_ask_bind _ _).mpr ⟨trivial, fun status => only_ite (fun _ => ?_) fun _ => ?_⟩
    · exact (only_ask_bind _ _).mpr ⟨trivial, fun _ => trivial⟩
    apply Only.bind
    · apply only_ite
      · refine fun _ => (only_ask_bind _ _).mpr ⟨trivial, fun data => ?_⟩
        exact only_ite (fun _ => (only_ask _).mpr trivial) fun _ => trivial
      · exact fun _ => trivial
    · refine fun _ => (only_ask_bind _ _).mpr ⟨trivial, fun done => ?_⟩
      refine only_ite (fun _ => trivial) fun _ => ?_
      refine (only_ask_bind _ _).mpr ⟨trivial, fun full => ?_⟩
      refine only_ite (fun _ => trivial) fun _ => ?_
      exact (only_ask_bind _ _).mpr ⟨trivial, fun _ => trivial⟩
  | returned count => trivial
  | exited => trivial

end Threads

theorem testSize_of_neg (h : (kb * 1024).toInt < 0) : bufferSize < (testSize kb).toNat := by
  have hLimit : (BitVec.ofNat 32 bufferSize).toInt = bufferSize := by decide
  have hSmall : ¬ (BitVec.ofNat 32 bufferSize).slt (kb * 1024) := by
    rw [BitVec.slt_iff_toInt_lt, hLimit]
    omega
  have hSize : testSize kb = kb * 1024 := if_neg hSmall
  have hNeg := BitVec.toInt_neg_iff.mp h
  rw [hSize, bufferSize]
  omega

/-- The threads stay within the buffers exactly where 1024 times the size is not negative. -/
theorem staysWithin_iff (extra : Nat) (verify : Bool) (kb : BitVec 32) :
    StaysWithin extra verify kb ↔ 0 ≤ (kb * 1024).toInt := by
  constructor
  · intro hWithin
    by_contra hNegative
    have hFirst : (storedLength (application extra verify kb)).toNat ≤ bufferSize :=
      (hWithin .tx 1).1
    rw [storedLength_application] at hFirst
    exact absurd (testSize_of_neg (not_le.mp hNegative)) (not_lt.mpr hFirst)
  · intro h side n
    apply only_rounds
    cases side with
    | tx => exact txThread_within h
    | rx => exact rxThread_within h

/-- With a size of -1 the first length stored is 4294966272. -/
theorem staysWithin_negative : ¬ StaysWithin 32 false (BitVec.ofInt 32 (-1)) := by
  intro hWithin
  have hFirst : (storedLength (application 32 false (BitVec.ofInt 32 (-1)))).toNat ≤ bufferSize :=
    (hWithin .tx 1).1
  exact absurd hFirst (by decide)

end SoftwarePrototypes.DmaProxyTest
