import Mathlib.Data.List.Basic
import Mathlib.Tactic.Positivity

/-! # Arithmetic of machine words

An expression of unsigned words has the value that the machine computes and the exact integer. They
agree at every step if and only if no step leaves the range of the words.
-/

namespace Interaction.Arithmetic

inductive Expr (w : Nat) where
  | word (x : BitVec w)
  | shift (a : Expr w) (k : Nat)
  | add (a b : Expr w)
  | sub (a b : Expr w)
  deriving DecidableEq

variable {w : Nat}

def Expr.eval : Expr w → BitVec w
  | .word x => x
  | .shift a k => a.eval <<< k
  | .add a b => a.eval + b.eval
  | .sub a b => a.eval - b.eval

/-- The value with integers in place of words. -/
def Expr.value : Expr w → Int
  | .word x => x.toNat
  | .shift a k => a.value * 2 ^ k
  | .add a b => a.value + b.value
  | .sub a b => a.value - b.value

/-- The expressions computed on the way, the whole one first. -/
def Expr.steps : Expr w → List (Expr w)
  | .word x => [.word x]
  | .shift a k => .shift a k :: a.steps
  | .add a b => .add a b :: (a.steps ++ b.steps)
  | .sub a b => .sub a b :: (a.steps ++ b.steps)

def Expr.Exact (e : Expr w) : Prop := ∀ a ∈ e.steps, (a.eval.toNat : Int) = a.value

def Expr.InRange (e : Expr w) : Prop := ∀ a ∈ e.steps, 0 ≤ a.value ∧ a.value < 2 ^ w

theorem ofInt_two_pow (k : Nat) : BitVec.ofInt w (2 ^ k) = BitVec.twoPow w k := by
  have hNat : (2 : Int) ^ k = ((2 ^ k : Nat) : Int) := (Int.natCast_pow 2 k).symm
  apply BitVec.eq_of_toNat_eq
  rw [hNat, BitVec.ofInt_natCast, BitVec.toNat_ofNat, BitVec.toNat_twoPow]

/-- The machine computes the value up to multiples of the word size. -/
theorem Expr.ofInt_value (e : Expr w) : BitVec.ofInt w e.value = e.eval := by
  induction e with
  | word x =>
    rw [Expr.value, Expr.eval, BitVec.ofInt_natCast, BitVec.ofNat_toNat, BitVec.setWidth_eq]
  | shift a k ih =>
    rw [Expr.value, Expr.eval, BitVec.ofInt_mul, ih, ofInt_two_pow,
      BitVec.shiftLeft_eq_mul_twoPow]
  | add a b iha ihb => rw [Expr.value, Expr.eval, BitVec.ofInt_add, iha, ihb]
  | sub a b iha ihb =>
    rw [Expr.value, Expr.eval, Int.sub_eq_add_neg, BitVec.ofInt_add, BitVec.ofInt_neg, iha, ihb,
      BitVec.sub_eq_add_neg]

theorem Expr.eval_eq_iff (e : Expr w) :
    (e.eval.toNat : Int) = e.value ↔ 0 ≤ e.value ∧ e.value < 2 ^ w := by
  have hSize : ((2 ^ w : Nat) : Int) = 2 ^ w := Int.natCast_pow 2 w
  have hEval : (e.eval.toNat : Int) = e.value % 2 ^ w := by
    rw [← e.ofInt_value, BitVec.toNat_ofInt, hSize]
    exact Int.toNat_of_nonneg (Int.emod_nonneg _ (by positivity))
  constructor
  · intro hSame
    have hBound := e.eval.isLt
    rw [← hSame, ← hSize]
    exact ⟨Int.natCast_nonneg _, Int.ofNat_lt.mpr hBound⟩
  · rintro ⟨hPos, hBound⟩
    rw [hEval, Int.emod_eq_of_lt hPos hBound]

theorem Expr.exact_iff (e : Expr w) : e.Exact ↔ e.InRange :=
  forall₂_congr fun a _ => a.eval_eq_iff

section InRange

variable {a b : Expr w} {k : Nat}

@[simp] theorem inRange_word (x : BitVec w) : (Expr.word x).InRange := by
  intro a hMem
  rw [Expr.steps, List.mem_singleton] at hMem
  rw [hMem, ← Expr.eval_eq_iff]
  rfl

theorem inRange_shift : (Expr.shift a k).InRange ↔
    (0 ≤ (Expr.shift a k).value ∧ (Expr.shift a k).value < 2 ^ w) ∧ a.InRange :=
  List.forall_mem_cons

theorem inRange_add : (Expr.add a b).InRange ↔
    (0 ≤ (Expr.add a b).value ∧ (Expr.add a b).value < 2 ^ w) ∧ a.InRange ∧ b.InRange :=
  List.forall_mem_cons.trans (and_congr_right' List.forall_mem_append)

theorem inRange_sub : (Expr.sub a b).InRange ↔
    (0 ≤ (Expr.sub a b).value ∧ (Expr.sub a b).value < 2 ^ w) ∧ a.InRange ∧ b.InRange :=
  List.forall_mem_cons.trans (and_congr_right' List.forall_mem_append)

end InRange

end Interaction.Arithmetic
