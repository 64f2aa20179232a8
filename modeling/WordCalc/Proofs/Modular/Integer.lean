import Mathlib.Data.Int.Bitwise
import WordCalc.Proofs.Grammar.Derivation

/-! # Integers behind words

Seven of the binary operators and both unary ones have a meaning on integers of any size, with
the bitwise ones on infinite two's complement. On words they calculate the residue of the
integer result.
-/

namespace WordCalc

def UnaryOp.onInt : UnaryOp → Int → Int
  | negate, value => -value
  | complement, value => -value - 1

/-- The operation on integers, if the residue of its result depends on residues alone. The count
of a shift is a word. -/
def BinaryOp.onInt? : BinaryOp → Option (Int → Int → Int)
  | add => some (· + ·)
  | sub => some (· - ·)
  | mul => some (· * ·)
  | shiftLeft => some fun left right => left * 2 ^ (right % 2 ^ 32).toNat
  | bitAnd => some Int.land
  | bitOr => some Int.lor
  | bitXor => some Int.xor
  | div | shiftRight | arithShiftRight => none

def Algebra.integer : Algebra Nat (Option Int) where
  literal n := some n
  unary op value := value.map op.onInt
  binary op left right := do (← op.onInt?) (← left) (← right)

variable {w : Nat} {left right : Int}

theorem getLsbD_ofInt (value : Int) (i : Nat) :
    (BitVec.ofInt w value).getLsbD i = (decide (i < w) && value.testBit i) := by
  cases value with
  | ofNat n => exact BitVec.getLsbD_ofNat ..
  | negSucc n =>
    rw [BitVec.ofInt_negSucc_eq_not_ofNat, BitVec.getLsbD_not, BitVec.getLsbD_ofNat]
    cases h : decide (i < w) <;> simp [Int.testBit]

theorem ofInt_land : BitVec.ofInt w (left.land right) = .ofInt w left &&& .ofInt w right := by
  ext i hi
  simp only [← BitVec.getLsbD_eq_getElem, BitVec.getLsbD_and, getLsbD_ofInt, hi, decide_true,
    Bool.true_and, Int.testBit_land]

theorem ofInt_lor : BitVec.ofInt w (left.lor right) = .ofInt w left ||| .ofInt w right := by
  ext i hi
  simp only [← BitVec.getLsbD_eq_getElem, BitVec.getLsbD_or, getLsbD_ofInt, hi, decide_true,
    Bool.true_and, Int.testBit_lor]

theorem ofInt_xor : BitVec.ofInt w (left.xor right) = .ofInt w left ^^^ .ofInt w right := by
  ext i hi
  simp only [← BitVec.getLsbD_eq_getElem, BitVec.getLsbD_xor, getLsbD_ofInt, hi, decide_true,
    Bool.true_and, Int.testBit_lxor]

theorem ofInt_sub : BitVec.ofInt w (left - right) = .ofInt w left - .ofInt w right := by
  rw [Int.sub_eq_add_neg, BitVec.ofInt_add, BitVec.ofInt_neg, BitVec.sub_eq_add_neg]

theorem ofInt_two_pow (k : Nat) : BitVec.ofInt w (2 ^ k) = .twoPow w k := by
  have hcast : (2 : Int) ^ k = ((2 ^ k : Nat) : Int) := by push_cast; rfl
  apply BitVec.eq_of_toNat_eq
  rw [hcast, BitVec.ofInt_natCast, BitVec.toNat_ofNat, BitVec.toNat_twoPow]

theorem shiftLeft_ofInt (value : Int) (count : Word) :
    Word.shiftLeft (.ofInt 32 value) count = .ofInt 32 (value * 2 ^ count.toNat) := by
  rw [BitVec.ofInt_mul, ofInt_two_pow]
  unfold Word.shiftLeft
  split
  · exact BitVec.shiftLeft_eq_mul_twoPow ..
  · rename_i hcount
    have hlarge : 32 ≤ count.toNat := by
      rw [BitVec.lt_def] at hcount
      exact Nat.le_of_not_lt hcount
    have hzero : BitVec.twoPow 32 count.toNat = 0 :=
      BitVec.eq_of_toNat_eq (BitVec.toNat_twoPow_of_le hlarge)
    rw [hzero]
    exact BitVec.mul_zero.symm

theorem UnaryOp.apply_ofInt (op : UnaryOp) (value : Int) :
    op.apply (.ofInt 32 value) = .ofInt 32 (op.onInt value) := by
  cases op with
  | negate => simp [apply, onInt, BitVec.ofInt_neg]
  | complement =>
    rw [onInt, ofInt_sub, BitVec.ofInt_neg, BitVec.neg_eq_not_add]
    exact (BitVec.add_sub_cancel ..).symm

theorem BinaryOp.apply_ofInt {op : BinaryOp} {f : Int → Int → Int} (h : op.onInt? = some f) :
    op.apply (.ofInt 32 left) (.ofInt 32 right) = .ok (.ofInt 32 (f left right)) := by
  cases op with
  | add => cases h; exact congrArg _ (BitVec.ofInt_add ..).symm
  | sub => cases h; exact congrArg _ ofInt_sub.symm
  | mul => cases h; exact congrArg _ (BitVec.ofInt_mul ..).symm
  | shiftLeft =>
    cases h
    have hcount := BitVec.toNat_ofInt (n := 32) right
    rw [apply, shiftLeft_ofInt, hcount]
    rfl
  | bitAnd => cases h; exact congrArg _ ofInt_land.symm
  | bitOr => cases h; exact congrArg _ ofInt_lor.symm
  | bitXor => cases h; exact congrArg _ ofInt_xor.symm
  | div | shiftRight | arithShiftRight => cases h

end WordCalc
