import Mathlib.Data.BitVec
import Mathlib.Logic.OpClass
import WordCalc.Proofs.Except
import WordCalc.Proofs.Grammar.Fold
import WordCalc.Proofs.Word.Shift

/-! # Steps that commute

A step applies an operator to a value and to a right operand of its own. Two steps with the same
operator can change places, and so can additions and subtractions. This holds for divisions by zero
as well, since one of them fails like another.
-/

namespace WordCalc

theorem EvalError.eq (e e' : EvalError) : e = e' := by
  cases e
  cases e'
  rfl

namespace BinaryOp

variable {op op' : BinaryOp} {left right right' : Word}

/-- Steps with these operators can be taken in either order, from each value. -/
def Commutes (op op' : BinaryOp) : Prop :=
  ∀ left right right' : Word,
    (do op'.apply (← op.apply left right) right') = (do op.apply (← op'.apply left right') right)

section Division

theorem apply_div_zero (left : Word) : div.apply left 0 = .error .divisionByZero := rfl

theorem apply_div (h : right ≠ 0) : div.apply left right = .ok (left / right) := if_neg h

theorem div_right_comm (left right right' : Word) :
    left / right / right' = left / right' / right := by
  apply BitVec.eq_of_toNat_eq
  simp only [BitVec.toNat_udiv]
  rw [Nat.div_div_eq_div_mul, Nat.mul_comm, ← Nat.div_div_eq_div_mul]

theorem commutes_div : Commutes div div := by
  intro left right right'
  by_cases hright : right = 0 <;> by_cases hright' : right' = 0
  · rw [hright, hright']
  · rw [hright, apply_div_zero, apply_div hright']
    rfl
  · rw [hright', apply_div_zero, apply_div hright]
    rfl
  · rw [apply_div hright, apply_div hright', ok_bind, ok_bind, apply_div hright,
      apply_div hright', div_right_comm]

end Division

theorem commutes_self (op : BinaryOp) : op.Commutes op := by
  intro left right right'
  cases op with
  | add => exact congrArg Except.ok (add_right_comm left right right')
  | sub => exact congrArg Except.ok (sub_right_comm left right right')
  | mul => exact congrArg Except.ok (mul_right_comm left right right')
  | div => exact commutes_div left right right'
  | shiftRight => exact congrArg Except.ok (Word.shiftRight_right_comm left right right')
  | shiftLeft => exact congrArg Except.ok (Word.shiftLeft_right_comm left right right')
  | arithShiftRight => exact congrArg Except.ok (Word.arithShiftRight_right_comm left right right')
  | bitAnd => exact congrArg Except.ok (RightCommutative.right_comm left right right')
  | bitOr => exact congrArg Except.ok (RightCommutative.right_comm left right right')
  | bitXor => exact congrArg Except.ok (RightCommutative.right_comm left right right')

def IsAdditive (op : BinaryOp) : Prop := op = add ∨ op = sub

theorem commutes_of_isAdditive (h : op.IsAdditive) (h' : op'.IsAdditive) : op.Commutes op' := by
  intro left right right'
  rcases h with rfl | rfl <;> rcases h' with rfl | rfl
  · exact commutes_self add left right right'
  · exact congrArg Except.ok (add_sub_right_comm left right right')
  · exact congrArg Except.ok (sub_add_eq_add_sub left right right')
  · exact commutes_self sub left right right'

theorem value_binary_error (op : BinaryOp) (left : Except EvalError Word) (e : EvalError) :
    Algebra.value.binary op left (.error e) = .error e := by
  cases left with
  | error e' => exact congrArg Except.error (e'.eq e)
  | ok left => rfl

/-- Steps on words that commute do so if the value or an operand may have failed. -/
theorem Commutes.value (h : op.Commutes op') (left right right' : Except EvalError Word) :
    Algebra.value.binary op' (Algebra.value.binary op left right) right' =
      Algebra.value.binary op (Algebra.value.binary op' left right') right := by
  cases left with
  | error => rfl
  | ok left =>
    cases right with
    | error e =>
      rw [value_binary_error, value_binary_error]
      rfl
    | ok right =>
      cases right' with
      | error e =>
        rw [value_binary_error, value_binary_error]
        rfl
      | ok right' => exact h left right right'

end BinaryOp

end WordCalc
