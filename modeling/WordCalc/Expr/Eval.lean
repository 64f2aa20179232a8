import WordCalc.Expr.Basic

/-! # Values of expressions

Operands are evaluated left to right before their operator; the first division
by zero ends the evaluation.
-/

namespace WordCalc.Expr

def eval : Expr → Except EvalError Word
  | literal value => .ok value
  | unary op operand => return op.apply (← operand.eval)
  | binary op lhs rhs => do
    let left ← lhs.eval
    let right ← rhs.eval
    op.apply left right

theorem eval_unary_of_ok {operand : Expr} {value : Word} (op : UnaryOp)
    (h : operand.eval = .ok value) : (unary op operand).eval = .ok (op.apply value) := by
  rw [eval, h]
  rfl

theorem eval_binary_of_ok {lhs rhs : Expr} {left right : Word} (op : BinaryOp)
    (hl : lhs.eval = .ok left) (hr : rhs.eval = .ok right) :
    (binary op lhs rhs).eval = op.apply left right := by
  rw [eval, hl, hr]
  rfl

end WordCalc.Expr
