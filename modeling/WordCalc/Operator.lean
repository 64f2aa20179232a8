import WordCalc.Text.Bytes
import WordCalc.Word

/-! # Operators

Two operators take one operand and ten take two. Each has a meaning on words,
the characters that write it, and the name by which listings call it.
Division by zero is the only application without a result.
-/

namespace WordCalc

inductive UnaryOp where
  | negate
  | complement
  deriving DecidableEq, Repr

inductive BinaryOp where
  | add
  | sub
  | mul
  | div
  | shiftRight
  | shiftLeft
  | arithShiftRight
  | bitAnd
  | bitOr
  | bitXor
  deriving DecidableEq, Repr

inductive EvalError where
  | divisionByZero
  deriving DecidableEq, Repr

def EvalError.message : EvalError → String
  | divisionByZero => "eval error: Division by zero"

namespace UnaryOp

def label : UnaryOp → String
  | negate => "MINUS"
  | complement => "BIT_NOT"

def apply : UnaryOp → Word → Word
  | negate, value => 0 - value
  | complement, value => ~~~value

end UnaryOp

namespace BinaryOp

def all : List BinaryOp :=
  [add, sub, mul, div, shiftRight, shiftLeft, arithShiftRight, bitAnd, bitOr, bitXor]

theorem mem_all (op : BinaryOp) : op ∈ all := by cases op <;> decide

def symbol : BinaryOp → Text
  | add => ['+']
  | sub => ['-']
  | mul => ['*']
  | div => ['/']
  | shiftRight => ['>', '>']
  | shiftLeft => ['<', '<']
  | arithShiftRight => ['>', '-']
  | bitAnd => ['&']
  | bitOr => ['|']
  | bitXor => ['^']

def label : BinaryOp → String
  | add => "PLUS"
  | sub => "MINUS"
  | mul => "MULT"
  | div => "DIV"
  | shiftRight => "SHIFT_RIGHT"
  | shiftLeft => "SHIFT_LEFT"
  | arithShiftRight => "ARITH_SHIFT_RIGHT"
  | bitAnd => "BIT_AND"
  | bitOr => "BIT_OR"
  | bitXor => "BIT_XOR"

def apply : BinaryOp → (left right : Word) → Except EvalError Word
  | add, left, right => .ok (left + right)
  | sub, left, right => .ok (left - right)
  | mul, left, right => .ok (left * right)
  | div, left, right => if right = 0 then .error .divisionByZero else .ok (left / right)
  | shiftRight, left, right => .ok (left.shiftRight right)
  | shiftLeft, left, right => .ok (left.shiftLeft right)
  | arithShiftRight, left, right => .ok (left.arithShiftRight right)
  | bitAnd, left, right => .ok (left &&& right)
  | bitOr, left, right => .ok (left ||| right)
  | bitXor, left, right => .ok (left ^^^ right)

theorem apply_eq_error_iff {op : BinaryOp} {left right : Word} {e : EvalError} :
    op.apply left right = .error e ↔ op = div ∧ right = 0 := by
  cases e
  cases op <;> simp [apply]

end BinaryOp

end WordCalc
