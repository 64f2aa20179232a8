import WordCalc.Operator

/-! # Expressions

An expression is the tree behind a text: parentheses and spellings of literals
leave no trace in it.
-/

namespace WordCalc

inductive Expr where
  | literal (value : Word)
  | unary (op : UnaryOp) (operand : Expr)
  | binary (op : BinaryOp) (lhs rhs : Expr)
  deriving DecidableEq, Repr

end WordCalc
