import WordCalc.Options
import WordCalc.ReadError

/-! # Errors of a calculation

A calculation fails over its options, its text or its arithmetic.
-/

namespace WordCalc

inductive Error where
  | options (error : OptionError)
  | read (error : ReadError)
  | eval (error : EvalError)
  deriving DecidableEq, Repr

inductive Stage where
  | command
  | scanning
  | literals
  | grammar
  | arithmetic
  deriving DecidableEq, Repr

def ReadError.stage : ReadError → Stage
  | unexpectedCharacter _ _ => .scanning
  | invalidLiteral _ _ => .literals
  | literalOverflow _ _ => .literals
  | unreadable _ => .literals
  | badOperand _ _ => .grammar
  | expectedClosingParen _ _ => .grammar
  | expectedEnd _ _ => .grammar
  | tooLong _ => .grammar
  | tooDeep _ => .grammar
  | endOfItems => .grammar

namespace Error

def stage : Error → Stage
  | options _ => .command
  | read error => error.stage
  | eval _ => .arithmetic

def message : Error → String
  | options error => error.message
  | read error => error.message
  | eval error => error.message

/-- Where in the text the error shows. -/
def span? : Error → Option Span
  | read error => error.span?
  | options _ => none
  | eval _ => none

end Error

end WordCalc
