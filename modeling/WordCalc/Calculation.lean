import WordCalc.Error
import WordCalc.Expr.Eval
import WordCalc.Expr.Parse

/-! # Calculations

From a text to its expression, its value, and the numeral of the value. The
whole text is read before anything is evaluated, so a reading error hides a
division by zero.
-/

namespace WordCalc

def Expr.ofText (source : Text) : Except ReadError Expr := do
  let items ← Lexeme.scan source
  Expr.ofLexemes source items

def Text.evaluate (source : Text) : Except Error Word := do
  let expr ← (Expr.ofText source).mapError .read
  expr.eval.mapError .eval

/-- The value of the expression in the options, written as they ask. -/
def Options.run (options : Options) : Except Error String := do
  let value ← Text.evaluate options.expression.toList
  return String.ofList (options.format.render value)

end WordCalc
