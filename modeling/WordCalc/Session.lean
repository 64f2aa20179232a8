import WordCalc.Calculation
import WordCalc.Log

/-! # Sessions

A session carries out one command and logs its work: the settings, the
expression, its lexemes, its listing, and every operator it applies. What it
answers is printed, and an exit code tells results from errors.
-/

namespace WordCalc

open Logged

def Expr.evalLogged : Expr → Logged EvalError Word
  | literal value => pure value
  | unary op operand => do
    let value ← operand.evalLogged
    let result := op.apply value
    log [.unary op value result]
    return result
  | binary op lhs rhs => do
    let left ← lhs.evalLogged
    let right ← rhs.evalLogged
    let result ← silent (op.apply left right)
    log [.binary op left right result]
    return result

theorem Expr.result_evalLogged (e : Expr) : e.evalLogged.result = e.eval := by
  induction e with
  | literal => rfl
  | unary op operand ih =>
    simp only [evalLogged, eval, result_bind, result_log, result_pure, ih]
    cases operand.eval <;> rfl
  | binary op lhs rhs ihl ihr =>
    simp only [evalLogged, eval, result_bind, result_log, result_silent, result_pure, ihl, ihr]
    cases lhs.eval with
    | error => rfl
    | ok left =>
      cases rhs.eval with
      | error => rfl
      | ok right =>
        simp only [bind, Except.bind]
        cases op.apply left right <;> rfl

/-- Read an expression and log the text, its lexemes, and the expression or the place of the
error. -/
def Expr.ofTextLogged (source : Text) : Logged ReadError Expr := do
  log [.expression source]
  let items ← silent (Lexeme.scan source)
  log (items.map fun item => .lexeme item ((item.text? source).getD []))
  match Expr.ofLexemes source items with
  | .ok expr =>
    log [.listing expr]
    return expr
  | .error e =>
    log [.failedNear (e.span?.bind fun span => source.dropBytes? span.first)]
    silent (.error e)

namespace Session

/-- Carry out a command, the program's name first. -/
def run (command : List String) : Logged Error String := do
  let options ← silent ((Options.ofCommand command).mapError .options)
  log [.settings options.format]
  let expr ← (Expr.ofTextLogged options.expression.toList).mapError .read
  let value ← expr.evalLogged.mapError .eval
  return String.ofList (options.format.render value)

structure Answer where
  exitCode : UInt32
  output : String
  deriving DecidableEq, Repr

/-- A result ends with exit code 0 and an error with 1; either is printed on a line. -/
def answer : Except Error String → Answer
  | .ok text => ⟨0, text ++ "\n"⟩
  | .error e => ⟨1, e.message ++ "\n"⟩

end Session

end WordCalc
