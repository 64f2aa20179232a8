import WordCalc.Error
import WordCalc.Expr.Parse
import WordCalc.Proofs.Grammar.Fold

/-! # The one-pass machine

The machine takes lexemes one at a time and never looks back. What is open stands on a stack,
one frame for each unary operator and each parenthesis; a parenthesis keeps the accumulator and
the operator that it interrupts. An operand is put to use as soon as it is complete. The machine
works over any algebra: over trees it parses, over values it calculates.
-/

namespace WordCalc

variable {α : Type}

/-- An accumulator and the operator behind it, which waits for its right operand. -/
abbrev Pending (α : Type) := Option (α × BinaryOp)

inductive Frame (α : Type) where
  | unary (op : UnaryOp)
  | paren (pending : Pending α)

/-- An operand is due, or the accumulator holds all since the innermost open parenthesis. -/
inductive State (α : Type) where
  | due (pending : Pending α) (stack : List (Frame α))
  | done (acc : α) (stack : List (Frame α))
  | accepted (value : α)

namespace Machine

variable (a : Algebra Word α) (source : Text)

def join (pending : Pending α) (value : α) : α :=
  match pending with
  | none => value
  | some (acc, op) => a.binary op acc value

/-- Apply the unary operators that wait for the operand, then the pending operator. -/
def complete (pending : Pending α) (value : α) : List (Frame α) → State α
  | .unary op :: stack => complete pending (a.unary op value) stack
  | stack => .done (join a pending value) stack

def enter (span : Span) (pending : Pending α) (stack : List (Frame α)) :
    Except ReadError (State α) :=
  if stack.length ≤ maxNesting then .ok (.due pending stack) else .error (.tooDeep span)

def step : State α → Lexeme → Except ReadError (State α)
  | .due pending stack, item =>
    match item.token.start? with
    | none => .error (.badOperand item.token item.span)
    | some (.literal base) => do
      let value ← Expr.literalWord source base item.span
      return complete a pending (a.literal value) stack
    | some (.unary op) => enter item.span pending (.unary op :: stack)
    | some .group => enter item.span none (.paren pending :: stack)
  | .done acc stack, item =>
    match item.token.binaryOp?, stack with
    | some op, stack => .ok (.due (some (acc, op)) stack)
    | none, .paren pending :: stack =>
      if item.token = .closeParen then .ok (complete a pending acc stack)
      else .error (.expectedClosingParen item.token item.span)
    | none, _ =>
      if item.token = .endOfText then .ok (.accepted acc)
      else .error (.expectedEnd item.token item.span)
  | .accepted value, _ => .ok (.accepted value)

def result : State α → Except ReadError α
  | .accepted value => .ok value
  | _ => .error .endOfItems

def run (state : State α) (items : List Lexeme) : Except ReadError α :=
  items.foldlM (step a source) state >>= result

def start : State α := .due none []

end Machine

/-- What a run over values comes to. Reading errors come before a poisoned value. -/
def Machine.outcome : Except ReadError (Except EvalError Word) → Except Error Word
  | .error e => .error (.read e)
  | .ok (.error e) => .error (.eval e)
  | .ok (.ok value) => .ok value

end WordCalc
