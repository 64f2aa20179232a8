import WordCalc.Expr.Basic
import WordCalc.Lexeme
import WordCalc.Numeral.Literal

/-! # Expressions from lexemes

An expression is a chain of operands joined by binary operators. All binary
operators bind alike and group to the left; a unary operator takes the one
operand behind it. Unary operators and parentheses open a nesting level until
their operand or group is complete, and the number of open levels is bounded.
-/

namespace WordCalc.Expr

/-- The word of a literal at a span of the text. -/
def literalWord (source : Text) (base : Base) (span : Span) : Except ReadError Word :=
  match span.select? source with
  | none => .error (.unreadable span)
  | some raw =>
    match base.readLiteral raw with
    | .ok value => .ok value
    | .error .invalid => .error (.invalidLiteral raw span)
    | .error .overflow => .error (.literalOverflow raw span)

/-- What takes an expression off the front of a list of lexemes and leaves the rest. -/
abbrev Reader := List Lexeme → Except ReadError (Expr × List Lexeme)

/-- Continue `lhs` by every operator and operand that follows. The first `skip` lexemes belong to
the operand read last. -/
def chain (operand : Reader) : (skip : Nat) → (lhs : Expr) → Reader
  | _, lhs, [] => .ok (lhs, [])
  | skip + 1, lhs, _ :: items => chain operand skip lhs items
  | 0, lhs, item :: items =>
    match item.token.binaryOp? with
    | none => .ok (lhs, item :: items)
    | some op => do
      let (rhs, rest) ← operand items
      chain operand (items.length - rest.length) (.binary op lhs rhs) items

theorem chain_skip (operand : Reader) (skip : Nat) (lhs : Expr) (items : List Lexeme) :
    chain operand skip lhs items = chain operand 0 lhs (items.drop skip) := by
  induction skip generalizing items with
  | zero => rfl
  | succ skip ih =>
    cases items with
    | nil => rfl
    | cons item items => exact ih items

theorem chain_operator {operand : Reader} {lhs rhs : Expr} {item : Lexeme} {op : BinaryOp}
    {body rest : List Lexeme}
    (hop : item.token.binaryOp? = some op) (h : operand (body ++ rest) = .ok (rhs, rest)) :
    chain operand 0 lhs (item :: (body ++ rest)) = chain operand 0 (.binary op lhs rhs) rest := by
  rw [chain, hop]
  simp only [h, bind, Except.bind]
  rw [chain_skip, List.length_append, Nat.add_sub_cancel, List.drop_left]

def expression (operand : Reader) : Reader := fun items => do
  let (lhs, rest) ← operand items
  chain operand 0 lhs rest

def closeGroup (inner : Expr) : Reader
  | [] => .error .endOfItems
  | item :: items =>
    if item.token = .closeParen then .ok (inner, items)
    else .error (.expectedClosingParen item.token item.span)

/-- Read an operand with `levels` nesting levels left. -/
def operand (source : Text) : (levels : Nat) → Reader
  | _, [] => .error .endOfItems
  | levels, item :: items =>
    match item.token.start?, levels with
    | none, _ => .error (.badOperand item.token item.span)
    | some (.literal base), _ => do
      let value ← literalWord source base item.span
      return (.literal value, items)
    | some _, 0 => .error (.tooDeep item.span)
    | some (.unary op), levels + 1 => do
      let (inner, rest) ← operand source levels items
      return (.unary op inner, rest)
    | some .group, levels + 1 => do
      let (inner, rest) ← expression (operand source levels) items
      closeGroup inner rest

/-- The expression that a list of lexemes spells up to the first end of the text. Only literals
look at the text. -/
def ofLexemes (source : Text) (items : List Lexeme) : Except ReadError Expr := do
  let (expr, rest) ← expression (operand source maxNesting) items
  match rest with
  | [] => .error .endOfItems
  | item :: _ =>
    if item.token = .endOfText then return expr else .error (.expectedEnd item.token item.span)

end WordCalc.Expr
