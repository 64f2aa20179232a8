import WordCalc.Numeral.Base
import WordCalc.Operator

/-! # Tokens

The words of an expression: literals of a base, operators, parentheses, and a
last token for the end of the text. One minus token serves as both the binary
and the unary operator.
-/

namespace WordCalc

inductive Token where
  | literal (base : Base)
  | operator (op : BinaryOp)
  | complement
  | openParen
  | closeParen
  | endOfText
  deriving DecidableEq, Repr

inductive OperandStart where
  | literal (base : Base)
  | unary (op : UnaryOp)
  | group
  deriving DecidableEq, Repr

namespace Token

def isLiteral : Token → Bool
  | literal _ => true
  | _ => false

def binaryOp? : Token → Option BinaryOp
  | operator op => some op
  | _ => none

def unaryOp? : Token → Option UnaryOp
  | operator .sub => some .negate
  | complement => some .complement
  | _ => none

def start? : Token → Option OperandStart
  | literal base => some (.literal base)
  | openParen => some .group
  | token => token.unaryOp?.map .unary

/-- The token as messages show it. -/
def display : Token → String
  | literal .decimal => "integer literal"
  | literal .hexadecimal => "hex literal"
  | literal .binary => "binary literal"
  | operator op => String.ofList op.symbol
  | complement => "~"
  | openParen => "("
  | closeParen => ")"
  | endOfText => "end of text"

/-- The token's name in the log. -/
def label : Token → String
  | literal .decimal => "IntLiteral"
  | literal .hexadecimal => "HexLiteral"
  | literal .binary => "BinLiteral"
  | operator .add => "Plus"
  | operator .sub => "Minus"
  | operator .mul => "Star"
  | operator .div => "Slash"
  | operator .shiftRight => "ShiftRight"
  | operator .shiftLeft => "ShiftLeft"
  | operator .arithShiftRight => "ArithShiftRight"
  | operator .bitAnd => "BitAnd"
  | operator .bitOr => "BitOr"
  | operator .bitXor => "BitXor"
  | complement => "BitNot"
  | openParen => "LeftParen"
  | closeParen => "RightParen"
  | endOfText => "Eot"

def symbols : List (Text × Token) :=
  [(['~'], complement), (['('], openParen), ([')'], closeParen)] ++
    BinaryOp.all.map fun op => (op.symbol, operator op)

/-- No fixed spelling starts another one. -/
theorem eq_of_spelling_prefix : ∀ x ∈ symbols, ∀ y ∈ symbols, x.1 <+: y.1 → x = y := by
  decide

def symbol? (text : Text) : Option (Token × Nat) :=
  (symbols.find? (·.1.isPrefixOf text)).map fun (spelling, token) => (token, spelling.length)

/-- The longest literal at the start of a text that starts with a digit. A marker counts only
with a digit of its base behind it; otherwise its zero is a decimal literal of its own. -/
def longestLiteral (text : Text) : Base × Nat :=
  let base := Base.announced text
  let digits := (text.drop base.marker.length).takeWhile base.isDigit
  if digits.isEmpty then (.decimal, (text.takeWhile Base.decimal.isDigit).length)
  else (base, base.marker.length + digits.length)

def longest? : Text → Option (Token × Nat)
  | [] => none
  | c :: text =>
    if Base.decimal.isDigit c then
      let (base, length) := longestLiteral (c :: text)
      some (literal base, length)
    else symbol? (c :: text)

end Token

end WordCalc
