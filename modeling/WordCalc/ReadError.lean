import WordCalc.Text.Span
import WordCalc.Token

/-! # Reading errors

What keeps a text or a list of lexemes from being an expression, and the span
where that shows.
-/

namespace WordCalc

def maxSize : Nat := 4096

/-- The greatest number of unary operators and parentheses open at once. -/
def maxNesting : Nat := 256

inductive ReadError where
  | unexpectedCharacter (c : Char) (span : Span)
  | invalidLiteral (raw : Text) (span : Span)
  | literalOverflow (raw : Text) (span : Span)
  | badOperand (token : Token) (span : Span)
  | expectedClosingParen (token : Token) (span : Span)
  | expectedEnd (token : Token) (span : Span)
  | tooLong (size : Nat)
  | tooDeep (span : Span)
  | endOfItems
  | unreadable (span : Span)
  deriving DecidableEq, Repr

namespace ReadError

def span? : ReadError → Option Span
  | unexpectedCharacter _ span
  | invalidLiteral _ span
  | literalOverflow _ span
  | badOperand _ span
  | expectedClosingParen _ span
  | expectedEnd _ span
  | tooDeep span
  | unreadable span => some span
  | tooLong _ => none
  | endOfItems => none

/-- The kind of literal that a raw text looks like, whatever token claimed it. -/
def literalName (raw : Text) : String :=
  match Base.announced raw with
  | .binary => "binary literal"
  | .decimal => "integer literal"
  | .hexadecimal => "hexadecimal literal"

def message : ReadError → String
  | unexpectedCharacter c span => s!"scan error: invalid char `{c}` at position {span.display}"
  | invalidLiteral raw span =>
    s!"Invalid {literalName raw} `{String.ofList raw}` at position {span.display}"
  | literalOverflow raw span =>
    s!"overflows uint32_t: {String.ofList raw} at position {span.display}"
  | badOperand token span =>
    s!"Bad operand: unexpected token `{token.display}` at position {span.display}"
  | expectedClosingParen token span =>
    s!"Expecting ')' but found `{token.display}` at position {span.display}"
  | expectedEnd token span =>
    s!"Expecting EOT but found `{token.display}` at position {span.display}"
  | tooLong size => s!"Expression is {size} bytes long, the limit is {maxSize}"
  | tooDeep span => s!"Expression nests deeper than {maxNesting} levels at position {span.display}"
  | endOfItems => "Unable to parse the next value because of EOF"
  | unreadable span => s!"No text at position {span.display}"

end ReadError

end WordCalc
