import WordCalc.ReadError

/-! # Lexemes

Scanning cuts a text into lexemes, each as long as it can be, and skips blanks
between them. The list ends with a lexeme for the end of the text.
-/

namespace WordCalc

structure Lexeme where
  token : Token
  span : Span
  deriving DecidableEq, Repr

namespace Lexeme

def text? (source : Text) (lexeme : Lexeme) : Option Text :=
  if lexeme.token = .endOfText then some [] else lexeme.span.select? source

def isBlank (c : Char) : Bool := c = ' ' || c = '\t'

/-- The lexemes of a text that starts at `position`. The first `skip` characters belong to the
lexeme found last; like every character of a lexeme or blank they fill one byte each. -/
def scanFrom : (skip position : Nat) → Text → Except ReadError (List Lexeme)
  | _, position, [] => .ok [⟨.endOfText, .one position⟩]
  | skip + 1, position, _ :: text => scanFrom skip (position + 1) text
  | 0, position, c :: text =>
    if isBlank c then scanFrom 0 (position + 1) text
    else
      match Token.longest? (c :: text) with
      | none => .error (.unexpectedCharacter c (.one position))
      | some (token, length) =>
        (scanFrom (length - 1) (position + 1) text).map
          (⟨token, ⟨position, position + (length - 1)⟩⟩ :: ·)

def scan (source : Text) : Except ReadError (List Lexeme) :=
  if maxSize < source.size then .error (.tooLong source.size) else scanFrom 0 0 source

end Lexeme

end WordCalc
