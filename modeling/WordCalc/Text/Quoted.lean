import WordCalc.Text.Bytes
import WordCalc.Text.Glyph

/-! # Quoted text

The log shows texts in double quotes, with quotes, backslashes and characters
without a glyph of their own escaped.
-/

namespace WordCalc.Text

def escape (c : Char) : Text :=
  match c with
  | '\x00' => ['\\', '0']
  | '\t' => ['\\', 't']
  | '\n' => ['\\', 'n']
  | '\r' => ['\\', 'r']
  | '"' => ['\\', '"']
  | '\\' => ['\\', '\\']
  | c =>
    if hasGlyph c then [c] else ['\\', 'u', '\x7b'] ++ Nat.toDigits 16 c.toNat ++ ['\x7d']

def quoted (text : Text) : Text := ['"'] ++ text.flatMap escape ++ ['"']

end WordCalc.Text
