import WordCalc.Numeral.Base
import WordCalc.Word

/-! # Literals as words

The digits of a literal stand behind its marker. Decimal and binary literals
keep their low 32 bits; a hexadecimal literal has to fit a word.
-/

namespace WordCalc

inductive LiteralFault where
  | invalid
  | overflow
  deriving DecidableEq, Repr

namespace Base

/-- Append a digit to a word. The division tests `value * 16 + digit` for overflow without
computing it. -/
def appendDigit (base : Base) (value : Word) (c : Char) : Except LiteralFault Word :=
  match base.digit? c with
  | none => .error .invalid
  | some d =>
    let digit := BitVec.ofNat 32 d
    if base = hexadecimal ∧ (BitVec.allOnes 32 - digit) / 16 < value then .error .overflow
    else .ok (value * BitVec.ofNat 32 base.radix + digit)

/-- The digits of a raw literal: all behind the bytes of the marker, whatever those hold. -/
def digitsOf (base : Base) (raw : Text) : Text := (raw.dropBytes? base.marker.size).getD []

/-- The word that a raw literal denotes. Only a decimal literal may lack digits; it is zero. -/
def readLiteral (base : Base) (raw : Text) : Except LiteralFault Word :=
  let digits := base.digitsOf raw
  if base ≠ decimal ∧ digits = [] then .error .invalid else digits.foldlM base.appendDigit 0

end Base

end WordCalc
