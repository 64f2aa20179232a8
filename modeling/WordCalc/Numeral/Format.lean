import WordCalc.Numeral.Base
import WordCalc.Numeral.Width

/-! # Writing words

A word is written in a base, at a width, with or without a sign. Binary and
hexadecimal numerals always show every digit of the width. Decimal numerals
have no leading zeros, and a negative one is the two's complement reading of
the bits of the width.
-/

namespace WordCalc

def upperDigit (value : Nat) : Char := (Nat.digitChar value).toUpper

/-- The lowest `places` digits of a number, most significant first. -/
def Base.digits (base : Base) : (places : Nat) → Nat → Text
  | 0, _ => []
  | places + 1, n => base.digits places (n / base.radix) ++ [upperDigit (n % base.radix)]

@[simp] theorem Base.length_digits (base : Base) (places n : Nat) :
    (base.digits places n).length = places := by
  induction places generalizing n with
  | zero => rfl
  | succ places ih => simp [digits, ih]

structure Format where
  base : Base := .decimal
  width : Width := .w32
  unsigned : Bool := false
  deriving DecidableEq, Repr

namespace Format

/-- The word, already cut to the width, is read as a negative number. -/
def isNegative (format : Format) (value : Word) : Bool :=
  !format.unsigned && value.getLsbD (format.width.bits - 1)

def decimalText (format : Format) (value : Word) : Text :=
  if format.isNegative value then
    '-' :: Nat.toDigits 10 ((~~~value &&& format.width.mask) + 1).toNat
  else Nat.toDigits 10 value.toNat

/-- The numeral of the word's low bits. -/
def render (format : Format) (word : Word) : Text :=
  let value := word &&& format.width.mask
  match format.base with
  | .binary => Base.binary.marker ++ Base.binary.digits format.width.bits value.toNat
  | .decimal => format.decimalText value
  | .hexadecimal =>
    Base.hexadecimal.marker ++ Base.hexadecimal.digits (format.width.bits / 4) value.toNat

end Format

end WordCalc
