import WordCalc.Text.Bytes

/-! # Number bases

Numerals are written in base two, ten or sixteen. A marker in front of the
digits announces the base: `0b` two, `0x` sixteen, and no marker ten.
-/

namespace WordCalc

/-- The value of a hexadecimal digit, in either letter case. -/
def digitValue? (c : Char) : Option Nat :=
  if '0' ≤ c ∧ c ≤ '9' then some (c.toNat - '0'.toNat)
  else if 'a' ≤ c ∧ c ≤ 'f' then some (c.toNat - 'a'.toNat + 10)
  else if 'A' ≤ c ∧ c ≤ 'F' then some (c.toNat - 'A'.toNat + 10)
  else none

inductive Base where
  | binary
  | decimal
  | hexadecimal
  deriving DecidableEq, Repr

namespace Base

def radix : Base → Nat
  | binary => 2
  | decimal => 10
  | hexadecimal => 16

def display : Base → String
  | binary => "2"
  | decimal => "10"
  | hexadecimal => "16"

def ofDisplay? : String → Option Base
  | "2" => some binary
  | "10" => some decimal
  | "16" => some hexadecimal
  | _ => none

/-- The characters in front of the digits of a numeral. -/
def marker : Base → Text
  | binary => ['0', 'b']
  | decimal => []
  | hexadecimal => ['0', 'x']

def ofLetter? (c : Char) : Option Base :=
  if c = 'b' ∨ c = 'B' then some binary
  else if c = 'x' ∨ c = 'X' then some hexadecimal
  else none

/-- The base that the start of a text announces. -/
def announced : Text → Base
  | '0' :: letter :: _ => (ofLetter? letter).getD decimal
  | _ => decimal

def digit? (base : Base) (c : Char) : Option Nat :=
  (digitValue? c).filter (· < base.radix)

def isDigit (base : Base) (c : Char) : Bool := (base.digit? c).isSome

theorem display_eq_toString_radix (base : Base) : base.display = toString base.radix := by
  cases base <;> rfl

@[simp] theorem ofDisplay?_display (base : Base) : ofDisplay? base.display = some base := by
  cases base <;> rfl

theorem digit?_lt {base : Base} {c : Char} {d : Nat} (h : base.digit? c = some d) :
    d < base.radix := by
  simpa using (Option.filter_eq_some_iff.mp h).2

end Base

end WordCalc
