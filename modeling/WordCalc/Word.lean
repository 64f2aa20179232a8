/-! # Words

Values are words of 32 bits. Addition, subtraction, multiplication and the
bitwise operations are those of bit vectors and wrap; the shifts here take
their count as a word of its own, of any size.
-/

namespace WordCalc

abbrev Word := BitVec 32

namespace Word

def signBit : Word := 0x80000000

/-- Move the bits down and fill with zeros; a count of 32 or more clears the word. -/
def shiftRight (value count : Word) : Word :=
  if count < 32 then value >>> count.toNat else 0

def shiftLeft (value count : Word) : Word :=
  if count < 32 then value <<< count.toNat else 0

/-- Move the bits down by one place and set the sign bit again. -/
def signStep (value : Word) : Word := value >>> 1 ||| signBit

/-- Take `count` sign steps, or fewer once every bit is set and a step changes nothing. -/
def signSteps : (count : Nat) → Word → Word
  | 0, value => value
  | count + 1, value =>
    if value = BitVec.allOnes 32 then value else signSteps count (signStep value)

def arithShiftRight (value count : Word) : Word :=
  if value &&& signBit = 0 then shiftRight value count else signSteps count.toNat value

@[simp] theorem signStep_allOnes : signStep (BitVec.allOnes 32) = BitVec.allOnes 32 := by decide

end Word

end WordCalc
