import WordCalc.Word

/-! # Widths

A result may be cut down to its low 4, 8 or 16 bits before it is written.
-/

namespace WordCalc

inductive Width where
  | w4
  | w8
  | w16
  | w32
  deriving DecidableEq, Repr

namespace Width

def bits : Width → Nat
  | w4 => 4
  | w8 => 8
  | w16 => 16
  | w32 => 32

/-- The word with all bits below the width set. -/
def mask (width : Width) : Word := (BitVec.allOnes width.bits).setWidth 32

def display : Width → String
  | w4 => "4"
  | w8 => "8"
  | w16 => "16"
  | w32 => "32"

def ofDisplay? : String → Option Width
  | "4" => some w4
  | "8" => some w8
  | "16" => some w16
  | "32" => some w32
  | _ => none

theorem display_eq_toString_bits (width : Width) : width.display = toString width.bits := by
  cases width <;> rfl

@[simp] theorem ofDisplay?_display (width : Width) : ofDisplay? width.display = some width := by
  cases width <;> rfl

end Width

end WordCalc
