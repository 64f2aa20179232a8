import WordCalc.Text.CombiningMark
import WordCalc.Text.Unassigned

/-! # Characters with a glyph

A character can be shown as it is if it has a glyph that stands by itself. The
tables give the Unicode 17.0 properties that rule this out.
-/

namespace WordCalc

namespace Ranges

/-- The code points of category Cc. -/
def control : Ranges := [(0x0, 0x1F), (0x7F, 0x9F)]

/-- The code points of the categories Zs, Zl and Zp, except the plain space. -/
def separator : Ranges :=
  [(0xA0, 0xA0), (0x1680, 0x1680), (0x2000, 0x200A), (0x2028, 0x2029), (0x202F, 0x202F),
    (0x205F, 0x205F), (0x3000, 0x3000)]

/-- The code points of category Cf. -/
def format : Ranges :=
  [(0xAD, 0xAD), (0x600, 0x605), (0x61C, 0x61C), (0x6DD, 0x6DD), (0x70F, 0x70F), (0x890, 0x891),
    (0x8E2, 0x8E2), (0x180E, 0x180E), (0x200B, 0x200F), (0x202A, 0x202E), (0x2060, 0x2064),
    (0x2066, 0x206F), (0xFEFF, 0xFEFF), (0xFFF9, 0xFFFB), (0x110BD, 0x110BD), (0x110CD, 0x110CD),
    (0x13430, 0x1343F), (0x1BCA0, 0x1BCA3), (0x1D173, 0x1D17A), (0xE0001, 0xE0001),
    (0xE0020, 0xE007F)]

/-- The code points of category Co. -/
def privateUse : Ranges := [(0xE000, 0xF8FF), (0xF0000, 0xFFFFD), (0x100000, 0x10FFFD)]

/-- The code points with the property Default_Ignorable_Code_Point, fillers among them. -/
def ignorable : Ranges :=
  [(0xAD, 0xAD), (0x34F, 0x34F), (0x61C, 0x61C), (0x115F, 0x1160), (0x17B4, 0x17B5),
    (0x180B, 0x180F), (0x200B, 0x200F), (0x202A, 0x202E), (0x2060, 0x206F), (0x3164, 0x3164),
    (0xFE00, 0xFE0F), (0xFEFF, 0xFEFF), (0xFFA0, 0xFFA0), (0xFFF0, 0xFFF8), (0x1BCA0, 0x1BCA3),
    (0x1D173, 0x1D17A), (0xE0000, 0xE0FFF)]

/-- The properties of which each leaves a code point without a glyph of its own. -/
def glyphless : List Ranges :=
  [control, separator, format, privateUse, ignorable, combiningMark, unassigned]

theorem isAscending_of_mem_glyphless {ranges : Ranges} (h : ranges ∈ glyphless) :
    ranges.isAscending = true := by
  simp only [glyphless, List.mem_cons, List.not_mem_nil, or_false] at h
  rcases h with rfl | rfl | rfl | rfl | rfl | rfl | rfl
  · decide
  · decide
  · decide
  · decide
  · decide
  · exact isAscending_combiningMark
  · exact isAscending_unassigned

end Ranges

def Text.hasGlyph (c : Char) : Bool := !Ranges.glyphless.any (·.contains c.toNat)

theorem Text.hasGlyph_iff (c : Char) :
    hasGlyph c = true ↔
      ∀ ranges ∈ Ranges.glyphless, ¬∃ r ∈ ranges, r.1 ≤ c.toNat ∧ c.toNat ≤ r.2 := by
  simp only [hasGlyph, Bool.not_eq_true', List.any_eq_false]
  exact forall₂_congr fun ranges h =>
    not_congr (Ranges.contains_iff (Ranges.isAscending_of_mem_glyphless h) c.toNat)

end WordCalc
