import WordCalc.Text.Bytes

/-! # Spans of a text

A span names a piece of a text by the byte positions of its first and its last
byte. Nothing ties a span to one text: `select?` has no result where the span
leaves the text or cuts through a character.
-/

namespace WordCalc

/-- Both positions are part of the span. -/
structure Span where
  first : Nat
  last : Nat
  deriving DecidableEq, Repr

namespace Span

def one (position : Nat) : Span := ⟨position, position⟩

def two (position : Nat) : Span := ⟨position, position + 1⟩

def display (span : Span) : String := s!"[{span.first}:{span.last}]"

/-- The piece of the text that the span names, empty if the span starts right behind its end. -/
def select? (span : Span) (text : Text) : Option Text :=
  (text.takeBytes? (span.last + 1)).bind (Text.dropBytes? span.first)

theorem select?_eq_some_iff {span : Span} {text piece : Text} :
    span.select? text = some piece ↔
      ∃ before after, text = before ++ piece ++ after ∧ before.size = span.first ∧
        before.size + piece.size = span.last + 1 := by
  constructor
  · intro h
    obtain ⟨upTo, hTake, hDrop⟩ := Option.bind_eq_some_iff.mp h
    obtain ⟨hSize, after, rfl⟩ := Text.takeBytes?_eq_some hTake
    obtain ⟨before, hFirst, rfl⟩ := Text.dropBytes?_eq_some hDrop
    exact ⟨before, after, rfl, hFirst, by rw [← hSize, Text.size_append]⟩
  · rintro ⟨before, after, rfl, hFirst, hLast⟩
    rw [select?, ← hLast, ← hFirst, ← Text.size_append, Text.takeBytes?_size_append]
    exact Text.dropBytes?_size_append before piece

end Span

end WordCalc
