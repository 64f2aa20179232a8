import WordCalc.Proofs.Numeral.Residue
import WordCalc.Proofs.Numeral.Value

/-! # The form of results

What is rendered has the form that its format promises: the marker and all digits of the width, or
a decimal numeral with at most a sign in front.
-/

namespace WordCalc

variable {c : Char} {text : Text} {format : Format}

def Base.writtenDigits (base : Base) : Text := digitChars.take base.radix

/-- The text has the digits of the base and of the width, and the marker or sign of the base in
front of them. -/
def Format.HasForm (format : Format) (text : Text) : Prop :=
  ∃ front digits, text = front ++ digits ∧ (∀ c ∈ digits, c ∈ format.base.writtenDigits) ∧
    match format.base with
    | .binary => front = ['0', 'b'] ∧ digits.length = format.width.bits
    | .decimal => (front = [] ∨ front = ['-']) ∧ digits ≠ []
    | .hexadecimal => front = ['0', 'x'] ∧ digits.length = format.width.bits / 4

theorem Base.upperDigit_mem_writtenDigits (base : Base) :
    ∀ d < base.radix, upperDigit d ∈ base.writtenDigits := by
  cases base <;> decide

theorem Base.mem_writtenDigits_of_mem_digits {base : Base} {places n : Nat}
    (h : c ∈ base.digits places n) : c ∈ base.writtenDigits := by
  induction places generalizing n with
  | zero => cases h
  | succ places ih =>
    rcases List.mem_append.mp h with h | h
    · exact ih h
    · obtain rfl := List.mem_singleton.mp h
      exact base.upperDigit_mem_writtenDigits _ (Nat.mod_lt n base.radix_pos)

theorem Base.mem_writtenDigits_of_mem_toDigits {n : Nat} (h : c ∈ Nat.toDigits 10 n) :
    c ∈ decimal.writtenDigits := by
  obtain ⟨hlow, hhigh⟩ := isDigit_decimal_iff.mp (isDigit_of_mem_toDigits h)
  have hchars : ∀ d < 10, Char.ofNat (48 + d) ∈ decimal.writtenDigits := by decide
  have hc := hchars (c.toNat - 48) (by omega)
  rwa [Nat.add_sub_cancel' hlow, Char.ofNat_toNat] at hc

theorem Base.newline_not_mem_writtenDigits (base : Base) : '\n' ∉ base.writtenDigits := by
  cases base <;> decide

namespace Format

theorem HasForm.ne_nil (h : format.HasForm text) : text ≠ [] := by
  obtain ⟨front, digits, rfl, -, hform⟩ := h
  intro hnil
  obtain ⟨rfl, rfl⟩ := List.append_eq_nil_iff.mp hnil
  cases hbase : format.base <;> simp [hbase] at hform

theorem HasForm.newline_not_mem (h : format.HasForm text) : '\n' ∉ text := by
  obtain ⟨front, digits, rfl, hdigits, hform⟩ := h
  have hfront : '\n' ∉ front := by
    cases hbase : format.base <;> simp only [hbase] at hform
    · simp [hform.1]
    · rcases hform.1 with rfl | rfl <;> simp
    · simp [hform.1]
  rw [List.mem_append]
  rintro (hline | hline)
  · exact hfront hline
  · exact format.base.newline_not_mem_writtenDigits (hdigits _ hline)

theorem hasForm_decimalText (hbase : format.base = .decimal) (value : Word) :
    format.HasForm (format.decimalText value) := by
  have hdigits (n : Nat) : ∀ c ∈ Nat.toDigits 10 n, c ∈ format.base.writtenDigits := by
    rw [hbase]
    exact fun _ => Base.mem_writtenDigits_of_mem_toDigits
  unfold decimalText
  split
  · refine ⟨['-'], _, rfl, hdigits _, ?_⟩
    rw [hbase]
    exact ⟨Or.inr rfl, Nat.toDigits_ne_nil⟩
  · refine ⟨[], _, rfl, hdigits _, ?_⟩
    rw [hbase]
    exact ⟨Or.inl rfl, Nat.toDigits_ne_nil⟩

theorem hasForm_render (format : Format) (word : Word) : format.HasForm (format.render word) := by
  have hdigits (base : Base) (places n : Nat) :
      ∀ c ∈ base.digits places n, c ∈ base.writtenDigits :=
    fun _ => Base.mem_writtenDigits_of_mem_digits
  unfold render
  cases hbase : format.base with
  | decimal => exact hasForm_decimalText hbase _
  | binary =>
    refine ⟨_, _, rfl, hbase ▸ hdigits .binary _ _, ?_⟩
    rw [hbase]
    exact ⟨rfl, Base.length_digits ..⟩
  | hexadecimal =>
    refine ⟨_, _, rfl, hbase ▸ hdigits .hexadecimal _ _, ?_⟩
    rw [hbase]
    exact ⟨rfl, Base.length_digits ..⟩

end Format

end WordCalc
