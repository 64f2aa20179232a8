import WordCalc.Numeral.Base

/-! # Digit characters

Which characters are digits of a base, by their code points.
-/

namespace WordCalc

variable {base : Base} {c : Char} {d : Nat}

theorem digitValue?_eq_some_iff : digitValue? c = some d ↔
    (48 ≤ c.toNat ∧ c.toNat ≤ 57 ∧ d = c.toNat - 48) ∨
    (97 ≤ c.toNat ∧ c.toNat ≤ 102 ∧ d = c.toNat - 97 + 10) ∨
    (65 ≤ c.toNat ∧ c.toNat ≤ 70 ∧ d = c.toNat - 65 + 10) := by
  have hDigit : ('0' ≤ c ∧ c ≤ '9') ↔ 48 ≤ c.toNat ∧ c.toNat ≤ 57 := Iff.rfl
  have hLower : ('a' ≤ c ∧ c ≤ 'f') ↔ 97 ≤ c.toNat ∧ c.toNat ≤ 102 := Iff.rfl
  have hUpper : ('A' ≤ c ∧ c ≤ 'F') ↔ 65 ≤ c.toNat ∧ c.toNat ≤ 70 := Iff.rfl
  have hValues : '0'.toNat = 48 ∧ 'a'.toNat = 97 ∧ 'A'.toNat = 65 := ⟨rfl, rfl, rfl⟩
  simp only [digitValue?, hDigit, hLower, hUpper, hValues]
  split
  · simp only [Option.some.injEq]; omega
  · split
    · simp only [Option.some.injEq]; omega
    · split
      · simp only [Option.some.injEq]; omega
      · simp only [reduceCtorEq, false_iff]; omega

namespace Base

theorem digit?_eq_some_iff : base.digit? c = some d ↔ digitValue? c = some d ∧ d < base.radix := by
  simp [digit?, Option.filter_eq_some_iff]

theorem isDigit_iff : base.isDigit c = true ↔ ∃ d, base.digit? c = some d := by
  simp [isDigit, Option.isSome_iff_exists]

theorem digit?_decimal_eq_some_iff : decimal.digit? c = some d ↔
    48 ≤ c.toNat ∧ c.toNat ≤ 57 ∧ d = c.toNat - 48 := by
  rw [digit?_eq_some_iff, digitValue?_eq_some_iff, radix]
  omega

theorem isDigit_decimal_iff : decimal.isDigit c = true ↔ 48 ≤ c.toNat ∧ c.toNat ≤ 57 := by
  simp [isDigit_iff, digit?_decimal_eq_some_iff]

theorem isDigit_hexadecimal (h : base.isDigit c = true) : hexadecimal.isDigit c = true := by
  obtain ⟨d, hd⟩ := isDigit_iff.mp h
  obtain ⟨hValue, hLt⟩ := digit?_eq_some_iff.mp hd
  have hRadix : base.radix ≤ 16 := by cases base <;> decide
  exact isDigit_iff.mpr ⟨d, digit?_eq_some_iff.mpr ⟨hValue, by simp only [radix]; omega⟩⟩

theorem toNat_lt_of_isDigit (h : base.isDigit c = true) : c.toNat < 103 := by
  obtain ⟨d, hd⟩ := isDigit_iff.mp h
  have := digitValue?_eq_some_iff.mp (digit?_eq_some_iff.mp hd).1
  omega

theorem utf8Size_of_isDigit (h : base.isDigit c = true) : c.utf8Size = 1 := by
  have hLt := toNat_lt_of_isDigit h
  have hLe : c.toNat ≤ 127 := by omega
  exact Char.utf8Size_eq_one_iff.mpr hLe

theorem ofLetter?_of_isDigit_decimal (h : decimal.isDigit c = true) : ofLetter? c = none := by
  have hc := isDigit_decimal_iff.mp h
  have hne : ∀ letter : Char, 57 < letter.toNat → c ≠ letter := by
    rintro letter hletter rfl
    omega
  simp [ofLetter?, hne 'b' (by decide), hne 'B' (by decide), hne 'x' (by decide),
    hne 'X' (by decide)]

end Base

end WordCalc
