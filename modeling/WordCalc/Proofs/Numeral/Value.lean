import Mathlib.Algebra.Order.Ring.Nat
import WordCalc.Numeral.Literal
import WordCalc.Proofs.Lexeme.Spelling

/-! # Numerals and their words

A numeral denotes a number of any size, and the word of a literal is the residue of that number.
The decimal numeral of a word is no longer than any other literal of it.
-/

namespace WordCalc.Base

variable {base : Base} {mark digits raw : Text} {c : Char} {d n : Nat} {value : Word}

def numeralFrom (base : Base) (n : Nat) (digits : Text) : Nat :=
  digits.foldl (fun n c => n * base.radix + (base.digit? c).getD 0) n

/-- The number that a raw literal denotes, however large. -/
def numeral (base : Base) (raw : Text) : Nat := base.numeralFrom 0 (base.digitsOf raw)

def word? (base : Base) (raw : Text) : Option Word := (base.readLiteral raw).toOption

theorem word?_eq_some_iff : base.word? raw = some value ↔ base.readLiteral raw = .ok value := by
  unfold word?
  cases base.readLiteral raw <;> simp [Except.toOption]

@[simp] theorem numeralFrom_nil : base.numeralFrom n [] = n := rfl

theorem numeralFrom_cons (h : base.digit? c = some d) :
    base.numeralFrom n (c :: digits) = base.numeralFrom (n * base.radix + d) digits := by
  simp [numeralFrom, h]

theorem numeralFrom_lt (h : ∀ c ∈ digits, base.isDigit c = true) :
    base.numeralFrom n digits < (n + 1) * base.radix ^ digits.length := by
  induction digits generalizing n with
  | nil => simp
  | cons c digits ih =>
    obtain ⟨d, hd⟩ := isDigit_iff.mp (h c (by simp))
    have hnext := ih (n := n * base.radix + d) fun c hc => h c (by simp [hc])
    have hle : n * base.radix + d + 1 ≤ (n + 1) * base.radix := by
      have := digit?_lt hd
      rw [Nat.add_mul]
      omega
    rw [numeralFrom_cons hd, List.length_cons, Nat.pow_succ']
    calc base.numeralFrom (n * base.radix + d) digits
        < (n * base.radix + d + 1) * base.radix ^ digits.length := hnext
      _ ≤ (n + 1) * base.radix * base.radix ^ digits.length := Nat.mul_le_mul_right _ hle
      _ = (n + 1) * (base.radix * base.radix ^ digits.length) := Nat.mul_assoc ..

section Words

theorem appendDigit_of_digit? (h : base.digit? c = some d) :
    base.appendDigit (.ofNat 32 n) c = .ok (.ofNat 32 (n * base.radix + d)) ∨
      base = hexadecimal ∧ base.appendDigit (.ofNat 32 n) c = .error .overflow := by
  rw [BitVec.ofNat_add, BitVec.ofNat_mul]
  simp only [appendDigit, h]
  split
  · rename_i hfull
    exact Or.inr ⟨hfull.1, rfl⟩
  · exact Or.inl rfl

theorem foldlM_appendDigit_eq_ok (h : digits.foldlM base.appendDigit (.ofNat 32 n) = .ok value) :
    value = .ofNat 32 (base.numeralFrom n digits) := by
  induction digits generalizing n with
  | nil => exact (Except.ok.inj h).symm
  | cons c digits ih =>
    rw [List.foldlM_cons] at h
    cases hd : base.digit? c with
    | none => simp [appendDigit, hd, bind, Except.bind] at h
    | some d =>
      rw [numeralFrom_cons hd]
      rcases appendDigit_of_digit? (n := n) hd with hok | ⟨-, hoverflow⟩
      · rw [hok] at h
        exact ih h
      · rw [hoverflow] at h
        cases h

theorem foldlM_appendDigit (hbase : base ≠ hexadecimal) (h : ∀ c ∈ digits, base.isDigit c = true) :
    digits.foldlM base.appendDigit (.ofNat 32 n) = .ok (.ofNat 32 (base.numeralFrom n digits)) := by
  induction digits generalizing n with
  | nil => rfl
  | cons c digits ih =>
    obtain ⟨d, hd⟩ := isDigit_iff.mp (h c (by simp))
    rcases appendDigit_of_digit? (n := n) hd with hok | ⟨hhex, -⟩
    · rw [List.foldlM_cons, hok, numeralFrom_cons hd]
      exact ih fun c hc => h c (by simp [hc])
    · exact absurd hhex hbase

theorem length_of_isMarker (h : base.IsMarker mark) : mark.length = base.marker.length := by
  cases base with
  | decimal => rw [show mark = [] from h]; rfl
  | binary => obtain ⟨letter, -, rfl⟩ := h; rfl
  | hexadecimal => obtain ⟨letter, -, rfl⟩ := h; rfl

theorem size_of_isMarker (h : base.IsMarker mark) : Text.size mark = base.marker.size := by
  cases base with
  | decimal => rw [show mark = [] from h]; rfl
  | binary =>
    obtain ⟨letter, hletter, rfl⟩ := h
    simp only [Text.size_cons, (Token.letter_shape hletter).1]
    rfl
  | hexadecimal =>
    obtain ⟨letter, hletter, rfl⟩ := h
    simp only [Text.size_cons, (Token.letter_shape hletter).1]
    rfl

theorem digitsOf_append (h : base.IsMarker mark) : base.digitsOf (mark ++ digits) = digits := by
  rw [digitsOf, ← size_of_isMarker h, Text.dropBytes?_size_append]
  rfl

theorem digitsOf_decimal (raw : Text) : decimal.digitsOf raw = raw := by
  have hmark : decimal.IsMarker [] := rfl
  exact digitsOf_append hmark

theorem numeral_decimal (raw : Text) : decimal.numeral raw = decimal.numeralFrom 0 raw := by
  rw [numeral, digitsOf_decimal]

theorem readLiteral_decimal (raw : Text) :
    decimal.readLiteral raw = raw.foldlM decimal.appendDigit 0 := by
  simp only [readLiteral, digitsOf_decimal, ne_eq, not_true_eq_false, false_and, if_false]

theorem readLiteral_append (h : base.IsMarker mark) (hne : digits ≠ []) :
    base.readLiteral (mark ++ digits) = digits.foldlM base.appendDigit 0 := by
  simp only [readLiteral, digitsOf_append h, hne, and_false, if_false]

theorem IsNumeral.word?_eq (h : base.IsNumeral raw) (hw : base.word? raw = some value) :
    value = .ofNat 32 (base.numeral raw) := by
  obtain ⟨mark, digits, rfl, hmark, hne, -⟩ := h
  rw [word?_eq_some_iff, readLiteral_append hmark hne] at hw
  rw [numeral, digitsOf_append hmark]
  exact foldlM_appendDigit_eq_ok hw

theorem IsNumeral.numeral_lt (h : base.IsNumeral raw) :
    base.marker.length < raw.length ∧
      base.numeral raw < base.radix ^ (raw.length - base.marker.length) := by
  obtain ⟨mark, digits, rfl, hmark, hne, hdigits⟩ := h
  have hpos := List.length_pos_iff.mpr hne
  rw [numeral, digitsOf_append hmark, List.length_append, length_of_isMarker hmark,
    Nat.add_sub_cancel_left]
  exact ⟨by omega, by simpa using numeralFrom_lt (n := 0) hdigits⟩

end Words

section Shortest

theorem numeralFrom_decimal (h : ∀ c ∈ digits, decimal.isDigit c = true) :
    decimal.numeralFrom n digits = Nat.ofDigitChars 10 digits n := by
  induction digits generalizing n with
  | nil => simp
  | cons c digits ih =>
    obtain ⟨d, hd⟩ := isDigit_iff.mp (h c (by simp))
    obtain ⟨-, -, rfl⟩ := digit?_decimal_eq_some_iff.mp hd
    rw [numeralFrom_cons hd, ih fun c hc => h c (by simp [hc]), Nat.ofDigitChars_cons, Nat.mul_comm]
    rfl

theorem isDigit_of_mem_toDigits (h : c ∈ Nat.toDigits 10 n) : decimal.isDigit c = true := by
  have hdigit : c.isDigit = true := Nat.isDigit_of_mem_toDigits (by decide) (by decide) h
  simp only [Char.isDigit, ge_iff_le, Bool.and_eq_true, decide_eq_true_eq] at hdigit
  exact isDigit_decimal_iff.mpr hdigit

theorem isNumeral_toDigits (n : Nat) : decimal.IsNumeral (Nat.toDigits 10 n) :=
  ⟨[], _, rfl, rfl, Nat.toDigits_ne_nil, fun _ => isDigit_of_mem_toDigits⟩

theorem word?_toDigits (value : Word) :
    decimal.word? (Nat.toDigits 10 value.toNat) = some value := by
  have hdigits : ∀ c ∈ Nat.toDigits 10 value.toNat, decimal.isDigit c = true :=
    fun _ => isDigit_of_mem_toDigits
  have hword := foldlM_appendDigit (n := 0) (by decide) hdigits
  rw [numeralFrom_decimal hdigits, Nat.ofDigitChars_ten_toDigits] at hword
  rw [word?_eq_some_iff, readLiteral_decimal]
  simpa using hword

/-- Eight hexadecimal digits fill a word; up to there a marker makes up for the larger radix. -/
theorem hexadecimal_pow_le : ∀ places ≤ 8, 16 ^ places ≤ 10 ^ (places + 2) := by decide

theorem toNat_lt_of_word? (h : base.IsNumeral raw) (hw : base.word? raw = some value) :
    value.toNat < 10 ^ raw.length := by
  obtain ⟨hlength, hlt⟩ := h.numeral_lt
  have hle : value.toNat ≤ base.numeral raw := by
    rw [h.word?_eq hw, BitVec.toNat_ofNat]
    exact Nat.mod_le ..
  have hvalue : value.toNat < base.radix ^ (raw.length - base.marker.length) := by omega
  cases base with
  | decimal => exact hvalue
  | binary =>
    calc value.toNat < 2 ^ (raw.length - 2) := hvalue
      _ ≤ 2 ^ raw.length := Nat.pow_le_pow_right (by decide) (by omega)
      _ ≤ 10 ^ raw.length := Nat.pow_le_pow_left (by decide) _
  | hexadecimal =>
    have hlength : 2 < raw.length := hlength
    by_cases hplaces : raw.length - 2 ≤ 8
    · calc value.toNat < 16 ^ (raw.length - 2) := hvalue
        _ ≤ 10 ^ (raw.length - 2 + 2) := hexadecimal_pow_le _ hplaces
        _ = 10 ^ raw.length := by rw [Nat.sub_add_cancel (by omega)]
    · calc value.toNat < 2 ^ 32 := value.isLt
        _ ≤ 10 ^ 10 := by decide
        _ ≤ 10 ^ raw.length := Nat.pow_le_pow_right (by decide) (by omega)

/-- The decimal numeral of a word is a shortest literal of it. -/
theorem length_toDigits_le (h : base.IsNumeral raw) (hw : base.word? raw = some value) :
    (Nat.toDigits 10 value.toNat).length ≤ raw.length := by
  have hpos := h.numeral_lt.1
  exact (Nat.length_toDigits_le_iff (by decide) (by omega)).mpr (toNat_lt_of_word? h hw)

end Shortest

end WordCalc.Base
