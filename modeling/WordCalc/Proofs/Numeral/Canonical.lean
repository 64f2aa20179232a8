import WordCalc.Proofs.Numeral.Written

/-! # Canonical numerals

What is written for a word is the one standard numeral of its low bits: a decimal numeral without
needless zeros and signs, or every digit of the width. It can be read back, so words are written
alike exactly if they agree on the bits of the width.
-/

namespace WordCalc

variable {format : Format} {text digits : Text} {value : Word} {c : Char} {n : Nat}

/-- The digits of a number in base ten, without zeros in front. -/
structure IsDecimalNat (n : Nat) (digits : Text) : Prop where
  ne_nil : digits ≠ []
  isDigit : ∀ c ∈ digits, c.isDigit = true
  head?_zero : digits.head? = some '0' → digits = ['0']
  numeral_eq : Base.decimal.numeralFrom 0 digits = n

/-- The decimal numeral of an integer; only a negative one has a sign. -/
def IsDecimalInt (m : Int) (text : Text) : Prop :=
  (0 ≤ m ∧ IsDecimalNat m.toNat text) ∨
    (m < 0 ∧ ∃ digits, text = '-' :: digits ∧ IsDecimalNat (-m).toNat digits)

namespace Format

/-- The text is the numeral of a residue modulo the width's power of two. -/
def IsNumeral (format : Format) (residue : Nat) (text : Text) : Prop :=
  match format.base with
  | .binary => text = ['0', 'b'] ++ Base.binary.placeDigits format.width.bits residue
  | .decimal =>
    (format.unsigned = false ∧ 2 ^ (format.width.bits - 1) ≤ residue →
      IsDecimalInt (residue - 2 ^ format.width.bits) text) ∧
    (¬(format.unsigned = false ∧ 2 ^ (format.width.bits - 1) ≤ residue) →
      IsDecimalInt residue text)
  | .hexadecimal => text = ['0', 'x'] ++ Base.hexadecimal.placeDigits (format.width.bits / 4) residue

/-- The residue that a numeral is read as; a negative number is its two's complement. -/
def readBack (format : Format) : Text → Nat
  | '-' :: digits => 2 ^ format.width.bits - Base.decimal.numeral digits
  | text => format.base.numeral text

end Format

theorem isDecimalNat_toDigits (n : Nat) : IsDecimalNat n (Nat.toDigits 10 n) := by
  have hdigits : ∀ c ∈ Nat.toDigits 10 n, Base.decimal.isDigit c = true :=
    fun _ => Base.isDigit_of_mem_toDigits
  have hnumeral : Base.decimal.numeralFrom 0 (Nat.toDigits 10 n) = n := by
    rw [Base.numeralFrom_decimal hdigits, Nat.ofDigitChars_ten_toDigits]
  refine ⟨Nat.toDigits_ne_nil, fun c hc => Nat.isDigit_of_mem_toDigits (by decide) (by decide) hc,
    fun hzero => ?_, hnumeral⟩
  obtain ⟨later, hlater⟩ := List.head?_eq_some_iff.mp hzero
  by_cases hnil : later = []
  · rw [hlater, hnil]
  · have hvalue : Base.decimal.digit? '0' = some 0 := by decide
    have hlt : Base.decimal.numeralFrom 0 later < (0 + 1) * 10 ^ later.length :=
      Base.numeralFrom_lt fun c hc => hdigits c (by rw [hlater]; simp [hc])
    rw [hlater, Base.numeralFrom_cons hvalue, Nat.zero_mul] at hnumeral
    rw [hnumeral, Nat.zero_add, Nat.one_mul] at hlt
    have hfewer : (Nat.toDigits 10 n).length ≤ later.length :=
      (Nat.length_toDigits_le_iff (by decide) (List.length_pos_iff.mpr hnil)).mpr hlt
    rw [hlater, List.length_cons] at hfewer
    omega

namespace Format

theorem isDecimalInt_decimalText_of_neg (h : value.toNat < 2 ^ format.width.bits)
    (hneg : format.unsigned = false ∧ 2 ^ (format.width.bits - 1) ≤ value.toNat) :
    IsDecimalInt (value.toNat - 2 ^ format.width.bits) (format.decimalText value) := by
  have hcast := natCast_two_pow format.width.bits
  have hpos : 0 < value.toNat := Nat.lt_of_lt_of_le (Nat.two_pow_pos _) hneg.2
  have hdistance : (-((value.toNat : Int) - 2 ^ format.width.bits)).toNat =
      2 ^ format.width.bits - value.toNat := by omega
  rw [decimalText, if_pos ((isNegative_iff h).mpr hneg)]
  refine Or.inr ⟨by omega, _, rfl, ?_⟩
  rw [hdistance, toNat_negated hpos h]
  exact isDecimalNat_toDigits _

theorem isDecimalInt_decimalText_of_not_neg (h : value.toNat < 2 ^ format.width.bits)
    (hneg : ¬(format.unsigned = false ∧ 2 ^ (format.width.bits - 1) ≤ value.toNat)) :
    IsDecimalInt value.toNat (format.decimalText value) := by
  rw [decimalText, if_neg (mt (isNegative_iff h).mp hneg)]
  refine Or.inl ⟨Int.natCast_nonneg _, ?_⟩
  rw [Int.toNat_natCast]
  exact isDecimalNat_toDigits _

section ReadingBack

theorem readBack_cons (hc : c.isDigit = true) (text : Text) :
    format.readBack (c :: text) = format.base.numeral (c :: text) := by
  unfold readBack
  split
  · rename_i hsign
    obtain ⟨rfl, -⟩ := List.cons.inj hsign
    cases hc
  · rfl

theorem readBack_marker (hbase : format.base ≠ .decimal) (digits : Text) :
    format.readBack (format.base.marker ++ digits) = format.base.numeralFrom 0 digits := by
  have hnumeral : format.base.numeral (format.base.marker ++ digits) =
      format.base.numeralFrom 0 digits := by
    rw [Base.numeral, Base.digitsOf_append format.base.isMarker_marker]
  obtain ⟨letter, hmarker⟩ : ∃ letter, format.base.marker = ['0', letter] := by
    cases h : format.base with
    | decimal => exact absurd h hbase
    | binary => exact ⟨'b', rfl⟩
    | hexadecimal => exact ⟨'x', rfl⟩
  rw [← hnumeral, hmarker]
  exact readBack_cons rfl _

theorem readBack_decimalText (hbase : format.base = .decimal)
    (h : value.toNat < 2 ^ format.width.bits) :
    format.readBack (format.decimalText value) = value.toNat := by
  rw [decimalText]
  split
  · rename_i hneg
    have hle := ((isNegative_iff h).mp hneg).2
    have hpos : 0 < value.toNat := Nat.lt_of_lt_of_le (Nat.two_pow_pos _) hle
    rw [readBack, Base.numeral_decimal, (isDecimalNat_toDigits _).numeral_eq, toNat_negated hpos h]
    omega
  · have hdigits := isDecimalNat_toDigits value.toNat
    obtain ⟨c, later, hlater⟩ := List.exists_cons_of_ne_nil hdigits.ne_nil
    have hc : c.isDigit = true := hdigits.isDigit c (by rw [hlater]; simp)
    rw [hlater, readBack_cons hc, hbase, Base.numeral_decimal, ← hlater, hdigits.numeral_eq]

theorem exists_places (hbase : format.base ≠ .decimal) (word : Word) :
    ∃ places, format.base.radix ^ places = 2 ^ format.width.bits ∧
      format.render word = format.base.marker ++
        format.base.digits places (word.toNat % 2 ^ format.width.bits) := by
  rw [render, ← Width.toNat_and_mask]
  cases h : format.base with
  | decimal => exact absurd h hbase
  | binary => exact ⟨format.width.bits, rfl, rfl⟩
  | hexadecimal => exact ⟨format.width.bits / 4, by cases format.width <;> rfl, rfl⟩

theorem readBack_render (format : Format) (word : Word) :
    format.readBack (format.render word) = word.toNat % 2 ^ format.width.bits := by
  by_cases hbase : format.base = .decimal
  · have hlt := format.width.toNat_and_mask_lt word
    rw [render, hbase, ← Width.toNat_and_mask]
    exact readBack_decimalText hbase hlt
  · obtain ⟨places, hplaces, hrender⟩ := exists_places hbase word
    rw [hrender, readBack_marker hbase, Base.numeralFrom_digits, hplaces, Nat.mod_mod]

end ReadingBack

theorem isNumeral_render (format : Format) (word : Word) :
    format.IsNumeral (word.toNat % 2 ^ format.width.bits) (format.render word) := by
  have hlt := format.width.toNat_and_mask_lt word
  rw [IsNumeral, render, ← Width.toNat_and_mask]
  cases format.base with
  | binary => exact congrArg (_ ++ ·) (Base.digits_eq_placeDigits ..)
  | decimal =>
    exact ⟨isDecimalInt_decimalText_of_neg hlt, isDecimalInt_decimalText_of_not_neg hlt⟩
  | hexadecimal => exact congrArg (_ ++ ·) (Base.digits_eq_placeDigits ..)

/-- What is rendered for a word is the numeral of its residue, which can be read back from it; so it
is the same for another word exactly if the residues are. -/
theorem render_canonical (format : Format) (word : Word) :
    format.IsNumeral (word.toNat % 2 ^ format.width.bits) (format.render word) ∧
    format.readBack (format.render word) = word.toNat % 2 ^ format.width.bits ∧
    ∀ word', format.render word = format.render word' ↔
      word.toNat ≡ word'.toNat [MOD 2 ^ format.width.bits] := by
  refine ⟨format.isNumeral_render word, format.readBack_render word, fun word' => ?_⟩
  constructor
  · intro hsame
    have hread := congrArg format.readBack hsame
    rwa [readBack_render, readBack_render] at hread
  · intro hmod
    exact render_congr (Width.and_mask_eq_iff.mpr hmod)

end Format

end WordCalc
