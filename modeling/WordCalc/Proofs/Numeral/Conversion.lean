import WordCalc.Expr.Parse
import WordCalc.Proofs.Except
import WordCalc.Proofs.Numeral.Written

/-! # Conversion of literals

Which texts are converted to words, whatever stands at the span of a literal. Decimal and binary
digits always have a word. Hexadecimal digits are too many as soon as their number does not fit a
word, even if a character behind them is no digit.
-/

namespace WordCalc

variable {source raw digits : Text} {span : Span} {base : Base} {c : Char} {d n : Nat}
  {value next : Word}

namespace Base

theorem isDigit_decimal_eq (c : Char) : decimal.isDigit c = c.isDigit := by
  rw [Bool.eq_iff_iff, isDigit_decimal_iff, Char.isDigit, Bool.and_eq_true, decide_eq_true_eq,
    decide_eq_true_eq]
  exact Iff.rfl

theorem isDigit_binary_iff : binary.isDigit c = true ↔ c = '0' ∨ c = '1' := by
  constructor
  · intro h
    obtain ⟨d, hd⟩ := isDigit_iff.mp h
    obtain ⟨hvalue, hlt⟩ := digit?_eq_some_iff.mp hd
    rw [digitValue?_eq_some_iff] at hvalue
    have hcode : c.toNat = 48 ∨ c.toNat = 49 := by
      change d < 2 at hlt
      omega
    exact hcode.imp (Char.toNat_inj.mp ·) (Char.toNat_inj.mp ·)
  · rintro (rfl | rfl) <;> rfl

section Words

theorem appendDigit_eq_invalid (h : base.isDigit c = false) (value : Word) :
    base.appendDigit value c = .error .invalid := by
  have hnone : base.digit? c = none := by simpa [isDigit] using h
  simp only [appendDigit, hnone]

theorem foldlM_appendDigit_eq_invalid (hbase : base ≠ hexadecimal) (hc : c ∈ digits)
    (hdigit : base.isDigit c = false) :
    digits.foldlM base.appendDigit (.ofNat 32 n) = .error .invalid := by
  induction digits generalizing n with
  | nil => cases hc
  | cons first digits ih =>
    rw [List.foldlM_cons]
    cases hfirst : base.digit? first with
    | none =>
      rw [appendDigit_eq_invalid (by simp [isDigit, hfirst])]
      rfl
    | some d =>
      rcases appendDigit_of_digit? (n := n) hfirst with hok | ⟨hhex, -⟩
      · rw [hok]
        refine ih ((List.mem_cons.mp hc).resolve_left ?_)
        rintro rfl
        rw [isDigit_iff.mpr ⟨d, hfirst⟩] at hdigit
        cases hdigit
      · exact absurd hhex hbase

theorem foldlM_appendDigit_eq_overflow {front : Text} (hn : n < 2 ^ 32)
    (hdigits : ∀ c ∈ front, hexadecimal.isDigit c = true)
    (hlarge : 2 ^ 32 ≤ hexadecimal.numeralFrom n front) (back : Text) :
    (front ++ back).foldlM hexadecimal.appendDigit (.ofNat 32 n) = .error .overflow := by
  induction front generalizing n with
  | nil => exact absurd hlarge (Nat.not_le_of_lt hn)
  | cons first front ih =>
    obtain ⟨d, hd⟩ := isDigit_iff.mp (hdigits first (by simp))
    rw [numeralFrom_cons hd] at hlarge
    rw [List.cons_append, List.foldlM_cons, appendDigit_hexadecimal hn hd]
    split
    · rename_i hfits
      exact ih hfits (fun c hc => hdigits c (by simp [hc])) hlarge
    · rfl

theorem foldlM_appendDigit_eq_invalid_of_takeWhile
    (hlt : hexadecimal.numeralFrom n (digits.takeWhile hexadecimal.isDigit) < 2 ^ 32)
    (hne : digits.takeWhile hexadecimal.isDigit ≠ digits) :
    digits.foldlM hexadecimal.appendDigit (.ofNat 32 n) = .error .invalid := by
  have hread := foldlM_appendDigit_hexadecimal mem_takeWhile hlt
  have hsplit := List.takeWhile_append_dropWhile (p := hexadecimal.isDigit) (l := digits)
  cases hrest : digits.dropWhile hexadecimal.isDigit with
  | nil =>
    rw [hrest, List.append_nil] at hsplit
    exact absurd hsplit hne
  | cons c rest =>
    have hc : hexadecimal.isDigit c = false := head?_dropWhile c (by rw [hrest]; rfl)
    rw [← hsplit, hrest, List.foldlM_append, hread, ok_bind, List.foldlM_cons,
      appendDigit_eq_invalid hc]
    rfl

theorem toNat_of_appendDigit (h : hexadecimal.appendDigit value c = .ok next) :
    ∃ d, hexadecimal.digit? c = some d ∧ value.toNat * 16 + d < 2 ^ 32 ∧
      next.toNat = value.toNat * 16 + d := by
  cases hd : hexadecimal.digit? c with
  | none =>
    rw [appendDigit_eq_invalid (by simp [isDigit, hd])] at h
    cases h
  | some d =>
    have happend := appendDigit_hexadecimal value.isLt hd
    rw [BitVec.ofNat_toNat, BitVec.setWidth_eq, h] at happend
    split at happend
    · rename_i hfits
      obtain rfl := Except.ok.inj happend
      refine ⟨d, rfl, hfits, ?_⟩
      rw [BitVec.toNat_ofNat, Nat.mod_eq_of_lt hfits]
    · cases happend

end Words

section RawTexts

theorem readLiteral_decimal_eq (raw : Text) : decimal.readLiteral raw =
    if raw.all (·.isDigit) then .ok (.ofNat 32 (decimal.numeralFrom 0 raw))
    else .error .invalid := by
  rw [readLiteral_decimal]
  split
  · rename_i hall
    have hdigits : ∀ c ∈ raw, c.isDigit = true := List.all_eq_true.mp hall
    exact foldlM_appendDigit (by decide) fun c hc => by rw [isDigit_decimal_eq, hdigits c hc]
  · rename_i hother
    obtain ⟨c, hc, hdigit⟩ : ∃ c ∈ raw, c.isDigit = false := by simpa using hother
    exact foldlM_appendDigit_eq_invalid (by decide) hc (by rwa [isDigit_decimal_eq])

theorem readLiteral_marked (hbase : base ≠ decimal) (hraw : (raw.dropBytes? 2).getD [] = digits) :
    base.readLiteral raw =
      if digits = [] then .error .invalid else digits.foldlM base.appendDigit 0 := by
  have hdigits : base.digitsOf raw = digits := by
    cases base with
    | decimal => exact absurd rfl hbase
    | _ => exact hraw
  simp only [readLiteral, hdigits, hbase, ne_eq, not_false_eq_true, true_and]

theorem readLiteral_binary_eq (hraw : (raw.dropBytes? 2).getD [] = digits) :
    binary.readLiteral raw =
      if digits = [] then .error .invalid
      else if digits.all fun c => c == '0' || c == '1' then
        .ok (.ofNat 32 (binary.numeralFrom 0 digits))
      else .error .invalid := by
  rw [readLiteral_marked (by decide) hraw]
  split
  · rfl
  split
  · rename_i hall
    have hdigits : ∀ c ∈ digits, c = '0' ∨ c = '1' := by simpa using hall
    exact foldlM_appendDigit (by decide) fun c hc => isDigit_binary_iff.mpr (hdigits c hc)
  · rename_i hother
    obtain ⟨c, hc, hdigit⟩ : ∃ c ∈ digits, ¬(c = '0' ∨ c = '1') := by simpa using hother
    refine foldlM_appendDigit_eq_invalid (by decide) hc ?_
    rwa [Bool.eq_false_iff, ne_eq, isDigit_binary_iff]

/-- Hexadecimal texts are converted unless the number of the digits behind the marker is too large,
or no digit stands there, or another character behind the digits. -/
theorem readLiteral_hexadecimal_eq (hraw : (raw.dropBytes? 2).getD [] = digits) :
    hexadecimal.readLiteral raw =
      if 2 ^ 32 ≤ hexadecimal.numeralFrom 0 (digits.takeWhile hexadecimal.isDigit) then
        .error .overflow
      else if digits = [] ∨ digits.takeWhile hexadecimal.isDigit ≠ digits then .error .invalid
      else .ok (.ofNat 32 (hexadecimal.numeralFrom 0 digits)) := by
  rw [readLiteral_marked (by decide) hraw]
  by_cases hnil : digits = []
  · subst hnil
    rfl
  rw [if_neg hnil]
  split
  · rename_i hlarge
    have hoverflow := foldlM_appendDigit_eq_overflow (by decide) mem_takeWhile hlarge
      (digits.dropWhile hexadecimal.isDigit)
    rwa [List.takeWhile_append_dropWhile] at hoverflow
  rename_i hfits
  have hlt := Nat.lt_of_not_le hfits
  by_cases hall : digits.takeWhile hexadecimal.isDigit = digits
  · have hdigits : ∀ c ∈ digits, hexadecimal.isDigit c = true := by
      rw [← hall]
      exact mem_takeWhile
    rw [hall] at hlt
    rw [if_neg (by simp [hnil, hall])]
    exact foldlM_appendDigit_hexadecimal hdigits hlt
  · rw [if_pos (Or.inr hall)]
    exact foldlM_appendDigit_eq_invalid_of_takeWhile hlt hall

end RawTexts

end Base

def LiteralFault.readError (raw : Text) (span : Span) : LiteralFault → ReadError
  | invalid => .invalidLiteral raw span
  | overflow => .literalOverflow raw span

namespace Expr

/-- What a literal at a span is converted to, where `raw` stands at the span, and `digits` in `raw`
behind two bytes. -/
structure Converts (source : Text) (span : Span) (raw digits : Text) : Prop where
  decimal : (∀ c ∈ raw, c.isDigit = true) →
    literalWord source .decimal span = .ok (.ofNat 32 (Base.decimal.numeralFrom 0 raw))
  decimal_invalid : (∃ c ∈ raw, c.isDigit = false) →
    literalWord source .decimal span = .error (.invalidLiteral raw span)
  binary : digits ≠ [] → (∀ c ∈ digits, c = '0' ∨ c = '1') →
    literalWord source .binary span = .ok (.ofNat 32 (Base.binary.numeralFrom 0 digits))
  binary_invalid : (digits = [] ∨ ∃ c ∈ digits, c ≠ '0' ∧ c ≠ '1') →
    literalWord source .binary span = .error (.invalidLiteral raw span)
  hexadecimal : digits ≠ [] → digits.takeWhile Base.hexadecimal.isDigit = digits →
    Base.hexadecimal.numeralFrom 0 digits < 2 ^ 32 → ∃ value,
      literalWord source .hexadecimal span = .ok value ∧
      value.toNat = Base.hexadecimal.numeralFrom 0 digits
  hexadecimal_empty : digits = [] →
    literalWord source .hexadecimal span = .error (.invalidLiteral raw span)
  hexadecimal_overflow :
    2 ^ 32 ≤ Base.hexadecimal.numeralFrom 0 (digits.takeWhile Base.hexadecimal.isDigit) →
      literalWord source .hexadecimal span = .error (.literalOverflow raw span)
  hexadecimal_invalid :
    Base.hexadecimal.numeralFrom 0 (digits.takeWhile Base.hexadecimal.isDigit) < 2 ^ 32 →
    digits.takeWhile Base.hexadecimal.isDigit ≠ digits →
      literalWord source .hexadecimal span = .error (.invalidLiteral raw span)

theorem literalWord_eq (h : span.select? source = some raw) (base : Base) :
    literalWord source base span = (base.readLiteral raw).mapError (·.readError raw span) := by
  simp only [literalWord, h]
  cases base.readLiteral raw with
  | ok value => rfl
  | error fault => cases fault <;> rfl

theorem literalWord_of_ok (h : span.select? source = some raw)
    (hread : base.readLiteral raw = .ok value) : literalWord source base span = .ok value := by
  rw [literalWord_eq h, hread]
  rfl

theorem literalWord_of_error (fault : LiteralFault) (h : span.select? source = some raw)
    (hread : base.readLiteral raw = .error fault) :
    literalWord source base span = .error (fault.readError raw span) := by
  rw [literalWord_eq h, hread]
  rfl

/-- Literals of each base are converted by one rule, whatever text their span selects, and no
hexadecimal digit is appended to a word without room for it. -/
theorem literalWord_converts (h : span.select? source = some raw) :
    Converts source span raw ((raw.dropBytes? 2).getD []) ∧
    ∀ value c next, Base.hexadecimal.appendDigit value c = .ok next → ∃ d,
      Base.hexadecimal.digit? c = some d ∧ value.toNat * 16 + d < 2 ^ 32 ∧
      next.toNat = value.toNat * 16 + d := by
  have hdecimal := Base.readLiteral_decimal_eq raw
  have hbinary : Base.binary.readLiteral raw = _ := Base.readLiteral_binary_eq rfl
  have hhexadecimal : Base.hexadecimal.readLiteral raw = _ := Base.readLiteral_hexadecimal_eq rfl
  generalize (raw.dropBytes? 2).getD [] = digits at *
  refine ⟨?_, fun _ _ _ => Base.toNat_of_appendDigit⟩
  constructor
  case decimal =>
    intro hdigits
    exact literalWord_of_ok h (hdecimal.trans (if_pos (List.all_eq_true.mpr hdigits)))
  case decimal_invalid =>
    intro hother
    exact literalWord_of_error .invalid h (hdecimal.trans (if_neg (by simpa using hother)))
  case binary =>
    intro hne hdigits
    rw [if_neg hne, if_pos (by simpa using hdigits)] at hbinary
    exact literalWord_of_ok h hbinary
  case binary_invalid =>
    rintro (hnil | hother)
    · exact literalWord_of_error .invalid h (hbinary.trans (if_pos hnil))
    · have hall : ¬(digits.all fun c => c == '0' || c == '1') := by simpa using hother
      rw [if_neg hall, ite_self] at hbinary
      exact literalWord_of_error .invalid h hbinary
  case hexadecimal =>
    intro hne hall hlt
    rw [hall, if_neg (Nat.not_le_of_lt hlt), if_neg (by simp [hne])] at hhexadecimal
    refine ⟨_, literalWord_of_ok h hhexadecimal, ?_⟩
    rw [BitVec.toNat_ofNat, Nat.mod_eq_of_lt hlt]
  case hexadecimal_empty =>
    rintro rfl
    exact literalWord_of_error .invalid h hhexadecimal
  case hexadecimal_overflow =>
    intro hlarge
    exact literalWord_of_error .overflow h (hhexadecimal.trans (if_pos hlarge))
  case hexadecimal_invalid =>
    intro hlt hne
    rw [if_neg (Nat.not_le_of_lt hlt), if_pos (Or.inr hne)] at hhexadecimal
    exact literalWord_of_error .invalid h hhexadecimal

theorem literalWord_converts_overflow :
    (⟨0, 11⟩ : Span).select? "0x100000000g".toList = some "0x100000000g".toList ∧
    literalWord "0x100000000g".toList .hexadecimal ⟨0, 11⟩ =
      .error (.literalOverflow "0x100000000g".toList ⟨0, 11⟩) := by
  have hselect : (⟨0, 11⟩ : Span).select? "0x100000000g".toList = some "0x100000000g".toList := by
    decide
  refine ⟨hselect, (literalWord_converts hselect).1.hexadecimal_overflow ?_⟩
  decide

end Expr

end WordCalc
