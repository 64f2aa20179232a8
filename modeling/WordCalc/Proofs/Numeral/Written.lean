import WordCalc.Numeral.Format
import WordCalc.Proofs.Numeral.Residue
import WordCalc.Proofs.Numeral.Value

/-! # Reading written digits

The digits at the lowest places of a number are a numeral of its residue. A numeral is read as
its number wherever that number fits a word; only hexadecimal literals need this room.
-/

namespace WordCalc.Base

variable {base : Base} {digits : Text} {c : Char} {d n places : Nat} {value : Word}

theorem digit?_upperDigit (h : d < base.radix) : base.digit? (upperDigit d) = some d := by
  have hvalue : ∀ d < 16, digitValue? (upperDigit d) = some d := by decide
  exact digit?_eq_some_iff.mpr ⟨hvalue d (Nat.lt_of_lt_of_le h base.radix_le), h⟩

theorem isDigit_of_mem_digits (h : c ∈ base.digits places n) : base.isDigit c = true := by
  induction places generalizing n with
  | zero => cases h
  | succ places ih =>
    rcases List.mem_append.mp h with h | h
    · exact ih h
    · obtain rfl := List.mem_singleton.mp h
      exact isDigit_iff.mpr ⟨_, digit?_upperDigit (Nat.mod_lt n base.radix_pos)⟩

theorem numeralFrom_append (front back : Text) :
    base.numeralFrom n (front ++ back) = base.numeralFrom (base.numeralFrom n front) back :=
  List.foldl_append

theorem numeralFrom_digits (base : Base) (places n : Nat) :
    base.numeralFrom 0 (base.digits places n) = n % base.radix ^ places := by
  induction places generalizing n with
  | zero => simp [digits, Nat.mod_one]
  | succ places ih =>
    have hlast := digit?_upperDigit (Nat.mod_lt n base.radix_pos)
    rw [digits, numeralFrom_append, ih, numeralFrom_cons hlast, numeralFrom_nil, Nat.pow_succ',
      Nat.mod_mul, Nat.mul_comm base.radix, Nat.add_comm]

section Room

variable {mark raw : Text}

theorem le_numeralFrom : n ≤ base.numeralFrom n digits := by
  induction digits generalizing n with
  | nil => exact Nat.le_refl n
  | cons c digits ih =>
    calc n ≤ n * base.radix := Nat.le_mul_of_pos_right n base.radix_pos
      _ ≤ n * base.radix + (base.digit? c).getD 0 := Nat.le_add_right ..
      _ ≤ base.numeralFrom n (c :: digits) := ih

/-- The test by division refuses a digit exactly if the number would not fit a word with it. -/
theorem appendDigit_hexadecimal (hn : n < 2 ^ 32) (h : hexadecimal.digit? c = some d) :
    hexadecimal.appendDigit (.ofNat 32 n) c =
      if n * 16 + d < 2 ^ 32 then .ok (.ofNat 32 (n * 16 + d)) else .error .overflow := by
  have hd : d < 16 := digit?_lt h
  have htest : (BitVec.allOnes 32 - BitVec.ofNat 32 d) / 16 < BitVec.ofNat 32 n ↔
      ¬n * 16 + d < 2 ^ 32 := by
    rw [BitVec.lt_def, BitVec.toNat_udiv, BitVec.toNat_sub, BitVec.toNat_allOnes,
      BitVec.toNat_ofNat, BitVec.toNat_ofNat, Nat.mod_eq_of_lt hn]
    change (2 ^ 32 - d % 2 ^ 32 + (2 ^ 32 - 1)) % 2 ^ 32 / 16 < n ↔ _
    omega
  have happend : BitVec.ofNat 32 n * BitVec.ofNat 32 hexadecimal.radix + BitVec.ofNat 32 d =
      .ofNat 32 (n * 16 + d) := by
    rw [BitVec.ofNat_add, BitVec.ofNat_mul]
    rfl
  simp only [appendDigit, h, htest, true_and, happend, ite_not]

theorem foldlM_appendDigit_hexadecimal (hdigits : ∀ c ∈ digits, hexadecimal.isDigit c = true)
    (hlt : hexadecimal.numeralFrom n digits < 2 ^ 32) :
    digits.foldlM hexadecimal.appendDigit (.ofNat 32 n) =
      .ok (.ofNat 32 (hexadecimal.numeralFrom n digits)) := by
  induction digits generalizing n with
  | nil => rfl
  | cons c digits ih =>
    obtain ⟨d, hd⟩ := isDigit_iff.mp (hdigits c (by simp))
    have hn : n < 2 ^ 32 := Nat.lt_of_le_of_lt le_numeralFrom hlt
    rw [numeralFrom_cons hd] at hlt ⊢
    have hnext : n * 16 + d < 2 ^ 32 := Nat.lt_of_le_of_lt le_numeralFrom hlt
    rw [List.foldlM_cons, appendDigit_hexadecimal hn hd, if_pos hnext]
    exact ih (fun c hc => hdigits c (by simp [hc])) hlt

theorem IsNumeral.word?_of_lt (h : base.IsNumeral raw) (hlt : base.numeral raw < 2 ^ 32) :
    base.word? raw = some (.ofNat 32 (base.numeral raw)) := by
  obtain ⟨mark, digits, rfl, hmark, hne, hdigits⟩ := h
  rw [numeral, digitsOf_append hmark] at hlt ⊢
  rw [word?_eq_some_iff, readLiteral_append hmark hne]
  by_cases hbase : base = hexadecimal
  · subst hbase
    exact foldlM_appendDigit_hexadecimal hdigits hlt
  · exact foldlM_appendDigit hbase hdigits

theorem foldlM_appendDigit_eq_error {fault : LiteralFault}
    (hdigits : ∀ c ∈ digits, base.isDigit c = true)
    (h : digits.foldlM base.appendDigit (.ofNat 32 n) = .error fault) :
    base = hexadecimal ∧ fault = .overflow := by
  induction digits generalizing n with
  | nil => cases h
  | cons c digits ih =>
    obtain ⟨d, hd⟩ := isDigit_iff.mp (hdigits c (by simp))
    rw [List.foldlM_cons] at h
    rcases appendDigit_of_digit? (n := n) hd with hok | ⟨hbase, hoverflow⟩
    · rw [hok] at h
      exact ih (fun c hc => hdigits c (by simp [hc])) h
    · rw [hoverflow] at h
      exact ⟨hbase, (Except.error.inj h).symm⟩

theorem IsNumeral.of_readLiteral_eq_error {fault : LiteralFault} (h : base.IsNumeral raw)
    (hread : base.readLiteral raw = .error fault) :
    base = hexadecimal ∧ fault = .overflow ∧ 2 ^ 32 ≤ base.numeral raw := by
  have hlarge : 2 ^ 32 ≤ base.numeral raw := by
    refine Nat.le_of_not_lt fun hlt => ?_
    have hword := word?_eq_some_iff.mp (h.word?_of_lt hlt)
    cases hread.symm.trans hword
  obtain ⟨mark, digits, rfl, hmark, hne, hdigits⟩ := h
  rw [readLiteral_append hmark hne] at hread
  obtain ⟨hbase, hfault⟩ := foldlM_appendDigit_eq_error (n := 0) hdigits hread
  exact ⟨hbase, hfault, hlarge⟩

end Room

theorem isMarker_marker (base : Base) : base.IsMarker base.marker := by
  cases base with
  | binary => exact ⟨'b', rfl, rfl⟩
  | decimal => rfl
  | hexadecimal => exact ⟨'x', rfl, rfl⟩

theorem isNumeral_digits (hplaces : 0 < places) (n : Nat) :
    base.IsNumeral (base.marker ++ base.digits places n) := by
  refine ⟨_, _, rfl, base.isMarker_marker, ?_, fun c => isDigit_of_mem_digits⟩
  apply List.ne_nil_of_length_pos
  rwa [length_digits]

theorem word?_digits (hplaces : 0 < places) (hlt : value.toNat < base.radix ^ places) :
    base.word? (base.marker ++ base.digits places value.toNat) = some value := by
  have hnumeral : base.numeral (base.marker ++ base.digits places value.toNat) = value.toNat := by
    rw [numeral, digitsOf_append base.isMarker_marker, numeralFrom_digits, Nat.mod_eq_of_lt hlt]
  have hfits : base.numeral (base.marker ++ base.digits places value.toNat) < 2 ^ 32 := by
    rw [hnumeral]
    exact value.isLt
  rw [(isNumeral_digits hplaces value.toNat).word?_of_lt hfits, hnumeral, BitVec.ofNat_toNat,
    BitVec.setWidth_eq]

end WordCalc.Base
