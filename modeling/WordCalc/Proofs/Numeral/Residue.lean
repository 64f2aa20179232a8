import Mathlib.Data.Int.ModEq
import WordCalc.Numeral.Format

/-! # Residues in writing

Which texts show an integer in a format: its residue modulo the power of two of the width, as a
decimal numeral in the range of the format or digit by digit. What is rendered for a word shows
every integer that the word is the residue of.
-/

namespace WordCalc

def digitChars : Text := "0123456789ABCDEF".toList

def Base.placeDigits (base : Base) (places n : Nat) : Text :=
  (List.range places).reverse.map fun i => digitChars.getD (n / base.radix ^ i % base.radix) '?'

theorem upperDigit_eq : ∀ d < 16, upperDigit d = digitChars.getD d '?' := by decide

theorem Base.radix_le (base : Base) : base.radix ≤ 16 := by cases base <;> decide

theorem Base.radix_pos (base : Base) : 0 < base.radix := by cases base <;> decide

theorem Base.digits_eq_placeDigits (base : Base) (places n : Nat) :
    base.digits places n = base.placeDigits places n := by
  induction places generalizing n with
  | zero => rfl
  | succ places ih =>
    have hdigit : n % base.radix < 16 :=
      Nat.lt_of_lt_of_le (Nat.mod_lt n base.radix_pos) base.radix_le
    have hplaces : ∀ i, n / base.radix / base.radix ^ i = n / base.radix ^ (i + 1) := by
      intro i
      rw [Nat.div_div_eq_div_mul, Nat.pow_succ']
    rw [digits, ih, upperDigit_eq _ hdigit, placeDigits, placeDigits, List.range_succ_eq_map]
    simp only [hplaces, List.reverse_cons, List.map_append, List.map_cons, List.map_nil,
      Nat.pow_zero, Nat.div_one, ← List.map_reverse, List.map_map]
    rfl

theorem Width.toNat_and_mask (width : Width) (value : Word) :
    (value &&& width.mask).toNat = value.toNat % 2 ^ width.bits := by
  have hmask : width.mask.toNat = 2 ^ width.bits - 1 := by cases width <;> rfl
  rw [BitVec.toNat_and, hmask, Nat.and_two_pow_sub_one_eq_mod]

theorem Width.toNat_and_mask_lt (width : Width) (value : Word) :
    (value &&& width.mask).toNat < 2 ^ width.bits := by
  rw [toNat_and_mask]
  exact Nat.mod_lt _ (Nat.two_pow_pos _)

theorem Width.and_mask_eq_iff {width : Width} {value value' : Word} :
    value &&& width.mask = value' &&& width.mask ↔
      value.toNat ≡ value'.toNat [MOD 2 ^ width.bits] := by
  rw [← BitVec.toNat_inj, toNat_and_mask, toNat_and_mask]
  rfl

theorem natCast_two_pow (k : Nat) : ((2 ^ k : Nat) : Int) = 2 ^ k := by push_cast; rfl

theorem Width.two_pow_bits (width : Width) : (2 : Int) ^ width.bits = 2 * 2 ^ (width.bits - 1) := by
  cases width <;> rfl

namespace Format

/-- The numbers that decimal numerals of the format show. -/
def Fits (format : Format) (m : Int) : Prop :=
  if format.unsigned then 0 ≤ m ∧ m < 2 ^ format.width.bits
  else -2 ^ (format.width.bits - 1) ≤ m ∧ m < 2 ^ (format.width.bits - 1)

/-- The text shows the residue of the integer modulo the width's power of two. -/
def Shows (format : Format) (n : Int) (text : String) : Prop :=
  let residue := (n % 2 ^ format.width.bits).toNat
  match format.base with
  | .binary => text = "0b" ++ String.ofList (Base.binary.placeDigits format.width.bits residue)
  | .decimal => ∃ m, (∀ k, k ≡ n [ZMOD 2 ^ format.width.bits] ∧ format.Fits k ↔ k = m) ∧
    text = toString m
  | .hexadecimal =>
    text = "0x" ++ String.ofList (Base.hexadecimal.placeDigits (format.width.bits / 4) residue)

variable {format : Format} {n m m' : Int} {value : Word}

theorem Fits.unique (h : format.Fits m) (h' : format.Fits m')
    (hmod : m ≡ m' [ZMOD 2 ^ format.width.bits]) : m = m' := by
  have hhalf := format.width.two_pow_bits
  obtain ⟨low, ⟨hlow, hhigh⟩, hlow', hhigh'⟩ : ∃ low,
      (0 ≤ m - low ∧ m - low < 2 ^ format.width.bits) ∧
        0 ≤ m' - low ∧ m' - low < 2 ^ format.width.bits := by
    unfold Fits at h h'
    cases hsign : format.unsigned with
    | true =>
      rw [hsign, if_pos rfl] at h h'
      exact ⟨0, by omega, by omega, by omega⟩
    | false =>
      rw [hsign, if_neg Bool.false_ne_true] at h h'
      exact ⟨-2 ^ (format.width.bits - 1), by omega, by omega, by omega⟩
  have hsame := hmod.sub_right low
  unfold Int.ModEq at hsame
  rw [Int.emod_eq_of_lt hlow hhigh, Int.emod_eq_of_lt hlow' hhigh'] at hsame
  omega

section Decimal

theorem toString_natCast (k : Nat) : toString (k : Int) = String.ofList (Nat.toDigits 10 k) := rfl

theorem toString_neg {k : Nat} (h : 0 < k) :
    toString (-(k : Int)) = String.ofList ('-' :: Nat.toDigits 10 k) := by
  obtain ⟨k, rfl⟩ := Nat.exists_eq_succ_of_ne_zero (Nat.ne_of_gt h)
  change "-" ++ String.ofList (Nat.toDigits 10 (k + 1)) = _
  exact (String.ofList_append ..).symm

theorem isNegative_iff (h : value.toNat < 2 ^ format.width.bits) : format.isNegative value = true ↔
    format.unsigned = false ∧ 2 ^ (format.width.bits - 1) ≤ value.toNat := by
  have hbits : format.width.bits - 1 + 1 = format.width.bits := by cases format.width <;> rfl
  have htop : value.getLsbD (format.width.bits - 1) = true ↔
      2 ^ (format.width.bits - 1) ≤ value.toNat := by
    constructor
    · intro hbit
      exact Nat.ge_two_pow_of_testBit hbit
    · intro hle
      exact Nat.testBit_of_two_pow_le_and_two_pow_add_one_gt hle (by rwa [hbits])
  rw [isNegative, Bool.and_eq_true, htop, Bool.not_eq_true']

/-- The number that a word cut to the width is read as. -/
def number (format : Format) (value : Word) : Int :=
  if format.isNegative value then value.toNat - 2 ^ format.width.bits else value.toNat

theorem number_modEq (format : Format) (value : Word) :
    format.number value ≡ value.toNat [ZMOD 2 ^ format.width.bits] := by
  unfold number
  split
  · exact Int.sub_emod_right ..
  · exact Int.ModEq.refl _

theorem number_fits (h : value.toNat < 2 ^ format.width.bits) :
    format.Fits (format.number value) := by
  have hhalf := format.width.two_pow_bits
  have hcast := natCast_two_pow format.width.bits
  have hcast' := natCast_two_pow (format.width.bits - 1)
  unfold number Fits
  by_cases hneg : format.isNegative value = true
  · obtain ⟨hsign, hle⟩ := (isNegative_iff h).mp hneg
    rw [if_pos hneg, hsign, if_neg Bool.false_ne_true]
    omega
  · rw [if_neg hneg]
    rw [isNegative_iff h] at hneg
    cases hsign : format.unsigned with
    | true =>
      rw [if_pos rfl]
      omega
    | false =>
      have hlt := Nat.lt_of_not_le fun hle => hneg ⟨hsign, hle⟩
      rw [if_neg Bool.false_ne_true]
      omega

theorem toNat_negated (hpos : 0 < value.toNat) (h : value.toNat < 2 ^ format.width.bits) :
    ((~~~value &&& format.width.mask) + 1).toNat = 2 ^ format.width.bits - value.toNat := by
  have hone : (1 : Word).toNat = 1 := rfl
  rw [BitVec.toNat_add, Width.toNat_and_mask, BitVec.toNat_not, hone]
  cases hwidth : format.width <;> simp only [hwidth, Width.bits] at h ⊢ <;> omega

theorem decimalText_eq (h : value.toNat < 2 ^ format.width.bits) :
    String.ofList (format.decimalText value) = toString (format.number value) := by
  unfold decimalText number
  split
  · rename_i hneg
    have hpos : 0 < value.toNat :=
      Nat.lt_of_lt_of_le (Nat.two_pow_pos _) ((isNegative_iff h).mp hneg).2
    have hcast := natCast_two_pow format.width.bits
    have hdistance : (value.toNat : Int) - 2 ^ format.width.bits =
        -((2 ^ format.width.bits - value.toNat : Nat) : Int) := by omega
    rw [toNat_negated hpos h, hdistance, toString_neg (by omega)]
  · exact (toString_natCast _).symm

end Decimal

/-- The word's low bits are the residue of every integer behind it. -/
theorem natCast_ofInt_and_mask (width : Width) (n : Int) :
    ((BitVec.ofInt 32 n &&& width.mask).toNat : Int) = n % 2 ^ width.bits := by
  have hdvd : (2 : Int) ^ width.bits ∣ 2 ^ 32 := by cases width <;> decide
  have hword : ((BitVec.ofInt 32 n).toNat : Int) = n % 2 ^ 32 := by
    rw [BitVec.toNat_ofInt]
    exact Int.toNat_of_nonneg (Int.emod_nonneg n (by decide))
  rw [Width.toNat_and_mask, Int.natCast_emod, hword, natCast_two_pow, Int.emod_emod_of_dvd n hdvd]

theorem render_congr {value' : Word}
    (h : value &&& format.width.mask = value' &&& format.width.mask) :
    format.render value = format.render value' := by
  unfold render
  rw [h]

/-- What is rendered for a word shows every integer that the word is the residue of. -/
theorem shows_render (format : Format) (n : Int) :
    format.Shows n (String.ofList (format.render (.ofInt 32 n))) := by
  have hresidue := natCast_ofInt_and_mask format.width n
  have hvalue : (BitVec.ofInt 32 n &&& format.width.mask).toNat =
      (n % 2 ^ format.width.bits).toNat := by rw [← hresidue, Int.toNat_natCast]
  unfold render
  cases hbase : format.base with
  | binary =>
    simp only [Shows, hbase, hvalue, Base.digits_eq_placeDigits]
    exact String.ofList_append ..
  | hexadecimal =>
    simp only [Shows, hbase, hvalue, Base.digits_eq_placeDigits]
    exact String.ofList_append ..
  | decimal =>
    have hlt := format.width.toNat_and_mask_lt (.ofInt 32 n)
    have hmod : format.number (.ofInt 32 n &&& format.width.mask) ≡ n
        [ZMOD 2 ^ format.width.bits] := by
      refine (number_modEq ..).trans ?_
      rw [hresidue]
      exact Int.mod_modEq ..
    simp only [Shows, hbase]
    refine ⟨_, fun k => ⟨?_, ?_⟩, decimalText_eq hlt⟩
    · rintro ⟨hk, hfits⟩
      exact hfits.unique (number_fits hlt) (hk.trans hmod.symm)
    · rintro rfl
      exact ⟨hmod, number_fits hlt⟩

end Format

end WordCalc
