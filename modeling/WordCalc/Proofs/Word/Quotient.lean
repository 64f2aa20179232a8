import Mathlib.Data.Int.ModEq
import Mathlib.Logic.Function.Iterate
import WordCalc.Operator
import WordCalc.Proofs.Word.Shift

/-! # Shifts as products and quotients

To move the bits up is to multiply by a power of two, and to move them down is to divide by one and
round down, with the word read as a signed number if copies of the sign bit are filled in. No count
is too large for this.
-/

namespace WordCalc

namespace Word

theorem toNat_shiftLeft (value count : Word) :
    (shiftLeft value count).toNat = value.toNat * 2 ^ count.toNat % 2 ^ 32 := by
  rw [shiftLeft_eq, BitVec.toNat_shiftLeft, Nat.shiftLeft_eq]

theorem toNat_shiftRight (value count : Word) :
    (shiftRight value count).toNat = value.toNat / 2 ^ count.toNat := by
  rw [shiftRight_eq, BitVec.toNat_ushiftRight, Nat.shiftRight_eq_div_pow]

theorem toInt_arithShiftRight (value count : Word) :
    (arithShiftRight value count).toInt = value.toInt / 2 ^ count.toNat := by
  rw [arithShiftRight_eq, BitVec.toInt_sshiftRight, Int.shiftRight_eq_div_pow, Nat.cast_pow]
  rfl

theorem natCast_toNat (value : Word) : (value.toNat : Int) = value.toInt % 2 ^ 32 := by
  have hlt : (value.toNat : Int) < 2 ^ 32 := Int.ofNat_lt.mpr value.isLt
  rw [BitVec.toInt_eq_toNat_bmod]
  exact (Int.emod_eq_of_lt (Int.natCast_nonneg _) hlt).symm.trans Int.bmod_emod.symm

/-- Steps that are left out change nothing. -/
theorem signSteps_eq_iterate (count : Nat) (value : Word) :
    signSteps count value = signStep^[count] value := by
  induction count generalizing value with
  | zero => rfl
  | succ count ih =>
    by_cases hall : value = BitVec.allOnes 32
    · rw [signSteps, if_pos hall, hall, Function.iterate_fixed signStep_allOnes]
    · rw [signSteps, if_neg hall, ih, Function.iterate_succ_apply]

end Word

namespace BinaryOp

/-- A shift by any count multiplies by a power of two or divides by it. The sign steps of a negative
word may end early, and yet lead to where all of them would lead. -/
theorem apply_shift (value count : Word) :
    (∃ result, shiftLeft.apply value count = .ok result ∧
      result.toNat = value.toNat * 2 ^ count.toNat % 2 ^ 32) ∧
    (∃ result, shiftRight.apply value count = .ok result ∧
      result.toNat = value.toNat / 2 ^ count.toNat) ∧
    (∃ result, arithShiftRight.apply value count = .ok result ∧
      (result.toNat : Int) = value.toInt / 2 ^ count.toNat % 2 ^ 32) ∧
    (value.getLsbD 31 = true →
      arithShiftRight.apply value count = .ok (Word.signSteps count.toNat value) ∧
      Word.signSteps count.toNat value = Word.signStep^[count.toNat] value) := by
  refine ⟨⟨_, rfl, Word.toNat_shiftLeft value count⟩, ⟨_, rfl, Word.toNat_shiftRight value count⟩,
    ⟨_, rfl, ?_⟩, fun hsign => ⟨?_, Word.signSteps_eq_iterate _ value⟩⟩
  · rw [Word.natCast_toNat, Word.toInt_arithShiftRight]
  · have hmsb : value.msb = true := by rwa [BitVec.msb_eq_getLsbD_last]
    rw [Word.signSteps_eq _ hmsb, ← Word.arithShiftRight_eq]
    rfl

theorem apply_shift_lowest :
    (0x80000000 : Word).getLsbD 31 = true ∧
    arithShiftRight.apply 0x80000000 0xFFFFFFFF =
      .ok (Word.signSteps (0xFFFFFFFF : Word).toNat 0x80000000) ∧
    Word.signSteps (0xFFFFFFFF : Word).toNat 0x80000000 =
      Word.signStep^[(0xFFFFFFFF : Word).toNat] 0x80000000 := by
  have hsign : (0x80000000 : Word).getLsbD 31 = true := by decide
  obtain ⟨-, -, -, hsteps⟩ := apply_shift 0x80000000 0xFFFFFFFF
  exact ⟨hsign, hsteps hsign⟩

end BinaryOp

end WordCalc
