import WordCalc.Word

/-! # Shifts by any count

A count that is itself a word moves the bits by that number of places, however large it is. The
sign steps of a negative word are an arithmetic shift, and stop where that changes nothing more.
-/

namespace WordCalc.Word

theorem le_toNat_of_not_lt {count : Word} (h : ¬count < 32) : 32 ≤ count.toNat := by
  rw [BitVec.lt_def] at h
  exact Nat.le_of_not_lt h

theorem shiftRight_eq (value count : Word) : shiftRight value count = value >>> count.toNat := by
  unfold shiftRight
  split
  · rfl
  · rename_i hcount
    exact (BitVec.ushiftRight_eq_zero (le_toNat_of_not_lt hcount)).symm

theorem shiftLeft_eq (value count : Word) : shiftLeft value count = value <<< count.toNat := by
  unfold shiftLeft
  split
  · rfl
  · rename_i hcount
    exact (BitVec.shiftLeft_eq_zero (le_toNat_of_not_lt hcount)).symm

section Signs

theorem getLsbD_signBit (i : Nat) : signBit.getLsbD i = decide (i = 31) := by
  by_cases hi : i < 32
  · revert i
    decide
  · rw [BitVec.getLsbD_of_ge _ _ (Nat.le_of_not_lt hi)]
    simp only [Bool.false_eq, decide_eq_false_iff_not]
    omega

theorem and_signBit_eq_zero_iff {value : Word} : value &&& signBit = 0 ↔ value.msb = false := by
  constructor
  · intro h
    have hbit : (value &&& signBit).getLsbD 31 = false := by rw [h]; rfl
    rw [BitVec.getLsbD_and, getLsbD_signBit] at hbit
    simpa [BitVec.msb_eq_getLsbD_last] using hbit
  · intro h
    apply BitVec.eq_of_getLsbD_eq
    intro i hi
    rw [BitVec.msb_eq_getLsbD_last] at h
    rw [BitVec.getLsbD_and, getLsbD_signBit]
    by_cases hlast : i = 31
    · simpa [hlast] using h
    · simp [hlast]

theorem signStep_eq {value : Word} (h : value.msb = true) :
    signStep value = value.sshiftRight 1 := by
  apply BitVec.eq_of_getLsbD_eq
  intro i hi
  rw [signStep, BitVec.getLsbD_or, getLsbD_signBit, BitVec.getLsbD_ushiftRight,
    BitVec.getLsbD_sshiftRight, h]
  by_cases hlast : i = 31
  · simp [hlast]
  · have hinside : 1 + i < 32 := by omega
    simp [hlast, hi, hinside]

theorem sshiftRight_allOnes (count : Nat) :
    (BitVec.allOnes 32).sshiftRight count = BitVec.allOnes 32 := by
  apply BitVec.eq_of_getLsbD_eq
  intro i hi
  have hsign : (BitVec.allOnes 32).msb = true := rfl
  rw [BitVec.getLsbD_sshiftRight, BitVec.getLsbD_allOnes, BitVec.getLsbD_allOnes, hsign]
  simp only [hi, Nat.not_le_of_lt hi, decide_true, decide_false, Bool.not_false, Bool.true_and]
  split <;> simp_all

theorem signSteps_eq (count : Nat) {value : Word} (h : value.msb = true) :
    signSteps count value = value.sshiftRight count := by
  induction count generalizing value with
  | zero => simp [signSteps]
  | succ count ih =>
    by_cases hall : value = BitVec.allOnes 32
    · rw [signSteps, if_pos hall, hall, sshiftRight_allOnes]
    · have hstep : (signStep value).msb = true := by rw [signStep_eq h, BitVec.msb_sshiftRight, h]
      rw [signSteps, if_neg hall, ih hstep, signStep_eq h, ← BitVec.sshiftRight_add,
        Nat.add_comm]

theorem arithShiftRight_eq (value count : Word) :
    arithShiftRight value count = value.sshiftRight count.toNat := by
  unfold arithShiftRight
  split
  · rename_i hsign
    rw [shiftRight_eq, BitVec.sshiftRight_eq_of_msb_false (and_signBit_eq_zero_iff.mp hsign)]
  · rename_i hsign
    rw [and_signBit_eq_zero_iff, Bool.not_eq_false] at hsign
    exact signSteps_eq count.toNat hsign

end Signs

variable (value count count' : Word)

theorem shiftRight_right_comm :
    shiftRight (shiftRight value count) count' = shiftRight (shiftRight value count') count := by
  simp only [shiftRight_eq, ← BitVec.shiftRight_add]
  rw [Nat.add_comm]

theorem shiftLeft_right_comm :
    shiftLeft (shiftLeft value count) count' = shiftLeft (shiftLeft value count') count := by
  simp only [shiftLeft_eq, ← BitVec.shiftLeft_add]
  rw [Nat.add_comm]

theorem arithShiftRight_right_comm :
    arithShiftRight (arithShiftRight value count) count' =
      arithShiftRight (arithShiftRight value count') count := by
  simp only [arithShiftRight_eq, ← BitVec.sshiftRight_add]
  rw [Nat.add_comm]

end WordCalc.Word
