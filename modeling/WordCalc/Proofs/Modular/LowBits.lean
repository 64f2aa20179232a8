import WordCalc.Proofs.Except
import WordCalc.Proofs.Modular.Integer
import WordCalc.Proofs.Print.Output

/-! # Low bits

The low bits of sums, products and bitwise combinations depend on no other bits of the operands, and
neither do those of a word that is moved up by a given count. Two expressions that differ in the
high bits of their literals only are therefore written alike at a width that leaves these out.
-/

namespace WordCalc

variable {width : Width} {bits : Nat} {e e' : Expr} {value value' left left' right right' : Word}
  {op : BinaryOp}

/-- The operators whose results have their low bits from those of both operands. -/
def BinaryOp.upward : List BinaryOp := [add, sub, mul, bitAnd, bitOr, bitXor]

/-- The expressions have the same shape, and their literals agree on the bits of the width. Of the
operators that move bits, only moving up by one and the same count occurs. -/
inductive Expr.SameLow (width : Width) : Expr → Expr → Prop
  | literal {value value' : Word} (low : value.toNat ≡ value'.toNat [MOD 2 ^ width.bits]) :
      SameLow width (.literal value) (.literal value')
  | unary (op : UnaryOp) {operand operand' : Expr} (h : SameLow width operand operand') :
      SameLow width (.unary op operand) (.unary op operand')
  | binary {op : BinaryOp} {lhs lhs' rhs rhs' : Expr} (op_mem : op ∈ BinaryOp.upward)
      (hl : SameLow width lhs lhs') (hr : SameLow width rhs rhs') :
      SameLow width (.binary op lhs rhs) (.binary op lhs' rhs')
  | shiftLeft {lhs lhs' count : Expr} {amount : Word} (hl : SameLow width lhs lhs')
      (count_eval : count.eval = .ok amount) :
      SameLow width (.binary .shiftLeft lhs count) (.binary .shiftLeft lhs' count)

theorem modEq_iff_setWidth : value.toNat ≡ value'.toNat [MOD 2 ^ bits] ↔
    value.setWidth bits = value'.setWidth bits := by
  rw [← BitVec.toNat_inj, BitVec.toNat_setWidth, BitVec.toNat_setWidth]
  rfl

theorem UnaryOp.setWidth_apply (op : UnaryOp) (hbits : bits ≤ 32)
    (h : value.setWidth bits = value'.setWidth bits) :
    (op.apply value).setWidth bits = (op.apply value').setWidth bits := by
  cases op with
  | negate =>
    simp only [apply, BitVec.ofNat_eq_ofNat, BitVec.zero_sub, BitVec.setWidth_neg_of_le hbits, h]
  | complement => rw [apply, apply, BitVec.setWidth_not hbits, BitVec.setWidth_not hbits, h]

theorem setWidth_sub (hbits : bits ≤ 32) (left right : Word) :
    (left - right).setWidth bits = left.setWidth bits - right.setWidth bits := by
  rw [BitVec.sub_eq_add_neg, BitVec.setWidth_add _ _ hbits, BitVec.setWidth_neg_of_le hbits,
    BitVec.sub_eq_add_neg]

theorem setWidth_shiftLeft (hbits : bits ≤ 32) (h : left.setWidth bits = left'.setWidth bits)
    (count : Word) :
    (left.shiftLeft count).setWidth bits = (left'.shiftLeft count).setWidth bits := by
  unfold Word.shiftLeft
  split
  · have hmul (word : Word) : word <<< count.toNat = word * BitVec.twoPow 32 count.toNat :=
      BitVec.shiftLeft_eq_mul_twoPow word count.toNat
    rw [hmul left, hmul left', BitVec.setWidth_mul _ _ hbits, BitVec.setWidth_mul _ _ hbits, h]
  · rfl

theorem BinaryOp.exists_apply_of_upward (hop : op ∈ upward) (hbits : bits ≤ 32)
    (hl : left.setWidth bits = left'.setWidth bits)
    (hr : right.setWidth bits = right'.setWidth bits) :
    ∃ result result', op.apply left right = .ok result ∧ op.apply left' right' = .ok result' ∧
      result.setWidth bits = result'.setWidth bits := by
  simp only [upward, List.mem_cons, List.not_mem_nil, or_false] at hop
  rcases hop with rfl | rfl | rfl | rfl | rfl | rfl
  · exact ⟨_, _, rfl, rfl, by
      rw [BitVec.setWidth_add _ _ hbits, BitVec.setWidth_add _ _ hbits, hl, hr]⟩
  · exact ⟨_, _, rfl, rfl, by rw [setWidth_sub hbits, setWidth_sub hbits, hl, hr]⟩
  · exact ⟨_, _, rfl, rfl, by
      rw [BitVec.setWidth_mul _ _ hbits, BitVec.setWidth_mul _ _ hbits, hl, hr]⟩
  · exact ⟨_, _, rfl, rfl, by rw [BitVec.setWidth_and, BitVec.setWidth_and, hl, hr]⟩
  · exact ⟨_, _, rfl, rfl, by rw [BitVec.setWidth_or, BitVec.setWidth_or, hl, hr]⟩
  · exact ⟨_, _, rfl, rfl, by rw [BitVec.setWidth_xor, BitVec.setWidth_xor, hl, hr]⟩

theorem Expr.SameLow.exists_eval (h : SameLow width e e') : ∃ value value', e.eval = .ok value ∧
    e'.eval = .ok value' ∧ value.setWidth width.bits = value'.setWidth width.bits := by
  have hbits := width.bits_le
  induction h with
  | literal hlow => exact ⟨_, _, rfl, rfl, modEq_iff_setWidth.mp hlow⟩
  | unary op _ ih =>
    obtain ⟨value, value', heval, heval', hlow⟩ := ih
    exact ⟨_, _, Expr.eval_unary_of_ok op heval, Expr.eval_unary_of_ok op heval',
      op.setWidth_apply hbits hlow⟩
  | binary hop _ _ ihl ihr =>
    obtain ⟨left, left', hl, hl', hlow⟩ := ihl
    obtain ⟨right, right', hr, hr', hlow'⟩ := ihr
    obtain ⟨result, result', happly, happly', hresult⟩ :=
      BinaryOp.exists_apply_of_upward hop hbits hlow hlow'
    exact ⟨result, result', (Expr.eval_binary_of_ok _ hl hr).trans happly,
      (Expr.eval_binary_of_ok _ hl' hr').trans happly', hresult⟩
  | shiftLeft _ hcount ih =>
    obtain ⟨left, left', hl, hl', hlow⟩ := ih
    exact ⟨_, _, Expr.eval_binary_of_ok _ hl hcount, Expr.eval_binary_of_ok _ hl' hcount,
      setWidth_shiftLeft hbits hlow _⟩

/-- Expressions whose literals agree on the low bits have values that agree there, and both are
written alike. -/
theorem Expr.eval_sameLow (h : SameLow width e e') : ∃ value value',
    e.eval = .ok value ∧ e'.eval = .ok value' ∧
    value.toNat ≡ value'.toNat [MOD 2 ^ width.bits] ∧
    ∀ base unsigned, Format.render ⟨base, width, unsigned⟩ value =
      Format.render ⟨base, width, unsigned⟩ value' := by
  obtain ⟨value, value', heval, heval', hlow⟩ := h.exists_eval
  have hmod := modEq_iff_setWidth.mpr hlow
  refine ⟨value, value', heval, heval', hmod, fun base unsigned => ?_⟩
  exact Format.render_congr (Width.and_mask_eq_iff.mpr hmod)

theorem Expr.eval_sameLow_nibble : ∃ value value',
    (binary .shiftLeft (unary .complement (literal 0x19))
      (binary .div (literal 5) (literal 2))).eval = .ok value ∧
    (binary .shiftLeft (unary .complement (literal 0x9))
      (binary .div (literal 5) (literal 2))).eval = .ok value' ∧
    value.toNat ≡ value'.toNat [MOD 2 ^ 4] ∧
    ∀ base unsigned,
      Format.render ⟨base, .w4, unsigned⟩ value = Format.render ⟨base, .w4, unsigned⟩ value' := by
  have hlow : (0x19 : Word).toNat ≡ (0x9 : Word).toNat [MOD 2 ^ Width.w4.bits] := by decide
  have hcount : (binary .div (literal 5) (literal 2)).eval = .ok 2 := rfl
  exact eval_sameLow (.shiftLeft (.unary .complement (.literal hlow)) hcount)

end WordCalc
