import WordCalc.Proofs.Numeral.Written
import WordCalc.Proofs.Print.RoundTrip

/-! # Results as expressions

What is written for a word is an expression itself: a literal, or a negated one. Its value agrees
with the word on the low bits of the width, so a result can stand for its expression wherever no
wider result is asked for.
-/

namespace WordCalc

variable {word word' : Word}

namespace Width

theorem bits_le (width : Width) : width.bits ≤ 32 := by cases width <;> decide

theorem and_mask_congr {width width' : Width} (hle : width'.bits ≤ width.bits)
    (h : word &&& width.mask = word' &&& width.mask) :
    word &&& width'.mask = word' &&& width'.mask := by
  have hmask : width.mask &&& width'.mask = width'.mask := by
    revert hle
    cases width <;> cases width' <;> decide
  rw [← hmask, ← BitVec.and_assoc, ← BitVec.and_assoc, h]

end Width

theorem Expr.ofText_numeral {base : Base} {raw : Text} (hraw : base.IsNumeral raw)
    (hlength : raw.length ≤ maxSize) (hword : base.word? raw = some word) :
    ofText raw = .ok (.literal word) := by
  have hspelling : (Token.literal base).IsSpelling raw := hraw
  have hterminal : (Token.literal base).terminal? (Base.word? · raw) = some (.literal word) := by
    rw [Token.terminal?, hword]
    rfl
  refine ofText_eq_ok_iff.mpr ⟨?_, ⟨.literal word, .done⟩, ?_, Nat.zero_le _, rfl⟩
  · rwa [hspelling.size]
  · rw [← List.append_nil raw]
    exact .spelling hspelling bounds_nil.ends hterminal .nil

theorem length_toDigits_le_ten (word : Word) : (Nat.toDigits 10 word.toNat).length ≤ 10 := by
  have hword := word.isLt
  exact (Nat.length_toDigits_le_iff (by decide) (by decide)).mpr (by omega)

theorem Expr.ofText_negated (word : Word) :
    ofText ('-' :: Nat.toDigits 10 word.toNat) = .ok (.unary .negate (.literal word)) := by
  have hspelling : (Token.literal .decimal).IsSpelling (Nat.toDigits 10 word.toNat) :=
    Base.isNumeral_toDigits _
  have hlength := length_toDigits_le_ten word
  have hsign : '-'.utf8Size = 1 := by decide
  have hsize : Text.size ('-' :: Nat.toDigits 10 word.toNat) ≤ 4096 := by
    rw [Text.size_cons, hspelling.size, hsign]
    omega
  have hweight : 1 ≤ maxNesting := by decide
  exact ofText_print (e := .unary .negate (.literal word)) hsize hweight

namespace Format

variable {format : Format}

/-- The expression that is written for a word. -/
def written (format : Format) (word : Word) : Expr :=
  let value := word &&& format.width.mask
  if format.base = .decimal ∧ format.isNegative value = true then
    .unary .negate (.literal ((~~~value &&& format.width.mask) + 1))
  else .literal value

theorem ofText_decimalText (format : Format) (value : Word) :
    Expr.ofText (format.decimalText value) = .ok
      (if format.isNegative value then
        .unary .negate (.literal ((~~~value &&& format.width.mask) + 1))
      else .literal value) := by
  unfold decimalText
  split
  · exact Expr.ofText_negated _
  · have hlength : (Nat.toDigits 10 value.toNat).length ≤ 4096 :=
      Nat.le_trans (length_toDigits_le_ten value) (by decide)
    exact Expr.ofText_numeral (Base.isNumeral_toDigits _) hlength (Base.word?_toDigits value)

theorem ofText_digits {base : Base} {value : Word} {places : Nat} (hplaces : 0 < places)
    (hle : places ≤ 32) (hlt : value.toNat < base.radix ^ places) :
    Expr.ofText (base.marker ++ base.digits places value.toNat) = .ok (.literal value) := by
  have hmarker : base.marker.length ≤ 2 := by cases base <;> decide
  have hlength : (base.marker ++ base.digits places value.toNat).length ≤ 4096 := by
    rw [List.length_append, Base.length_digits]
    omega
  exact Expr.ofText_numeral (Base.isNumeral_digits hplaces _) hlength
    (Base.word?_digits hplaces hlt)

/-- What is written is read back. -/
theorem ofText_render (format : Format) (word : Word) :
    Expr.ofText (format.render word) = .ok (format.written word) := by
  have hlt := format.width.toNat_and_mask_lt word
  have hle := format.width.bits_le
  unfold render written
  cases hbase : format.base with
  | binary =>
    have hpos : 0 < format.width.bits := by cases format.width <;> decide
    exact ofText_digits hpos hle hlt
  | decimal =>
    have hread := format.ofText_decimalText (word &&& format.width.mask)
    simpa using hread
  | hexadecimal =>
    have hpos : 0 < format.width.bits / 4 := by cases format.width <;> decide
    have hpow : 2 ^ format.width.bits = 16 ^ (format.width.bits / 4) := by
      cases format.width <;> decide
    exact ofText_digits hpos (by omega) (hpow ▸ hlt)

theorem negate_and_mask {value : Word} (hneg : format.isNegative value = true)
    (hlt : value.toNat < 2 ^ format.width.bits) :
    (0 - ((~~~value &&& format.width.mask) + 1)) &&& format.width.mask = value := by
  have hpos : 0 < value.toNat :=
    Nat.lt_of_lt_of_le (Nat.two_pow_pos _) ((isNegative_iff hlt).mp hneg).2
  apply BitVec.eq_of_toNat_eq
  rw [Width.toNat_and_mask, BitVec.toNat_sub, toNat_negated hpos hlt]
  change (2 ^ 32 - (2 ^ format.width.bits - value.toNat) + 0) % 2 ^ 32 % 2 ^ format.width.bits = _
  cases hwidth : format.width <;> simp only [hwidth, Width.bits] at hlt ⊢ <;> omega

/-- The expression that is written keeps the bits of the width. -/
theorem eval_written (format : Format) (word : Word) :
    ∃ word', (format.written word).eval = .ok word' ∧
      word' &&& format.width.mask = word &&& format.width.mask := by
  simp only [written]
  split
  · rename_i h
    exact ⟨_, rfl, negate_and_mask h.2 (format.width.toNat_and_mask_lt word)⟩
  · exact ⟨_, rfl, by rw [BitVec.and_assoc, BitVec.and_self]⟩

theorem evaluate_render (format : Format) (word : Word) :
    ∃ word', Text.evaluate (format.render word) = .ok word' ∧
      word' &&& format.width.mask = word &&& format.width.mask := by
  obtain ⟨word', heval, hbits⟩ := format.eval_written word
  refine ⟨word', ?_, hbits⟩
  rw [Text.evaluate, ofText_render]
  simp [heval, Except.mapError]

end Format

namespace Options

theorem run_eq_ok_iff {options : Options} {output : String} : options.run = .ok output ↔
    ∃ word, Text.evaluate options.expression.toList = .ok word ∧
      String.ofList (options.format.render word) = output := by
  simp [run, bind_eq_ok_iff]

/-- A result, taken as an expression, gives all results of no greater width that its own expression
gives, and so gives itself. -/
theorem run_output {options : Options} {output : String} (h : options.run = .ok output) :
    (∀ format : Format, format.width.bits ≤ options.format.width.bits →
      run ⟨output, format⟩ = run ⟨options.expression, format⟩) ∧
    run ⟨output, options.format⟩ = .ok output := by
  obtain ⟨word, hword, rfl⟩ := run_eq_ok_iff.mp h
  obtain ⟨word', hword', hbits⟩ := options.format.evaluate_render word
  have hsame : ∀ format : Format, format.width.bits ≤ options.format.width.bits →
      run ⟨String.ofList (options.format.render word), format⟩ =
        run ⟨options.expression, format⟩ := by
    intro format hle
    have hrender := Format.render_congr (Width.and_mask_congr hle hbits)
    simp only [run, String.toList_ofList, hword, hword', ok_bind, hrender]
  exact ⟨hsame, (hsame options.format (Nat.le_refl _)).trans h⟩

theorem run_output_negative :
    Options.run ⟨"5-19", ⟨.decimal, .w8, false⟩⟩ = .ok "-14" ∧
    Options.run ⟨"-14", ⟨.binary, .w4, true⟩⟩ = .ok "0b0010" := by
  have hrun : Options.run ⟨"5-19", ⟨.decimal, .w8, false⟩⟩ = .ok "-14" := rfl
  have hnarrow := (run_output hrun).1 ⟨.binary, .w4, true⟩ (by decide)
  exact ⟨hrun, hnarrow.trans rfl⟩

end Options

end WordCalc
