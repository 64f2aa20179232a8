import WordCalc.Proofs.Grammar.Spelling
import WordCalc.Proofs.Print.Canonical

/-! # Printing and reading

The text of a derivation, written without blanks, spells its terminals: no literal runs into
what stands behind it. No text that spells the same terminals is shorter. The canonical text
of an expression is therefore read back, and is a shortest text of it.
-/

namespace WordCalc

variable {rest text : Text} {terminals : List (Terminal Word)}

namespace Spells

theorem literal (value : Word) (hbounds : Bounds rest) (h : Spells Base.word? rest terminals) :
    Spells Base.word? (Nat.toDigits 10 value.toNat ++ rest) (.literal value :: terminals) := by
  have hraw : (Token.literal .decimal).IsSpelling (Nat.toDigits 10 value.toNat) :=
    Base.isNumeral_toDigits _
  refine .spelling hraw hbounds.ends ?_ h
  simp [Token.terminal?, Base.word?_toDigits]

theorem symbol {raw : Text} {token : Token} {t : Terminal Word}
    (hraw : (raw, token) ∈ Token.symbols)
    (ht : token.terminal? (Base.word? · raw) = some t) (h : Spells Base.word? rest terminals) :
    Spells Base.word? (raw ++ rest) (t :: terminals) :=
  .spelling (Token.isSpelling_of_mem_symbols hraw) (Token.ends_of_mem_symbols hraw) ht h

theorem operator (op : BinaryOp) (h : Spells Base.word? rest terminals) :
    Spells Base.word? (op.symbol ++ rest) (.operator op :: terminals) :=
  symbol (operator_mem_symbols op) rfl h

theorem unary (op : UnaryOp) (h : Spells Base.word? rest terminals) :
    Spells Base.word? (op.symbol ++ rest) (op.terminal :: terminals) := by
  cases op with
  | negate => exact operator .sub h
  | complement => exact symbol complement_mem_symbols rfl h

end Spells

mutual

theorem Operand.spells : ∀ (o : Operand Word) {rest : Text} {terminals : List (Terminal Word)},
    Bounds rest → Spells Base.word? rest terminals →
      Spells Base.word? (Terminal.texts o.terminals ++ rest) (o.terminals ++ terminals)
  | .literal value, _, _, hbounds, h => by
    simpa [Terminal.text] using h.literal value hbounds
  | .unary op operand, _, _, hbounds, h => by
    simpa using (operand.spells hbounds h).unary op
  | .group first tail, rest, _, _, h => by
    have hclose := h.symbol closeParen_mem_symbols rfl
    obtain ⟨htail, hbounds⟩ := tail.spells (bounds_append closeParen_mem_symbols rest) hclose
    have hopen := (first.spells hbounds htail).symbol openParen_mem_symbols rfl
    simpa [Terminal.text] using hopen

theorem Tail.spells : ∀ (t : Tail Word) {rest : Text} {terminals : List (Terminal Word)},
    Bounds rest → Spells Base.word? rest terminals →
      Spells Base.word? (Terminal.texts t.terminals ++ rest) (t.terminals ++ terminals) ∧
        Bounds (Terminal.texts t.terminals ++ rest)
  | .done, _, _, hbounds, h => ⟨h, hbounds⟩
  | .more op operand tail, _, _, hbounds, h => by
    obtain ⟨htail, hoperand⟩ := tail.spells hbounds h
    constructor
    · simpa [Terminal.text] using (operand.spells hoperand htail).operator op
    · simpa [Terminal.text] using bounds_append (operator_mem_symbols op) _

end

/-- The text of a chain spells it, although nothing separates its terminals. -/
theorem Chain.spells (c : Chain Word) :
    Spells Base.word? (Terminal.texts c.terminals) c.terminals := by
  obtain ⟨htail, hbounds⟩ := c.tail.spells bounds_nil .nil
  simpa [terminals] using c.first.spells hbounds htail

theorem Token.terminal?_of_not_isLiteral {ν : Type} {value value' : Base → Option ν} {token : Token}
    (h : token.isLiteral = false) : token.terminal? value = token.terminal? value' := by
  cases token with
  | literal => cases h
  | _ => rfl

theorem text_of_mem_symbols {raw : Text} {token : Token} {t : Terminal Word}
    {value : Base → Option Word} (h : (raw, token) ∈ Token.symbols)
    (ht : token.terminal? value = some t) : t.text = raw := by
  have hsymbols : ∀ x ∈ Token.symbols, x.2.isLiteral = false ∧
      (x.2.terminal? fun _ => (none : Option Word)).map Terminal.text = some x.1 := by decide
  obtain ⟨hliteral, htext⟩ := hsymbols _ h
  rw [Token.terminal?_of_not_isLiteral hliteral, ht] at htext
  exact Option.some.inj htext

theorem size_text_le {raw : Text} {token : Token} {t : Terminal Word} (hraw : token.IsSpelling raw)
    (ht : token.terminal? (Base.word? · raw) = some t) : t.text.size ≤ raw.size := by
  cases token with
  | literal base =>
    obtain ⟨value, hword, rfl⟩ := Option.map_eq_some_iff.mp ht
    have hdecimal : (Token.literal .decimal).IsSpelling (Nat.toDigits 10 value.toNat) :=
      Base.isNumeral_toDigits _
    rw [Terminal.text, hdecimal.size, hraw.size]
    exact Base.length_toDigits_le hraw hword
  | _ => exact Nat.le_of_eq (congrArg Text.size (text_of_mem_symbols hraw ht))

theorem Spells.size_texts_le (h : Spells Base.word? text terminals) :
    (Terminal.texts terminals).size ≤ text.size := by
  induction h with
  | nil => exact Nat.le_refl 0
  | blank _ _ ih => exact Nat.le_trans ih (Nat.le_add_left ..)
  | spelling hraw _ ht _ ih =>
    have ht := size_text_le hraw ht
    rw [Terminal.texts_cons, Text.size_append, Text.size_append]
    omega

namespace Expr

variable {e : Expr}

theorem size_print_le (h : ofText text = .ok e) : e.print.size ≤ text.size := by
  obtain ⟨-, c, hspells, -, rfl⟩ := ofText_eq_ok_iff.mp h
  exact Nat.le_trans c.size_print_le hspells.size_texts_le

theorem weight_le (h : ofText text = .ok e) : e.weight ≤ maxNesting := by
  obtain ⟨-, c, -, hnesting, rfl⟩ := ofText_eq_ok_iff.mp h
  exact Nat.le_trans c.weight_le hnesting

theorem ofText_print (hsize : e.print.size ≤ maxSize) (hweight : e.weight ≤ maxNesting) :
    ofText e.print = .ok e := by
  refine ofText_eq_ok_iff.mpr ⟨hsize, e.canonical, ?_, ?_, e.tree_canonical⟩
  · rw [← e.texts_canonical]
    exact e.canonical.spells
  · rwa [e.nesting_canonical]

/-- An expression has a text exactly if its canonical text is not too long and its weight is
within the nesting limit. The canonical text is then read back, and no text of it is shorter. -/
theorem ofText_print_iff (e : Expr) :
    ((∃ text, ofText text = .ok e) ↔ e.print.size ≤ maxSize ∧ e.weight ≤ maxNesting) ∧
    (e.print.size ≤ maxSize → e.weight ≤ maxNesting → ofText e.print = .ok e) ∧
    ∀ text, ofText text = .ok e → e.print.size ≤ text.size := by
  refine ⟨⟨?_, ?_⟩, ofText_print, fun text => size_print_le⟩
  · rintro ⟨text, h⟩
    obtain ⟨hsize, -⟩ := ofText_eq_ok_iff.mp h
    exact ⟨Nat.le_trans (size_print_le h) hsize, weight_le h⟩
  · rintro ⟨hsize, hweight⟩
    exact ⟨e.print, ofText_print hsize hweight⟩

theorem ofText_print_shift :
    (binary .shiftRight (literal 8) (unary .negate (binary .sub (literal 1) (literal 2)))).weight =
      2 ∧
    ofText ['8', '>', '>', '-', '(', '1', '-', '2', ')'] = .ok
      (binary .shiftRight (literal 8) (unary .negate (binary .sub (literal 1) (literal 2)))) := by
  let e : Expr :=
    binary .shiftRight (literal 8) (unary .negate (binary .sub (literal 1) (literal 2)))
  have hsize : e.print.size ≤ maxSize := by decide
  have hweight : e.weight ≤ maxNesting := by decide
  exact ⟨rfl, (ofText_print_iff e).2.1 hsize hweight⟩

end Expr

end WordCalc
