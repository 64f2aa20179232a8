import WordCalc.Proofs.Grammar.Derivation

/-! # Unambiguity

No operand is the beginning of another one, and a chain ends only where no binary operator
follows. Terminals therefore have at most one derivation.
-/

namespace WordCalc

variable {ν : Type}

/-- No binary operator comes next, so a chain cannot go on. -/
def Halts (rest : List (Terminal ν)) : Prop := ∀ op later, rest ≠ .operator op :: later

theorem halts_nil : Halts ([] : List (Terminal ν)) := by
  intro op later h
  cases h

theorem halts_closeParen (rest : List (Terminal ν)) : Halts (.closeParen :: rest) := by
  intro op later h
  cases h

mutual

/-- An operand shows its own end. -/
theorem Operand.eq_of_append : ∀ (o o' : Operand ν) {rest rest' : List (Terminal ν)},
    o.terminals ++ rest = o'.terminals ++ rest' → o = o' ∧ rest = rest'
  | .literal value, .literal value', _, _, h => by
    simpa using h
  | .literal value, .unary op' operand', _, _, h => by
    simp only [Operand.terminals, List.cons_append, List.cons.injEq] at h
    exact absurd h.1.symm (op'.terminal_ne_literal value)
  | .literal _, .group _ _, _, _, h => by simp at h
  | .unary op operand, .literal value', _, _, h => by
    simp only [Operand.terminals, List.cons_append, List.cons.injEq] at h
    exact absurd h.1 (op.terminal_ne_literal value')
  | .unary op operand, .unary op' operand', _, _, h => by
    simp only [Operand.terminals, List.cons_append, List.cons.injEq] at h
    obtain ⟨hop, hrest⟩ := h
    obtain ⟨rfl, rfl⟩ := operand.eq_of_append operand' hrest
    exact ⟨by rw [UnaryOp.terminal_injective hop], rfl⟩
  | .unary op operand, .group _ _, _, _, h => by
    simp only [Operand.terminals, List.cons_append, List.cons.injEq] at h
    exact absurd h.1 op.terminal_ne_openParen
  | .group _ _, .literal _, _, _, h => by simp at h
  | .group _ _, .unary op' operand', _, _, h => by
    simp only [Operand.terminals, List.cons_append, List.cons.injEq] at h
    exact absurd h.1.symm op'.terminal_ne_openParen
  | .group first tail, .group first' tail', _, _, h => by
    simp only [Operand.terminals, List.cons_append, List.cons.injEq, true_and, List.append_assoc,
      List.nil_append] at h
    obtain ⟨rfl, hTail⟩ := first.eq_of_append first' h
    obtain ⟨rfl, hClose⟩ := tail.eq_of_append tail' (halts_closeParen _) (halts_closeParen _) hTail
    exact ⟨rfl, (List.cons.inj hClose).2⟩

theorem Tail.eq_of_append : ∀ (t t' : Tail ν) {rest rest' : List (Terminal ν)},
    Halts rest → Halts rest' → t.terminals ++ rest = t'.terminals ++ rest' → t = t' ∧ rest = rest'
  | .done, .done, _, _, _, _, h => ⟨rfl, h⟩
  | .done, .more .., _, _, hrest, _, h => absurd h (hrest _ _)
  | .more .., .done, _, _, _, hrest', h => absurd h.symm (hrest' _ _)
  | .more op operand tail, .more op' operand' tail', _, _, hrest, hrest', h => by
    simp only [Tail.terminals, List.cons_append, List.append_assoc, List.cons.injEq,
      Terminal.operator.injEq] at h
    obtain ⟨rfl, hOperand⟩ := h
    obtain ⟨rfl, hTail⟩ := operand.eq_of_append operand' hOperand
    obtain ⟨rfl, hEnd⟩ := tail.eq_of_append tail' hrest hrest' hTail
    exact ⟨rfl, hEnd⟩

end

/-- A chain is determined by its terminals. -/
theorem Chain.terminals_injective : Function.Injective (Chain.terminals (ν := ν)) := by
  rintro ⟨first, tail⟩ ⟨first', tail'⟩ h
  obtain ⟨rfl, hTail⟩ := first.eq_of_append first' h
  obtain ⟨rfl, -⟩ := tail.eq_of_append tail' halts_nil halts_nil (congrArg (· ++ []) hTail)
  rfl

end WordCalc
