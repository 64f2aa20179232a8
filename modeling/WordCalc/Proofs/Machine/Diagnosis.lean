import WordCalc.Proofs.Machine.Viable

/-! # What an error says

The error that a list of lexemes comes to can be told from the lexeme that is refused, the token
in front of it, and the parentheses that are open there. That lexeme is the only one at which the
answer turns from an end that comes too early into an error.
-/

namespace WordCalc

variable {α : Type} {source : Text} {front items : List Lexeme} {item : Lexeme}
  {e e' : ReadError}

/-- Why a lexeme is refused behind others, as far as its own token, the last token in front of it
and the parentheses in front of it tell. -/
inductive Explains (source : Text) (front : List Lexeme) (item : Lexeme) : ReadError → Prop
  | invalidLiteral {base : Base} {raw : Text} (due : OperandDue front)
      (token : item.token = .literal base) (text : item.span.select? source = some raw)
      (word : base.readLiteral raw = .error .invalid) :
      Explains source front item (.invalidLiteral raw item.span)
  | literalOverflow {base : Base} {raw : Text} (due : OperandDue front)
      (token : item.token = .literal base) (text : item.span.select? source = some raw)
      (word : base.readLiteral raw = .error .overflow) :
      Explains source front item (.literalOverflow raw item.span)
  | tooDeep (due : OperandDue front) (opens : item.token.opensLevel = true) :
      Explains source front item (.tooDeep item.span)
  | badOperand (due : OperandDue front) (literal : item.token.isLiteral = false)
      (opens : item.token.opensLevel = false) :
      Explains source front item (.badOperand item.token item.span)
  | expectedClosingParen (done : ¬OperandDue front) (operator : item.token.binaryOp? = none)
      (unclosed : countToken .closeParen front < countToken .openParen front)
      (token : item.token ≠ .closeParen) :
      Explains source front item (.expectedClosingParen item.token item.span)
  | expectedEnd (done : ¬OperandDue front) (operator : item.token.binaryOp? = none)
      (closed : ¬countToken .closeParen front < countToken .openParen front)
      (token : item.token ≠ .endOfText) :
      Explains source front item (.expectedEnd item.token item.span)

namespace Explains

theorem span?_eq (h : Explains source front item e) : e.span? = some item.span := by
  cases h <;> rfl

theorem eq_of_due (h : Explains source front item e) (due : OperandDue front)
    (literal : item.token.isLiteral = false) :
    e = if item.token.opensLevel then .tooDeep item.span
      else .badOperand item.token item.span := by
  cases h with
  | invalidLiteral _ token => simp [token, Token.isLiteral] at literal
  | literalOverflow _ token => simp [token, Token.isLiteral] at literal
  | tooDeep _ opens => rw [if_pos opens]
  | badOperand _ _ opens => simp [opens]
  | expectedClosingParen done => exact absurd due done
  | expectedEnd done => exact absurd due done

theorem eq_of_done (h : Explains source front item e) (done : ¬OperandDue front) :
    e = if countToken .closeParen front < countToken .openParen front
      then .expectedClosingParen item.token item.span
      else .expectedEnd item.token item.span := by
  cases h with
  | expectedClosingParen _ _ unclosed => rw [if_pos unclosed]
  | expectedEnd _ _ closed => rw [if_neg closed]
  | invalidLiteral due => exact absurd due done
  | literalOverflow due => exact absurd due done
  | tooDeep due => exact absurd due done
  | badOperand due => exact absurd due done

theorem literal_cases {base : Base} (h : Explains source front item e)
    (due : OperandDue front) (htoken : item.token = .literal base) :
    ∃ raw, item.span.select? source = some raw ∧
      ((base.readLiteral raw = .error .invalid ∧ e = .invalidLiteral raw item.span) ∨
        (base.readLiteral raw = .error .overflow ∧ e = .literalOverflow raw item.span)) := by
  cases h with
  | @invalidLiteral base' raw _ token text word =>
    obtain rfl : base' = base := Token.literal.inj (token.symm.trans htoken)
    exact ⟨raw, text, Or.inl ⟨word, rfl⟩⟩
  | @literalOverflow base' raw _ token text word =>
    obtain rfl : base' = base := Token.literal.inj (token.symm.trans htoken)
    exact ⟨raw, text, Or.inr ⟨word, rfl⟩⟩
  | tooDeep _ opens => simp [htoken, Token.opensLevel] at opens
  | badOperand _ literal => simp [htoken, Token.isLiteral] at literal
  | expectedClosingParen done => exact absurd due done
  | expectedEnd done => exact absurd due done

/-- A lexeme is refused for one reason only. -/
theorem unique (h : Explains source front item e) (h' : Explains source front item e') :
    e = e' := by
  by_cases due : OperandDue front
  · cases hliteral : item.token.isLiteral with
    | false => rw [h.eq_of_due due hliteral, h'.eq_of_due due hliteral]
    | true =>
      obtain ⟨base, htoken⟩ : ∃ base, item.token = .literal base := by
        cases htoken : item.token <;> simp [htoken, Token.isLiteral] at hliteral ⊢
      obtain ⟨raw, htext, hword⟩ := h.literal_cases due htoken
      obtain ⟨raw', htext', hword'⟩ := h'.literal_cases due htoken
      obtain rfl : raw = raw' := Option.some.inj (htext.symm.trans htext')
      rcases hword with ⟨hword, rfl⟩ | ⟨hword, rfl⟩
      · rcases hword' with ⟨-, rfl⟩ | ⟨hword', rfl⟩
        · rfl
        · cases hword.symm.trans hword'
      · rcases hword' with ⟨hword', rfl⟩ | ⟨-, rfl⟩
        · cases hword.symm.trans hword'
        · rfl
  · rw [h.eq_of_done due, h'.eq_of_done due]

end Explains

namespace Machine

variable {state : State α}

theorem explains_of_literalWord {base : Base} (due : OperandDue front)
    (htoken : item.token = .literal base)
    (h : Expr.literalWord source base item.span = .error e) (hreadable : e.IsReadable) :
    Explains source front item e := by
  unfold Expr.literalWord at h
  cases hselect : item.span.select? source with
  | none =>
    simp only [hselect] at h
    exact absurd (Except.error.inj h).symm (hreadable item.span)
  | some raw =>
    simp only [hselect] at h
    split at h
    · cases h
    · rename_i hword
      cases h
      exact .invalidLiteral due htoken hselect hword
    · rename_i hword
      cases h
      exact .literalOverflow due htoken hselect hword

/-- Each refusal of the machine can be told from the lexemes alone. -/
theorem Refuses.explains (h : Refuses source state item e) (htracks : Tracks front state)
    (hreadable : e.IsReadable) : Explains source front item e := by
  cases h with
  | badOperand literal opens => exact .badOperand htracks.1 literal opens
  | literal token word => exact explains_of_literalWord htracks.1 token word hreadable
  | tooDeep opens => exact .tooDeep htracks.1 opens
  | @expectedClosingParen acc pending stack _ operator token =>
    obtain ⟨hdone, -, hcount⟩ := htracks
    have hunclosed : countToken .closeParen front < countToken .openParen front := by
      simp only [parens] at hcount
      omega
    exact .expectedClosingParen hdone operator hunclosed token
  | expectedEnd operator unopened token =>
    obtain ⟨hdone, hsettled, hcount⟩ := htracks
    rcases settled_cases hsettled with rfl | ⟨pending, below, hparen⟩
    · have hclosed : ¬countToken .closeParen front < countToken .openParen front := by
        simp only [parens] at hcount
        omega
      exact .expectedEnd hdone operator hclosed token
    · exact absurd hparen (unopened pending below)

end Machine

namespace Expr

open Machine

theorem ofLexemes_take_of_le {i j : Nat}
    (h : ofLexemes source (items.take i) ≠ .error .endOfItems) (hij : i ≤ j) :
    ofLexemes source (items.take j) = ofLexemes source (items.take i) := by
  obtain ⟨more, hmore⟩ : items.take i <+: items.take j := List.take_prefix_take_left hij
  rw [← hmore]
  exact ofLexemes_append h

theorem le_of_endOfItems {i j : Nat} (hend : e ≠ .endOfItems)
    (hi : ofLexemes source (items.take (i + 1)) = .error e)
    (hj : ofLexemes source (items.take j) = .error .endOfItems) : j ≤ i := by
  have hne : ofLexemes source (items.take (i + 1)) ≠ .error .endOfItems := by
    simpa [hi] using hend
  refine Nat.not_lt.mp fun hlt => hend ?_
  have hsame := ofLexemes_take_of_le hne hlt
  rw [hj, hi] at hsame
  exact (Except.error.inj hsame).symm

/-- There is one lexeme at which the answer turns into the error, and the error is what explains
it: nothing else does. -/
theorem ofLexemes_error_explained (h : ofLexemes source items = .error e)
    (hend : e ≠ .endOfItems) (hreadable : e.IsReadable) :
    ∃ i item, items[i]? = some item ∧ e.span? = some item.span ∧
      (∀ j, (ofLexemes source (items.take j) = .error .endOfItems ∧
        ofLexemes source (items.take (j + 1)) = .error e) ↔ j = i) ∧
      ∀ e', Explains source (items.take i) item e' ↔ e' = e := by
  obtain ⟨front, item, back, state, rfl, hafter, hitem, hfront, herror⟩ :=
    exists_refused_of_ofLexemes h hend
  have htake : (front ++ item :: back).take front.length = front := List.take_left
  have htake_succ : (front ++ item :: back).take (front.length + 1) = front ++ [item] := by
    rw [List.append_cons]
    exact List.take_left' (by simp)
  have hturn : ofLexemes source ((front ++ item :: back).take front.length) =
        .error .endOfItems ∧
      ofLexemes source ((front ++ item :: back).take (front.length + 1)) = .error e := by
    rw [htake, htake_succ]
    exact ⟨hfront, herror⟩
  have hexplains := (refuses_of_step hitem).explains (tracks_of_after hafter) hreadable
  refine ⟨front.length, item, by simp, hexplains.span?_eq, ?_, ?_⟩
  · intro j
    constructor
    · rintro ⟨hj, hj_succ⟩
      exact Nat.le_antisymm (le_of_endOfItems hend hturn.2 hj)
        (le_of_endOfItems hend hj_succ hturn.1)
    · rintro rfl
      exact hturn
  · intro e'
    rw [htake]
    constructor
    · intro h'
      exact h'.unique hexplains
    · rintro rfl
      exact hexplains

theorem ofLexemes_unclosed_group :
    ofLexemes ['(', '1', ' ', '2'] [⟨.openParen, ⟨0, 0⟩⟩, ⟨.literal .decimal, ⟨1, 1⟩⟩,
        ⟨.literal .decimal, ⟨3, 3⟩⟩] =
      .error (.expectedClosingParen (.literal .decimal) ⟨3, 3⟩) ∧
    ∀ e, Explains ['(', '1', ' ', '2'] [⟨.openParen, ⟨0, 0⟩⟩, ⟨.literal .decimal, ⟨1, 1⟩⟩]
        ⟨.literal .decimal, ⟨3, 3⟩⟩ e ↔
      e = .expectedClosingParen (.literal .decimal) ⟨3, 3⟩ := by
  have hread : ofLexemes ['(', '1', ' ', '2'] [⟨.openParen, ⟨0, 0⟩⟩,
      ⟨.literal .decimal, ⟨1, 1⟩⟩, ⟨.literal .decimal, ⟨3, 3⟩⟩] =
    .error (.expectedClosingParen (.literal .decimal) ⟨3, 3⟩) := rfl
  obtain ⟨i, item, hitem, -, hturn, hexplains⟩ :=
    ofLexemes_error_explained hread (by decide) (by intro span; simp)
  obtain rfl : 2 = i := (hturn 2).mp ⟨rfl, rfl⟩
  obtain rfl := Option.some.inj hitem
  exact ⟨hread, hexplains⟩

end Expr

end WordCalc
