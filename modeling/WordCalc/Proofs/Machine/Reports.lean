import WordCalc.Proofs.Lexeme.Splitting
import WordCalc.Proofs.Machine.Progress
import WordCalc.Proofs.Numeral.Written

/-! # Errors of texts

Scanning gives the reader what it relies on: spans that select their lexemes, literals that are
numerals, and an end of the text. An error about a text is therefore about a character, a lexeme or
the size of that text, and the reader's other errors do not occur.
-/

namespace WordCalc

variable {α : Type} {source : Text} {items : List Lexeme} {item : Lexeme} {e : ReadError}

/-- The span starts at a character of the text or behind the last one, and does not end before it
starts or behind the text. -/
def Span.StartsIn (source : Text) (span : Span) : Prop :=
  ∃ before after, source = before ++ after ∧ before.size = span.first ∧
    span.first ≤ span.last ∧ span.last ≤ source.size

/-- The error is about something that the text has. -/
inductive Concerns (source : Text) : ReadError → Prop
  | tooLong (size : maxSize < source.size) : Concerns source (.tooLong source.size)
  | unexpectedCharacter {before later : Text} {c : Char} (split : source = before ++ c :: later)
      (blank : Lexeme.isBlank c = false) (token : Token.longest? (c :: later) = none) :
      Concerns source (.unexpectedCharacter c (.one before.size))
  | badOperand {items : List Lexeme} {item : Lexeme} (scan : Lexeme.scan source = .ok items)
      (item_mem : item ∈ items) : Concerns source (.badOperand item.token item.span)
  | expectedClosingParen {items : List Lexeme} {item : Lexeme}
      (scan : Lexeme.scan source = .ok items) (item_mem : item ∈ items) :
      Concerns source (.expectedClosingParen item.token item.span)
  | expectedEnd {items : List Lexeme} {item : Lexeme} (scan : Lexeme.scan source = .ok items)
      (item_mem : item ∈ items) : Concerns source (.expectedEnd item.token item.span)
  | tooDeep {items : List Lexeme} {item : Lexeme} (scan : Lexeme.scan source = .ok items)
      (item_mem : item ∈ items) (opens : item.token.opensLevel = true) :
      Concerns source (.tooDeep item.span)
  | literalOverflow {items : List Lexeme} {item : Lexeme} {raw : Text}
      (scan : Lexeme.scan source = .ok items) (item_mem : item ∈ items)
      (token : item.token = .literal .hexadecimal) (text : item.span.select? source = some raw)
      (size : 2 ^ 32 ≤ Base.hexadecimal.numeral raw) :
      Concerns source (.literalOverflow raw item.span)

namespace Lexeme

theorem exists_select?_of_scan (h : scan source = .ok items) (hitem : item ∈ items)
    (htoken : item.token ≠ .endOfText) :
    ∃ raw, item.span.select? source = some raw ∧ item.token.IsSpelling raw := by
  obtain ⟨body, rfl, hbody⟩ := exists_of_scan h
  rcases List.mem_append.mp hitem with hitem | hlast
  · obtain ⟨raw, hraw, hselect⟩ := hbody.exists_select? [] rfl hitem
    exact ⟨raw, by simpa using hselect [], hraw⟩
  · rw [List.mem_singleton.mp hlast] at htoken
    exact absurd rfl htoken

theorem exists_text?_of_scan (h : scan source = .ok items) (hitem : item ∈ items) :
    ∃ raw, item.text? source = some raw := by
  by_cases htoken : item.token = .endOfText
  · exact ⟨[], if_pos htoken⟩
  · obtain ⟨raw, hselect, -⟩ := exists_select?_of_scan h hitem htoken
    exact ⟨raw, (if_neg htoken).trans hselect⟩

theorem startsIn_of_scan (h : scan source = .ok items) (hitem : item ∈ items) :
    item.span.StartsIn source := by
  by_cases htoken : item.token = .endOfText
  · obtain ⟨body, rfl, hbody⟩ := exists_of_scan h
    rcases List.mem_append.mp hitem with hitem | hlast
    · obtain ⟨raw, hraw, -⟩ := hbody.exists_select? [] rfl hitem
      rw [htoken] at hraw
      exact absurd hraw Token.not_isSpelling_endOfText
    · rw [List.mem_singleton.mp hlast]
      exact ⟨source, [], (List.append_nil _).symm, rfl, Nat.le_refl _, Nat.le_refl _⟩
  · obtain ⟨raw, hselect, hraw⟩ := exists_select?_of_scan h hitem htoken
    obtain ⟨before, after, rfl, hfirst, hlast⟩ := Span.select?_eq_some_iff.mp hselect
    have hpos := List.length_pos_iff.mpr hraw.shape.1
    have hsize := hraw.size
    refine ⟨before, raw ++ after, List.append_assoc .., hfirst, by omega, ?_⟩
    rw [Text.size_append, Text.size_append]
    omega

end Lexeme

namespace Machine

variable {a : Algebra Word α} {state next : State α}

theorem exists_accepted_of_step (htoken : item.token = .endOfText)
    (h : step a source state item = .ok next) : ∃ value, next = .accepted value := by
  cases takes_of_step h with
  | accept => exact ⟨_, rfl⟩
  | accepted => exact ⟨_, rfl⟩
  | _ token => simp [htoken, Token.unaryOp?] at token

end Machine

namespace Expr

open Machine

theorem ofLexemes_concat_ne_endOfItems (htoken : item.token = .endOfText) :
    ofLexemes source (items ++ [item]) ≠ .error .endOfItems := by
  rw [Ne, ofLexemes_eq_endOfItems_iff]
  rintro ⟨state, hafter, hstate⟩
  rw [after_append] at hafter
  obtain ⟨before, -, hstep⟩ := bind_eq_ok_iff.mp hafter
  rw [List.foldlM_cons] at hstep
  obtain ⟨next, hstep, hnext⟩ := bind_eq_ok_iff.mp hstep
  obtain ⟨value, rfl⟩ := exists_accepted_of_step htoken hstep
  obtain rfl := Except.ok.inj hnext
  exact hstate value rfl

theorem concerns_of_literalWord {base : Base} (hscan : Lexeme.scan source = .ok items)
    (hitem : item ∈ items) (htoken : item.token = .literal base)
    (h : literalWord source base item.span = .error e) : Concerns source e := by
  obtain ⟨raw, hselect, hraw⟩ :=
    Lexeme.exists_select?_of_scan hscan hitem (by simp [htoken])
  rw [htoken] at hraw
  have hnumeral : base.IsNumeral raw := hraw
  unfold literalWord at h
  cases hread : base.readLiteral raw with
  | ok value => simp [hselect, hread] at h
  | error fault =>
    obtain ⟨rfl, rfl, hlarge⟩ := hnumeral.of_readLiteral_eq_error hread
    simp only [hselect, hread] at h
    obtain rfl := Except.error.inj h
    exact .literalOverflow hscan hitem htoken hselect hlarge

theorem exists_refuses_of_ofLexemes (hscan : Lexeme.scan source = .ok items)
    (h : ofLexemes source items = .error e) :
    ∃ item ∈ items, ∃ state : State Expr, Refuses source state item e := by
  have hend : e ≠ .endOfItems := by
    rintro rfl
    obtain ⟨body, rfl, -⟩ := Lexeme.exists_of_scan hscan
    exact ofLexemes_concat_ne_endOfItems rfl h
  obtain ⟨front, item, back, state, rfl, -, hstep, -, -⟩ := exists_refused_of_ofLexemes h hend
  exact ⟨item, by simp, state, refuses_of_step hstep⟩

theorem exists_span?_of_ofLexemes (hscan : Lexeme.scan source = .ok items)
    (h : ofLexemes source items = .error e) :
    ∃ span, e.span? = some span ∧ span.StartsIn source := by
  obtain ⟨item, hitem, state, hrefuses⟩ := exists_refuses_of_ofLexemes hscan h
  exact ⟨item.span, hrefuses.span?_eq, Lexeme.startsIn_of_scan hscan hitem⟩

theorem concerns_of_ofLexemes (hscan : Lexeme.scan source = .ok items)
    (h : ofLexemes source items = .error e) :
    Concerns source e ∧ ∀ span ∈ e.span?, span.StartsIn source := by
  obtain ⟨item, hitem, state, hrefuses⟩ := exists_refuses_of_ofLexemes hscan h
  refine ⟨?_, fun span hspan => ?_⟩
  · cases hrefuses with
    | badOperand => exact .badOperand hscan hitem
    | literal token word => exact concerns_of_literalWord hscan hitem token word
    | tooDeep opens => exact .tooDeep hscan hitem opens
    | expectedClosingParen => exact .expectedClosingParen hscan hitem
    | expectedEnd => exact .expectedEnd hscan hitem
  · rw [hrefuses.span?_eq, Option.mem_some_iff] at hspan
    exact hspan ▸ Lexeme.startsIn_of_scan hscan hitem

theorem concerns_of_scan (h : Lexeme.scan source = .error e) :
    Concerns source e ∧ ∀ span ∈ e.span?, span.StartsIn source := by
  unfold Lexeme.scan at h
  split at h
  · rename_i hlong
    obtain rfl := Except.error.inj h
    exact ⟨.tooLong hlong, by simp [ReadError.span?]⟩
  · obtain ⟨before, c, later, items, rfl, hbefore, hblank, hlong, rfl⟩ :=
      Lexeme.scanFrom_eq_error_iff.mp h
    rw [Nat.zero_add, ← hbefore.size_eq_length]
    refine ⟨.unexpectedCharacter rfl hblank hlong, ?_⟩
    rintro span ⟨rfl⟩
    refine ⟨before, c :: later, rfl, rfl, Nat.le_refl _, ?_⟩
    rw [Text.size_append]
    exact Nat.le_add_right ..

/-- All lexemes of a text are found in it, and every error about a text is about something that it
has, at a place that it has. -/
theorem ofText_concerns (source : Text) :
    (∀ items, Lexeme.scan source = .ok items → ∀ item ∈ items, (item.text? source).isSome) ∧
    ∀ e, ofText source = .error e →
      Concerns source e ∧ ∀ span ∈ e.span?, span.StartsIn source := by
  refine ⟨fun items hscan item hitem => ?_, fun e h => ?_⟩
  · unfold Lexeme.text?
    split
    · rfl
    · rename_i htoken
      obtain ⟨raw, hselect, -⟩ := Lexeme.exists_select?_of_scan hscan hitem htoken
      rw [hselect]
      rfl
  · cases hscan : Lexeme.scan source with
    | error e' =>
      rw [ofText, hscan] at h
      obtain rfl := Except.error.inj h
      exact concerns_of_scan hscan
    | ok items =>
      rw [ofText, hscan] at h
      exact concerns_of_ofLexemes hscan h

theorem ofText_concerns_overflow :
    (Lexeme.text? ['2', '~'] ⟨.complement, ⟨1, 1⟩⟩).isSome = true ∧
    Concerns ['2', '*', '0', 'X', '1', '0', '0', '0', '0', '0', '0', '0', '0']
      (.literalOverflow ['0', 'X', '1', '0', '0', '0', '0', '0', '0', '0', '0'] ⟨2, 12⟩) ∧
    (⟨2, 2⟩ : Span).StartsIn ['2', ' ', '€', '1'] := by
  refine ⟨?_, ?_, ?_⟩
  · exact (ofText_concerns ['2', '~']).1 [⟨.literal .decimal, ⟨0, 0⟩⟩, ⟨.complement, ⟨1, 1⟩⟩,
      ⟨.endOfText, ⟨2, 2⟩⟩] rfl _ (by simp)
  · exact ((ofText_concerns _).2 _ rfl).1
  · have hread : ofText ['2', ' ', '€', '1'] = .error (.unexpectedCharacter '€' ⟨2, 2⟩) := rfl
    exact ((ofText_concerns _).2 _ hread).2 _ rfl

end Expr

end WordCalc
