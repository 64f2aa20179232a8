import WordCalc.Proofs.Machine.Progress

/-! # Lists that can be completed

Lexemes that end too early can always be completed: by a literal if an operand is due, a closing
parenthesis for each open one, and the end of the text. An error is therefore found at the first
lexeme with which no completion is left.
-/

namespace WordCalc

variable {α : Type} {source : Text} {items more : List Lexeme} {item : Lexeme} {e : ReadError}

/-- The lexemes are the beginning of an expression, for some longer text. -/
def Viable (source : Text) (items : List Lexeme) : Prop :=
  ∃ text more expr, Expr.ofLexemes (source ++ text) (items ++ more) = .ok expr

/-- The error is not about a span that misses the text. -/
def ReadError.IsReadable (e : ReadError) : Prop := ∀ span, e ≠ .unreadable span

theorem Span.select?_append {span : Span} {piece : Text} (h : span.select? source = some piece)
    (text : Text) : span.select? (source ++ text) = some piece := by
  obtain ⟨before, after, rfl, hfirst, hlast⟩ := Span.select?_eq_some_iff.mp h
  exact Span.select?_eq_some_iff.mpr ⟨before, after ++ text, by simp, hfirst, hlast⟩

theorem Expr.literalWord_append {base : Base} {span : Span}
    (h : literalWord source base span ≠ .error (.unreadable span)) (text : Text) :
    literalWord (source ++ text) base span = literalWord source base span := by
  unfold literalWord at h ⊢
  cases hselect : span.select? source with
  | none => simp [hselect] at h
  | some raw => rw [Span.select?_append hselect text]

namespace Machine

variable {a : Algebra Word α} {state next : State α} {pending : Pending α}
  {stack : List (Frame α)}

theorem step_append (h : step a source state item ≠ .error (.unreadable item.span))
    (text : Text) : step a (source ++ text) state item = step a source state item := by
  cases state with
  | due pending stack =>
    cases hs : item.token.start? with
    | none => simp only [step, hs]
    | some start =>
      cases start with
      | literal base =>
        simp only [step, hs] at h ⊢
        rw [Expr.literalWord_append ?_ text]
        intro hword
        simp [hword] at h
      | unary op => simp only [step, hs]
      | group => simp only [step, hs]
  | done acc stack => rfl
  | accepted value => rfl

theorem foldlM_append_text (text : Text)
    (h : ∀ span, items.foldlM (step a source) state ≠ .error (.unreadable span)) :
    items.foldlM (step a (source ++ text)) state = items.foldlM (step a source) state := by
  induction items generalizing state with
  | nil => rfl
  | cons item items ih =>
    rw [List.foldlM_cons] at h
    have hstep : step a source state item ≠ .error (.unreadable item.span) := by
      intro hstep
      exact h item.span (by rw [hstep]; rfl)
    rw [List.foldlM_cons, List.foldlM_cons, step_append hstep]
    cases hnext : step a source state item with
    | error e => rfl
    | ok next =>
      rw [hnext, ok_bind] at h
      exact ih h

section Completion

def closing (opened : Nat) : List Lexeme :=
  List.replicate opened ⟨.closeParen, .one 0⟩ ++ [⟨.endOfText, .one 0⟩]

theorem foldlM_closing (a : Algebra Word α) (source : Text) (acc : α) (h : Settled stack) :
    ∃ value, (closing (parens stack)).foldlM (step a source) (.done acc stack) =
      .ok (.accepted value) := by
  induction hopened : parens stack generalizing acc stack with
  | zero =>
    rcases settled_cases h with rfl | ⟨pending, below, rfl⟩
    · exact ⟨acc, rfl⟩
    · cases hopened
  | succ opened ih =>
    rcases settled_cases h with rfl | ⟨pending, below, rfl⟩
    · cases hopened
    · obtain ⟨acc', below', hcomplete, hsettled, hparens⟩ := exists_complete a pending acc below
      obtain ⟨value, hvalue⟩ := ih acc' hsettled (hparens.trans (Nat.succ.inj hopened))
      refine ⟨value, ?_⟩
      have hclosing : closing (opened + 1) = ⟨.closeParen, .one 0⟩ :: closing opened := rfl
      rw [hclosing, List.foldlM_cons, step_of_takes (.close rfl), hcomplete]
      exact hvalue

theorem literalWord_zero (source : Text) :
    Expr.literalWord (source ++ ['0']) .decimal (.one source.size) = .ok 0 := by
  have hselect : (Span.one source.size).select? (source ++ ['0']) = some ['0'] :=
    Span.select?_eq_some_iff.mpr ⟨source, [], by simp, rfl, rfl⟩
  unfold Expr.literalWord
  rw [hselect]
  rfl

/-- From every state of an unfinished reading, some lexemes lead to its end. -/
theorem exists_accepted (a : Algebra Word α) (source : Text) {front : List Lexeme}
    (h : Tracks front state) (hstate : Unfinished state) : ∃ (more : List Lexeme) (value : α),
      more.foldlM (step a (source ++ ['0'])) state = .ok (.accepted value) := by
  cases state with
  | due pending stack =>
    obtain ⟨acc, below, hcomplete, hsettled, -⟩ := exists_complete a pending (a.literal 0) stack
    obtain ⟨value, hvalue⟩ := foldlM_closing a (source ++ ['0']) acc hsettled
    refine ⟨⟨.literal .decimal, .one source.size⟩ :: closing (parens below), value, ?_⟩
    have hstep : step a (source ++ ['0']) (.due pending stack)
        ⟨.literal .decimal, .one source.size⟩ = .ok (.done acc below) := by
      rw [← hcomplete]
      exact step_of_takes (.literal rfl (literalWord_zero source))
    rw [List.foldlM_cons, hstep]
    exact hvalue
  | done acc stack =>
    obtain ⟨value, hvalue⟩ := foldlM_closing a (source ++ ['0']) acc h.2.1
    exact ⟨_, value, hvalue⟩
  | accepted value => exact absurd rfl (hstate value)

end Completion

end Machine

namespace Expr

open Machine

theorem ofLexemes_append_text (text : Text)
    (h : ∀ span, ofLexemes source items ≠ .error (.unreadable span)) :
    ofLexemes (source ++ text) items = ofLexemes source items := by
  rw [ofLexemes_eq_after] at h
  have hafter : ∀ span, after .tree source items ≠ .error (.unreadable span) := by
    intro span hspan
    exact h span (by rw [hspan]; rfl)
  rw [ofLexemes_eq_after, ofLexemes_eq_after]
  exact congrArg (· >>= result) (foldlM_append_text text hafter)

theorem viable_of_endOfItems (h : ofLexemes source items = .error .endOfItems) :
    Viable source items := by
  obtain ⟨state, hafter, hstate⟩ := ofLexemes_eq_endOfItems_iff.mp h
  obtain ⟨more, expr, hmore⟩ := exists_accepted .tree source (tracks_of_after hafter) hstate
  have hlonger : after .tree (source ++ ['0']) items = .ok state :=
    (foldlM_append_text ['0'] fun span hspan => by cases hafter.symm.trans hspan).trans hafter
  refine ⟨['0'], more, expr, ?_⟩
  rw [ofLexemes_eq_after, after_append, hlonger, ok_bind, hmore]
  rfl

/-- Nothing that follows makes up for an error. -/
theorem not_viable_of_error (h : ofLexemes source items = .error e) (hend : e ≠ .endOfItems)
    (hreadable : e.IsReadable) : ¬Viable source items := by
  rintro ⟨text, more, expr, hexpr⟩
  have hlonger : ofLexemes (source ++ text) items = .error e := by
    rw [ofLexemes_append_text text, h]
    intro span hspan
    exact hreadable span (Except.error.inj (h.symm.trans hspan))
  rw [ofLexemes_append (by simpa [hlonger] using hend), hlonger] at hexpr
  cases hexpr

/-- An answer is never revised. Lexemes that end too early are those of which no expression is
made yet, but still can be; and an error is found at the first lexeme with which none can be. -/
theorem ofLexemes_decided (source : Text) (items : List Lexeme) :
    (ofLexemes source items ≠ .error .endOfItems →
      ∀ more, ofLexemes source (items ++ more) = ofLexemes source items) ∧
    (ofLexemes source items = .error .endOfItems → Viable source items) ∧
    (∀ e, ofLexemes source items = .error e → e ≠ .endOfItems → e.IsReadable →
      ∃ front item back, items = front ++ item :: back ∧ e.span? = some item.span ∧
        Viable source front ∧ ¬Viable source (front ++ [item])) ∧
    ((∀ e, ofLexemes source items = .error e → e.IsReadable) →
      (ofLexemes source items = .error .endOfItems ↔
        (∀ expr, ofLexemes source items ≠ .ok expr) ∧ Viable source items)) := by
  refine ⟨fun h more => ofLexemes_append h, viable_of_endOfItems, ?_, ?_⟩
  · intro e h hend hreadable
    obtain ⟨front, item, back, state, rfl, -, hitem, hfront, herror⟩ :=
      exists_refused_of_ofLexemes h hend
    exact ⟨front, item, back, rfl, (refuses_of_step hitem).span?_eq, viable_of_endOfItems hfront,
      not_viable_of_error herror hend hreadable⟩
  · intro hreadable
    constructor
    · intro h
      exact ⟨by simp [h], viable_of_endOfItems h⟩
    · rintro ⟨hno, hviable⟩
      cases hread : ofLexemes source items with
      | ok expr => exact absurd hread (hno expr)
      | error e =>
        by_cases hend : e = .endOfItems
        · rw [hend]
        · exact absurd hviable (not_viable_of_error hread hend (hreadable e hread))

theorem ofLexemes_open_group :
    Viable ['(', '1', '-'] [⟨.openParen, ⟨0, 0⟩⟩, ⟨.literal .decimal, ⟨1, 1⟩⟩,
      ⟨.operator .sub, ⟨2, 2⟩⟩] ∧
    ∀ more, ofLexemes ['(', '1', '1'] ([⟨.openParen, ⟨0, 0⟩⟩, ⟨.literal .decimal, ⟨1, 1⟩⟩,
        ⟨.literal .decimal, ⟨2, 2⟩⟩] ++ more) =
      .error (.expectedClosingParen (.literal .decimal) ⟨2, 2⟩) := by
  constructor
  · exact (ofLexemes_decided _ _).2.1 rfl
  · have hread : ofLexemes ['(', '1', '1'] [⟨.openParen, ⟨0, 0⟩⟩, ⟨.literal .decimal, ⟨1, 1⟩⟩,
        ⟨.literal .decimal, ⟨2, 2⟩⟩] =
      .error (.expectedClosingParen (.literal .decimal) ⟨2, 2⟩) := rfl
    intro more
    exact ((ofLexemes_decided _ _).1 (by simp [hread]) more).trans hread

end Expr

end WordCalc
