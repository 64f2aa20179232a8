import WordCalc.Proofs.Lexeme.Cutting
import WordCalc.Proofs.Machine.Viable

/-! # Texts cut short

The beginning of a text that is an expression is read without an error up to its end, where it may
stop inside of a lexeme, in front of an operand that is due, or in an open group.
-/

namespace WordCalc

variable {α : Type} {source front back left : Text} {kept items later : List Lexeme}
  {item item' : Lexeme} {base base' : Base} {span : Span} {value : Word}

/-- What the beginning of an expression, of so many bytes, comes to. -/
inductive CutOutcome (size : Nat) : Except Error Word → Prop
  | value (value : Word) : CutOutcome size (.ok value)
  | divisionByZero : CutOutcome size (.error (.eval .divisionByZero))
  | unexpectedCharacter {c : Char} {position : Nat} (mem : c ∈ stuck) (last : position + 1 = size) :
      CutOutcome size (.error (.read (.unexpectedCharacter c (.one position))))
  | badOperand : CutOutcome size (.error (.read (.badOperand .endOfText (.one size))))
  | expectedClosingParen :
      CutOutcome size (.error (.read (.expectedClosingParen .endOfText (.one size))))

theorem Expr.literalWord_eq_ok_iff : literalWord source base span = .ok value ↔
    ∃ raw, span.select? source = some raw ∧ base.word? raw = some value := by
  rw [← wordAt_eq_some_iff, ← valueAt_word?, valueAt, Option.bind_eq_some_iff]

theorem Base.IsNumeral.exists_word?_of_append (h : base.IsNumeral left)
    (hword : base.word? (left ++ back) = some value) : ∃ value', base.word? left = some value' := by
  obtain ⟨mark, digits, rfl, hmark, hne, -⟩ := h
  rw [word?_eq_some_iff, List.append_assoc, readLiteral_append hmark (by simp [hne]),
    List.foldlM_append] at hword
  obtain ⟨value', hread, -⟩ := bind_eq_ok_iff.mp hword
  exact ⟨value', word?_eq_some_iff.mpr (by rw [readLiteral_append hmark hne, hread])⟩

namespace Machine

variable {a : Algebra Word α} {state next : State α}

theorem exists_after_append {e : Expr} (h : Expr.ofLexemes source (items ++ later) = .ok e) :
    ∃ state last, after .tree source items = .ok state ∧
      later.foldlM (step .tree source) state = .ok last := by
  rw [Expr.ofLexemes_eq_after, after_append] at h
  obtain ⟨last, hafter, -⟩ := bind_eq_ok_iff.mp h
  obtain ⟨state, hstate, hlast⟩ := bind_eq_ok_iff.mp hafter
  exact ⟨state, last, hstate, hlast⟩

/-- A state that takes one literal takes every other one that can be read. -/
theorem exists_step_literal (htoken : item.token = .literal base)
    (htoken' : item'.token = .literal base')
    (hword : ∀ value, Expr.literalWord source base item.span = .ok value →
      ∃ value', Expr.literalWord front base' item'.span = .ok value')
    (h : step a source state item = .ok next) : ∃ next', step a front state item' = .ok next' := by
  cases takes_of_step h with
  | literal token word =>
    obtain rfl : base = _ := Token.literal.inj (htoken.symm.trans token)
    obtain ⟨value', hvalue'⟩ := hword _ word
    exact ⟨_, step_of_takes (.literal htoken' hvalue')⟩
  | accepted => exact ⟨_, step_of_takes .accepted⟩
  | _ token => simp [htoken, Token.unaryOp?] at token

theorem after_append_text (back : Text)
    (hselect : ∀ item ∈ items, ∃ raw, item.span.select? source = some raw) :
    after a (source ++ back) items = after a source items := by
  refine foldlM_append_text back fun span hspan => ?_
  obtain ⟨front, item, behind, state, rfl, -, hstep⟩ := exists_refused hspan
  cases refuses_of_step hstep with
  | literal token word =>
    obtain ⟨raw, hraw⟩ := hselect item (by simp)
    unfold Expr.literalWord at word
    rw [hraw] at word
    dsimp only at word
    split at word <;> cases word

end Machine

namespace Text

open Machine

theorem cutOutcome_of_eval (size : Nat) (e : Expr) : CutOutcome size (e.eval.mapError .eval) := by
  rcases e.eval with ⟨⟨⟩⟩ | value
  · exact .divisionByZero
  · exact .value value

/-- Behind lexemes that are all taken, the end of the text is taken too, or it shows what is
missing. -/
theorem cutOutcome_of_after {state : State Expr} (hsize : source.size ≤ maxSize)
    (hkept : CoversBefore [] 0 source kept) (h : after .tree source kept = .ok state) :
    CutOutcome source.size (evaluate source) := by
  have hread : Expr.ofText source =
      step .tree source state ⟨.endOfText, .one source.size⟩ >>= result := by
    rw [Expr.ofText, hkept.scan hsize, ok_bind, Expr.ofLexemes_eq_after, after_append, h, ok_bind,
      List.foldlM_cons]
    exact congrArg (· >>= result) (bind_pure _)
  rw [evaluate, hread]
  cases state with
  | due pending stack => exact .badOperand
  | done acc stack =>
    rcases stack with _ | ⟨_ | _, _⟩
    · exact cutOutcome_of_eval _ acc
    · exact cutOutcome_of_eval _ acc
    · exact .expectedClosingParen
  | accepted e => exact cutOutcome_of_eval _ e

theorem cutOutcome_of_stuck {c : Char} (hsize : (front ++ [c]).size ≤ maxSize)
    (hkept : CoversBefore [c] 0 front kept) (hc : c ∈ stuck) :
    CutOutcome (front ++ [c]).size (evaluate (front ++ [c])) := by
  have hpos : 0 < (front ++ [c]).size := by
    rw [size_concat front (stuck_shape c hc).1]
    exact Nat.succ_pos _
  rw [evaluate, Expr.ofText, Lexeme.scan_stuck hsize hkept hc]
  exact .unexpectedCharacter hc (Nat.sub_add_cancel hpos)

theorem cutOutcome_of_numeral {state : State Expr}
    (hsize : (front ++ left).size ≤ maxSize) (hkept : CoversBefore left 0 front kept)
    (hafter : after .tree front kept = .ok state) (hleft : base'.IsNumeral left)
    (htoken : item.token = .literal base)
    (hstep : ∃ next, step .tree source state item = .ok next)
    (hword : ∀ value, Expr.literalWord source base item.span = .ok value →
      ∃ value', base'.word? left = some value') :
    CutOutcome (front ++ left).size (evaluate (front ++ left)) := by
  have hall := hkept.numeral_cut hleft
  rw [Nat.zero_add, ← hkept.size_eq_length] at hall
  have hraw : (Token.literal base').IsSpelling left := hleft
  have hselect : (⟨front.size, front.size + (left.length - 1)⟩ : Span).select?
      (front ++ (left ++ [])) = some left := select?_spelling hraw
  rw [List.append_nil] at hselect
  have hkeep : after .tree (front ++ left) kept = .ok state := by
    rw [after_append_text left hkept.exists_select?_self, hafter]
  have hread : ∀ value, Expr.literalWord source base item.span = .ok value → ∃ value',
      Expr.literalWord (front ++ left) base' ⟨front.size, front.size + (left.length - 1)⟩ =
        .ok value' := by
    intro value hvalue
    obtain ⟨value', hvalue'⟩ := hword value hvalue
    exact ⟨value', Expr.literalWord_eq_ok_iff.mpr ⟨left, hselect, hvalue'⟩⟩
  obtain ⟨next, hstep⟩ := hstep
  obtain ⟨next', hnext⟩ : ∃ next', step .tree (front ++ left) state
      ⟨.literal base', ⟨front.size, front.size + (left.length - 1)⟩⟩ = .ok next' :=
    exists_step_literal htoken rfl hread hstep
  have hafter : after .tree (front ++ left) (kept ++
      [⟨.literal base', ⟨front.size, front.size + (left.length - 1)⟩⟩]) = .ok next' := by
    rw [after_append, hkeep, ok_bind, List.foldlM_cons, hnext]
    rfl
  exact cutOutcome_of_after hsize hall hafter

/-- Cut inside of a lexeme that the machine takes, a text is left with a numeral that can be read,
or it is stuck at its last character. -/
theorem cutOutcome_of_straddles {state next : State Expr}
    (hsize : (front ++ left).size ≤ maxSize) (hkept : CoversBefore left 0 front kept)
    (hafter : after .tree front kept = .ok state) (hcut : Straddles left back front.size items)
    (hitems : (items ++ later).foldlM (step .tree (front ++ (left ++ back))) state = .ok next) :
    CutOutcome (front ++ left).size (evaluate (front ++ left)) := by
  cases hcut with
  | @lexeme token _ right behind _ items hleft hright hspelling =>
    rw [List.cons_append, List.foldlM_cons] at hitems
    obtain ⟨next, hstep, -⟩ := bind_eq_ok_iff.mp hitems
    cases hspelling.leavesOf hleft hright with
    | @numeral base htoken hnumeral =>
      refine cutOutcome_of_numeral hsize hkept hafter hnumeral htoken ⟨next, hstep⟩ ?_
      intro value hvalue
      obtain ⟨raw, hraw, hword⟩ := Expr.literalWord_eq_ok_iff.mp hvalue
      have hwhole : (⟨front.size, front.size + ((left ++ right).length - 1)⟩ : Span).select?
          (front ++ (left ++ right ++ behind)) = some (left ++ right) := select?_spelling hspelling
      rw [List.append_assoc left] at hwhole
      rw [← Option.some.inj (hwhole.symm.trans hraw)] at hword
      exact hnumeral.exists_word?_of_append hword
    | @zero base htoken hzero =>
      subst hzero
      exact cutOutcome_of_numeral hsize hkept hafter Base.isNumeral_zero htoken ⟨next, hstep⟩
        fun _ _ => ⟨0, rfl⟩
    | @letter base letter htoken hletter heq =>
      subst heq
      rw [List.append_cons] at hsize ⊢
      exact cutOutcome_of_stuck hsize (hkept.letter_cut hletter) (mem_stuck_of_ofLetter? hletter)
    | @operator c heq hc =>
      subst heq
      exact cutOutcome_of_stuck hsize hkept (by rcases hc with rfl | rfl <;> decide)

/-- Each beginning of an expression, cut at whatever byte, comes to a value or a division by zero,
or it fails at its end. -/
theorem evaluate_cut {e : Expr} {n : Nat} (h : Expr.ofText source = .ok e) (hn : n ≤ source.size) :
    ∃ front, source.takeBytes? n = some front ∧ CutOutcome n (evaluate front) := by
  obtain ⟨items, hscan, hread⟩ := bind_eq_ok_iff.mp h
  obtain ⟨hsize, hcovers⟩ := Lexeme.scan_eq_ok_iff.mp hscan
  obtain ⟨body, rfl, hbody⟩ := covers_iff.mp hcovers
  obtain ⟨front, back, rfl, rfl⟩ := exists_append_of_size hbody.size_eq_length hn
  refine ⟨front, takeBytes?_size_append front back, ?_⟩
  obtain ⟨before, left, kept, later, rfl, rfl, hkept, hcut⟩ := hbody.cuts
  have hfront : (before ++ left).size ≤ maxSize := by
    rw [size_append] at hsize
    omega
  simp only [List.append_assoc] at hread
  obtain ⟨state, last, hmiddle, hlater⟩ := exists_after_append hread
  rw [after_append_text (left ++ back) hkept.exists_select?_self] at hmiddle
  rcases hcut with rfl | hcut
  · rw [List.append_nil] at hfront ⊢
    exact cutOutcome_of_after hfront hkept.clean_cut hmiddle
  · rw [Nat.zero_add, ← hkept.size_eq_length] at hcut
    exact cutOutcome_of_straddles hfront (hkept.kept_cut hcut) hmiddle hcut hlater

theorem evaluate_cut_marker :
    Expr.ofText ['1', '+', '0', 'x', '2'] = .ok (.binary .add (.literal 1) (.literal 2)) ∧
    ∃ front, takeBytes? 4 ['1', '+', '0', 'x', '2'] = some front ∧
      CutOutcome 4 (evaluate front) := by
  have hread : Expr.ofText ['1', '+', '0', 'x', '2'] =
      .ok (.binary .add (.literal 1) (.literal 2)) := rfl
  exact ⟨hread, evaluate_cut hread (by decide)⟩

end Text

end WordCalc
