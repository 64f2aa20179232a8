import WordCalc.Proofs.Machine.Levels

/-! # The nesting limit

On its stack the machine has a frame for each level that is open, and for nothing else. One more
level is refused exactly where the limit of them is open, so what is nested within the limit is
never refused for depth.
-/

namespace WordCalc

variable {α : Type} {source : Text} {front body items : List Lexeme} {item last : Lexeme}

namespace Machine

variable {a : Algebra Word α} {stack : List (Frame α)} {pending : Pending α} {state next : State α}

/-- The lexemes have opened the frames of the state, and these are within the limit. -/
def Holds (source : Text) (front : List Lexeme) : State α → Prop
  | .due _ stack => Opened source front stack ∧ stack.length ≤ maxNesting
  | .done _ stack => Settled stack ∧ stack.length ≤ maxNesting ∧
      ∃ (before body : List Lexeme) (o : Operand Word), front = before ++ body ∧
        Opened source before stack ∧ Writes (wordAt source) body o.terminals
  | .accepted _ => True

theorem holds_complete {o : Operand Word} (a : Algebra Word α) (pending : Pending α) (value : α)
    (h : Opened source front stack) (hroom : stack.length ≤ maxNesting)
    (hw : Writes (wordAt source) body o.terminals) :
    Holds source (front ++ body) (complete a pending value stack) := by
  induction stack generalizing front body o value with
  | nil => exact ⟨settled_nil, hroom, front, body, o, rfl, h, hw⟩
  | cons frame below ih =>
    cases frame with
    | paren saved => exact ⟨settled_paren, hroom, front, body, o, rfl, h, hw⟩
    | unary op =>
      cases h with
      | joined _ hsettled => exact absurd rfl (hsettled op below)
      | @unary front _ item _ h hop =>
        have ht : item.terminal? (wordAt source) = some op.terminal :=
          terminal?_eq_unary_iff.mpr (Token.start?_eq_unary_iff.mpr hop)
        have hroom : below.length ≤ maxNesting := Nat.le_of_succ_le hroom
        rw [List.append_assoc]
        exact ih (o := .unary op o) (a.unary op value) h hroom (.cons ht hw)

/-- Behind the chain in a group, its closing parenthesis completes it. -/
theorem Opened.close (h : Opened source front (.paren pending :: stack)) {c : Chain Word}
    (hw : Writes (wordAt source) body c.terminals) (hclose : last.token = .closeParen) :
    ∃ (before group : List Lexeme) (o : Operand Word), front ++ (body ++ [last]) = before ++ group ∧
      Opened source before stack ∧ Writes (wordAt source) group o.terminals := by
  generalize hframes : Frame.paren pending :: stack = frames at h
  induction h generalizing body c with
  | nil => cases hframes
  | unary => cases hframes
  | @paren front below item saved h htoken =>
    obtain ⟨-, rfl⟩ := List.cons.inj hframes
    exact ⟨front, item :: (body ++ [last]), .group c.first c.tail, by simp, h,
      writes_group_iff.mpr ⟨item, body, last, rfl, htoken, hclose, hw⟩⟩
  | @joined front operand below o item op h hsettled hoperand hop ih =>
    obtain ⟨before, group, whole, heq, hbefore, hgroup⟩ := ih (c := ⟨o, .more op c.first c.tail⟩)
      (hoperand.append (.cons (terminal?_eq_operator_iff.mpr hop) hw)) hframes
    exact ⟨before, group, whole, by rw [← heq]; simp, hbefore, hgroup⟩

theorem step_holds (h : Holds source front state) (hstep : step a source state item = .ok next) :
    Holds source (front ++ [item]) next := by
  cases takes_of_step hstep with
  | @literal pending _ _ base value token word =>
    obtain ⟨hopened, hroom⟩ := h
    have ht : item.terminal? (wordAt source) = some (.literal value) :=
      terminal?_eq_literal_iff.mpr
        ⟨base, Token.start?_eq_literal_iff.mpr token, wordAt_eq_some_iff.mpr word⟩
    exact holds_complete (o := .literal value) a pending _ hopened hroom (.cons ht (by simp))
  | unary token room =>
    obtain ⟨hopened, -⟩ := h
    exact ⟨.unary hopened token, room⟩
  | group token room =>
    obtain ⟨hopened, -⟩ := h
    exact ⟨.paren hopened token, room⟩
  | operator token =>
    obtain ⟨hsettled, hroom, before, body, o, rfl, hopened, hw⟩ := h
    rw [List.append_assoc]
    exact ⟨.joined hopened hsettled hw (Token.binaryOp?_eq_some_iff.mpr token), hroom⟩
  | @close acc pending _ _ token =>
    obtain ⟨-, hroom, before, body, o, rfl, hopened, hw⟩ := h
    obtain ⟨outer, group, whole, heq, houter, hgroup⟩ :=
      hopened.close (c := ⟨o, .done⟩) (by simpa [Chain.terminals] using hw) token
    rw [List.append_assoc, heq]
    exact holds_complete a pending acc houter (Nat.le_of_succ_le hroom) hgroup
  | accept => trivial
  | accepted => trivial

theorem holds_of_after (h : after a source items = .ok state) : Holds source items state := by
  have hstart : Holds source [] (start : State α) := ⟨.nil, Nat.zero_le _⟩
  exact foldlM_keeps step_holds hstart h

theorem openLevels_eq_length (h : after a source front = .ok (.due pending stack)) :
    openLevels source front = stack.length := by
  obtain ⟨-, hcount⟩ := tracks_of_after h
  obtain ⟨hopened, -⟩ := holds_of_after h
  rw [openLevels, hopened.waiting_eq, ← parens_add_unaries, unclosed]
  omega

theorem exists_enter (a : Algebra Word α) (source : Text) (pending : Pending α)
    (stack : List (Frame α)) (h : item.token.opensLevel = true) : ∃ inner frame,
    step a source (.due pending stack) item = enter item.span inner (frame :: stack) := by
  cases hs : item.token.start? with
  | none => simp [(Token.start?_eq_none_iff.mp hs).2] at h
  | some start =>
    cases start with
    | literal base => simp [Token.start?_eq_literal_iff.mp hs, Token.opensLevel] at h
    | unary op => exact ⟨pending, .unary op, by simp only [step, hs]⟩
    | group => exact ⟨none, .paren pending, by simp only [step, hs]⟩

theorem literalWord_ne_tooDeep {base : Base} {span span' : Span} :
    Expr.literalWord source base span ≠ .error (.tooDeep span') := by
  unfold Expr.literalWord
  split
  · simp
  · split <;> simp

/-- A level is refused exactly where one is due to be opened and the stack is full. -/
theorem step_eq_tooDeep_iff {span : Span} :
    step a source state item = .error (.tooDeep span) ↔ ∃ pending stack,
      state = .due pending stack ∧ item.token.opensLevel = true ∧ maxNesting ≤ stack.length ∧
        item.span = span := by
  constructor
  · intro h
    cases refuses_of_step h with
    | literal _ word => exact absurd word literalWord_ne_tooDeep
    | @tooDeep pending stack _ opens =>
      obtain ⟨inner, frame, hstep⟩ := exists_enter a source pending stack opens
      obtain ⟨-, hfull⟩ := enter_eq_error_iff.mp (hstep.symm.trans h)
      exact ⟨pending, stack, rfl, opens, Nat.le_of_lt_succ hfull, rfl⟩
  · rintro ⟨pending, stack, rfl, opens, hfull, rfl⟩
    obtain ⟨inner, frame, hstep⟩ := exists_enter a source pending stack opens
    exact hstep.trans (enter_eq_error_iff.mpr ⟨rfl, Nat.lt_succ_of_le hfull⟩)

/-- Either all is taken and the state is as it should be, or the refusal is not for depth. -/
def Passes (taken : Except ReadError (State α)) (P : State α → Prop) : Prop :=
  match taken with
  | .ok state => P state
  | .error e => ∀ span, e ≠ .tooDeep span

theorem Passes.imp {taken : Except ReadError (State α)} {P Q : State α → Prop}
    (h : Passes taken P) (hPQ : ∀ state, P state → Q state) : Passes taken Q := by
  cases taken with
  | ok state => exact hPQ state h
  | error e => exact h

theorem Passes.bind {taken : Except ReadError (State α)} {P Q : State α → Prop}
    {more : State α → Except ReadError (State α)} (h : Passes taken P)
    (hmore : ∀ state, P state → Passes (more state) Q) : Passes (taken >>= more) Q := by
  cases taken with
  | ok state => exact hmore state h
  | error e => exact h

end Machine

open Machine

variable {a : Algebra Word α} {stack : List (Frame α)} {ν : Type} {value : Base → Span → Option ν}

mutual

theorem Operand.passes : ∀ (o : Operand ν) {items : List Lexeme} {pending : Pending α}
    {stack : List (Frame α)}, Writes value items o.terminals →
      stack.length + o.nesting ≤ maxNesting →
      Passes (items.foldlM (step a source) (.due pending stack)) fun next =>
        ∃ result, next = complete a pending result stack
  | .literal n, _, pending, stack, hw, _ => by
    obtain ⟨item, later, rfl, ht, hw⟩ := writes_cons_iff.mp hw
    obtain rfl := writes_nil_iff.mp hw
    obtain ⟨base, hs, -⟩ := terminal?_eq_literal_iff.mp ht
    simp only [List.foldlM_cons, List.foldlM_nil, step, hs]
    cases hword : Expr.literalWord source base item.span with
    | ok word => exact ⟨_, rfl⟩
    | error e =>
      rintro span rfl
      exact literalWord_ne_tooDeep hword
  | .unary op operand, _, pending, stack, hw, hn => by
    obtain ⟨item, later, rfl, ht, hw⟩ := writes_cons_iff.mp hw
    rw [Operand.nesting] at hn
    have htoken := Token.start?_eq_unary_iff.mp (terminal?_eq_unary_iff.mp ht)
    have hopen : step a source (.due pending stack) item =
        .ok (.due pending (.unary op :: stack)) := step_of_takes (.unary htoken (by omega))
    rw [List.foldlM_cons, hopen, ok_bind]
    refine (operand.passes hw ?_).imp ?_
    · rw [List.length_cons]
      omega
    · rintro _ ⟨result, rfl⟩
      exact ⟨a.unary op result, rfl⟩
  | .group first tail, _, pending, stack, hw, hn => by
    obtain ⟨opening, inner, closing, rfl, hopening, hclosing, hw⟩ := writes_group_iff.mp hw
    obtain ⟨front, back, rfl, hfirst, htail⟩ := writes_append_iff.mp hw
    rw [Operand.nesting] at hn
    have hopen : step a source (.due pending stack) opening =
        .ok (.due none (.paren pending :: stack)) := step_of_takes (.group hopening (by omega))
    rw [List.foldlM_cons, hopen, ok_bind, List.append_assoc, List.foldlM_append]
    refine (first.passes hfirst (by rw [List.length_cons]; omega)).bind ?_
    rintro _ ⟨acc, rfl⟩
    rw [List.foldlM_append]
    refine (tail.passes settled_paren htail (by rw [List.length_cons]; omega)).bind ?_
    rintro _ ⟨result, rfl⟩
    rw [List.foldlM_cons, step_of_takes (.close hclosing)]
    exact ⟨result, rfl⟩

theorem Tail.passes : ∀ (t : Tail ν) {items : List Lexeme} {acc : α}
    {stack : List (Frame α)}, Settled stack → Writes value items t.terminals →
      stack.length + t.nesting ≤ maxNesting →
      Passes (items.foldlM (step a source) (.done acc stack)) fun next =>
        ∃ result, next = .done result stack
  | .done, _, acc, stack, _, hw, _ => by
    obtain rfl := writes_nil_iff.mp hw
    exact ⟨acc, rfl⟩
  | .more op operand tail, _, acc, stack, hsettled, hw, hn => by
    obtain ⟨item, later, rfl, ht, hw⟩ := writes_cons_iff.mp hw
    obtain ⟨front, back, rfl, hoperand, htail⟩ := writes_append_iff.mp hw
    rw [Tail.nesting] at hn
    simp only [List.foldlM_cons, step, terminal?_eq_operator_iff.mp ht, ok_bind,
      List.foldlM_append]
    refine (operand.passes hoperand (by omega)).bind ?_
    rintro _ ⟨result, rfl⟩
    rw [complete_of_settled hsettled]
    exact tail.passes hsettled htail (by omega)

end

namespace Expr

variable {e : ReadError} {span : Span}

/-- Lexemes that write a chain within the limit are not refused for depth, whatever its literals are
worth and whatever stands behind it. -/
theorem ne_tooDeep_of_nesting {c : Chain ν} (hw : Writes value body c.terminals)
    (hn : c.nesting ≤ maxNesting) (hhalt : ∀ next ∈ items.head?, next.token.binaryOp? = none) :
    ofLexemes source (body ++ items) ≠ .error (.tooDeep span) := by
  obtain ⟨front, back, rfl, hfirst, htail⟩ := writes_append_iff.mp hw
  obtain ⟨hnfirst, hntail⟩ := Nat.max_le.mp hn
  have hpasses : Passes (after .tree source (front ++ back)) fun next =>
      ∃ result, next = .done result [] := by
    rw [after, List.foldlM_append]
    refine (c.first.passes hfirst (by simpa using hnfirst)).bind ?_
    rintro _ ⟨acc, rfl⟩
    exact c.tail.passes settled_nil htail (by simpa using hntail)
  rw [ofLexemes_eq_after, after_append]
  cases hafter : after .tree source (front ++ back) with
  | error e =>
    rw [hafter] at hpasses
    simpa using hpasses span
  | ok state =>
    rw [hafter] at hpasses
    obtain ⟨result, rfl⟩ := hpasses
    cases items with
    | nil => simp [Machine.result]
    | cons last later =>
      rw [ok_bind, List.foldlM_cons, step_done_nil (hhalt last rfl)]
      by_cases hlast : last.token = .endOfText
      · rw [if_pos hlast, ok_bind, foldlM_accepted]
        simp [Machine.result]
      · simp [if_neg hlast]

theorem exists_tooDeep (h : ofLexemes source items = .error (.tooDeep span)) :
    ∃ i item, items[i]? = some item ∧ item.span = span ∧ item.token.opensLevel = true ∧
      ofLexemes source (items.take i) = .error .endOfItems ∧ OperandDue (items.take i) ∧
      openLevels source (items.take i) = maxNesting := by
  obtain ⟨front, item, back, state, rfl, hafter, hitem, hfront, -⟩ :=
    exists_refused_of_ofLexemes h (by simp)
  obtain ⟨pending, stack, rfl, hopens, hfull, hspan⟩ := step_eq_tooDeep_iff.mp hitem
  obtain ⟨hdue, -⟩ := tracks_of_after hafter
  obtain ⟨-, hroom⟩ := holds_of_after hafter
  have htake : (front ++ item :: back).take front.length = front := List.take_left
  refine ⟨front.length, item, by simp, hspan, hopens, ?_⟩
  rw [htake, openLevels_eq_length hafter]
  exact ⟨hfront, hdue, Nat.le_antisymm hroom hfull⟩

theorem ofLexemes_of_tooDeep {i : Nat} (hitem : items[i]? = some item)
    (hopens : item.token.opensLevel = true)
    (hend : ofLexemes source (items.take i) = .error .endOfItems) (hdue : OperandDue (items.take i))
    (hfull : openLevels source (items.take i) = maxNesting) :
    ofLexemes source items = .error (.tooDeep item.span) := by
  obtain ⟨state, hafter, hstate⟩ := ofLexemes_eq_endOfItems_iff.mp hend
  have htracks := tracks_of_after hafter
  cases state with
  | accepted value => exact absurd rfl (hstate value)
  | done acc stack => exact absurd hdue htracks.1
  | due pending stack =>
    have hstep : step .tree source (.due pending stack) item = .error (.tooDeep item.span) := by
      rw [step_eq_tooDeep_iff]
      exact ⟨pending, stack, rfl, hopens, by rw [← openLevels_eq_length hafter, hfull], rfl⟩
    obtain ⟨hlt, hget⟩ := List.getElem?_eq_some_iff.mp hitem
    have hsplit : items = items.take i ++ item :: items.drop (i + 1) := by
      rw [← hget, ← List.drop_eq_getElem_cons hlt, List.take_append_drop]
    rw [hsplit, ofLexemes_eq_after, after_append, hafter, ok_bind, List.foldlM_cons, hstep]
    rfl

/-- The limit is exact. One more level is refused exactly where it is due to be opened while as many
as the limit allows are open; an operand that is complete leaves none open; and what is nested
within the limit is not refused. -/
theorem ofLexemes_eq_tooDeep_iff (source : Text) (items : List Lexeme) (span : Span) :
    (ofLexemes source items = .error (.tooDeep span) ↔
      ∃ i item, items[i]? = some item ∧ item.span = span ∧ item.token.opensLevel = true ∧
        ofLexemes source (items.take i) = .error .endOfItems ∧ OperandDue (items.take i) ∧
        openLevels source (items.take i) = maxNesting) ∧
    (∀ (front body : List Lexeme) (o : Operand Word), Writes (wordAt source) body o.terminals →
      openLevels source (front ++ body) ≤ openLevels source front) ∧
    ∀ (body rest : List Lexeme) (c : Chain Unit), items = body ++ rest →
      Writes (fun _ _ => some ()) body c.terminals → c.nesting ≤ maxNesting →
      (∀ next ∈ rest.head?, next.token.binaryOp? = none) →
      ofLexemes source items ≠ .error (.tooDeep span) := by
  refine ⟨⟨exists_tooDeep, ?_⟩, fun front body o hw => openLevels_append_le front hw, ?_⟩
  · rintro ⟨i, item, hitem, rfl, hopens, hend, hdue, hfull⟩
    exact ofLexemes_of_tooDeep hitem hopens hend hdue hfull
  · rintro body rest c rfl hw hn hhalt
    exact ne_tooDeep_of_nesting hw hn hhalt

theorem ofLexemes_minus_row :
    (∃ (items : List Lexeme) (i : Nat) (item : Lexeme),
      items = List.replicate 257 ⟨.operator .sub, ⟨0, 0⟩⟩ ∧ items[i]? = some item ∧
      item.span = ⟨0, 0⟩ ∧ item.token.opensLevel = true ∧
      ofLexemes [] (items.take i) = .error .endOfItems ∧ OperandDue (items.take i) ∧
      openLevels [] (items.take i) = 256) ∧
    openLevels ['-', '1'] ([⟨.openParen, ⟨7, 7⟩⟩] ++
        [⟨.operator .sub, ⟨0, 0⟩⟩, ⟨.literal .decimal, ⟨1, 1⟩⟩]) ≤
      openLevels ['-', '1'] [⟨.openParen, ⟨7, 7⟩⟩] ∧
    ofLexemes [] [⟨.openParen, ⟨0, 0⟩⟩, ⟨.literal .binary, ⟨1, 1⟩⟩, ⟨.closeParen, ⟨2, 2⟩⟩] ≠
      .error (.tooDeep ⟨0, 0⟩) := by
  refine ⟨?_, ?_, ?_⟩
  · have hrow : ofLexemes [] (List.replicate 257 ⟨.operator .sub, ⟨0, 0⟩⟩) =
        .error (.tooDeep ⟨0, 0⟩) := by decide +kernel
    obtain ⟨i, item, hitem⟩ := (ofLexemes_eq_tooDeep_iff [] _ ⟨0, 0⟩).1.mp hrow
    exact ⟨_, i, item, rfl, hitem⟩
  · exact (ofLexemes_eq_tooDeep_iff ['-', '1'] [] ⟨0, 0⟩).2.1 _ _ (.unary .negate (.literal 1)) rfl
  · exact (ofLexemes_eq_tooDeep_iff [] _ ⟨0, 0⟩).2.2 _ []
      ⟨.group (.literal ()) .done, .done⟩ (List.append_nil _).symm rfl (by decide) (by simp)

end Expr

end WordCalc
