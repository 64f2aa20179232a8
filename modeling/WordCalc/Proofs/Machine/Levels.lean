import Mathlib.Data.Set.Card
import WordCalc.Proofs.Group.Brackets

/-! # Open levels

A nesting level is open behind lexemes for each parenthesis that is not closed and for each unary
operator whose operand is not complete. These are as many as the frames of a stack that the lexemes
have opened, whatever they have closed before.
-/

namespace WordCalc

variable {α : Type} {source : Text} {front body behind before items later : List Lexeme}
  {item last : Lexeme} {i : Nat}

def StartsOperand (source : Text) (items : List Lexeme) : Prop :=
  ∃ (o : Operand Word) (body rest : List Lexeme), items = body ++ rest ∧
    Writes (wordAt source) body o.terminals

/-- At the index stands a unary operator, and the operand behind it is not complete. -/
def WaitsAt (source : Text) (front : List Lexeme) (i : Nat) : Prop :=
  ∃ before item behind, front = before ++ item :: behind ∧ before.length = i ∧
    OperandDue before ∧ (∃ op, item.token.unaryOp? = some op) ∧ ¬StartsOperand source behind

noncomputable def waiting (source : Text) (front : List Lexeme) : Nat :=
  {i | WaitsAt source front i}.ncard

/-- The number of parentheses that are open, if none is closed that was not. -/
def unclosed (front : List Lexeme) : Nat :=
  countToken .openParen front - countToken .closeParen front

/-- The number of nesting levels that are open behind the lexemes. -/
noncomputable def openLevels (source : Text) (front : List Lexeme) : Nat :=
  unclosed front + waiting source front

theorem WaitsAt.lt_length (h : WaitsAt source front i) : i < front.length := by
  obtain ⟨before, item, behind, rfl, rfl, -⟩ := h
  simp

theorem finite_waitsAt (source : Text) (front : List Lexeme) :
    {i | WaitsAt source front i}.Finite :=
  (Set.finite_lt_nat front.length).subset fun _ hi => WaitsAt.lt_length hi

theorem StartsOperand.append (h : StartsOperand source items) (later : List Lexeme) :
    StartsOperand source (items ++ later) := by
  obtain ⟨o, body, rest, rfl, hw⟩ := h
  exact ⟨o, body, rest ++ later, List.append_assoc .., hw⟩

theorem OperandDue.of_append (h : OperandDue (before ++ items)) : OperandDue items := by
  intro last hlast
  refine h last ?_
  rw [Option.mem_def] at hlast
  simp [List.getLast?_append, hlast]

theorem OperandDue.of_cons (h : OperandDue (item :: items)) : OperandDue items := by
  rw [← List.singleton_append] at h
  exact h.of_append

theorem Operand.not_operandDue {ν : Type} {value : Base → Span → Option ν} :
    ∀ (o : Operand ν) {items : List Lexeme}, Writes value items o.terminals → ¬OperandDue items
  | .literal n, _, hw, hdue => by
    obtain ⟨item, later, rfl, ht, hw⟩ := writes_cons_iff.mp hw
    obtain rfl := writes_nil_iff.mp hw
    obtain ⟨base, hstart, -⟩ := terminal?_eq_literal_iff.mp ht
    rw [← List.nil_append [item], operandDue_concat_iff,
      Token.start?_eq_literal_iff.mp hstart] at hdue
    simp [Token.endsOperand] at hdue
  | .unary op operand, _, hw, hdue => by
    obtain ⟨item, later, rfl, -, hw⟩ := writes_cons_iff.mp hw
    exact operand.not_operandDue hw hdue.of_cons
  | .group first tail, _, hw, hdue => by
    obtain ⟨opening, inner, closing, rfl, -, hclosing, -⟩ := writes_group_iff.mp hw
    rw [← List.cons_append, operandDue_concat_iff, hclosing] at hdue
    exact absurd hdue (by decide)

theorem Operand.ne_nil (o : Operand Word) (hw : Writes (wordAt source) body o.terminals) :
    body ≠ [] := by
  rintro rfl
  exact o.not_operandDue hw operandDue_nil

theorem startsOperand_of_chain {first : Operand Word} {tail : Tail Word} {op : UnaryOp}
    (hfirst : ∀ {before item behind},
      Writes (wordAt source) (before ++ item :: behind) first.terminals → OperandDue before →
        item.token.unaryOp? = some op → StartsOperand source behind)
    (htail : ∀ {before item behind},
      Writes (wordAt source) (before ++ item :: behind) tail.terminals → before ≠ [] →
        OperandDue before → item.token.unaryOp? = some op → StartsOperand source behind)
    (hw : Writes (wordAt source) (before ++ item :: behind) (Chain.mk first tail).terminals)
    (hdue : OperandDue before) (hop : item.token.unaryOp? = some op) :
    StartsOperand source behind := by
  obtain ⟨front, back, hsplit, hwo, hwt⟩ := writes_append_iff.mp hw
  rcases List.append_eq_append_iff.mp hsplit with ⟨mid, rfl, hitem⟩ | ⟨mid, rfl, rfl⟩
  · cases mid with
    | nil =>
      rw [List.append_nil] at hwo
      exact absurd hdue (first.not_operandDue hwo)
    | cons next mid =>
      obtain ⟨rfl, rfl⟩ := List.cons.inj hitem
      exact (hfirst hwo hdue hop).append back
  · cases mid with
    | nil =>
      rw [List.append_nil] at hdue
      exact absurd hdue (first.not_operandDue hwo)
    | cons next mid => exact htail hwt (by simp) hdue.of_append hop

mutual

theorem Operand.startsOperand {op : UnaryOp} : ∀ (o : Operand Word)
    {before behind : List Lexeme} {item : Lexeme},
    Writes (wordAt source) (before ++ item :: behind) o.terminals → OperandDue before →
      item.token.unaryOp? = some op → StartsOperand source behind
  | .literal n, before, behind, item, hw, _, hop => by
    obtain ⟨_, later, heq, ht, hw⟩ := writes_cons_iff.mp hw
    obtain rfl := writes_nil_iff.mp hw
    obtain ⟨rfl, rfl, rfl⟩ : before = [] ∧ _ ∧ behind = [] := by
      simpa [List.append_eq_cons_iff] using heq
    obtain ⟨base, hstart, -⟩ := terminal?_eq_literal_iff.mp ht
    rw [Token.start?_eq_literal_iff.mp hstart] at hop
    cases hop
  | .unary op' operand, [], behind, item, hw, _, _ => by
    obtain ⟨_, later, heq, -, hw⟩ := writes_cons_iff.mp hw
    obtain ⟨rfl, rfl⟩ := List.cons.inj heq
    exact ⟨operand, behind, [], by simp, hw⟩
  | .unary op' operand, _ :: before, behind, item, hw, hdue, hop => by
    obtain ⟨_, later, heq, -, hw⟩ := writes_cons_iff.mp hw
    obtain ⟨rfl, rfl⟩ := List.cons.inj heq
    exact operand.startsOperand hw hdue.of_cons hop
  | .group first tail, [], behind, item, hw, _, hop => by
    obtain ⟨opening, inner, closing, heq, hopening, -, -⟩ := writes_group_iff.mp hw
    obtain ⟨rfl, -⟩ := List.cons.inj heq
    rw [hopening] at hop
    cases hop
  | .group first tail, _ :: before, behind, item, hw, hdue, hop => by
    obtain ⟨opening, inner, closing, heq, -, hclosing, hinner⟩ := writes_group_iff.mp hw
    obtain ⟨rfl, hsplit⟩ := List.cons.inj heq
    rcases append_cons_eq_concat hsplit with ⟨-, rfl, -⟩ | ⟨mid, rfl, rfl⟩
    · rw [hclosing] at hop
      cases hop
    · exact (startsOperand_of_chain first.startsOperand tail.startsOperand hinner
        hdue.of_cons hop).append _

theorem Tail.startsOperand {op : UnaryOp} : ∀ (t : Tail Word)
    {before behind : List Lexeme} {item : Lexeme},
    Writes (wordAt source) (before ++ item :: behind) t.terminals → before ≠ [] →
      OperandDue before → item.token.unaryOp? = some op → StartsOperand source behind
  | .done, _, _, _, hw, _, _, _ => by
    simp at hw
  | .more op' operand tail, [], _, _, _, hne, _, _ => absurd rfl hne
  | .more op' operand tail, _ :: before, behind, item, hw, _, hdue, hop => by
    obtain ⟨_, later, heq, -, hw⟩ := writes_cons_iff.mp hw
    obtain ⟨rfl, rfl⟩ := List.cons.inj heq
    exact startsOperand_of_chain operand.startsOperand tail.startsOperand hw
      hdue.of_cons hop

end

theorem eq_append_of_operand {o : Operand Word} {op : UnaryOp}
    (hw : Writes (wordAt source) body o.terminals)
    (hsplit : front ++ body = before ++ item :: behind)
    (hdue : OperandDue before) (hop : item.token.unaryOp? = some op)
    (hwaits : ¬StartsOperand source behind) :
    ∃ mid, front = before ++ item :: mid ∧ behind = mid ++ body := by
  have hbody : ∀ mid, OperandDue mid → body ≠ mid ++ item :: behind := by
    rintro mid hmid rfl
    exact hwaits (o.startsOperand hw hmid hop)
  rcases List.append_eq_append_iff.mp hsplit with ⟨mid, rfl, hmid⟩ | ⟨mid, rfl, hmid⟩
  · exact absurd hmid (hbody mid hdue.of_append)
  · cases mid with
    | nil => exact absurd hmid.symm (hbody [] operandDue_nil)
    | cons next mid =>
      obtain ⟨rfl, rfl⟩ := List.cons.inj hmid
      exact ⟨mid, rfl, rfl⟩

theorem eq_append_of_joined {o : Operand Word} {op : UnaryOp}
    (hw : Writes (wordAt source) body o.terminals)
    (hsplit : front ++ (body ++ [last]) = before ++ item :: behind) (hdue : OperandDue before)
    (hop : item.token.unaryOp? = some op) (hwaits : ¬StartsOperand source behind) :
    ∃ mid, front = before ++ item :: mid ∧ behind = mid ++ (body ++ [last]) := by
  rw [← List.append_assoc] at hsplit
  rcases append_cons_eq_concat hsplit.symm with ⟨rfl, -, -⟩ | ⟨rest, hfront, rfl⟩
  · exact absurd hdue.of_append (o.not_operandDue hw)
  · obtain ⟨mid, rfl, rfl⟩ :=
      eq_append_of_operand hw hfront hdue hop fun h => hwaits (h.append _)
    exact ⟨mid, rfl, List.append_assoc ..⟩

theorem Token.start?_of_endsOperand {token : Token} (h : token.endsOperand = true) (op : UnaryOp) :
    token.start? ≠ some (.unary op) := by
  cases token with
  | literal | closeParen => simp [start?, unaryOp?]
  | _ => cases h

theorem Token.endsOperand_of_unaryOp? {token : Token} {op : UnaryOp}
    (h : token.unaryOp? = some op) : token.endsOperand = false := by
  cases token with
  | literal | closeParen => cases h
  | _ => rfl

/-- A complete operand leaves no level open that was not open in front of it, and closes those of
the unary operators that waited for it. -/
theorem openLevels_append_le (front : List Lexeme) {o : Operand Word}
    (hw : Writes (wordAt source) body o.terminals) :
    openLevels source (front ++ body) ≤ openLevels source front := by
  have hparens : unclosed (front ++ body) = unclosed front := by
    have hcount := (o.closed hw).countToken_eq
    simp only [unclosed, countToken_append]
    omega
  have hsubset : {i | WaitsAt source (front ++ body) i} ⊆ {i | WaitsAt source front i} := by
    rintro i ⟨before, item, behind, hsplit, rfl, hdue, ⟨op, hop⟩, hwaits⟩
    obtain ⟨mid, rfl, rfl⟩ := eq_append_of_operand hw hsplit hdue hop hwaits
    exact ⟨before, item, mid, rfl, rfl, hdue, ⟨op, hop⟩, fun h => hwaits (h.append _)⟩
  have hwaiting := Set.ncard_le_ncard hsubset (finite_waitsAt source front)
  rw [openLevels, openLevels, hparens]
  exact Nat.add_le_add_left hwaiting _

namespace Machine

def unaries : List (Frame α) → Nat
  | [] => 0
  | .unary _ :: below => unaries below + 1
  | .paren _ :: below => unaries below

theorem parens_add_unaries (stack : List (Frame α)) :
    parens stack + unaries stack = stack.length := by
  induction stack with
  | nil => rfl
  | cons frame below ih =>
    cases frame <;> simp only [parens, unaries, List.length_cons] <;> omega

/-- Where an operand is due, the lexemes have opened the frames of the stack, and all operands in
front of and between them are complete. -/
inductive Opened (source : Text) : List Lexeme → List (Frame α) → Prop
  | nil : Opened source [] []
  | unary {front : List Lexeme} {stack : List (Frame α)} {item : Lexeme} {op : UnaryOp} :
      Opened source front stack → item.token.unaryOp? = some op →
      Opened source (front ++ [item]) (.unary op :: stack)
  | paren {front : List Lexeme} {stack : List (Frame α)} {item : Lexeme} {pending : Pending α} :
      Opened source front stack → item.token = .openParen →
      Opened source (front ++ [item]) (.paren pending :: stack)
  | joined {front body : List Lexeme} {stack : List (Frame α)} {o : Operand Word} {item : Lexeme}
      {op : BinaryOp} : Opened source front stack → Settled stack →
      Writes (wordAt source) body o.terminals → item.token.binaryOp? = some op →
      Opened source (front ++ (body ++ [item])) stack

variable {stack : List (Frame α)} {pending : Pending α}

theorem Opened.exists_not_unary {uop : UnaryOp} (h : Opened source front stack)
    (hsettled : Settled stack) (hsplit : front = before ++ item :: behind)
    (hdue : OperandDue before) (hunary : item.token.unaryOp? = some uop)
    (hwaits : ¬StartsOperand source behind) :
    ∃ other ∈ behind, ∀ op, other.token.start? ≠ some (.unary op) := by
  cases h with
  | nil => simp at hsplit
  | @unary front below last op h hop => exact absurd rfl (hsettled op below)
  | paren h htoken =>
    rcases append_cons_eq_concat hsplit.symm with ⟨-, rfl, -⟩ | ⟨mid, -, rfl⟩
    · simp [htoken, Token.unaryOp?] at hunary
    · exact ⟨_, List.mem_append_right _ (List.mem_singleton_self _), by simp [htoken, Token.start?]⟩
  | @joined front body _ o last op h _ hw hop =>
    obtain ⟨mid, -, rfl⟩ := eq_append_of_joined hw hsplit hdue hunary hwaits
    have hends := o.not_operandDue hw
    simp only [OperandDue, not_forall, Bool.not_eq_false] at hends
    obtain ⟨other, hother, hends⟩ := hends
    have hmem := List.mem_of_getLast? hother
    exact ⟨other, by simp [hmem], Token.start?_of_endsOperand hends⟩

theorem Opened.not_startsOperand {o : Operand Word} {op : BinaryOp} {uop : UnaryOp}
    (h : Opened source front stack) (hsettled : Settled stack)
    (hw : Writes (wordAt source) body o.terminals) (hop : last.token.binaryOp? = some op)
    (hsplit : front = before ++ item :: behind) (hdue : OperandDue before)
    (hunary : item.token.unaryOp? = some uop) (hwaits : ¬StartsOperand source behind) :
    ¬StartsOperand source (behind ++ (body ++ [last])) := by
  rintro ⟨whole, items, back, heq, hwhole⟩
  rcases List.append_eq_append_iff.mp heq with ⟨mid, rfl, hmid⟩ | ⟨mid, rfl, -⟩
  · by_cases hne : mid = []
    · rw [hne, List.append_nil] at hwhole
      exact hwaits ⟨whole, behind, [], by simp, hwhole⟩
    · have hlast : Closed [last] := by
        have htoken := Token.binaryOp?_eq_some_iff.mp hop
        exact Closed.nil.cons (by simp [htoken]) (by simp [htoken])
      have hle := ((o.closed hw).append hlast).countToken_le mid ⟨back, hmid.symm⟩
      have hcount := (whole.closed hwhole).countToken_eq
      rcases whole.open_of_append hwhole hne with hrow | hopen
      · obtain ⟨other, hmem, hother⟩ := h.exists_not_unary hsettled hsplit hdue hunary hwaits
        obtain ⟨op, hstart⟩ := hrow other hmem
        exact hother op hstart
      · simp only [countToken_append] at hcount
        omega
  · exact hwaits ⟨whole, items, mid, rfl, hwhole⟩

section Counting

theorem Opened.operandDue (h : Opened source front stack) : OperandDue front := by
  cases h with
  | nil => exact operandDue_nil
  | unary _ hop => exact operandDue_concat_iff.mpr (Token.endsOperand_of_unaryOp? hop)
  | paren _ htoken => exact operandDue_concat_iff.mpr (by rw [htoken]; rfl)
  | joined _ _ _ hop =>
    rw [← List.append_assoc, operandDue_concat_iff, Token.binaryOp?_eq_some_iff.mp hop]
    rfl

theorem waitsAt_concat_iff (hends : item.token.endsOperand = false) :
    WaitsAt source (front ++ [item]) i ↔ WaitsAt source front i ∨
      i = front.length ∧ OperandDue front ∧ ∃ op, item.token.unaryOp? = some op := by
  constructor
  · rintro ⟨before, other, behind, hsplit, rfl, hdue, hunary, hwaits⟩
    rcases append_cons_eq_concat hsplit.symm with ⟨rfl, rfl, -⟩ | ⟨mid, rfl, rfl⟩
    · exact Or.inr ⟨rfl, hdue, hunary⟩
    · exact Or.inl ⟨before, other, mid, rfl, rfl, hdue, hunary, fun h => hwaits (h.append _)⟩
  · rintro (⟨before, other, behind, rfl, rfl, hdue, hunary, hwaits⟩ | ⟨rfl, hdue, hunary⟩)
    · refine ⟨before, other, behind ++ [item], by simp, rfl, hdue, hunary, ?_⟩
      rintro ⟨o, body, rest, heq, hw⟩
      rcases List.eq_nil_or_concat rest with rfl | ⟨rest, last, rfl⟩
      · rw [List.append_nil] at heq
        rw [← heq] at hw
        exact o.not_operandDue hw (operandDue_concat_iff.mpr hends)
      · have hconcat : behind ++ [item] = (body ++ rest) ++ [last] := by simpa using heq
        exact hwaits ⟨o, body, rest, (List.append_inj' hconcat rfl).1, hw⟩
    · refine ⟨front, item, [], rfl, rfl, hdue, hunary, ?_⟩
      rintro ⟨o, body, rest, heq, hw⟩
      exact o.ne_nil hw (List.append_eq_nil_iff.mp heq.symm).1

theorem waitsAt_joined_iff {o : Operand Word} {op : BinaryOp} (h : Opened source front stack)
    (hsettled : Settled stack) (hw : Writes (wordAt source) body o.terminals)
    (hop : last.token.binaryOp? = some op) :
    WaitsAt source (front ++ (body ++ [last])) i ↔ WaitsAt source front i := by
  constructor
  · rintro ⟨before, item, behind, hsplit, rfl, hdue, ⟨uop, hunary⟩, hwaits⟩
    obtain ⟨mid, rfl, rfl⟩ := eq_append_of_joined hw hsplit hdue hunary hwaits
    exact ⟨before, item, mid, rfl, rfl, hdue, ⟨uop, hunary⟩, fun h => hwaits (h.append _)⟩
  · rintro ⟨before, item, behind, rfl, rfl, hdue, ⟨uop, hunary⟩, hwaits⟩
    exact ⟨before, item, behind ++ (body ++ [last]), by simp, rfl, hdue, ⟨uop, hunary⟩,
      h.not_startsOperand hsettled hw hop rfl hdue hunary hwaits⟩

/-- The unary operators that wait are those on the stack. -/
theorem Opened.waiting_eq (h : Opened source front stack) :
    waiting source front = unaries stack := by
  unfold waiting
  induction h with
  | nil =>
    have hempty : {i | WaitsAt source [] i} = ∅ :=
      Set.eq_empty_of_forall_notMem fun i hi => Nat.not_lt_zero i (WaitsAt.lt_length hi)
    rw [hempty, Set.ncard_empty]
    rfl
  | @unary front stack item op h hop ih =>
    have hinsert : {i | WaitsAt source (front ++ [item]) i} =
        insert front.length {i | WaitsAt source front i} := by
      ext i
      simp only [Set.mem_ofPred_eq, Set.mem_insert_iff, h.operandDue, hop,
        waitsAt_concat_iff (Token.endsOperand_of_unaryOp? hop)]
      simp [or_comm]
    have hnew : front.length ∉ {i | WaitsAt source front i} := fun hmem =>
      Nat.lt_irrefl _ (WaitsAt.lt_length hmem)
    rw [hinsert, Set.ncard_insert_of_notMem hnew (finite_waitsAt ..), ih]
    rfl
  | @paren front stack item pending h htoken ih =>
    have hends : item.token.endsOperand = false := by rw [htoken]; rfl
    have hsame : {i | WaitsAt source (front ++ [item]) i} = {i | WaitsAt source front i} := by
      ext i
      simp [waitsAt_concat_iff hends, htoken, Token.unaryOp?]
    rw [hsame, ih]
    rfl
  | @joined front body stack o item op h hsettled hw hop ih =>
    have hsame : {i | WaitsAt source (front ++ (body ++ [item])) i} =
        {i | WaitsAt source front i} :=
      Set.ext fun i => waitsAt_joined_iff h hsettled hw hop
    rw [hsame, ih]

end Counting

end Machine

end WordCalc
