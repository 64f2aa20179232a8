import WordCalc.Proofs.Machine.Progress

/-! # Parentheses of phrases

The lexemes of an operand or a chain close every parenthesis that they open, and no other one.
Cut short, an operand leaves a parenthesis open or is a row of unary operators, and so lexemes
have at most one way to close a group.
-/

namespace WordCalc

variable {ν : Type} {value : Base → Span → Option ν} {items items' front back : List Lexeme}
  {item last close close' : Lexeme}

@[simp] theorem countToken_nil (token : Token) : countToken token [] = 0 := rfl

@[simp] theorem countToken_cons (token : Token) :
    countToken token (item :: items) =
      (if item.token = token then 1 else 0) + countToken token items := by
  simp [countToken, List.countP_cons, Nat.add_comm]

@[simp] theorem countToken_append (token : Token) :
    countToken token (items ++ items') = countToken token items + countToken token items' :=
  List.countP_append ..

theorem append_cons_eq_concat (h : front ++ item :: back = items ++ [last]) :
    (front = items ∧ item = last ∧ back = []) ∨
      ∃ mid, items = front ++ item :: mid ∧ back = mid ++ [last] := by
  rcases List.eq_nil_or_concat back with rfl | ⟨mid, next, rfl⟩
  · obtain ⟨rfl, hlast⟩ := List.append_inj' h rfl
    exact Or.inl ⟨rfl, by simpa using hlast, rfl⟩
  · have hconcat : (front ++ item :: mid) ++ [next] = items ++ [last] := by simpa using h
    obtain ⟨rfl, hlast⟩ := List.append_inj' hconcat rfl
    obtain rfl := List.singleton_inj.mp hlast
    exact Or.inr ⟨mid, rfl, by simp⟩

/-- Every parenthesis is opened before it is closed, and none is left open. -/
structure Closed (items : List Lexeme) : Prop where
  countToken_eq : countToken .openParen items = countToken .closeParen items
  countToken_le : ∀ front, front <+: items →
    countToken .closeParen front ≤ countToken .openParen front

namespace Closed

theorem nil : Closed [] := by
  refine ⟨rfl, fun front hfront => ?_⟩
  rw [List.prefix_nil.mp hfront]
  exact Nat.le_refl _

theorem append (h : Closed items) (h' : Closed items') : Closed (items ++ items') := by
  have heq := h.countToken_eq
  have heq' := h'.countToken_eq
  refine ⟨by simp only [countToken_append]; omega, ?_⟩
  rintro front ⟨back, hsplit⟩
  rcases List.append_eq_append_iff.mp hsplit with ⟨mid, rfl, -⟩ | ⟨mid, rfl, rfl⟩
  · exact h.countToken_le front (List.prefix_append ..)
  · have hle := h'.countToken_le mid (List.prefix_append ..)
    simp only [countToken_append]
    omega

theorem cons (hopen : item.token ≠ .openParen) (hclose : item.token ≠ .closeParen)
    (h : Closed items) : Closed (item :: items) := by
  have heq := h.countToken_eq
  refine ⟨by simpa [hopen, hclose] using heq, ?_⟩
  intro front hfront
  rcases List.prefix_cons_iff.mp hfront with rfl | ⟨later, rfl, hlater⟩
  · exact Nat.le_refl _
  · simpa [hopen, hclose] using h.countToken_le later hlater

theorem group (hopen : item.token = .openParen) (hclose : close.token = .closeParen)
    (h : Closed items) : Closed (item :: (items ++ [close])) := by
  have heq := h.countToken_eq
  refine ⟨by simp [hopen, hclose, heq, Nat.add_comm], ?_⟩
  intro front hfront
  rcases List.prefix_cons_iff.mp hfront with rfl | ⟨later, rfl, hlater⟩
  · exact Nat.le_refl _
  · rcases List.prefix_concat_iff.mp hlater with rfl | hlater
    · simp [hopen, hclose, heq, Nat.add_comm]
    · have hle := h.countToken_le later hlater
      simp only [countToken_cons, hopen, reduceCtorEq, if_true, if_false]
      omega

theorem eq_of_append (h : Closed items) (h' : Closed items') (hclose : close.token = .closeParen)
    (hclose' : close'.token = .closeParen)
    (heq : items ++ close :: front = items' ++ close' :: back) :
    items = items' ∧ close = close' ∧ front = back := by
  have hshort : ∀ {inner inner' later : List Lexeme} {last : Lexeme}, Closed inner → Closed inner' →
      last.token = .closeParen → inner' ≠ inner ++ last :: later := by
    rintro inner inner' later last hinner hinner' hlast rfl
    have heq := hinner.countToken_eq
    have hle := hinner'.countToken_le (inner ++ [last]) (by simp)
    simp only [countToken_append, countToken_cons, countToken_nil, hlast, reduceCtorEq, if_true,
      if_false] at hle
    omega
  rcases List.append_eq_append_iff.mp heq with ⟨mid, hitems, hrest⟩ | ⟨mid, hitems, hrest⟩
  · cases mid with
    | nil => simp_all
    | cons last mid =>
      obtain ⟨rfl, rfl⟩ := List.cons.inj hrest
      exact absurd hitems (hshort h h' hclose)
  · cases mid with
    | nil => simp_all
    | cons last mid =>
      obtain ⟨rfl, rfl⟩ := List.cons.inj hrest
      exact absurd hitems (hshort h' h hclose')

theorem cons_terminal {t : Terminal ν} (ht : item.terminal? value = some t) (hopen : t ≠ .openParen)
    (hclose : t ≠ .closeParen) (h : Closed items) : Closed (item :: items) := by
  refine h.cons (fun htoken => hopen ?_) (fun htoken => hclose ?_)
  · have hstart := Token.start?_eq_group_iff.mpr htoken
    exact Option.some.inj (ht.symm.trans (terminal?_eq_openParen_iff.mpr hstart))
  · exact Option.some.inj (ht.symm.trans (terminal?_eq_closeParen_iff.mpr htoken))

end Closed

theorem UnaryOp.terminal_ne_closeParen (op : UnaryOp) :
    (op.terminal : Terminal ν) ≠ .closeParen := by
  cases op <;> simp [terminal]

theorem writes_group_iff {first : Operand ν} {tail : Tail ν} :
    Writes value items (Operand.group first tail).terminals ↔ ∃ opening inner closing,
      items = opening :: (inner ++ [closing]) ∧ opening.token = .openParen ∧
        closing.token = .closeParen ∧ Writes value inner (Chain.mk first tail).terminals := by
  rw [Operand.terminals, ← List.append_assoc, writes_cons_iff]
  constructor
  · rintro ⟨opening, later, rfl, hopening, hw⟩
    obtain ⟨inner, back, rfl, hinner, hw⟩ := writes_append_iff.mp hw
    obtain ⟨closing, later, rfl, hclosing, hw⟩ := writes_cons_iff.mp hw
    obtain rfl := writes_nil_iff.mp hw
    exact ⟨opening, inner, closing, rfl,
      Token.start?_eq_group_iff.mp (terminal?_eq_openParen_iff.mp hopening),
      terminal?_eq_closeParen_iff.mp hclosing, hinner⟩
  · rintro ⟨opening, inner, closing, rfl, hopening, hclosing, hinner⟩
    have hclosed : Writes value [closing] [.closeParen] :=
      .cons (terminal?_eq_closeParen_iff.mpr hclosing) (by simp)
    exact ⟨opening, _, rfl, terminal?_eq_openParen_iff.mpr (Token.start?_eq_group_iff.mpr hopening),
      hinner.append hclosed⟩

mutual

theorem Operand.closed : ∀ (o : Operand ν) {items : List Lexeme},
    Writes value items o.terminals → Closed items
  | .literal n, _, hw => by
    obtain ⟨item, later, rfl, ht, hw⟩ := writes_cons_iff.mp hw
    obtain rfl := writes_nil_iff.mp hw
    exact Closed.nil.cons_terminal ht (by simp) (by simp)
  | .unary op operand, _, hw => by
    obtain ⟨item, later, rfl, ht, hw⟩ := writes_cons_iff.mp hw
    exact (operand.closed hw).cons_terminal ht op.terminal_ne_openParen op.terminal_ne_closeParen
  | .group first tail, _, hw => by
    obtain ⟨opening, inner, closing, rfl, hopening, hclosing, hw⟩ := writes_group_iff.mp hw
    obtain ⟨front, back, rfl, hfirst, htail⟩ := writes_append_iff.mp hw
    exact ((first.closed hfirst).append (tail.closed htail)).group hopening hclosing

theorem Tail.closed : ∀ (t : Tail ν) {items : List Lexeme},
    Writes value items t.terminals → Closed items
  | .done, _, hw => by
    obtain rfl := writes_nil_iff.mp hw
    exact .nil
  | .more op operand tail, _, hw => by
    obtain ⟨item, later, rfl, ht, hw⟩ := writes_cons_iff.mp hw
    obtain ⟨front, back, rfl, hoperand, htail⟩ := writes_append_iff.mp hw
    exact ((operand.closed hoperand).append (tail.closed htail)).cons_terminal ht (by simp)
      (by simp)

end

theorem Chain.closed (c : Chain ν) (hw : Writes value items c.terminals) : Closed items := by
  obtain ⟨front, back, rfl, hfirst, htail⟩ := writes_append_iff.mp hw
  exact (c.first.closed hfirst).append (c.tail.closed htail)

/-- An operand that is cut short is a row of unary operators, or a parenthesis is open. -/
theorem Operand.open_of_append : ∀ (o : Operand ν) {front back : List Lexeme},
    Writes value (front ++ back) o.terminals → back ≠ [] →
      (∀ item ∈ front, ∃ op, item.token.start? = some (.unary op)) ∨
        countToken .closeParen front < countToken .openParen front
  | .literal n, [], _, _, _ => Or.inl (by simp)
  | .literal n, item :: front, back, hw, hne => by
    obtain ⟨_, later, heq, -, hw⟩ := writes_cons_iff.mp hw
    obtain rfl := writes_nil_iff.mp hw
    simp_all
  | .unary op operand, [], _, _, _ => Or.inl (by simp)
  | .unary op operand, item :: front, back, hw, hne => by
    obtain ⟨_, later, heq, ht, hw⟩ := writes_cons_iff.mp hw
    obtain ⟨rfl, rfl⟩ := List.cons.inj heq
    have hstart := terminal?_eq_unary_iff.mp ht
    rcases operand.open_of_append hw hne with hunary | hopen
    · exact Or.inl (List.forall_mem_cons.mpr ⟨⟨op, hstart⟩, hunary⟩)
    · right
      rcases Token.eq_of_start?_eq_unary hstart with htoken | htoken <;> simpa [htoken] using hopen
  | .group first tail, [], _, _, _ => Or.inl (by simp)
  | .group first tail, item :: front, back, hw, hne => by
    obtain ⟨opening, inner, closing, heq, hopening, hclosing, hw⟩ := writes_group_iff.mp hw
    obtain ⟨rfl, hsplit⟩ := List.cons.inj heq
    have hclosed := Chain.closed ⟨first, tail⟩ hw
    right
    rcases List.prefix_concat_iff.mp ⟨back, hsplit⟩ with rfl | hfront
    · exact absurd (List.append_right_eq_self.mp hsplit) hne
    · have hle := hclosed.countToken_le front hfront
      simp only [countToken_cons, hopening, reduceCtorEq, if_true, if_false]
      omega

end WordCalc
