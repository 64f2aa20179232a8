import WordCalc.Proofs.Grammar.Reader
import WordCalc.Proofs.Grammar.Unambiguity

/-! # What is read is what is derived

Reading a list of lexemes succeeds exactly if the lexemes before the first end of the text
write a chain within the nesting limit, and yields the tree of that chain. Both directions go
through operands: one by induction on the levels left, the other by induction on derivations.
-/

namespace WordCalc

variable {ν : Type}

def Token.terminal? (value : Base → Option ν) : Token → Option (Terminal ν)
  | literal base => (value base).map .literal
  | operator op => some (.operator op)
  | complement => some .complement
  | openParen => some .openParen
  | closeParen => some .closeParen
  | endOfText => none

def Lexeme.terminal? (value : Base → Span → Option ν) (item : Lexeme) : Option (Terminal ν) :=
  item.token.terminal? (value · item.span)

/-- Lexeme by lexeme, the list writes these terminals. -/
def Writes (value : Base → Span → Option ν) (body : List Lexeme)
    (terminals : List (Terminal ν)) : Prop :=
  body.map (Lexeme.terminal? value) = terminals.map some

/-- The value of a literal, if its span selects a text that converts without error. -/
def wordAt (source : Text) (base : Base) (span : Span) : Option Word :=
  (Expr.literalWord source base span).toOption

theorem wordAt_eq_some_iff {source : Text} {base : Base} {span : Span} {value : Word} :
    wordAt source base span = some value ↔ Expr.literalWord source base span = .ok value := by
  unfold wordAt
  cases Expr.literalWord source base span <;> simp [Except.toOption]

/-- The lexemes before some end of the text write the chain. -/
def Derives (source : Text) (items : List Lexeme) (c : Chain Word) : Prop :=
  ∃ body last rest, items = body ++ last :: rest ∧ last.token = .endOfText ∧
    Writes (wordAt source) body c.terminals

section Writes

variable {value : Base → Span → Option ν} {body : List Lexeme} {item : Lexeme}
  {terminals terminals' : List (Terminal ν)}

@[simp] theorem writes_nil_iff : Writes value body [] ↔ body = [] := by simp [Writes]

theorem writes_cons_iff {t : Terminal ν} : Writes value body (t :: terminals) ↔
    ∃ item later, body = item :: later ∧ item.terminal? value = some t ∧
      Writes value later terminals := by
  simp [Writes, List.map_eq_cons_iff]

theorem writes_append_iff : Writes value body (terminals ++ terminals') ↔
    ∃ front back, body = front ++ back ∧ Writes value front terminals ∧
      Writes value back terminals' := by
  simp [Writes, List.map_eq_append_iff]

theorem Writes.cons {t : Terminal ν} (h : item.terminal? value = some t)
    (hw : Writes value body terminals) : Writes value (item :: body) (t :: terminals) :=
  writes_cons_iff.mpr ⟨item, body, rfl, h, hw⟩

theorem Writes.append {front back : List Lexeme} (h : Writes value front terminals)
    (h' : Writes value back terminals') : Writes value (front ++ back) (terminals ++ terminals') :=
  writes_append_iff.mpr ⟨front, back, rfl, h, h'⟩

theorem terminal?_eq_literal_iff {n : ν} : item.terminal? value = some (.literal n) ↔
    ∃ base, item.token.start? = some (.literal base) ∧ value base item.span = some n := by
  obtain ⟨token, span⟩ := item
  cases token <;> simp [Lexeme.terminal?, Token.terminal?, Token.start?, Token.unaryOp?]

theorem terminal?_eq_unary_iff {op : UnaryOp} : item.terminal? value = some op.terminal ↔
    item.token.start? = some (.unary op) := by
  obtain ⟨token, span⟩ := item
  cases token with
  | operator binary =>
    cases binary <;> cases op <;>
      simp [Lexeme.terminal?, Token.terminal?, Token.start?, Token.unaryOp?, UnaryOp.terminal]
  | _ =>
    cases op <;>
      simp [Lexeme.terminal?, Token.terminal?, Token.start?, Token.unaryOp?, UnaryOp.terminal]

theorem terminal?_eq_openParen_iff : item.terminal? value = some .openParen ↔
    item.token.start? = some .group := by
  obtain ⟨token, span⟩ := item
  cases token <;> simp [Lexeme.terminal?, Token.terminal?, Token.start?, Token.unaryOp?]

theorem terminal?_eq_closeParen_iff : item.terminal? value = some .closeParen ↔
    item.token = .closeParen := by
  obtain ⟨token, span⟩ := item
  cases token <;> simp [Lexeme.terminal?, Token.terminal?]

theorem terminal?_eq_operator_iff {op : BinaryOp} : item.terminal? value = some (.operator op) ↔
    item.token.binaryOp? = some op := by
  obtain ⟨token, span⟩ := item
  cases token <;> simp [Lexeme.terminal?, Token.terminal?, Token.binaryOp?]

theorem terminal?_eq_none_of_endOfText (h : item.token = .endOfText) :
    item.terminal? value = none := by
  simp [Lexeme.terminal?, Token.terminal?, h]

end Writes

namespace Expr

variable {source : Text} {levels : Nat}

/-- Some operand within the levels yields the tree and is written by the lexemes taken. -/
def ReadsOperand (source : Text) (levels : Nat) (items : List Lexeme) (e : Expr)
    (rest : List Lexeme) : Prop :=
  ∃ (o : Operand Word) (body : List Lexeme), items = body ++ rest ∧
    Writes (wordAt source) body o.terminals ∧ o.nesting ≤ levels ∧ o.tree = e

def ReadsTail (source : Text) (levels : Nat) (lhs : Expr) (items : List Lexeme) (e : Expr)
    (rest : List Lexeme) : Prop :=
  ∃ (t : Tail Word) (body : List Lexeme), items = body ++ rest ∧
    Writes (wordAt source) body t.terminals ∧ t.nesting ≤ levels ∧ t.fold .tree lhs = e

theorem ReadsOperand.consumes {items rest : List Lexeme} {e : Expr}
    (h : ReadsOperand source levels items e rest) : ∃ body ≠ [], items = body ++ rest := by
  obtain ⟨o, body, rfl, hw, -, -⟩ := h
  refine ⟨body, ?_, rfl⟩
  rintro rfl
  cases o <;> simp [Writes] at hw

def Sound (source : Text) (levels : Nat) : Prop :=
  ∀ ⦃items e rest⦄, operand source levels items = .ok (e, rest) →
    ReadsOperand source levels items e rest

variable {lhs e : Expr} {item : Lexeme} {items rest : List Lexeme}

theorem chain_sound (hs : Sound source levels)
    (h : chain (operand source levels) 0 lhs items = .ok (e, rest)) :
    ReadsTail source levels lhs items e rest := by
  have hc : Consumes (operand source levels) := fun items e rest h => (hs h).consumes
  induction lhs, items using chain_induction hc with
  | nil lhs =>
    obtain ⟨rfl, rfl⟩ : lhs = e ∧ [] = rest := by simpa using h
    exact ⟨.done, [], rfl, by simp, by simp, rfl⟩
  | halt lhs item items hop =>
    rw [chain_of_binaryOp?_eq_none hop] at h
    obtain ⟨rfl, rfl⟩ : lhs = e ∧ item :: items = rest := by simpa using h
    exact ⟨.done, [], rfl, by simp, by simp, rfl⟩
  | error lhs item op items err hop hr =>
    simp [chain_of_binaryOp?_eq_some hc hop, hr] at h
  | more lhs item op items rhs mid hop hr ih =>
    rw [chain_of_binaryOp?_eq_some hc hop, hr, ok_bind] at h
    obtain ⟨t, body, rfl, hwt, hnt, rfl⟩ := ih h
    obtain ⟨o, front, rfl, hwo, hno, rfl⟩ := hs hr
    exact ⟨.more op o t, item :: (front ++ body), by simp,
      .cons (terminal?_eq_operator_iff.mpr hop) (hwo.append hwt), Nat.max_le.mpr ⟨hno, hnt⟩, rfl⟩

theorem literal_sound {base : Base} (hstart : item.token.start? = some (.literal base))
    (h : operand source levels (item :: items) = .ok (e, rest)) :
    ReadsOperand source levels (item :: items) e rest := by
  rw [operand_of_literal hstart] at h
  obtain ⟨value, hv, h⟩ := bind_eq_ok_iff.mp h
  obtain ⟨rfl, rfl⟩ : literal value = e ∧ items = rest := by simpa using h
  have ht : item.terminal? (wordAt source) = some (.literal value) :=
    terminal?_eq_literal_iff.mpr ⟨base, hstart, wordAt_eq_some_iff.mpr hv⟩
  exact ⟨.literal value, [item], rfl, .cons ht (by simp), by simp, rfl⟩

theorem unary_sound {op : UnaryOp} (hs : Sound source levels)
    (hstart : item.token.start? = some (.unary op))
    (h : operand source (levels + 1) (item :: items) = .ok (e, rest)) :
    ReadsOperand source (levels + 1) (item :: items) e rest := by
  rw [operand_of_unary hstart] at h
  obtain ⟨⟨inner, mid⟩, hr, h⟩ := bind_eq_ok_iff.mp h
  obtain ⟨rfl, rfl⟩ : unary op inner = e ∧ mid = rest := by simpa using h
  obtain ⟨o, body, rfl, hw, hn, rfl⟩ := hs hr
  exact ⟨.unary op o, item :: body, rfl, .cons (terminal?_eq_unary_iff.mpr hstart) hw,
    Nat.succ_le_succ hn, rfl⟩

theorem group_sound (hs : Sound source levels) (hstart : item.token.start? = some .group)
    (h : operand source (levels + 1) (item :: items) = .ok (e, rest)) :
    ReadsOperand source (levels + 1) (item :: items) e rest := by
  rw [operand_of_group hstart] at h
  obtain ⟨⟨inner, mid⟩, hr, h⟩ := bind_eq_ok_iff.mp h
  obtain ⟨rfl, close, hclose, rfl⟩ := closeGroup_eq_ok_iff.mp h
  obtain ⟨first, later, hr, hchain⟩ := expression_eq_ok_iff.mp hr
  obtain ⟨o, front, rfl, hwo, hno, rfl⟩ := hs hr
  obtain ⟨t, back, rfl, hwt, hnt, rfl⟩ := chain_sound hs hchain
  have hclosed : Writes (wordAt source) [close] [.closeParen] :=
    .cons (terminal?_eq_closeParen_iff.mpr hclose) (by simp)
  exact ⟨.group o t, item :: (front ++ (back ++ [close])), by simp,
    .cons (terminal?_eq_openParen_iff.mpr hstart) (hwo.append (hwt.append hclosed)),
    Nat.succ_le_succ (Nat.max_le.mpr ⟨hno, hnt⟩), rfl⟩

theorem operand_sound (source : Text) (levels : Nat) : Sound source levels := by
  induction levels with
  | zero =>
    intro items e rest h
    cases items with
    | nil => simp [operand] at h
    | cons item items =>
      cases hstart : item.token.start? with
      | none => simp [operand_of_start?_eq_none hstart] at h
      | some start =>
        cases start with
        | literal base => exact literal_sound hstart h
        | unary op => simp [operand_zero hstart] at h
        | group => simp [operand_zero hstart] at h
  | succ levels ih =>
    intro items e rest h
    cases items with
    | nil => simp [operand] at h
    | cons item items =>
      cases hstart : item.token.start? with
      | none => simp [operand_of_start?_eq_none hstart] at h
      | some start =>
        cases start with
        | literal base => exact literal_sound hstart h
        | unary op => exact unary_sound ih hstart h
        | group => exact group_sound ih hstart h

theorem operand_consumes (source : Text) (levels : Nat) : Consumes (operand source levels) :=
  fun _ _ _ h => (operand_sound source levels h).consumes

end Expr

mutual

theorem Operand.read {source : Text} {levels : Nat} {body : List Lexeme} (rest : List Lexeme) :
    ∀ o : Operand Word, Writes (wordAt source) body o.terminals → o.nesting ≤ levels →
      Expr.operand source levels (body ++ rest) = .ok (o.tree, rest)
  | .literal value, hw, _ => by
    obtain ⟨item, later, rfl, ht, hw⟩ := writes_cons_iff.mp hw
    obtain rfl := writes_nil_iff.mp hw
    obtain ⟨base, hs, hv⟩ := terminal?_eq_literal_iff.mp ht
    rw [List.singleton_append, Expr.operand_of_literal hs, wordAt_eq_some_iff.mp hv]
    rfl
  | .unary op operand, hw, hn => by
    obtain ⟨item, later, rfl, ht, hw⟩ := writes_cons_iff.mp hw
    match levels, hn with
    | levels + 1, hn =>
      have hs := terminal?_eq_unary_iff.mp ht
      have hoperand := operand.read rest hw (Nat.le_of_succ_le_succ hn)
      rw [List.cons_append, Expr.operand_of_unary hs, hoperand]
      rfl
  | .group first tail, hw, hn => by
    obtain ⟨item, later, rfl, ht, hw⟩ := writes_cons_iff.mp hw
    obtain ⟨front, later, rfl, hwo, hw⟩ := writes_append_iff.mp hw
    obtain ⟨back, later, rfl, hwt, hw⟩ := writes_append_iff.mp hw
    obtain ⟨close, later, rfl, htc, hw⟩ := writes_cons_iff.mp hw
    obtain rfl := writes_nil_iff.mp hw
    match levels, hn with
    | levels + 1, hn =>
      have hs := terminal?_eq_openParen_iff.mp ht
      have hclose := terminal?_eq_closeParen_iff.mp htc
      have hn := Nat.max_le.mp (Nat.le_of_succ_le_succ hn)
      have hhalt : ∀ next ∈ (close :: rest).head?, next.token.binaryOp? = none := by
        simp [hclose, Token.binaryOp?]
      have hfirst := first.read (back ++ close :: rest) hwo hn.1
      have htail := tail.read hhalt first.tree hwt hn.2
      have hbody : Expr.expression (Expr.operand source levels) (front ++ (back ++ close :: rest)) =
          .ok (tail.fold .tree first.tree, close :: rest) :=
        Expr.expression_eq_ok_iff.mpr ⟨_, _, hfirst, htail⟩
      have happend : item :: (front ++ (back ++ [close])) ++ rest =
          item :: (front ++ (back ++ close :: rest)) := by simp
      rw [happend, Expr.operand_of_group hs, hbody, ok_bind]
      exact Expr.closeGroup_eq_ok_iff.mpr ⟨rfl, close, hclose, rfl⟩

theorem Tail.read {source : Text} {levels : Nat} {body rest : List Lexeme}
    (hhalt : ∀ next ∈ rest.head?, next.token.binaryOp? = none) :
    ∀ (t : Tail Word) (lhs : Expr), Writes (wordAt source) body t.terminals → t.nesting ≤ levels →
      Expr.chain (Expr.operand source levels) 0 lhs (body ++ rest) = .ok (t.fold .tree lhs, rest)
  | .done, lhs, hw, _ => by
    obtain rfl := writes_nil_iff.mp hw
    cases rest with
    | nil => rfl
    | cons next rest => exact Expr.chain_of_binaryOp?_eq_none (hhalt next rfl)
  | .more op operand tail, lhs, hw, hn => by
    obtain ⟨item, later, rfl, ht, hw⟩ := writes_cons_iff.mp hw
    obtain ⟨front, back, rfl, hwo, hwt⟩ := writes_append_iff.mp hw
    have hn := Nat.max_le.mp hn
    have hoperand := operand.read (back ++ rest) hwo hn.1
    have happend : item :: (front ++ back) ++ rest = item :: (front ++ (back ++ rest)) := by simp
    rw [happend, Expr.chain_operator (terminal?_eq_operator_iff.mp ht) hoperand]
    exact tail.read hhalt _ hwt hn.2

end

theorem binaryOp?_of_endOfText {item : Lexeme} (h : item.token = .endOfText) :
    item.token.binaryOp? = none := by
  rw [h]; rfl

namespace Expr

variable {source : Text} {items : List Lexeme} {e : Expr}

theorem exists_derives (h : ofLexemes source items = .ok e) :
    ∃ c : Chain Word, Derives source items c ∧ c.nesting ≤ maxNesting ∧ c.tree = e := by
  obtain ⟨⟨expr, rest⟩, hread, h⟩ := bind_eq_ok_iff.mp h
  obtain ⟨first, mid, hfirst, hchain⟩ := expression_eq_ok_iff.mp hread
  obtain ⟨o, front, rfl, hwo, hno, rfl⟩ := operand_sound _ _ hfirst
  obtain ⟨t, back, rfl, hwt, hnt, rfl⟩ := chain_sound (operand_sound _ _) hchain
  cases rest with
  | nil => simp at h
  | cons last rest =>
    by_cases hlast : last.token = .endOfText
    · obtain rfl : t.fold .tree o.tree = e := by simpa [hlast] using h
      exact ⟨⟨o, t⟩, ⟨front ++ back, last, rest, by simp, hlast, hwo.append hwt⟩,
        Nat.max_le.mpr ⟨hno, hnt⟩, rfl⟩
    · simp [hlast] at h

theorem ofLexemes_of_derives {c : Chain Word} (h : Derives source items c)
    (hn : c.nesting ≤ maxNesting) : ofLexemes source items = .ok c.tree := by
  obtain ⟨body, last, rest, rfl, hlast, hw⟩ := h
  obtain ⟨front, back, rfl, hwo, hwt⟩ := writes_append_iff.mp hw
  have hn := Nat.max_le.mp hn
  have hhalt : ∀ next ∈ (last :: rest).head?, next.token.binaryOp? = none := by
    simpa using binaryOp?_of_endOfText hlast
  have hfirst := c.first.read (back ++ last :: rest) hwo hn.1
  have htail := c.tail.read hhalt c.first.tree hwt hn.2
  have hread : expression (operand source maxNesting) (front ++ (back ++ last :: rest)) =
      .ok (c.tree, last :: rest) := expression_eq_ok_iff.mpr ⟨_, _, hfirst, htail⟩
  simp [ofLexemes, hread, hlast]

end Expr

theorem Writes.token_ne_endOfText {value : Base → Span → Option ν} {body : List Lexeme}
    {terminals : List (Terminal ν)} (h : Writes value body terminals) :
    ∀ item ∈ body, item.token ≠ .endOfText := by
  intro item hi hend
  have hnone : none ∈ body.map (Lexeme.terminal? value) :=
    List.mem_map.mpr ⟨item, hi, terminal?_eq_none_of_endOfText hend⟩
  rw [h] at hnone
  simp at hnone

theorem Derives.writes_takeWhile {source : Text} {items : List Lexeme} {c : Chain Word}
    (h : Derives source items c) :
    Writes (wordAt source) (items.takeWhile (·.token ≠ .endOfText)) c.terminals := by
  obtain ⟨body, last, rest, rfl, hlast, hw⟩ := h
  have hbody : ∀ item ∈ body, decide (item.token ≠ .endOfText) = true := by
    simpa using hw.token_ne_endOfText
  rw [List.takeWhile_append_of_pos hbody]
  simpa [hlast] using hw

theorem Derives.unique {source : Text} {items : List Lexeme} {c c' : Chain Word}
    (h : Derives source items c) (h' : Derives source items c') : c = c' := by
  have hmap : c.terminals.map some = c'.terminals.map some :=
    h.writes_takeWhile.symm.trans h'.writes_takeWhile
  exact Chain.terminals_injective ((List.map_inj_right fun _ _ => Option.some.inj).mp hmap)

/-- Reading succeeds exactly on the lexemes of a chain within the nesting limit, with the tree of
that chain, and no other chain has these lexemes. -/
theorem Expr.ofLexemes_eq_ok_iff (source : Text) (items : List Lexeme) (e : Expr) :
    (Expr.ofLexemes source items = .ok e ↔
      ∃ c : Chain Word, Derives source items c ∧ c.nesting ≤ maxNesting ∧ c.tree = e) ∧
    ∀ c c' : Chain Word, Derives source items c → Derives source items c' → c = c' := by
  refine ⟨⟨exists_derives, ?_⟩, fun c c' h h' => h.unique h'⟩
  rintro ⟨c, hd, hn, rfl⟩
  exact ofLexemes_of_derives hd hn

theorem Expr.ofLexemes_negated_group : Expr.ofLexemes ['-', '(', '1', '+', '2', ')']
    [⟨.operator .sub, ⟨0, 0⟩⟩, ⟨.openParen, ⟨1, 1⟩⟩, ⟨.literal .decimal, ⟨2, 2⟩⟩,
      ⟨.operator .add, ⟨3, 3⟩⟩, ⟨.literal .decimal, ⟨4, 4⟩⟩, ⟨.closeParen, ⟨5, 5⟩⟩,
      ⟨.endOfText, ⟨6, 6⟩⟩, ⟨.closeParen, ⟨9, 8⟩⟩] =
    .ok (.unary .negate (.binary .add (.literal 1) (.literal 2))) := by
  refine (Expr.ofLexemes_eq_ok_iff _ _ _).1.mpr
    ⟨⟨.unary .negate (.group (.literal 1) (.more .add (.literal 2) .done)), .done⟩, ?_, ?_, rfl⟩
  · exact ⟨[⟨.operator .sub, ⟨0, 0⟩⟩, ⟨.openParen, ⟨1, 1⟩⟩, ⟨.literal .decimal, ⟨2, 2⟩⟩,
      ⟨.operator .add, ⟨3, 3⟩⟩, ⟨.literal .decimal, ⟨4, 4⟩⟩, ⟨.closeParen, ⟨5, 5⟩⟩],
      ⟨.endOfText, ⟨6, 6⟩⟩, [⟨.closeParen, ⟨9, 8⟩⟩], rfl, rfl, rfl⟩
  · decide

end WordCalc
