import WordCalc.Proofs.Machine.Simulation

/-! # The machine on its way

The state behind lexemes of which none is refused shows what stands last and how many
parentheses are open. The readers answer as the machine does: with the first refusal, else with
what is accepted, else that the lexemes end too early.
-/

namespace WordCalc

variable {α : Type}

namespace Token

variable {token : Token}

def endsOperand : Token → Bool
  | literal _ => true
  | closeParen => true
  | _ => false

theorem eq_of_start?_eq_unary {op : UnaryOp} (h : token.start? = some (.unary op)) :
    token = operator .sub ∨ token = complement := by
  cases token with
  | operator binary => cases binary <;> simp [start?, unaryOp?] at h ⊢
  | complement => exact Or.inr rfl
  | _ => simp [start?, unaryOp?] at h

def opensLevel : Token → Bool
  | operator .sub => true
  | complement => true
  | openParen => true
  | _ => false

theorem start?_eq_none_iff :
    token.start? = none ↔ token.isLiteral = false ∧ token.opensLevel = false := by
  cases token with
  | operator op => cases op <;> simp [start?, unaryOp?, isLiteral, opensLevel]
  | _ => simp [start?, unaryOp?, isLiteral, opensLevel]

theorem opensLevel_of_start?_eq_unary {op : UnaryOp} (h : token.start? = some (.unary op)) :
    token.opensLevel = true := by
  rcases eq_of_start?_eq_unary h with rfl | rfl <;> rfl

theorem binaryOp?_eq_some_iff {op : BinaryOp} :
    token.binaryOp? = some op ↔ token = operator op := by
  cases token <;> simp [binaryOp?]

end Token

/-- Behind the lexemes an operand is due: nothing stands there yet, or what stands last ends no
operand. -/
def OperandDue (front : List Lexeme) : Prop :=
  ∀ last ∈ front.getLast?, last.token.endsOperand = false

def countToken (token : Token) (front : List Lexeme) : Nat := front.countP (·.token = token)

variable {front items more : List Lexeme} {item : Lexeme}

theorem operandDue_nil : OperandDue [] := by
  intro last hlast
  cases hlast

@[simp] theorem operandDue_concat_iff :
    OperandDue (front ++ [item]) ↔ item.token.endsOperand = false := by
  simp [OperandDue]

@[simp] theorem countToken_concat (token : Token) :
    countToken token (front ++ [item]) =
      countToken token front + if item.token = token then 1 else 0 := by
  simp [countToken, List.countP_append, List.countP_cons]

namespace Machine

variable {a : Algebra Word α} {source : Text} {pending : Pending α} {stack : List (Frame α)}
  {state next : State α} {e : ReadError}

def parens : List (Frame α) → Nat
  | [] => 0
  | .unary _ :: below => parens below
  | .paren _ :: below => parens below + 1

/-- The state fits the lexemes in front of it. -/
def Tracks (front : List Lexeme) : State α → Prop
  | .due _ stack => OperandDue front ∧
      countToken .openParen front = countToken .closeParen front + parens stack
  | .done _ stack => ¬OperandDue front ∧ Settled stack ∧
      countToken .openParen front = countToken .closeParen front + parens stack
  | .accepted _ => True

theorem exists_complete (a : Algebra Word α) (pending : Pending α) (value : α)
    (stack : List (Frame α)) : ∃ acc below, complete a pending value stack = .done acc below ∧
      Settled below ∧ parens below = parens stack := by
  induction stack generalizing value with
  | nil => exact ⟨_, _, rfl, settled_nil, rfl⟩
  | cons frame below ih =>
    cases frame with
    | unary op => exact ih (a.unary op value)
    | paren saved => exact ⟨_, _, rfl, settled_paren, rfl⟩

theorem tracks_complete (value : α) (hends : item.token.endsOperand = true)
    (hcount : countToken .openParen (front ++ [item]) =
      countToken .closeParen (front ++ [item]) + parens stack) :
    Tracks (front ++ [item]) (complete a pending value stack) := by
  obtain ⟨acc, below, heq, hsettled, hparens⟩ := exists_complete a pending value stack
  rw [heq]
  refine ⟨?_, hsettled, hparens ▸ hcount⟩
  simp [hends]

theorem settled_cases (h : Settled stack) :
    stack = [] ∨ ∃ pending below, stack = .paren pending :: below := by
  cases stack with
  | nil => exact Or.inl rfl
  | cons frame below =>
    cases frame with
    | unary op => exact absurd rfl (h op below)
    | paren pending => exact Or.inr ⟨pending, below, rfl⟩

theorem step_done_nil {acc : α} (h : item.token.binaryOp? = none) :
    step a source (.done acc []) item =
      if item.token = .endOfText then .ok (.accepted acc)
      else .error (.expectedEnd item.token item.span) := by
  simp [step, h]

theorem enter_eq_ok_iff {span : Span} : enter span pending stack = .ok next ↔
    next = .due pending stack ∧ stack.length ≤ maxNesting := by
  unfold enter
  split
  · rename_i hroom
    simp [hroom, eq_comm]
  · rename_i hfull
    simp [hfull]

theorem enter_eq_error_iff {span : Span} : enter span pending stack = .error e ↔
    e = .tooDeep span ∧ maxNesting < stack.length := by
  unfold enter
  split
  · rename_i hroom
    simp [Nat.not_lt_of_le hroom]
  · rename_i hfull
    simp [Nat.lt_of_not_le hfull, eq_comm]

/-- The lexemes that a state takes, each with the state behind it. -/
inductive Takes (a : Algebra Word α) (source : Text) : State α → Lexeme → State α → Prop
  | literal {pending : Pending α} {stack : List (Frame α)} {item : Lexeme} {base : Base}
      {value : Word} (token : item.token = .literal base)
      (word : Expr.literalWord source base item.span = .ok value) :
      Takes a source (.due pending stack) item (complete a pending (a.literal value) stack)
  | unary {pending : Pending α} {stack : List (Frame α)} {item : Lexeme} {op : UnaryOp}
      (token : item.token.unaryOp? = some op) (room : stack.length < maxNesting) :
      Takes a source (.due pending stack) item (.due pending (.unary op :: stack))
  | group {pending : Pending α} {stack : List (Frame α)} {item : Lexeme}
      (token : item.token = .openParen) (room : stack.length < maxNesting) :
      Takes a source (.due pending stack) item (.due none (.paren pending :: stack))
  | operator {acc : α} {stack : List (Frame α)} {item : Lexeme} {op : BinaryOp}
      (token : item.token = .operator op) :
      Takes a source (.done acc stack) item (.due (some (acc, op)) stack)
  | close {acc : α} {pending : Pending α} {stack : List (Frame α)} {item : Lexeme}
      (token : item.token = .closeParen) :
      Takes a source (.done acc (.paren pending :: stack)) item (complete a pending acc stack)
  | accept {acc : α} {stack : List (Frame α)} {item : Lexeme} (token : item.token = .endOfText)
      (unopened : ∀ pending below, stack ≠ .paren pending :: below) :
      Takes a source (.done acc stack) item (.accepted acc)
  | accepted {value : α} {item : Lexeme} : Takes a source (.accepted value) item (.accepted value)

theorem takes_of_step_due (h : step a source (.due pending stack) item = .ok next) :
    Takes a source (.due pending stack) item next := by
  cases hs : item.token.start? with
  | none => simp [step, hs] at h
  | some start =>
    simp only [step, hs] at h
    cases start with
    | literal base =>
      obtain ⟨value, hword, hnext⟩ := bind_eq_ok_iff.mp h
      obtain rfl := Except.ok.inj hnext
      exact .literal (Token.start?_eq_literal_iff.mp hs) hword
    | unary op =>
      obtain ⟨rfl, hroom⟩ := enter_eq_ok_iff.mp h
      exact .unary (Token.start?_eq_unary_iff.mp hs) hroom
    | group =>
      obtain ⟨rfl, hroom⟩ := enter_eq_ok_iff.mp h
      exact .group (Token.start?_eq_group_iff.mp hs) hroom

theorem takes_of_step_done {acc : α} (h : step a source (.done acc stack) item = .ok next) :
    Takes a source (.done acc stack) item next := by
  simp only [step] at h
  split at h
  · rename_i hop
    obtain rfl := Except.ok.inj h
    exact .operator (Token.binaryOp?_eq_some_iff.mp hop)
  · split at h
    · rename_i htoken
      obtain rfl := Except.ok.inj h
      exact .close htoken
    · cases h
  · rename_i hstack
    split at h
    · rename_i htoken
      obtain rfl := Except.ok.inj h
      exact .accept htoken hstack
    · cases h

theorem takes_of_step (h : step a source state item = .ok next) :
    Takes a source state item next := by
  cases state with
  | due pending stack => exact takes_of_step_due h
  | done acc stack => exact takes_of_step_done h
  | accepted value =>
    obtain rfl := Except.ok.inj h
    exact .accepted

theorem step_of_takes (h : Takes a source state item next) :
    step a source state item = .ok next := by
  cases h with
  | literal token word =>
    simp only [step, Token.start?_eq_literal_iff.mpr token, word]
    rfl
  | unary token room =>
    simp only [step, Token.start?_eq_unary_iff.mpr token]
    exact enter_eq_ok_iff.mpr ⟨rfl, room⟩
  | group token room =>
    simp only [step, Token.start?_eq_group_iff.mpr token]
    exact enter_eq_ok_iff.mpr ⟨rfl, room⟩
  | operator token => simp only [step, Token.binaryOp?_eq_some_iff.mpr token]
  | close token =>
    have hop : item.token.binaryOp? = none := by rw [token]; rfl
    simp only [step, hop, if_pos token]
  | @accept acc stack _ token unopened =>
    have hop : item.token.binaryOp? = none := by rw [token]; rfl
    rcases stack with _ | ⟨_ | pending, below⟩
    · rw [step_done_nil hop, if_pos token]
    · simp only [step, hop, if_pos token]
    · exact absurd rfl (unopened pending below)
  | accepted => rfl

theorem step_tracks (h : Tracks front state) (hstep : step a source state item = .ok next) :
    Tracks (front ++ [item]) next := by
  cases takes_of_step hstep with
  | literal token =>
    obtain ⟨-, hcount⟩ := h
    exact tracks_complete _ (by rw [token]; rfl) (by simpa [token] using hcount)
  | unary token =>
    obtain ⟨-, hcount⟩ := h
    rcases Token.eq_of_start?_eq_unary (Token.start?_eq_unary_iff.mpr token) with heq | heq <;>
      exact ⟨by simp [heq, Token.endsOperand], by simpa [heq, parens] using hcount⟩
  | group token =>
    obtain ⟨-, hcount⟩ := h
    exact ⟨by simp [token, Token.endsOperand], by simp [token, parens, hcount]; omega⟩
  | operator token =>
    obtain ⟨-, -, hcount⟩ := h
    exact ⟨by simp [token, Token.endsOperand], by simpa [token] using hcount⟩
  | close token =>
    obtain ⟨-, -, hcount⟩ := h
    refine tracks_complete _ (by rw [token]; rfl) ?_
    simp [token, hcount, parens]
    omega
  | accept => trivial
  | accepted => trivial

/-- What every step keeps, with the lexemes that it takes, holds behind all of them. -/
theorem foldlM_keeps {P : List Lexeme → State α → Prop}
    (hkeeps : ∀ {front state item next}, P front state → step a source state item = .ok next →
      P (front ++ [item]) next)
    (h : P front state) (hrun : items.foldlM (step a source) state = .ok next) :
    P (front ++ items) next := by
  induction items generalizing front state with
  | nil =>
    obtain rfl := Except.ok.inj hrun
    rwa [List.append_nil]
  | cons item items ih =>
    rw [List.foldlM_cons] at hrun
    obtain ⟨mid, hstep, hrun⟩ := bind_eq_ok_iff.mp hrun
    rw [List.append_cons]
    exact ih (hkeeps h hstep) hrun

section Refusals

/-- The lexemes that a state does not take, each with its error. -/
inductive Refuses (source : Text) : State α → Lexeme → ReadError → Prop
  | badOperand {pending : Pending α} {stack : List (Frame α)} {item : Lexeme}
      (literal : item.token.isLiteral = false) (opens : item.token.opensLevel = false) :
      Refuses source (.due pending stack) item (.badOperand item.token item.span)
  | literal {pending : Pending α} {stack : List (Frame α)} {item : Lexeme} {base : Base}
      {e : ReadError} (token : item.token = .literal base)
      (word : Expr.literalWord source base item.span = .error e) :
      Refuses source (.due pending stack) item e
  | tooDeep {pending : Pending α} {stack : List (Frame α)} {item : Lexeme}
      (opens : item.token.opensLevel = true) :
      Refuses source (.due pending stack) item (.tooDeep item.span)
  | expectedClosingParen {acc : α} {pending : Pending α} {stack : List (Frame α)} {item : Lexeme}
      (operator : item.token.binaryOp? = none) (token : item.token ≠ .closeParen) :
      Refuses source (.done acc (.paren pending :: stack)) item
        (.expectedClosingParen item.token item.span)
  | expectedEnd {acc : α} {stack : List (Frame α)} {item : Lexeme}
      (operator : item.token.binaryOp? = none)
      (unopened : ∀ pending below, stack ≠ .paren pending :: below)
      (token : item.token ≠ .endOfText) :
      Refuses source (.done acc stack) item (.expectedEnd item.token item.span)

theorem refuses_of_step_due (h : step a source (.due pending stack) item = .error e) :
    Refuses source (.due pending stack) item e := by
  cases hs : item.token.start? with
  | none =>
    obtain ⟨hliteral, hopens⟩ := Token.start?_eq_none_iff.mp hs
    simp only [step, hs] at h
    cases h
    exact .badOperand hliteral hopens
  | some start =>
    simp only [step, hs] at h
    cases start with
    | literal base =>
      cases hword : Expr.literalWord source base item.span with
      | ok value => simp [hword] at h
      | error e' =>
        obtain rfl : e' = e := by simpa [hword] using h
        exact .literal (Token.start?_eq_literal_iff.mp hs) hword
    | unary op =>
      obtain ⟨rfl, -⟩ := enter_eq_error_iff.mp h
      exact .tooDeep (Token.opensLevel_of_start?_eq_unary hs)
    | group =>
      have htoken := Token.start?_eq_group_iff.mp hs
      obtain ⟨rfl, -⟩ := enter_eq_error_iff.mp h
      exact .tooDeep (by rw [htoken]; rfl)

theorem refuses_of_step_done {acc : α} (h : step a source (.done acc stack) item = .error e) :
    Refuses source (.done acc stack) item e := by
  simp only [step] at h
  split at h
  · cases h
  · rename_i hop
    split at h
    · cases h
    · rename_i htoken
      cases h
      exact .expectedClosingParen hop htoken
  · rename_i hop hstack
    split at h
    · cases h
    · rename_i htoken
      cases h
      exact .expectedEnd hop hstack htoken

theorem refuses_of_step (h : step a source state item = .error e) :
    Refuses source state item e := by
  cases state with
  | due pending stack => exact refuses_of_step_due h
  | done acc stack => exact refuses_of_step_done h
  | accepted value => cases h

theorem span?_of_literalWord {base : Base} {span : Span}
    (h : Expr.literalWord source base span = .error e) : e.span? = some span := by
  unfold Expr.literalWord at h
  split at h
  · cases h; rfl
  · split at h
    · cases h
    · cases h; rfl
    · cases h; rfl

theorem Refuses.span?_eq (h : Refuses source state item e) : e.span? = some item.span := by
  cases h with
  | literal _ word => exact span?_of_literalWord word
  | _ => rfl

end Refusals

section After

/-- The state behind the lexemes, or the error at the first one that is refused. -/
def after (a : Algebra Word α) (source : Text) (items : List Lexeme) :
    Except ReadError (State α) := items.foldlM (step a source) start

theorem tracks_of_after (h : after a source items = .ok state) : Tracks items state := by
  have hstart : Tracks [] (start : State α) := ⟨operandDue_nil, rfl⟩
  exact foldlM_keeps step_tracks hstart h

theorem after_append : after a source (items ++ more) =
    after a source items >>= fun state => more.foldlM (step a source) state :=
  List.foldlM_append

theorem foldlM_accepted (value : α) :
    items.foldlM (step a source) (.accepted value) = .ok (.accepted value) := by
  induction items with
  | nil => rfl
  | cons item items ih => rw [List.foldlM_cons, step, ok_bind, ih]

def Unfinished (state : State α) : Prop := ∀ value, state ≠ .accepted value

theorem unfinished_of_step (h : step a source state item = .error e) : Unfinished state := by
  rintro value rfl
  cases h

theorem result_eq_endOfItems_iff : result state = .error .endOfItems ↔ Unfinished state := by
  cases state <;> simp [result, Unfinished]

theorem exists_refused (h : items.foldlM (step a source) state = .error e) :
    ∃ front item back next, items = front ++ item :: back ∧
      front.foldlM (step a source) state = .ok next ∧ step a source next item = .error e := by
  induction items generalizing state with
  | nil => cases h
  | cons item items ih =>
    rw [List.foldlM_cons] at h
    cases hstep : step a source state item with
    | error e' =>
      obtain rfl : e' = e := by simpa [hstep] using h
      exact ⟨[], item, items, state, rfl, rfl, hstep⟩
    | ok mid =>
      rw [hstep, ok_bind] at h
      obtain ⟨front, last, back, next, rfl, hfront, hlast⟩ := ih h
      refine ⟨item :: front, last, back, next, rfl, ?_, hlast⟩
      rw [List.foldlM_cons, hstep]
      exact hfront

end After

end Machine

theorem Expr.fold_tree (e : Expr) : e.fold .tree = e := by
  induction e with
  | literal => rfl
  | unary op operand ih => exact congrArg (unary op) ih
  | binary op lhs rhs ihl ihr => rw [fold, ihl, ihr]; rfl

namespace Expr

open Machine

variable {source : Text} {e : ReadError}

/-- Reading is the machine's way over trees. -/
theorem ofLexemes_eq_after : ofLexemes source items = after .tree source items >>= result := by
  have hrun : after .tree source items >>= result =
      (ofLexemes source items).map (·.fold .tree) := run_start
  rw [hrun]
  cases ofLexemes source items with
  | error e => rfl
  | ok e => exact congrArg Except.ok e.fold_tree.symm

theorem ofLexemes_eq_endOfItems_iff : ofLexemes source items = .error .endOfItems ↔
    ∃ state, after .tree source items = .ok state ∧ Unfinished state := by
  rw [ofLexemes_eq_after]
  cases h : after .tree source items with
  | ok state => simp [result_eq_endOfItems_iff]
  | error e =>
    obtain ⟨front, item, back, next, -, -, hitem⟩ := exists_refused h
    have hspan := (refuses_of_step hitem).span?_eq
    suffices e ≠ .endOfItems by simpa
    rintro rfl
    cases hspan

/-- Unless the lexemes end too early, an error is a refusal of one of them, and those in front of it
end too early. -/
theorem exists_refused_of_ofLexemes (h : ofLexemes source items = .error e)
    (hend : e ≠ .endOfItems) : ∃ front item back state, items = front ++ item :: back ∧
      after .tree source front = .ok state ∧ step .tree source state item = .error e ∧
      ofLexemes source front = .error .endOfItems ∧
      ofLexemes source (front ++ [item]) = .error e := by
  rw [ofLexemes_eq_after] at h
  cases hafter : after .tree source items with
  | ok state => cases state <;> simp [hafter, result, hend.symm] at h
  | error e' =>
    obtain rfl : e' = e := by simpa [hafter] using h
    obtain ⟨front, item, back, state, rfl, hfront, hitem⟩ := exists_refused hafter
    have hfront : after .tree source front = .ok state := hfront
    refine ⟨front, item, back, state, rfl, hfront, hitem, ?_, ?_⟩
    · exact ofLexemes_eq_endOfItems_iff.mpr ⟨state, hfront, unfinished_of_step hitem⟩
    · rw [ofLexemes_eq_after, after_append, hfront, ok_bind, List.foldlM_cons, hitem]
      rfl

/-- An answer other than that the lexemes end too early is never revised. -/
theorem ofLexemes_append (h : ofLexemes source items ≠ .error .endOfItems) :
    ofLexemes source (items ++ more) = ofLexemes source items := by
  rw [ofLexemes_eq_after, ofLexemes_eq_after, after_append]
  cases hafter : after .tree source items with
  | error e => rfl
  | ok state =>
    cases state with
    | accepted value => rw [ok_bind, foldlM_accepted]
    | due pending stack =>
      exact absurd (ofLexemes_eq_endOfItems_iff.mpr ⟨_, hafter, by simp [Unfinished]⟩) h
    | done acc stack =>
      exact absurd (ofLexemes_eq_endOfItems_iff.mpr ⟨_, hafter, by simp [Unfinished]⟩) h

end Expr

end WordCalc
