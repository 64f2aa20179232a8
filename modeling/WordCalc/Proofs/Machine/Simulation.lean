import WordCalc.Calculation
import WordCalc.Proofs.Grammar.Reading
import WordCalc.Proofs.Machine.Basic

/-! # The machine and the readers

From a state with as many frames as levels are used up, the machine does what reading an
operand and going on behind it does. Over trees it therefore parses, and over values it
calculates what evaluating the parsed tree does.
-/

namespace WordCalc

variable {α : Type}

namespace Machine

variable {a : Algebra Word α} {source : Text} {pending : Pending α} {stack : List (Frame α)}
  {item : Lexeme} {items : List Lexeme}

@[simp] theorem run_cons (state : State α) :
    run a source state (item :: items) =
      step a source state item >>= fun next => run a source next items := by
  simp [run]

@[simp] theorem run_accepted (value : α) : run a source (.accepted value) items = .ok value := by
  induction items with
  | nil => rfl
  | cons item items ih => rw [run_cons, step, ok_bind, ih]

/-- No unary operator waits, so an operand is joined at once. -/
def Settled (stack : List (Frame α)) : Prop := ∀ op below, stack ≠ .unary op :: below

theorem complete_of_settled (h : Settled stack) (value : α) :
    complete a pending value stack = .done (join a pending value) stack := by
  cases stack with
  | nil => rfl
  | cons frame below =>
    cases frame with
    | unary op => exact absurd rfl (h op below)
    | paren => rfl

theorem settled_nil : Settled ([] : List (Frame α)) := by
  intro op below h
  cases h

theorem settled_paren : Settled (.paren pending :: stack) := by
  intro op below h
  cases h

/-- Where an operand is due on this stack, the machine does what the reader does and goes on behind
the operand. -/
def Follows (a : Algebra Word α) (source : Text) (reader : Expr.Reader) (stack : List (Frame α)) :
    Prop :=
  ∀ pending items, run a source (.due pending stack) items =
    reader items >>= fun (e, rest) => run a source (complete a pending (e.fold a) stack) rest

theorem run_chain {reader : Expr.Reader} (hc : Expr.Consumes reader) (hs : Settled stack)
    (hr : Follows a source reader stack) (lhs : Expr) (items : List Lexeme) :
    run a source (.done (lhs.fold a) stack) items =
      Expr.chain reader 0 lhs items >>= fun (e, rest) =>
        run a source (.done (e.fold a) stack) rest := by
  induction lhs, items using Expr.chain_induction hc with
  | nil lhs => rfl
  | halt lhs item items hop => rw [Expr.chain_of_binaryOp?_eq_none hop]; rfl
  | error lhs item op items err hop hread =>
    simp [Expr.chain_of_binaryOp?_eq_some hc hop, step, hop, hr _ _, hread]
  | more lhs item op items rhs rest hop hread ih =>
    simp only [run_cons, step, hop, Expr.chain_of_binaryOp?_eq_some hc hop, hr _ _, hread, ok_bind,
      complete_of_settled hs, join]
    exact ih

theorem run_expression {reader : Expr.Reader} (hc : Expr.Consumes reader) (hs : Settled stack)
    (hr : Follows a source reader stack) :
    run a source (.due none stack) items =
      Expr.expression reader items >>= fun (e, rest) =>
        run a source (.done (e.fold a) stack) rest := by
  rw [hr, Expr.expression]
  cases reader items with
  | error => rfl
  | ok read =>
    obtain ⟨first, rest⟩ := read
    simp only [ok_bind, complete_of_settled hs, join]
    exact run_chain hc hs hr first rest

theorem run_closeGroup {inner : Expr} (hhalt : ∀ next ∈ items.head?, next.token.binaryOp? = none) :
    run a source (.done (inner.fold a) (.paren pending :: stack)) items =
      Expr.closeGroup inner items >>= fun (e, rest) =>
        run a source (complete a pending (e.fold a) stack) rest := by
  cases items with
  | nil => rfl
  | cons item items =>
    have hop : item.token.binaryOp? = none := hhalt item rfl
    by_cases h : item.token = .closeParen
    · simp only [run_cons, step, hop, Expr.closeGroup, if_pos h, ok_bind]
    · simp only [run_cons, step, hop, Expr.closeGroup, if_neg h, error_bind]

theorem run_literal {base : Base} {levels : Nat} (hs : item.token.start? = some (.literal base)) :
    run a source (.due pending stack) (item :: items) =
      Expr.operand source levels (item :: items) >>= fun (e, rest) =>
        run a source (complete a pending (e.fold a) stack) rest := by
  simp only [run_cons, step, hs, Expr.operand_of_literal hs]
  cases Expr.literalWord source base item.span <;> rfl

theorem run_unary {op : UnaryOp} {levels : Nat} (hs : item.token.start? = some (.unary op))
    (hroom : stack.length + 1 ≤ maxNesting)
    (hr : Follows a source (Expr.operand source levels) (.unary op :: stack)) :
    run a source (.due pending stack) (item :: items) =
      Expr.operand source (levels + 1) (item :: items) >>= fun (e, rest) =>
        run a source (complete a pending (e.fold a) stack) rest := by
  simp only [run_cons, step, hs, enter, List.length_cons, hroom, if_true, ok_bind]
  rw [hr, Expr.operand_of_unary hs]
  cases Expr.operand source levels items <;> rfl

theorem run_group {levels : Nat} (hs : item.token.start? = some .group)
    (hroom : stack.length + 1 ≤ maxNesting)
    (hr : Follows a source (Expr.operand source levels) (.paren pending :: stack)) :
    run a source (.due pending stack) (item :: items) =
      Expr.operand source (levels + 1) (item :: items) >>= fun (e, rest) =>
        run a source (complete a pending (e.fold a) stack) rest := by
  have hc := Expr.operand_consumes source levels
  simp only [run_cons, step, hs, enter, List.length_cons, hroom, if_true, ok_bind]
  rw [run_expression hc settled_paren hr, Expr.operand_of_group hs]
  cases hread : Expr.expression (Expr.operand source levels) items with
  | error => rfl
  | ok read =>
    obtain ⟨inner, rest⟩ := read
    exact run_closeGroup (Expr.binaryOp?_of_expression hc hread)

/-- The machine reads an operand with a level left for each frame that still fits. -/
theorem follows_operand {levels : Nat} (hl : levels + stack.length = maxNesting) :
    Follows a source (Expr.operand source levels) stack := by
  induction levels generalizing stack with
  | zero =>
    have hfull : ¬ stack.length + 1 ≤ maxNesting := by omega
    intro pending items
    cases items with
    | nil => rfl
    | cons item items =>
      cases hs : item.token.start? with
      | none => simp [step, hs, Expr.operand_of_start?_eq_none hs]
      | some start =>
        cases start with
        | literal base => exact run_literal hs
        | unary op => simp [step, hs, enter, hfull, Expr.operand_zero hs]
        | group => simp [step, hs, enter, hfull, Expr.operand_zero hs]
  | succ levels ih =>
    have hroom : stack.length + 1 ≤ maxNesting := by omega
    have hlevels (frame : Frame α) : levels + (frame :: stack).length = maxNesting := by
      rw [List.length_cons]; omega
    intro pending items
    cases items with
    | nil => rfl
    | cons item items =>
      cases hs : item.token.start? with
      | none => simp [step, hs, Expr.operand_of_start?_eq_none hs]
      | some start =>
        cases start with
        | literal base => exact run_literal hs
        | unary op => exact run_unary hs hroom (ih (hlevels _))
        | group => exact run_group hs hroom (ih (hlevels _))

theorem run_start : run a source start items = (Expr.ofLexemes source items).map (·.fold a) := by
  have hc := Expr.operand_consumes source maxNesting
  rw [start, run_expression hc settled_nil (follows_operand rfl), Expr.ofLexemes]
  cases hread : Expr.expression (Expr.operand source maxNesting) items with
  | error => rfl
  | ok read =>
    obtain ⟨e, rest⟩ := read
    have hhalt := Expr.binaryOp?_of_expression hc hread
    cases rest with
    | nil => rfl
    | cons last rest =>
      have hop : last.token.binaryOp? = none := hhalt last rfl
      by_cases hlast : last.token = .endOfText
      · simp only [ok_bind, run_cons, step, hop, if_pos hlast, run_accepted]
        rfl
      · simp only [ok_bind, run_cons, step, hop, if_neg hlast]
        rfl

end Machine

/-- Evaluating a text that scans is one pass of the machine over its lexemes, for the value and for
every error. -/
theorem Text.evaluate_eq_run {source : Text} {items : List Lexeme}
    (h : Lexeme.scan source = .ok items) :
    Text.evaluate source = Machine.outcome (Machine.run .value source Machine.start items) := by
  rw [Machine.run_start, Text.evaluate, Expr.ofText, h, ok_bind]
  cases Expr.ofLexemes source items with
  | error e => rfl
  | ok e =>
    simp only [Except.map, Expr.fold_value]
    change e.eval.mapError Error.eval = _
    cases e.eval <;> rfl

theorem Text.evaluate_unclosed :
    Lexeme.scan ['1', '/', '0', '+', '-', '(', '2'] =
      .ok [⟨.literal .decimal, ⟨0, 0⟩⟩, ⟨.operator .div, ⟨1, 1⟩⟩, ⟨.literal .decimal, ⟨2, 2⟩⟩,
        ⟨.operator .add, ⟨3, 3⟩⟩, ⟨.operator .sub, ⟨4, 4⟩⟩, ⟨.openParen, ⟨5, 5⟩⟩,
        ⟨.literal .decimal, ⟨6, 6⟩⟩, ⟨.endOfText, ⟨7, 7⟩⟩] ∧
    Text.evaluate ['1', '/', '0', '+', '-', '(', '2'] =
      .error (.read (.expectedClosingParen .endOfText ⟨7, 7⟩)) := by
  have hscan : Lexeme.scan ['1', '/', '0', '+', '-', '(', '2'] =
      .ok [⟨.literal .decimal, ⟨0, 0⟩⟩, ⟨.operator .div, ⟨1, 1⟩⟩, ⟨.literal .decimal, ⟨2, 2⟩⟩,
        ⟨.operator .add, ⟨3, 3⟩⟩, ⟨.operator .sub, ⟨4, 4⟩⟩, ⟨.openParen, ⟨5, 5⟩⟩,
        ⟨.literal .decimal, ⟨6, 6⟩⟩, ⟨.endOfText, ⟨7, 7⟩⟩] := rfl
  exact ⟨hscan, Text.evaluate_eq_run hscan⟩

end WordCalc
