import WordCalc.Expr.Parse
import WordCalc.Proofs.Except

/-! # Readers

How the readers of operands and chains take their lexemes: an operand is read off the front of
the list, and a chain goes on behind each operand that it reads.
-/

namespace WordCalc

namespace Token

variable {token : Token}

theorem start?_eq_literal_iff {base : Base} :
    token.start? = some (.literal base) ↔ token = literal base := by
  cases token <;> simp [start?, unaryOp?]

theorem start?_eq_unary_iff {op : UnaryOp} :
    token.start? = some (.unary op) ↔ token.unaryOp? = some op := by
  cases token with
  | literal base => simp [start?, unaryOp?]
  | openParen => simp [start?, unaryOp?]
  | _ => simp [start?]

theorem start?_eq_group_iff : token.start? = some .group ↔ token = openParen := by
  cases token <;> simp [start?, unaryOp?]

end Token

namespace Expr

/-- What a reader leaves is a proper end of what it was given. -/
def Consumes (reader : Reader) : Prop :=
  ∀ ⦃items e rest⦄, reader items = .ok (e, rest) → ∃ body ≠ [], items = body ++ rest

variable {reader : Reader} {e : Expr} {item : Lexeme} {items rest : List Lexeme}

section Chains

variable {lhs : Expr}

theorem expression_eq_ok_iff : expression reader items = .ok (e, rest) ↔
    ∃ first mid, reader items = .ok (first, mid) ∧ chain reader 0 first mid = .ok (e, rest) := by
  simp [expression, bind_eq_ok_iff]

@[simp] theorem chain_nil : chain reader 0 lhs [] = .ok (lhs, []) := rfl

theorem chain_of_binaryOp?_eq_none (h : item.token.binaryOp? = none) :
    chain reader 0 lhs (item :: items) = .ok (lhs, item :: items) := by
  simp [chain, h]

theorem chain_of_binaryOp?_eq_some (hc : Consumes reader) {op : BinaryOp}
    (h : item.token.binaryOp? = some op) :
    chain reader 0 lhs (item :: items) =
      reader items >>= fun (rhs, rest) => chain reader 0 (.binary op lhs rhs) rest := by
  cases hr : reader items with
  | error => simp [chain, h, hr]
  | ok result =>
    obtain ⟨rhs, rest⟩ := result
    obtain ⟨body, -, rfl⟩ := hc hr
    simpa using chain_operator h hr

/-- Induction along a chain, from operator to operator. -/
@[elab_as_elim]
theorem chain_induction (hc : Consumes reader) {motive : Expr → List Lexeme → Prop}
    (nil : ∀ lhs, motive lhs [])
    (halt : ∀ lhs item items, item.token.binaryOp? = none → motive lhs (item :: items))
    (error : ∀ lhs item op items err, item.token.binaryOp? = some op → reader items = .error err →
      motive lhs (item :: items))
    (more : ∀ lhs item op items rhs rest, item.token.binaryOp? = some op →
      reader items = .ok (rhs, rest) → motive (.binary op lhs rhs) rest →
      motive lhs (item :: items))
    (lhs : Expr) (items : List Lexeme) : motive lhs items := by
  match items with
  | [] => exact nil lhs
  | item :: items =>
    cases hop : item.token.binaryOp? with
    | none => exact halt lhs item items hop
    | some op =>
      cases hr : reader items with
      | error err => exact error lhs item op items err hop hr
      | ok result =>
        obtain ⟨rhs, rest⟩ := result
        have hshorter : rest.length < (item :: items).length := by
          obtain ⟨body, -, rfl⟩ := hc hr
          rw [List.length_cons, List.length_append]
          omega
        exact more lhs item op items rhs rest hop hr
          (chain_induction hc nil halt error more (.binary op lhs rhs) rest)
termination_by items.length
decreasing_by exact hshorter

theorem binaryOp?_of_chain (hc : Consumes reader) (h : chain reader 0 lhs items = .ok (e, rest)) :
    ∀ next ∈ rest.head?, next.token.binaryOp? = none := by
  induction lhs, items using chain_induction hc with
  | nil lhs =>
    obtain ⟨-, rfl⟩ : lhs = e ∧ [] = rest := by simpa using h
    intro next hnext
    cases hnext
  | halt lhs item items hop =>
    rw [chain_of_binaryOp?_eq_none hop] at h
    obtain ⟨rfl, rfl⟩ : lhs = e ∧ item :: items = rest := by simpa using h
    simpa using hop
  | error lhs item op items err hop hr =>
    simp [chain_of_binaryOp?_eq_some hc hop, hr] at h
  | more lhs item op items rhs mid hop hr ih =>
    rw [chain_of_binaryOp?_eq_some hc hop, hr, ok_bind] at h
    exact ih h

theorem binaryOp?_of_expression (hc : Consumes reader)
    (h : expression reader items = .ok (e, rest)) :
    ∀ next ∈ rest.head?, next.token.binaryOp? = none := by
  obtain ⟨first, mid, -, hchain⟩ := expression_eq_ok_iff.mp h
  exact binaryOp?_of_chain hc hchain

end Chains

section Operands

variable {source : Text} {levels : Nat}

theorem closeGroup_eq_ok_iff {inner : Expr} : closeGroup inner items = .ok (e, rest) ↔
    e = inner ∧ ∃ close, close.token = .closeParen ∧ items = close :: rest := by
  cases items with
  | nil => simp [closeGroup]
  | cons item items =>
    by_cases h : item.token = .closeParen
    · simp only [closeGroup, if_pos h, Except.ok.injEq, Prod.mk.injEq]
      constructor
      · rintro ⟨rfl, rfl⟩
        exact ⟨rfl, item, h, rfl⟩
      · rintro ⟨rfl, close, -, heq⟩
        exact ⟨rfl, (List.cons.inj heq).2⟩
    · simp only [closeGroup, if_neg h, reduceCtorEq, false_iff]
      rintro ⟨-, close, hclose, heq⟩
      obtain ⟨rfl, -⟩ := List.cons.inj heq
      exact h hclose

theorem operand_of_start?_eq_none (h : item.token.start? = none) :
    operand source levels (item :: items) = .error (.badOperand item.token item.span) := by
  simp [operand, h]

theorem operand_of_literal {base : Base} (h : item.token.start? = some (.literal base)) :
    operand source levels (item :: items) =
      literalWord source base item.span >>= fun value => .ok (.literal value, items) := by
  simp [operand, h]

theorem operand_of_unary {op : UnaryOp} (h : item.token.start? = some (.unary op)) :
    operand source (levels + 1) (item :: items) =
      operand source levels items >>= fun (inner, rest) => .ok (.unary op inner, rest) := by
  simp [operand, h]

theorem operand_of_group (h : item.token.start? = some .group) :
    operand source (levels + 1) (item :: items) =
      expression (operand source levels) items >>= fun (inner, rest) => closeGroup inner rest := by
  simp [operand, h]

theorem operand_zero {start : OperandStart} (h : item.token.start? = some start)
    (hne : ∀ base, start ≠ .literal base) :
    operand source 0 (item :: items) = .error (.tooDeep item.span) := by
  cases start with
  | literal base => exact absurd rfl (hne base)
  | unary op => simp [operand, h]
  | group => simp [operand, h]

end Operands

end Expr

end WordCalc
