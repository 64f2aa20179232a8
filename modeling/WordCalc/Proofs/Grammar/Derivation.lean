import WordCalc.Expr.Basic

/-! # Derivations

An operand is a literal, a unary operator with the operand behind it, or a chain in
parentheses. A chain is an operand and any number of binary operators, each with an operand
behind it. A derivation records how a phrase is put together; everything it stands for is a
fold over it, in which a chain groups to the left.
-/

namespace WordCalc

variable {ν μ α : Type}

/-- What the grammar sees of a lexeme. The one minus is an operator of both kinds. -/
inductive Terminal (ν : Type) where
  | literal (value : ν)
  | operator (op : BinaryOp)
  | complement
  | openParen
  | closeParen
  deriving DecidableEq, Repr

def Terminal.map (f : ν → μ) : Terminal ν → Terminal μ
  | literal value => literal (f value)
  | operator op => operator op
  | complement => complement
  | openParen => openParen
  | closeParen => closeParen

def UnaryOp.terminal : UnaryOp → Terminal ν
  | negate => .operator .sub
  | complement => .complement

theorem UnaryOp.terminal_ne_literal (op : UnaryOp) (value : ν) :
    op.terminal ≠ .literal value := by
  cases op <;> simp [terminal]

theorem UnaryOp.terminal_ne_openParen (op : UnaryOp) : (op.terminal : Terminal ν) ≠ .openParen := by
  cases op <;> simp [terminal]

theorem UnaryOp.terminal_injective :
    Function.Injective (terminal : UnaryOp → Terminal ν) := by
  intro op op' h
  cases op <;> cases op' <;> simp [terminal] at h ⊢

mutual

inductive Operand (ν : Type) where
  | literal (value : ν)
  | unary (op : UnaryOp) (operand : Operand ν)
  | group (first : Operand ν) (tail : Tail ν)

inductive Tail (ν : Type) where
  | done
  | more (op : BinaryOp) (operand : Operand ν) (tail : Tail ν)

end

structure Chain (ν : Type) where
  first : Operand ν
  tail : Tail ν

mutual

@[simp] def Operand.terminals : Operand ν → List (Terminal ν)
  | .literal value => [.literal value]
  | .unary op operand => op.terminal :: operand.terminals
  | .group first tail => .openParen :: (first.terminals ++ (tail.terminals ++ [.closeParen]))

@[simp] def Tail.terminals : Tail ν → List (Terminal ν)
  | .done => []
  | .more op operand tail => .operator op :: (operand.terminals ++ tail.terminals)

end

def Chain.terminals (c : Chain ν) : List (Terminal ν) := c.first.terminals ++ c.tail.terminals

mutual

/-- The greatest number of unary operators and parentheses that are open at once. -/
@[simp] def Operand.nesting : Operand ν → Nat
  | .literal _ => 0
  | .unary _ operand => operand.nesting + 1
  | .group first tail => max first.nesting tail.nesting + 1

@[simp] def Tail.nesting : Tail ν → Nat
  | .done => 0
  | .more _ operand tail => max operand.nesting tail.nesting

end

def Chain.nesting (c : Chain ν) : Nat := max c.first.nesting c.tail.nesting

/-- A meaning for each way of putting a phrase together. -/
structure Algebra (ν α : Type) where
  literal : ν → α
  unary : UnaryOp → α → α
  binary : BinaryOp → α → α → α

mutual

@[simp] def Operand.fold (a : Algebra ν α) : Operand ν → α
  | .literal value => a.literal value
  | .unary op operand => a.unary op (operand.fold a)
  | .group first tail => tail.fold a (first.fold a)

/-- Apply the operators of a tail from left to right, all of one precedence. -/
@[simp] def Tail.fold (a : Algebra ν α) : Tail ν → (lhs : α) → α
  | .done, lhs => lhs
  | .more op operand tail, lhs => tail.fold a (a.binary op lhs (operand.fold a))

end

def Chain.fold (a : Algebra ν α) (c : Chain ν) : α := c.tail.fold a (c.first.fold a)

@[simp] def Expr.fold (a : Algebra Word α) : Expr → α
  | literal value => a.literal value
  | unary op operand => a.unary op (operand.fold a)
  | binary op lhs rhs => a.binary op (lhs.fold a) (rhs.fold a)

def Algebra.tree : Algebra Word Expr := ⟨.literal, .unary, .binary⟩

def Operand.tree (o : Operand Word) : Expr := o.fold .tree

def Chain.tree (c : Chain Word) : Expr := c.fold .tree

end WordCalc
