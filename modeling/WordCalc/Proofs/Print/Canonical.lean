import WordCalc.Proofs.Grammar.Fold

/-! # Canonical texts

The canonical text of an expression has decimal literals, no blanks, and parentheses only
around a binary operation that is the operand of a unary operator or a right operand. Its
derivation is the smallest one with that tree, in nesting and in size.
-/

namespace WordCalc

variable {ν α : Type}

def UnaryOp.symbol : UnaryOp → Text
  | negate => ['-']
  | complement => ['~']

/-- Put parentheses around a text if it has to be one operand but is not. -/
def Text.enclose (loose : Bool) (text : Text) : Text :=
  if loose then '(' :: (text ++ [')']) else text

namespace Expr

def isBinary : Expr → Bool
  | binary .. => true
  | _ => false

def print : Expr → Text
  | literal value => Nat.toDigits 10 value.toNat
  | unary op operand => op.symbol ++ Text.enclose operand.isBinary operand.print
  | binary op lhs rhs => lhs.print ++ (op.symbol ++ Text.enclose rhs.isBinary rhs.print)

/-- The greatest number, on a path from the root to a leaf, of unary nodes and of steps to a
binary node from a unary one or to the right. -/
def weight : Expr → Nat
  | literal _ => 0
  | unary _ operand => operand.weight + operand.isBinary.toNat + 1
  | binary _ lhs rhs => max lhs.weight (rhs.weight + rhs.isBinary.toNat)

end Expr

def Terminal.text : Terminal Word → Text
  | literal value => Nat.toDigits 10 value.toNat
  | operator op => op.symbol
  | complement => ['~']
  | openParen => ['(']
  | closeParen => [')']

@[simp] theorem UnaryOp.text_terminal (op : UnaryOp) : op.terminal.text = op.symbol := by
  cases op <;> rfl

def Terminal.texts (terminals : List (Terminal Word)) : Text := terminals.flatMap Terminal.text

namespace Terminal

variable {terminals terminals' : List (Terminal Word)}

@[simp] theorem texts_nil : texts [] = [] := rfl

@[simp] theorem texts_cons (t : Terminal Word) :
    texts (t :: terminals) = t.text ++ texts terminals := rfl

@[simp] theorem texts_append :
    texts (terminals ++ terminals') = texts terminals ++ texts terminals' := List.flatMap_append

end Terminal

def Tail.snoc (op : BinaryOp) (operand : Operand ν) : Tail ν → Tail ν
  | .done => .more op operand .done
  | .more op' operand' tail => .more op' operand' (tail.snoc op operand)

theorem Tail.terminals_snoc (op : BinaryOp) (operand : Operand ν) : ∀ t : Tail ν,
    (t.snoc op operand).terminals = t.terminals ++ .operator op :: operand.terminals
  | .done => by simp [snoc]
  | .more op' operand' tail => by simp [snoc, tail.terminals_snoc op operand]

theorem Tail.nesting_snoc (op : BinaryOp) (operand : Operand ν) : ∀ t : Tail ν,
    (t.snoc op operand).nesting = max t.nesting operand.nesting
  | .done => by simp [snoc]
  | .more op' operand' tail => by simp [snoc, tail.nesting_snoc op operand, Nat.max_assoc]

theorem Tail.fold_snoc (a : Algebra ν α) (op : BinaryOp) (operand : Operand ν) (t : Tail ν)
    (lhs : α) : (t.snoc op operand).fold a lhs = a.binary op (t.fold a lhs) (operand.fold a) := by
  cases t with
  | done => rfl
  | more op' operand' tail => exact tail.fold_snoc a op operand _

namespace Chain

def snoc (c : Chain ν) (op : BinaryOp) (operand : Operand ν) : Chain ν :=
  ⟨c.first, c.tail.snoc op operand⟩

/-- The chain as one operand. Only a chain of several operands takes parentheses. -/
def operand : Chain ν → Operand ν
  | ⟨first, .done⟩ => first
  | ⟨first, tail⟩ => .group first tail

theorem fold_operand (a : Algebra ν α) (c : Chain ν) : c.operand.fold a = c.fold a := by
  obtain ⟨first, _ | _⟩ := c <;> rfl

end Chain

namespace Expr

def canonical : Expr → Chain Word
  | literal value => ⟨.literal value, .done⟩
  | unary op operand => ⟨.unary op operand.canonical.operand, .done⟩
  | binary op lhs rhs => lhs.canonical.snoc op rhs.canonical.operand

theorem tree_canonical (e : Expr) : e.canonical.tree = e := by
  unfold Chain.tree
  induction e with
  | literal => rfl
  | unary op operand ih =>
    change Expr.unary op (operand.canonical.operand.fold .tree) = _
    rw [Chain.fold_operand, ih]
  | binary op lhs rhs ihl ihr =>
    rw [canonical, Chain.fold, Chain.snoc, Tail.fold_snoc, Chain.fold_operand, ihr]
    exact congrArg (binary op · rhs) ihl

theorem canonical_cases (e : Expr) :
    (e.isBinary = true ∧ ∃ first op operand tail, e.canonical = ⟨first, .more op operand tail⟩) ∨
    (e.isBinary = false ∧ ∃ first, e.canonical = ⟨first, .done⟩) := by
  cases e with
  | literal value => exact Or.inr ⟨rfl, .literal value, rfl⟩
  | unary op operand => exact Or.inr ⟨rfl, .unary op operand.canonical.operand, rfl⟩
  | binary op lhs rhs =>
    refine Or.inl ⟨rfl, ?_⟩
    cases h : lhs.canonical.tail <;> simp [canonical, Chain.snoc, h, Tail.snoc]

theorem nesting_operand_canonical (e : Expr) :
    e.canonical.operand.nesting = e.canonical.nesting + e.isBinary.toNat := by
  rcases e.canonical_cases with ⟨hbinary, _, _, _, _, h⟩ | ⟨hbinary, _, h⟩
  · rw [h, hbinary]; rfl
  · simp [h, hbinary, Chain.operand, Chain.nesting]

theorem texts_operand_canonical (e : Expr) : Terminal.texts e.canonical.operand.terminals =
    Text.enclose e.isBinary (Terminal.texts e.canonical.terminals) := by
  rcases e.canonical_cases with ⟨hbinary, _, _, _, _, h⟩ | ⟨hbinary, _, h⟩
  · simp [h, hbinary, Chain.operand, Chain.terminals, Terminal.text, Text.enclose]
  · simp [h, hbinary, Chain.operand, Chain.terminals, Text.enclose]

theorem nesting_canonical (e : Expr) : e.canonical.nesting = e.weight := by
  induction e with
  | literal => rfl
  | unary op operand ih =>
    rw [weight, ← ih, ← nesting_operand_canonical]
    simp [canonical, Chain.nesting]
  | binary op lhs rhs ihl ihr =>
    rw [weight, ← ihl, ← ihr, ← nesting_operand_canonical]
    simp [canonical, Chain.nesting, Chain.snoc, Tail.nesting_snoc, Nat.max_assoc]

theorem texts_canonical (e : Expr) : Terminal.texts e.canonical.terminals = e.print := by
  induction e with
  | literal => simp [canonical, Chain.terminals, Terminal.text, print]
  | unary op operand ih =>
    rw [print, ← ih, ← texts_operand_canonical]
    simp [canonical, Chain.terminals]
  | binary op lhs rhs ihl ihr =>
    rw [print, ← ihl, ← ihr, ← texts_operand_canonical]
    simp [canonical, Chain.terminals, Chain.snoc, Tail.terminals_snoc, Terminal.text]

end Expr

section Minimality

mutual

theorem Operand.weight_le : ∀ o : Operand Word,
    o.tree.weight + o.tree.isBinary.toNat ≤ o.nesting
  | .literal _ => Nat.le_refl 0
  | .unary op operand => Nat.succ_le_succ operand.weight_le
  | .group first tail => by
    have hfirst := first.weight_le
    have htail := tail.weight_le first.tree
    have hone := (tail.fold .tree first.tree).isBinary.toNat_le
    change (tail.fold .tree first.tree).weight + (tail.fold .tree first.tree).isBinary.toNat ≤
      max first.nesting tail.nesting + 1
    omega

theorem Tail.weight_le : ∀ (t : Tail Word) (lhs : Expr),
    (t.fold .tree lhs).weight ≤ max lhs.weight t.nesting
  | .done, lhs => Nat.le_max_left ..
  | .more op operand tail, lhs => by
    have hoperand := operand.weight_le
    have htail := tail.weight_le (.binary op lhs operand.tree)
    change (tail.fold .tree (.binary op lhs operand.tree)).weight ≤
      max lhs.weight (max operand.nesting tail.nesting)
    rw [Expr.weight] at htail
    omega

end

/-- No derivation of a tree nests less than the canonical one. -/
theorem Chain.weight_le (c : Chain Word) : c.tree.weight ≤ c.nesting := by
  have hfirst := c.first.weight_le
  have htail := c.tail.weight_le c.first.tree
  change (c.tail.fold .tree c.first.tree).weight ≤ max c.first.nesting c.tail.nesting
  omega

theorem Text.size_enclose (loose : Bool) (text : Text) :
    (Text.enclose loose text).size = text.size + 2 * loose.toNat := by
  have hparens : '('.utf8Size = 1 ∧ ')'.utf8Size = 1 := by decide
  cases loose with
  | false => rfl
  | true =>
    simp only [enclose, if_true, Text.size_cons, Text.size_append, Text.size_nil, hparens]
    change _ = text.size + 2
    omega

mutual

theorem Operand.size_print_le : ∀ o : Operand Word,
    (Text.enclose o.tree.isBinary o.tree.print).size ≤ (Terminal.texts o.terminals).size
  | .literal _ => by
    rw [Operand.terminals, Terminal.texts_cons, Terminal.texts_nil, List.append_nil]
    exact Nat.le_refl _
  | .unary op operand => by
    have hoperand := operand.size_print_le
    change (op.symbol ++ Text.enclose operand.tree.isBinary operand.tree.print).size ≤ _
    simp only [Operand.terminals, Terminal.texts_cons, UnaryOp.text_terminal, Text.size_append]
    omega
  | .group first tail => by
    have hfirst := first.size_print_le
    have htail := tail.size_print_le first.tree
    have hone := (tail.fold .tree first.tree).isBinary.toNat_le
    have hparens : Text.size ['('] = 1 ∧ Text.size [')'] = 1 := by decide
    change (Text.enclose (tail.fold .tree first.tree).isBinary
      (tail.fold .tree first.tree).print).size ≤ _
    rw [Text.size_enclose] at hfirst ⊢
    simp only [Operand.terminals, Terminal.texts_cons, Terminal.texts_append, Terminal.texts_nil,
      Terminal.text, Text.size_append, Text.size_nil, hparens]
    omega

theorem Tail.size_print_le : ∀ (t : Tail Word) (lhs : Expr),
    (t.fold .tree lhs).print.size ≤ lhs.print.size + (Terminal.texts t.terminals).size
  | .done, lhs => Nat.le_add_right ..
  | .more op operand tail, lhs => by
    have hoperand := operand.size_print_le
    have htail := tail.size_print_le (.binary op lhs operand.tree)
    change (tail.fold .tree (.binary op lhs operand.tree)).print.size ≤ _
    simp only [Expr.print, Text.size_append] at htail
    simp only [Tail.terminals, Terminal.texts_cons, Terminal.texts_append, Terminal.text,
      Text.size_append]
    omega

end

/-- No derivation of a tree has shorter terminals than the canonical one. -/
theorem Chain.size_print_le (c : Chain Word) :
    c.tree.print.size ≤ (Terminal.texts c.terminals).size := by
  have hfirst := c.first.size_print_le
  have htail := c.tail.size_print_le c.first.tree
  change (c.tail.fold .tree c.first.tree).print.size ≤ _
  rw [Text.size_enclose] at hfirst
  rw [terminals, Terminal.texts_append, Text.size_append]
  omega

end Minimality

end WordCalc
