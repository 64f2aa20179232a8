import WordCalc.Expr.Eval
import WordCalc.Proofs.Grammar.Derivation

/-! # Folds of derivations

Folds over related algebras have related results, whatever the derivation. Folding the tree of
a derivation is folding the derivation. Renaming the values of literals renames those of the
terminals, and every derivation of renamed terminals comes from one of the terminals themselves.
-/

namespace WordCalc

variable {ν μ α β : Type} {a : Algebra ν α} {b : Algebra ν β} {P : BinaryOp → Prop}
  {R : α → β → Prop}

/-- The operations keep a relation between their results, the binary ones as far as allowed. -/
structure Algebra.Related (a : Algebra ν α) (b : Algebra ν β) (P : BinaryOp → Prop)
    (R : α → β → Prop) : Prop where
  literal : ∀ value, R (a.literal value) (b.literal value)
  unary : ∀ op {x y}, R x y → R (a.unary op x) (b.unary op y)
  binary : ∀ op {x y x' y'}, P op → R x y → R x' y' → R (a.binary op x x') (b.binary op y y')

mutual

theorem Operand.fold_related (h : a.Related b P R) : ∀ o : Operand ν,
    (∀ op, .operator op ∈ o.terminals → P op) → R (o.fold a) (o.fold b)
  | .literal value, _ => h.literal value
  | .unary op operand, hops =>
    h.unary op (operand.fold_related h fun op' hop => hops op' (List.mem_cons_of_mem _ hop))
  | .group first tail, hops => by
    simp only [Operand.terminals, List.mem_cons, List.mem_append] at hops
    exact tail.fold_related h (fun op hop => hops op (by simp [hop]))
      (first.fold_related h fun op hop => hops op (by simp [hop]))

theorem Tail.fold_related (h : a.Related b P R) : ∀ (t : Tail ν) {x : α} {y : β},
    (∀ op, .operator op ∈ t.terminals → P op) → R x y → R (t.fold a x) (t.fold b y)
  | .done, _, _, _, hxy => hxy
  | .more op operand tail, _, _, hops, hxy => by
    simp only [Tail.terminals, List.mem_cons, List.mem_append] at hops
    have hoperand := operand.fold_related h fun op hop => hops op (by simp [hop])
    exact tail.fold_related h (fun op hop => hops op (by simp [hop]))
      (h.binary op (hops op (by simp)) hxy hoperand)

end

theorem Chain.fold_related (h : a.Related b P R) (c : Chain ν)
    (hops : ∀ op, .operator op ∈ c.terminals → P op) : R (c.fold a) (c.fold b) := by
  simp only [terminals, List.mem_append] at hops
  exact c.tail.fold_related h (fun op hop => hops op (Or.inr hop))
    (c.first.fold_related h fun op hop => hops op (Or.inl hop))

theorem Chain.fold_tree (a : Algebra Word α) (c : Chain Word) : c.tree.fold a = c.fold a := by
  have hrelated : Algebra.tree.Related a (fun _ => True) fun e x => e.fold a = x := by
    constructor
    · exact fun _ => rfl
    · rintro op x y rfl
      rfl
    · rintro op x y x' y' - rfl rfl
      rfl
  exact c.fold_related hrelated fun _ _ => trivial

/-- Values as the meaning of phrases. A division by zero poisons every value made from it. -/
def Algebra.value : Algebra Word (Except EvalError Word) where
  literal := .ok
  unary op value := value.map op.apply
  binary op left right := do op.apply (← left) (← right)

theorem Expr.fold_value (e : Expr) : e.fold .value = e.eval := by
  induction e with
  | literal => rfl
  | unary op operand ih =>
    rw [fold, ih, eval]
    cases operand.eval <;> rfl
  | binary op lhs rhs ihl ihr => rw [fold, ihl, ihr]; rfl

theorem Chain.fold_value (c : Chain Word) : c.fold .value = c.tree.eval := by
  rw [← Expr.fold_value, fold_tree]

section Renaming

mutual

def Operand.map (f : ν → μ) : Operand ν → Operand μ
  | .literal value => .literal (f value)
  | .unary op operand => .unary op (operand.map f)
  | .group first tail => .group (first.map f) (tail.map f)

def Tail.map (f : ν → μ) : Tail ν → Tail μ
  | .done => .done
  | .more op operand tail => .more op (operand.map f) (tail.map f)

end

def Chain.map (f : ν → μ) (c : Chain ν) : Chain μ := ⟨c.first.map f, c.tail.map f⟩

def Algebra.comap (f : ν → μ) (a : Algebra μ α) : Algebra ν α := ⟨a.literal ∘ f, a.unary, a.binary⟩

mutual

theorem Operand.fold_map (f : ν → μ) (a : Algebra μ α) : ∀ o : Operand ν,
    (o.map f).fold a = o.fold (a.comap f)
  | .literal _ => rfl
  | .unary op operand => congrArg (a.unary op) (operand.fold_map f a)
  | .group first tail => by
    rw [Operand.map, Operand.fold, first.fold_map, tail.fold_map]
    rfl

theorem Tail.fold_map (f : ν → μ) (a : Algebra μ α) : ∀ (t : Tail ν) (x : α),
    (t.map f).fold a x = t.fold (a.comap f) x
  | .done, _ => rfl
  | .more op operand tail, x => by
    rw [Tail.map, Tail.fold, operand.fold_map, tail.fold_map]
    rfl

end

theorem Chain.fold_map (f : ν → μ) (a : Algebra μ α) (c : Chain ν) :
    (c.map f).fold a = c.fold (a.comap f) := by
  rw [map, Chain.fold, Operand.fold_map, Tail.fold_map]
  rfl

namespace Terminal

variable {f : ν → μ} {t : Terminal ν}

theorem map_eq_literal_iff {value : μ} :
    t.map f = .literal value ↔ ∃ n, t = .literal n ∧ f n = value := by
  cases t <;> simp [map]

theorem map_eq_operator_iff {op : BinaryOp} : t.map f = .operator op ↔ t = .operator op := by
  cases t <;> simp [map]

theorem map_eq_openParen_iff : t.map f = .openParen ↔ t = .openParen := by
  cases t <;> simp [map]

theorem map_eq_closeParen_iff : t.map f = .closeParen ↔ t = .closeParen := by
  cases t <;> simp [map]

theorem map_eq_unary_iff {op : UnaryOp} : t.map f = op.terminal ↔ t = op.terminal := by
  cases op <;> cases t <;> simp [map, UnaryOp.terminal]

end Terminal

mutual

theorem Operand.exists_map_eq (f : ν → μ) : ∀ (o : Operand μ) {terminals : List (Terminal ν)},
    terminals.map (Terminal.map f) = o.terminals →
      ∃ o' : Operand ν, o'.terminals = terminals ∧ o'.map f = o
  | .literal value, _, h => by
    obtain ⟨t, later, rfl, ht, hlater⟩ := List.map_eq_cons_iff.mp h
    obtain ⟨n, rfl, rfl⟩ := Terminal.map_eq_literal_iff.mp ht
    obtain rfl := List.map_eq_nil_iff.mp hlater
    exact ⟨.literal n, rfl, rfl⟩
  | .unary op operand, _, h => by
    obtain ⟨t, later, rfl, ht, hlater⟩ := List.map_eq_cons_iff.mp h
    obtain rfl := Terminal.map_eq_unary_iff.mp ht
    obtain ⟨o, rfl, rfl⟩ := operand.exists_map_eq f hlater
    exact ⟨.unary op o, rfl, rfl⟩
  | .group first tail, _, h => by
    obtain ⟨t, later, rfl, ht, hlater⟩ := List.map_eq_cons_iff.mp h
    obtain rfl := Terminal.map_eq_openParen_iff.mp ht
    obtain ⟨front, later, rfl, hfront, hlater⟩ := List.map_eq_append_iff.mp hlater
    obtain ⟨back, close, rfl, hback, hclose⟩ := List.map_eq_append_iff.mp hlater
    obtain ⟨t, later, rfl, ht, hend⟩ := List.map_eq_cons_iff.mp hclose
    obtain rfl := Terminal.map_eq_closeParen_iff.mp ht
    obtain rfl := List.map_eq_nil_iff.mp hend
    obtain ⟨o, rfl, rfl⟩ := first.exists_map_eq f hfront
    obtain ⟨t, rfl, rfl⟩ := tail.exists_map_eq f hback
    exact ⟨.group o t, rfl, rfl⟩

theorem Tail.exists_map_eq (f : ν → μ) : ∀ (t : Tail μ) {terminals : List (Terminal ν)},
    terminals.map (Terminal.map f) = t.terminals →
      ∃ t' : Tail ν, t'.terminals = terminals ∧ t'.map f = t
  | .done, _, h => by
    obtain rfl := List.map_eq_nil_iff.mp h
    exact ⟨.done, rfl, rfl⟩
  | .more op operand tail, _, h => by
    obtain ⟨t, later, rfl, ht, hlater⟩ := List.map_eq_cons_iff.mp h
    obtain rfl := Terminal.map_eq_operator_iff.mp ht
    obtain ⟨front, back, rfl, hfront, hback⟩ := List.map_eq_append_iff.mp hlater
    obtain ⟨o, rfl, rfl⟩ := operand.exists_map_eq f hfront
    obtain ⟨t, rfl, rfl⟩ := tail.exists_map_eq f hback
    exact ⟨.more op o t, rfl, rfl⟩

end

theorem Chain.exists_map_eq (f : ν → μ) (c : Chain μ) {terminals : List (Terminal ν)}
    (h : terminals.map (Terminal.map f) = c.terminals) :
    ∃ c' : Chain ν, c'.terminals = terminals ∧ c'.map f = c := by
  obtain ⟨front, back, rfl, hfront, hback⟩ := List.map_eq_append_iff.mp h
  obtain ⟨o, rfl, hfirst⟩ := c.first.exists_map_eq f hfront
  obtain ⟨t, rfl, htail⟩ := c.tail.exists_map_eq f hback
  exact ⟨⟨o, t⟩, rfl, by rw [map, hfirst, htail]⟩

end Renaming

end WordCalc
