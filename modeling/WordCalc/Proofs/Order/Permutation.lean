import WordCalc.Proofs.Group.Transparency
import WordCalc.Proofs.Order.Commuting
import WordCalc.Proofs.Print.RoundTrip

/-! # Order of right operands

The value of a chain whose steps commute does not depend on the order of the steps. So the operands
behind the first one can change places in a text with one binary operator only, and together with
their operators in a text of additions and subtractions.
-/

namespace WordCalc

variable {ν α : Type} {a : Algebra ν α} {n : Nat} {links links' : List (BinaryOp × Operand ν)}

/-- The tail that applies each operator to the operand behind it, first to last. -/
def Tail.ofLinks : List (BinaryOp × Operand ν) → Tail ν
  | [] => .done
  | link :: links => .more link.1 link.2 (ofLinks links)

theorem Tail.nesting_ofLinks_le_iff :
    (ofLinks links).nesting ≤ n ↔ ∀ link ∈ links, link.2.nesting ≤ n := by
  induction links with
  | nil => simp [ofLinks]
  | cons link links ih => simp [ofLinks, ih]

theorem Tail.fold_ofLinks (lhs : α) : (ofLinks links).fold a lhs =
    links.foldl (fun acc link => a.binary link.1 acc (link.2.fold a)) lhs := by
  induction links generalizing lhs with
  | nil => rfl
  | cons link links ih => exact ih _

theorem Tail.fold_value_perm {links links' : List (BinaryOp × Operand Word)}
    (hcomm : ∀ link ∈ links, ∀ link' ∈ links, link.1.Commutes link'.1) (hperm : links.Perm links')
    (lhs : Except EvalError Word) :
    (ofLinks links).fold .value lhs = (ofLinks links').fold .value lhs := by
  rw [fold_ofLinks, fold_ofLinks]
  exact hperm.foldl_eq' (fun link hlink link' hlink' acc =>
    (hcomm link hlink link' hlink').value acc _ _) lhs

theorem Text.size_perm {text text' : Text} (h : text.Perm text') : text.size = text'.size := by
  induction h with
  | nil => rfl
  | cons c _ ih => rw [size_cons, size_cons, ih]
  | swap c c' text =>
    simp only [size_cons]
    omega
  | trans _ _ ih ih' => rw [ih, ih']

/-- A text that is one operand, with or without blanks around it. -/
structure OperandText where
  text : Text
  operand : Operand Word
  spells : Spells Base.word? text operand.terminals

def Operand.toText (o : Operand Word) : OperandText :=
  ⟨Terminal.texts o.terminals, o, by simpa using o.spells bounds_nil .nil⟩

namespace OperandText

variable {first : OperandText} {links links' : List (BinaryOp × OperandText)}

/-- The text goes on with each operator and the text of its operand. -/
def followedBy (first : OperandText) (links : List (BinaryOp × OperandText)) : Text :=
  first.text ++ links.flatMap fun link => link.1.symbol ++ link.2.text

def chain (first : OperandText) (links : List (BinaryOp × OperandText)) : Chain Word :=
  ⟨first.operand, .ofLinks (links.map fun link => (link.1, link.2.operand))⟩

theorem spells_links (links : List (BinaryOp × OperandText)) :
    Spells Base.word? (links.flatMap fun link => link.1.symbol ++ link.2.text)
      (Tail.ofLinks (links.map fun link => (link.1, link.2.operand))).terminals ∧
    Bounds (links.flatMap fun link => link.1.symbol ++ link.2.text) := by
  induction links with
  | nil => exact ⟨.nil, bounds_nil⟩
  | cons link links ih =>
    obtain ⟨hlinks, hbounds⟩ := ih
    simp only [List.flatMap_cons, List.append_assoc]
    exact ⟨(link.2.spells.append hbounds hlinks).operator link.1,
      bounds_append (operator_mem_symbols link.1) _⟩

theorem spells_followedBy (first : OperandText) (links : List (BinaryOp × OperandText)) :
    Spells Base.word? (first.followedBy links) (first.chain links).terminals := by
  obtain ⟨hlinks, hbounds⟩ := spells_links links
  exact first.spells.append hbounds hlinks

theorem nesting_chain_le_iff {n : Nat} : (first.chain links).nesting ≤ n ↔
    first.operand.nesting ≤ n ∧ ∀ link ∈ links, link.2.operand.nesting ≤ n := by
  rw [Chain.nesting, chain, Nat.max_le, Tail.nesting_ofLinks_le_iff, List.forall_mem_map]

/-- The first operand stays, and steps that commute can be taken in any order behind it. -/
theorem fold_chain_perm
    (hcomm : ∀ link ∈ links, ∀ link' ∈ links, link.1.Commutes link'.1)
    (hperm : links.Perm links') :
    (first.chain links).fold .value = (first.chain links').fold .value := by
  have hperm' := hperm.map fun link => (link.1, link.2.operand)
  rw [Chain.fold, Chain.fold, chain, chain, Tail.fold_value_perm _ hperm']
  simpa only [List.forall_mem_map] using hcomm

theorem size_followedBy_perm (hperm : links.Perm links') :
    (first.followedBy links).size = (first.followedBy links').size :=
  Text.size_perm ((hperm.flatMap_right _).append_left _)

end OperandText

namespace Text

open OperandText

/-- If a chain has one binary operator only, or only additions and subtractions, then the operands
behind the first one can change places together with their operators. The text remains an expression
and keeps its value, or remains one that divides by zero. -/
theorem evaluate_perm {first : OperandText} {links links' : List (BinaryOp × OperandText)}
    {e : Expr} (h : Expr.ofText (first.followedBy links) = .ok e)
    (hops : (∃ op, ∀ link ∈ links, link.1 = op) ∨ ∀ link ∈ links, link.1.IsAdditive)
    (hperm : links.Perm links') :
    evaluate (first.followedBy links') = evaluate (first.followedBy links) ∧
      ((∃ value, evaluate (first.followedBy links) = .ok value) ∨
        evaluate (first.followedBy links) = .error (.eval .divisionByZero)) := by
  obtain ⟨hsize, c, hspells, hn, -⟩ := Expr.ofText_eq_ok_iff.mp h
  obtain rfl := Chain.terminals_injective (hspells.unique (first.spells_followedBy links))
  have hn' : (first.chain links').nesting ≤ maxNesting := by
    rw [nesting_chain_le_iff] at hn ⊢
    exact ⟨hn.1, fun link hlink => hn.2 link (hperm.mem_iff.mpr hlink)⟩
  have hcomm : ∀ link ∈ links, ∀ link' ∈ links, link.1.Commutes link'.1 := by
    intro link hlink link' hlink'
    rcases hops with ⟨op, hop⟩ | hop
    · rw [hop link hlink, hop link' hlink']
      exact op.commutes_self
    · exact BinaryOp.commutes_of_isAdditive (hop link hlink) (hop link' hlink')
  have hvalue := evaluate_of_spells hsize (first.spells_followedBy links) hn
  have hvalue' := evaluate_of_spells (size_followedBy_perm hperm ▸ hsize)
    (first.spells_followedBy links') hn'
  rw [hvalue, hvalue', fold_chain_perm hcomm hperm]
  refine ⟨rfl, ?_⟩
  cases (first.chain links').fold .value with
  | ok value => exact Or.inl ⟨value, rfl⟩
  | error e => exact Or.inr (congrArg _ (congrArg _ (e.eq _)))

theorem evaluate_perm_signs :
    evaluate ['1', '0', '+', '-', '1', '-', '(', '2', '*', '3', ')'] =
      evaluate ['1', '0', '-', '(', '2', '*', '3', ')', '+', '-', '1'] := by
  let first : OperandText := (Operand.literal 10).toText
  let group : OperandText := (Operand.group (.literal 2) (.more .mul (.literal 3) .done)).toText
  let signed : OperandText := (Operand.unary .negate (.literal 1)).toText
  have htext : first.followedBy [(.sub, group), (.add, signed)] =
      ['1', '0', '-', '(', '2', '*', '3', ')', '+', '-', '1'] := rfl
  have hread : Expr.ofText (first.followedBy [(.sub, group), (.add, signed)]) =
      .ok (.binary .add (.binary .sub (.literal 10) (.binary .mul (.literal 2) (.literal 3)))
        (.unary .negate (.literal 1))) := by
    rw [htext]
    rfl
  have hops : ∀ link ∈ [(BinaryOp.sub, group), (.add, signed)], link.1.IsAdditive := by
    simp [BinaryOp.IsAdditive]
  exact (evaluate_perm hread (Or.inr hops) (.swap ..)).1

end Text

end WordCalc
