import WordCalc.Proofs.Grammar.Fold
import WordCalc.Proofs.Group.Brackets

/-! # Operands in context

A context is a phrase with one place for an operand. Operands of one meaning leave a phrase its
meaning when they take the same place, and a division by zero in that place is one of the phrase.
Lexemes between matching parentheses are always a chain whose group takes some place.
-/

namespace WordCalc

variable {ν α : Type} {value : Base → Span → Option ν} {a : Algebra ν α} {x y : Operand ν}
  {items front later : List Lexeme} {opening : Lexeme}

def Chain.group (c : Chain ν) : Operand ν := .group c.first c.tail

mutual

/-- An operand with one place for an operand. -/
inductive OperandContext (ν : Type) where
  | here
  | unary (op : UnaryOp) (context : OperandContext ν)
  | group (context : ChainContext ν)

inductive ChainContext (ν : Type) where
  | first (context : OperandContext ν) (tail : Tail ν)
  | later (first : Operand ν) (op : BinaryOp) (context : ChainContext ν)

end

mutual

@[simp] def OperandContext.plug (x : Operand ν) : OperandContext ν → Operand ν
  | .here => x
  | .unary op context => .unary op (context.plug x)
  | .group context => (context.plug x).group

@[simp] def ChainContext.plug (x : Operand ν) : ChainContext ν → Chain ν
  | .first context tail => ⟨context.plug x, tail⟩
  | .later first op context => ⟨first, .more op (context.plug x).first (context.plug x).tail⟩

end

mutual

@[simp] def OperandContext.left : OperandContext ν → List (Terminal ν)
  | .here => []
  | .unary op context => op.terminal :: context.left
  | .group context => .openParen :: context.left

@[simp] def ChainContext.left : ChainContext ν → List (Terminal ν)
  | .first context _ => context.left
  | .later first op context => first.terminals ++ .operator op :: context.left

end

mutual

@[simp] def OperandContext.right : OperandContext ν → List (Terminal ν)
  | .here => []
  | .unary _ context => context.right
  | .group context => context.right ++ [.closeParen]

@[simp] def ChainContext.right : ChainContext ν → List (Terminal ν)
  | .first context tail => context.right ++ tail.terminals
  | .later _ _ context => context.right

end

mutual

theorem OperandContext.terminals_plug (x : Operand ν) : ∀ context : OperandContext ν,
    (context.plug x).terminals = context.left ++ (x.terminals ++ context.right)
  | .here => by simp
  | .unary op context => by simp [context.terminals_plug x]
  | .group context => by
    have hplug := context.terminals_plug x
    rw [Chain.terminals] at hplug
    simp only [OperandContext.plug, Chain.group, Operand.terminals, ← List.append_assoc, hplug]
    simp

theorem ChainContext.terminals_plug (x : Operand ν) : ∀ context : ChainContext ν,
    (context.plug x).terminals = context.left ++ (x.terminals ++ context.right)
  | .first context tail => by simp [Chain.terminals, context.terminals_plug x]
  | .later first op context => by
    have hplug := context.terminals_plug x
    rw [Chain.terminals] at hplug
    simp [Chain.terminals, hplug]

end

section Neighbours

variable {t : Terminal ν} {terminals terminals' : List (Terminal ν)}

def Terminal.isLiteral : Terminal ν → Bool
  | literal _ => true
  | _ => false

theorem isLiteral_getLast?_cons (ht : t.isLiteral = false)
    (h : ∀ t ∈ terminals.getLast?, t.isLiteral = false) :
    ∀ t' ∈ (t :: terminals).getLast?, t'.isLiteral = false := by
  cases hlast : terminals.getLast? with
  | none => simpa [List.getLast?_cons, hlast] using ht
  | some last => simpa [List.getLast?_cons, hlast] using h last hlast

theorem isLiteral_head?_append (h : ∀ t ∈ terminals.head?, t.isLiteral = false)
    (h' : ∀ t ∈ terminals'.head?, t.isLiteral = false) :
    ∀ t ∈ (terminals ++ terminals').head?, t.isLiteral = false := by
  cases terminals with
  | nil => exact h'
  | cons => exact h

mutual

theorem OperandContext.isLiteral_left : ∀ context : OperandContext ν,
    ∀ t ∈ context.left.getLast?, t.isLiteral = false
  | .here => by simp
  | .unary op context =>
    isLiteral_getLast?_cons (by cases op <;> rfl) context.isLiteral_left
  | .group context => isLiteral_getLast?_cons rfl context.isLiteral_left

theorem ChainContext.isLiteral_left : ∀ context : ChainContext ν,
    ∀ t ∈ context.left.getLast?, t.isLiteral = false
  | .first context _ => context.isLiteral_left
  | .later first op context => by
    rw [ChainContext.left, List.getLast?_append, List.getLast?_cons, Option.some_or,
      ← List.getLast?_cons]
    exact isLiteral_getLast?_cons rfl context.isLiteral_left

end

mutual

theorem OperandContext.isLiteral_right : ∀ context : OperandContext ν,
    ∀ t ∈ context.right.head?, t.isLiteral = false
  | .here => by simp
  | .unary _ context => context.isLiteral_right
  | .group context => isLiteral_head?_append context.isLiteral_right (by simp [Terminal.isLiteral])

theorem ChainContext.isLiteral_right : ∀ context : ChainContext ν,
    ∀ t ∈ context.right.head?, t.isLiteral = false
  | .first context tail =>
    isLiteral_head?_append context.isLiteral_right (by cases tail <;> simp [Terminal.isLiteral])
  | .later _ _ context => context.isLiteral_right

end

theorem isLiteral_of_terminal? {item : Lexeme} (h : item.terminal? value = some t) :
    item.token.isLiteral = t.isLiteral := by
  obtain ⟨token, span⟩ := item
  cases token with
  | literal base =>
    obtain ⟨n, -, rfl⟩ := Option.map_eq_some_iff.mp h
    rfl
  | endOfText => cases h
  | _ => obtain rfl := Option.some.inj h; rfl

theorem Writes.isLiteral_getLast? (hw : Writes value items terminals)
    (h : ∀ t ∈ terminals.getLast?, t.isLiteral = false) :
    ∀ last ∈ items.getLast?, last.token.isLiteral = false := by
  intro last hlast
  have heq := congrArg List.getLast? hw
  rw [List.getLast?_map, List.getLast?_map, Option.mem_def.mp hlast, Option.map_some] at heq
  obtain ⟨t, ht, hsome⟩ := Option.map_eq_some_iff.mp heq.symm
  rw [isLiteral_of_terminal? hsome.symm]
  exact h t ht

theorem Writes.isLiteral_head? (hw : Writes value items terminals)
    (h : ∀ t ∈ terminals.head?, t.isLiteral = false) :
    ∀ first ∈ items.head?, first.token.isLiteral = false := by
  intro first hfirst
  have heq := congrArg List.head? hw
  rw [List.head?_map, List.head?_map, Option.mem_def.mp hfirst, Option.map_some] at heq
  obtain ⟨t, ht, hsome⟩ := Option.map_eq_some_iff.mp heq.symm
  rw [isLiteral_of_terminal? hsome.symm]
  exact h t ht

end Neighbours

section Nesting

mutual

theorem OperandContext.nesting_plug_le (h : x.nesting ≤ y.nesting) : ∀ context : OperandContext ν,
    (context.plug x).nesting ≤ (context.plug y).nesting
  | .here => h
  | .unary _ context => Nat.succ_le_succ (context.nesting_plug_le h)
  | .group context => Nat.succ_le_succ (context.nesting_plug_le h)

theorem ChainContext.nesting_plug_le (h : x.nesting ≤ y.nesting) : ∀ context : ChainContext ν,
    (context.plug x).nesting ≤ (context.plug y).nesting
  | .first context _ => by
    have hle := context.nesting_plug_le h
    simp only [ChainContext.plug, Chain.nesting]
    omega
  | .later _ _ context => by
    have hle := context.nesting_plug_le h
    simp only [ChainContext.plug, Chain.nesting, Tail.nesting] at hle ⊢
    omega

end

mutual

theorem OperandContext.le_nesting_plug (x : Operand ν) : ∀ context : OperandContext ν,
    x.nesting ≤ (context.plug x).nesting
  | .here => Nat.le_refl _
  | .unary _ context => Nat.le_succ_of_le (context.le_nesting_plug x)
  | .group context => Nat.le_succ_of_le (context.le_nesting_plug x)

theorem ChainContext.le_nesting_plug (x : Operand ν) : ∀ context : ChainContext ν,
    x.nesting ≤ (context.plug x).nesting
  | .first context _ => Nat.le_trans (context.le_nesting_plug x) (Nat.le_max_left ..)
  | .later _ _ context => Nat.le_trans (context.le_nesting_plug x) (Nat.le_max_right ..)

end

end Nesting

section Meaning

mutual

/-- The meaning of a phrase depends on that of the operand in the place. -/
theorem OperandContext.fold_plug (h : x.fold a = y.fold a) : ∀ context : OperandContext ν,
    (context.plug x).fold a = (context.plug y).fold a
  | .here => h
  | .unary op context => congrArg (a.unary op) (context.fold_plug h)
  | .group context => context.fold_plug h id

theorem ChainContext.fold_plug (h : x.fold a = y.fold a) :
    ∀ (context : ChainContext ν) (f : α → α),
      (context.plug x).tail.fold a (f ((context.plug x).first.fold a)) =
        (context.plug y).tail.fold a (f ((context.plug y).first.fold a))
  | .first context tail, f => by simp only [ChainContext.plug, context.fold_plug h]
  | .later first op context, f => context.fold_plug h fun z => a.binary op (f (first.fold a)) z

end

/-- No operation gets rid of the property. -/
structure Algebra.Absorbs (a : Algebra ν α) (P : α → Prop) : Prop where
  unary : ∀ {op x}, P x → P (a.unary op x)
  left : ∀ {op x y}, P x → P (a.binary op x y)
  right : ∀ {op x y}, P y → P (a.binary op x y)

theorem Tail.fold_absorbs {P : α → Prop} (ha : a.Absorbs P) : ∀ (t : Tail ν) {lhs : α},
    P lhs → P (t.fold a lhs)
  | .done, _, h => h
  | .more _ _ tail, _, h => tail.fold_absorbs ha (ha.left h)

mutual

theorem OperandContext.plug_absorbs {P : α → Prop} (ha : a.Absorbs P) (h : P (x.fold a)) :
    ∀ context : OperandContext ν, P ((context.plug x).fold a)
  | .here => h
  | .unary _ context => ha.unary (context.plug_absorbs ha h)
  | .group context => context.plug_absorbs ha h fun hz => hz

theorem ChainContext.plug_absorbs {P : α → Prop} (ha : a.Absorbs P) (h : P (x.fold a)) :
    ∀ (context : ChainContext ν) {f : α → α}, (∀ {z}, P z → P (f z)) →
      P ((context.plug x).tail.fold a (f ((context.plug x).first.fold a)))
  | .first context tail, _, hf => tail.fold_absorbs ha (hf (context.plug_absorbs ha h))
  | .later _ _ context, _, _ => context.plug_absorbs ha h ha.right

end

theorem Algebra.value_absorbs : Algebra.value.Absorbs (· = .error .divisionByZero) := by
  constructor
  · rintro op _ rfl
    rfl
  · rintro op _ y rfl
    rfl
  · rintro op (⟨⟨⟩⟩ | x) _ rfl
    · rfl
    · rfl

end Meaning

theorem exists_context_of_chain {first : Operand ν} {tail : Tail ν}
    (hfirst : ∀ {later}, Writes value (front ++ opening :: later) first.terminals →
      ∃ (context : OperandContext ν) (g : Chain ν) (group back : List Lexeme),
        context.plug g.group = first ∧ opening :: later = group ++ back ∧
        Writes value front context.left ∧ Writes value group g.group.terminals ∧
        Writes value back context.right)
    (htail : ∀ {front}, Writes value (front ++ opening :: later) tail.terminals →
      ∃ (op : BinaryOp) (context : ChainContext ν) (g : Chain ν) (group back : List Lexeme),
        .more op (context.plug g.group).first (context.plug g.group).tail = tail ∧
        opening :: later = group ++ back ∧ Writes value front (.operator op :: context.left) ∧
        Writes value group g.group.terminals ∧ Writes value back context.right)
    (hw : Writes value (front ++ opening :: later) (Chain.mk first tail).terminals) :
    ∃ (context : ChainContext ν) (g : Chain ν) (group back : List Lexeme),
      context.plug g.group = ⟨first, tail⟩ ∧ opening :: later = group ++ back ∧
      Writes value front context.left ∧ Writes value group g.group.terminals ∧
      Writes value back context.right := by
  obtain ⟨items, rest, hsplit, hwfirst, hwtail⟩ := writes_append_iff.mp hw
  rcases List.append_eq_append_iff.mp hsplit with ⟨mid, rfl, hmid⟩ | ⟨mid, rfl, rfl⟩
  · rcases mid with _ | ⟨head, mid⟩
    · rw [List.nil_append] at hmid
      rw [List.append_nil] at hwfirst
      have hwnil : Writes value ([] ++ opening :: later) tail.terminals := hmid ▸ hwtail
      obtain ⟨op, context, g, group, back, rfl, heq, hleft, hgroup, hright⟩ := htail hwnil
      refine ⟨.later first op context, g, group, back, rfl, heq, ?_, hgroup, hright⟩
      simpa using hwfirst.append hleft
    · obtain ⟨rfl, rfl⟩ := List.cons.inj hmid
      obtain ⟨context, g, group, back, rfl, heq, hleft, hgroup, hright⟩ := hfirst hwfirst
      refine ⟨.first context tail, g, group, back ++ rest, rfl, ?_, hleft, hgroup,
        hright.append hwtail⟩
      rw [← List.append_assoc, ← heq]
      rfl
  · obtain ⟨op, context, g, group, back, rfl, heq, hleft, hgroup, hright⟩ := htail hwtail
    exact ⟨.later first op context, g, group, back, rfl, heq, hwfirst.append hleft, hgroup, hright⟩

mutual

theorem Operand.exists_context (hopen : opening.token = .openParen) : ∀ (o : Operand ν)
    {front later : List Lexeme}, Writes value (front ++ opening :: later) o.terminals →
      ∃ (context : OperandContext ν) (g : Chain ν) (group back : List Lexeme),
        context.plug g.group = o ∧ opening :: later = group ++ back ∧
        Writes value front context.left ∧ Writes value group g.group.terminals ∧
        Writes value back context.right
  | .literal n, front, _, hw => by
    obtain ⟨item, rest, heq, ht, hw⟩ := writes_cons_iff.mp hw
    obtain rfl := writes_nil_iff.mp hw
    obtain ⟨rfl, rfl, -⟩ : front = [] ∧ opening = item ∧ _ := by
      simpa [List.append_eq_cons_iff] using heq
    obtain ⟨base, hstart, -⟩ := terminal?_eq_literal_iff.mp ht
    rw [Token.start?_eq_literal_iff.mp hstart] at hopen
    cases hopen
  | .unary op operand, [], _, hw => by
    obtain ⟨item, rest, heq, ht, -⟩ := writes_cons_iff.mp hw
    obtain ⟨rfl, -⟩ := List.cons.inj heq
    rcases Token.eq_of_start?_eq_unary (terminal?_eq_unary_iff.mp ht) with htoken | htoken <;>
      simp [htoken] at hopen
  | .unary op operand, _ :: front, _, hw => by
    obtain ⟨item, rest, heq, ht, hw⟩ := writes_cons_iff.mp hw
    obtain ⟨rfl, rfl⟩ := List.cons.inj heq
    obtain ⟨context, g, group, back, rfl, heq, hleft, hgroup, hright⟩ :=
      operand.exists_context hopen hw
    exact ⟨.unary op context, g, group, back, rfl, heq, .cons ht hleft, hgroup, hright⟩
  | .group first tail, [], later, hw =>
    ⟨.here, ⟨first, tail⟩, opening :: later, [], rfl, (List.append_nil _).symm, rfl, hw, rfl⟩
  | .group first tail, _ :: front, later, hw => by
    obtain ⟨item, inner, last, heq, hitem, hlast, hchain⟩ := writes_group_iff.mp hw
    obtain ⟨rfl, hsplit⟩ := List.cons.inj heq
    rcases append_cons_eq_concat hsplit with ⟨-, rfl, -⟩ | ⟨mid, rfl, rfl⟩
    · rw [hlast] at hopen
      cases hopen
    · obtain ⟨context, g, group, back, hplug, heq, hleft, hgroup, hright⟩ :=
        exists_context_of_chain (first.exists_context hopen) (tail.exists_context hopen) hchain
      refine ⟨.group context, g, group, back ++ [last], ?_, ?_, .cons ?_ hleft, hgroup,
        hright.append (.cons ?_ (by simp))⟩
      · rw [OperandContext.plug, hplug]
        rfl
      · rw [← List.append_assoc, ← heq]
        rfl
      · exact terminal?_eq_openParen_iff.mpr (Token.start?_eq_group_iff.mpr hitem)
      · exact terminal?_eq_closeParen_iff.mpr hlast

theorem Tail.exists_context (hopen : opening.token = .openParen) : ∀ (t : Tail ν)
    {front later : List Lexeme}, Writes value (front ++ opening :: later) t.terminals →
      ∃ (op : BinaryOp) (context : ChainContext ν) (g : Chain ν) (group back : List Lexeme),
        .more op (context.plug g.group).first (context.plug g.group).tail = t ∧
        opening :: later = group ++ back ∧ Writes value front (.operator op :: context.left) ∧
        Writes value group g.group.terminals ∧ Writes value back context.right
  | .done, _, _, hw => by simp at hw
  | .more op operand tail, [], _, hw => by
    obtain ⟨item, rest, heq, ht, -⟩ := writes_cons_iff.mp hw
    obtain ⟨rfl, -⟩ := List.cons.inj heq
    rw [Token.binaryOp?_eq_some_iff.mp (terminal?_eq_operator_iff.mp ht)] at hopen
    cases hopen
  | .more op operand tail, _ :: front, _, hw => by
    obtain ⟨item, rest, heq, ht, hw⟩ := writes_cons_iff.mp hw
    obtain ⟨rfl, rfl⟩ := List.cons.inj heq
    obtain ⟨context, g, group, back, hplug, heq, hleft, hgroup, hright⟩ :=
      exists_context_of_chain (operand.exists_context hopen) (tail.exists_context hopen) hw
    exact ⟨op, context, g, group, back, by rw [hplug], heq, .cons ht hleft, hgroup, hright⟩

end

end WordCalc
