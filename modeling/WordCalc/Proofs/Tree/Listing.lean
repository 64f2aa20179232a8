import Mathlib.Data.List.Basic
import Mathlib.Data.List.Forall2
import WordCalc.Expr.Listing
import WordCalc.Proofs.Numeral.Value
import WordCalc.Proofs.Tree.Preorder

/-! # Reading listings

A listing can be read back: from the last line up, each line takes the trees of its operands from
those below it. Two operators are called by one name, but a line also says how many operands its
operator takes.
-/

namespace WordCalc

variable {e : Expr} {depth : Nat} {place : List Nat} {lines : List Text}

def UnaryOp.ofLabel? (text : Text) : Option UnaryOp :=
  [negate, complement].find? (·.label.toList = text)

def BinaryOp.ofLabel? (text : Text) : Option BinaryOp :=
  all.find? (·.label.toList = text)

/-- What a node holds besides its operands. -/
inductive Head where
  | literal (value : Word)
  | unary (op : UnaryOp)
  | binary (op : BinaryOp)
  deriving DecidableEq, Repr

namespace Head

def ofNodeText? (text : Text) : Option Head :=
  ((text.dropPrefix? "LITERAL ".toList).bind Base.decimal.word?).map literal <|>
    ((text.dropPrefix? "OPER1 ".toList).bind UnaryOp.ofLabel?).map unary <|>
    ((text.dropPrefix? "OPER2 ".toList).bind BinaryOp.ofLabel?).map binary

/-- The head that a line names behind its dots. -/
def ofLine? (line : Text) : Option Head :=
  ((line.dropWhile (· = '.')).dropPrefix? "EXPR ".toList).bind ofNodeText?

def build : Head → List Expr → Option (List Expr)
  | literal value, trees => some (.literal value :: trees)
  | unary op, operand :: trees => some (.unary op operand :: trees)
  | binary op, lhs :: rhs :: trees => some (.binary op lhs rhs :: trees)
  | _, _ => none

end Head

namespace Expr

def head : Expr → Head
  | literal value => .literal value
  | unary op _ => .unary op
  | binary op _ _ => .binary op

def buildLine (line : Text) (trees : List Expr) : Option (List Expr) :=
  (Head.ofLine? line).bind (·.build trees)

/-- The expression that a text lists. -/
def ofListing? (text : Text) : Option Expr := do
  match ← (text.splitOn '\n').dropLast.foldrM buildLine [] with
  | [e] => some e
  | _ => none

def line (depth : Nat) (node : Expr) : Text :=
  List.replicate (2 * depth) '.' ++ "EXPR ".toList ++ node.nodeText

/-- The line shows the node at a place below an expression at the depth. -/
def ShowsNode (e : Expr) (depth : Nat) (place : List Nat) (line : Text) : Prop :=
  ∃ node, e.at? place = some node ∧ line = node.line (depth + place.length)

end Expr

theorem UnaryOp.ofLabel?_label (op : UnaryOp) : ofLabel? op.label.toList = some op := by
  cases op <;> decide

theorem BinaryOp.ofLabel?_label (op : BinaryOp) : ofLabel? op.label.toList = some op := by
  cases op <;> decide

theorem UnaryOp.newline_not_mem_label (op : UnaryOp) : '\n' ∉ op.label.toList := by
  cases op <;> decide

theorem BinaryOp.newline_not_mem_label (op : BinaryOp) : '\n' ∉ op.label.toList := by
  cases op <;> decide

theorem dropPrefix?_append (front back : Text) : (front ++ back).dropPrefix? front = some back :=
  List.dropPrefix?_eq_some_iff.mpr ⟨front, rfl, BEq.rfl⟩

/-- Every line feed ends a line, and nothing stands behind the last one. -/
theorem Text.splitOn_lines (h : ∀ line ∈ lines, '\n' ∉ line) :
    (lines.flatMap (· ++ ['\n'])).splitOn '\n' = lines ++ [[]] := by
  induction lines with
  | nil => rfl
  | cons line lines ih =>
    obtain ⟨hline, hlines⟩ := List.forall_mem_cons.mp h
    rw [List.flatMap_cons, List.append_assoc, List.singleton_append,
      List.splitOn_append_cons_self_of_not_mem hline, ih hlines]
    rfl

namespace Expr

theorem ofNodeText?_nodeText (e : Expr) : Head.ofNodeText? e.nodeText = some e.head := by
  unfold nodeText Head.ofNodeText?
  cases e with
  | literal value =>
    simp only [dropPrefix?_append "LITERAL ".toList, Option.bind_some, Base.word?_toDigits]
    rfl
  | unary op operand =>
    simp only [dropPrefix?_append "OPER1 ".toList, Option.bind_some, UnaryOp.ofLabel?_label]
    rfl
  | binary op lhs rhs =>
    simp only [dropPrefix?_append "OPER2 ".toList, Option.bind_some, BinaryOp.ofLabel?_label]
    rfl

theorem ofLine?_line (depth : Nat) (e : Expr) : Head.ofLine? (e.line depth) = some e.head := by
  have hdots : (e.line depth).dropWhile (· = '.') = "EXPR ".toList ++ e.nodeText := by
    rw [line, List.append_assoc, List.dropWhile_append_of_pos (by simp)]
    rfl
  rw [Head.ofLine?, hdots, dropPrefix?_append, Option.bind_some, ofNodeText?_nodeText]

theorem buildLine_line (depth : Nat) (e : Expr) (trees : List Expr) :
    buildLine (e.line depth) trees = e.head.build trees := by
  rw [buildLine, ofLine?_line, Option.bind_some]

theorem newline_not_mem_nodeText (e : Expr) : '\n' ∉ e.nodeText := by
  cases e with
  | literal value =>
    refine List.not_mem_append (by decide) fun h => ?_
    have hdigit := Base.isDigit_of_mem_toDigits h
    revert hdigit
    decide
  | unary op operand => exact List.not_mem_append (by decide) op.newline_not_mem_label
  | binary op lhs rhs => exact List.not_mem_append (by decide) op.newline_not_mem_label

theorem newline_not_mem_line (depth : Nat) (e : Expr) : '\n' ∉ e.line depth := by
  have hdots : '\n' ∉ List.replicate (2 * depth) '.' ++ "EXPR ".toList := by
    simp [List.mem_replicate]
  exact List.not_mem_append hdots e.newline_not_mem_nodeText

theorem listingLines_eq (depth : Nat) (e : Expr) :
    e.listingLines depth = e.line depth :: e.operands.flatMap (listingLines (depth + 1)) := by
  cases e <;> simp [listingLines, line, operands]

/-- The lines of a tree put it in front of the trees of later lines. -/
theorem foldrM_listingLines (e : Expr) (depth : Nat) (trees : List Expr) :
    (e.listingLines depth).foldrM buildLine trees = some (e :: trees) := by
  induction e generalizing depth trees with
  | literal value =>
    rw [listingLines_eq, List.foldrM_cons]
    exact buildLine_line depth _ trees
  | unary op operand ih =>
    rw [listingLines_eq, List.foldrM_cons, operands, List.flatMap_singleton, ih]
    exact buildLine_line depth _ _
  | binary op lhs rhs ihl ihr =>
    rw [listingLines_eq, List.foldrM_cons, operands, List.flatMap_cons, List.flatMap_singleton,
      List.foldrM_append, ihr, Option.bind_eq_bind, Option.bind_some, ihl]
    exact buildLine_line depth _ _

theorem showsNode_root (e : Expr) (depth : Nat) : ShowsNode e depth [] (e.line depth) :=
  ⟨e, rfl, rfl⟩

theorem showsNode_below {i : Nat} {operand : Expr} (hoperand : e.operands[i]? = some operand)
    (h : List.Forall₂ (ShowsNode operand (depth + 1)) operand.places lines) :
    List.Forall₂ (ShowsNode e depth) (operand.places.map (i :: ·)) lines := by
  refine List.forall₂_map_left_iff.mpr (h.imp ?_)
  rintro place line ⟨node, hnode, rfl⟩
  refine ⟨node, ?_, ?_⟩
  · rw [at?, hoperand]
    exact hnode
  · rw [List.length_cons, Nat.add_right_comm, Nat.add_assoc]

theorem showsNode_listingLines (e : Expr) (depth : Nat) :
    List.Forall₂ (ShowsNode e depth) e.places (e.listingLines depth) := by
  induction e generalizing depth with
  | literal value => exact .cons (showsNode_root ..) .nil
  | unary op operand ih => exact .cons (showsNode_root ..) (showsNode_below rfl (ih (depth + 1)))
  | binary op lhs rhs ihl ihr =>
    exact .cons (showsNode_root ..) (List.rel_append (showsNode_below rfl (ihl (depth + 1)))
      (showsNode_below rfl (ihr (depth + 1))))

theorem newline_not_mem_of_forall₂ {places : List (List Nat)}
    (h : List.Forall₂ (ShowsNode e depth) places lines) : ∀ line ∈ lines, '\n' ∉ line := by
  induction h with
  | nil => exact List.forall_mem_nil _
  | cons hfirst _ ih =>
    obtain ⟨node, -, rfl⟩ := hfirst
    exact List.forall_mem_cons.mpr ⟨node.newline_not_mem_line _, ih⟩

theorem ofListing?_listing (e : Expr) : ofListing? e.listing = some e := by
  have hlines := newline_not_mem_of_forall₂ (e.showsNode_listingLines 0)
  rw [ofListing?, listing, Text.splitOn_lines hlines, List.dropLast_concat, foldrM_listingLines]
  rfl

/-- A listing can be read back, so no other expression has it. It has one line for each node, in
preorder, which starts with two dots for each step from the root to the node. -/
theorem listing_faithful :
    (∀ e : Expr, ofListing? e.listing = some e) ∧ Function.Injective listing ∧
    ∀ e : Expr, ∃ places lines, e.listing = lines.flatMap (· ++ ['\n']) ∧
      (∀ line ∈ lines, '\n' ∉ line) ∧ places.Pairwise IsBefore ∧
      (∀ place, place ∈ places ↔ (e.at? place).isSome) ∧
      List.Forall₂ (fun place line => ∃ node : Expr, e.at? place = some node ∧
        line = List.replicate (2 * place.length) '.' ++ "EXPR ".toList ++ node.nodeText)
        places lines := by
  refine ⟨ofListing?_listing, fun e e' h => ?_, fun e => ?_⟩
  · have hread := ofListing?_listing e
    rw [h, ofListing?_listing] at hread
    exact (Option.some.inj hread).symm
  · have hshows := e.showsNode_listingLines 0
    refine ⟨e.places, e.listingLines 0, rfl, newline_not_mem_of_forall₂ hshows, e.pairwise_places,
      fun place => mem_places_iff, hshows.imp ?_⟩
    rintro place line ⟨node, hnode, rfl⟩
    exact ⟨node, hnode, by rw [Nat.zero_add]; rfl⟩

end Expr

end WordCalc
