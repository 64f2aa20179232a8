import WordCalc.Expr.Basic

/-! # Nodes in preorder

A node of an expression has a place, the numbers of the operands through which one gets to it from
the root. In lexicographic order of the places a node comes before those below it, and what is below
one operand before what is below the next.
-/

namespace WordCalc.Expr

variable {e : Expr} {place : List Nat}

def operands : Expr → List Expr
  | literal _ => []
  | unary _ operand => [operand]
  | binary _ lhs rhs => [lhs, rhs]

/-- The part of the expression whose root stands at a place. -/
def at? (e : Expr) : List Nat → Option Expr
  | [] => some e
  | i :: place => e.operands[i]?.bind fun operand => operand.at? place

abbrev IsBefore (place place' : List Nat) : Prop := List.Lex (· < ·) place place'

/-- The places of all nodes. -/
def places : Expr → List (List Nat)
  | literal _ => [[]]
  | unary _ operand => [] :: operand.places.map (0 :: ·)
  | binary _ lhs rhs => [] :: (lhs.places.map (0 :: ·) ++ rhs.places.map (1 :: ·))

theorem mem_places_iff : place ∈ e.places ↔ (e.at? place).isSome := by
  induction e generalizing place with
  | literal value =>
    cases place <;> simp [places, at?, operands]
  | unary op operand ih =>
    rcases place with _ | ⟨_ | i, place⟩ <;> simp [places, at?, operands, ih]
  | binary op lhs rhs ihl ihr =>
    rcases place with _ | ⟨_ | _ | i, place⟩ <;> simp [places, at?, operands, ihl, ihr]

theorem pairwise_places_map (h : e.places.Pairwise IsBefore) (i : Nat) :
    (e.places.map (i :: ·)).Pairwise IsBefore :=
  List.pairwise_map.mpr (h.imp List.Lex.cons)

theorem pairwise_places (e : Expr) : e.places.Pairwise IsBefore := by
  induction e with
  | literal value => exact List.pairwise_singleton _ _
  | unary op operand ih =>
    refine List.pairwise_cons.mpr ⟨fun place hplace => ?_, pairwise_places_map ih 0⟩
    obtain ⟨place, -, rfl⟩ := List.mem_map.mp hplace
    exact .nil
  | binary op lhs rhs ihl ihr =>
    refine List.pairwise_cons.mpr ⟨fun place hplace => ?_, List.pairwise_append.mpr
      ⟨pairwise_places_map ihl 0, pairwise_places_map ihr 1, fun left hleft right hright => ?_⟩⟩
    · rcases List.mem_append.mp hplace with hplace | hplace <;>
        obtain ⟨place, -, rfl⟩ := List.mem_map.mp hplace <;>
        exact .nil
    · obtain ⟨left, -, rfl⟩ := List.mem_map.mp hleft
      obtain ⟨right, -, rfl⟩ := List.mem_map.mp hright
      exact .rel Nat.zero_lt_one

end WordCalc.Expr
