import WordCalc.Expr.Basic

/-! # Listings

A listing shows one node of an expression on a line, parents before children
and left before right, with two dots for each level of depth.
-/

namespace WordCalc.Expr

def nodeText : Expr → Text
  | literal value => "LITERAL ".toList ++ Nat.toDigits 10 value.toNat
  | unary op _ => "OPER1 ".toList ++ op.label.toList
  | binary op _ _ => "OPER2 ".toList ++ op.label.toList

/-- The lines of an expression whose root stands at `depth`. -/
def listingLines (depth : Nat) (e : Expr) : List Text :=
  (List.replicate (2 * depth) '.' ++ "EXPR ".toList ++ e.nodeText) ::
    match e with
    | literal _ => []
    | unary _ operand => operand.listingLines (depth + 1)
    | binary _ lhs rhs => lhs.listingLines (depth + 1) ++ rhs.listingLines (depth + 1)

/-- The lines of an expression, each ended by a line feed. -/
def listing (e : Expr) : Text := (e.listingLines 0).flatMap (· ++ ['\n'])

end WordCalc.Expr
