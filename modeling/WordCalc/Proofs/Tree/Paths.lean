import WordCalc.Expr.Listing
import WordCalc.Proofs.Print.RoundTrip

/-! # Paths of trees

A path leads from the root of an expression to one of its literals. Nesting bounds the unary nodes
on a path, and the size of the text bounds the binary ones, of which a chain puts any number on one
path without nesting. A function that calls itself for the operands of a node therefore has a
bounded number of calls open at once.
-/

namespace WordCalc

variable {α : Type} {a : Algebra Word α} {e : Expr} {limit : Nat} {source : Text}

/-- The ways from the root of an expression down to one of its literals. -/
inductive Expr.Path : Expr → Type where
  | leaf (value : Word) : Path (.literal value)
  | operand (op : UnaryOp) {operand : Expr} : Path operand → Path (.unary op operand)
  | left (op : BinaryOp) {lhs : Expr} (rhs : Expr) : Path lhs → Path (.binary op lhs rhs)
  | right (op : BinaryOp) (lhs : Expr) {rhs : Expr} : Path rhs → Path (.binary op lhs rhs)

namespace Expr.Path

@[simp] def unaries : {e : Expr} → Path e → Nat
  | _, .leaf _ => 0
  | _, .operand _ path => path.unaries + 1
  | _, .left _ _ path => path.unaries
  | _, .right _ _ path => path.unaries

@[simp] def binaries : {e : Expr} → Path e → Nat
  | _, .leaf _ => 0
  | _, .operand _ path => path.binaries
  | _, .left _ _ path => path.binaries + 1
  | _, .right _ _ path => path.binaries + 1

/-- The number of steps on the path to a binary node from a unary one or to the right. -/
@[simp] def enclosed : {e : Expr} → Path e → Nat
  | _, .leaf _ => 0
  | _, @operand _ inner path => path.enclosed + inner.isBinary.toNat
  | _, .left _ _ path => path.enclosed
  | _, @right _ _ rhs path => path.enclosed + rhs.isBinary.toNat

def nodes (path : Path e) : Nat := path.unaries + path.binaries

theorem nodes_operand (op : UnaryOp) (path : Path e) :
    (operand op path).nodes = path.nodes + 1 := Nat.add_right_comm ..

theorem nodes_left (op : BinaryOp) (rhs : Expr) (path : Path e) :
    (left op rhs path).nodes = path.nodes + 1 := rfl

theorem nodes_right (op : BinaryOp) (lhs : Expr) (path : Path e) :
    (right op lhs path).nodes = path.nodes + 1 := rfl

def leftmost : (e : Expr) → Path e
  | literal value => .leaf value
  | unary op inner => .operand op (leftmost inner)
  | binary op lhs rhs => .left op rhs (leftmost lhs)

theorem exists_limit (h : ∀ path : e.Path, path.nodes < limit) : ∃ limit', limit = limit' + 1 :=
  Nat.exists_eq_add_one.mpr (Nat.zero_lt_of_lt (h (.leftmost e)))

theorem levels_le (path : Path e) : path.unaries + path.enclosed ≤ e.weight := by
  induction path with
  | leaf => exact Nat.le_refl 0
  | operand op path ih =>
    simp only [unaries, enclosed, weight]
    omega
  | left op rhs path ih => exact Nat.le_trans ih (Nat.le_max_left ..)
  | right op lhs path ih =>
    simp only [unaries, enclosed, weight]
    omega

end Expr.Path

theorem Text.size_pos {text : Text} (h : text ≠ []) : 1 ≤ text.size := by
  obtain ⟨c, text, rfl⟩ := List.exists_cons_of_ne_nil h
  exact Nat.le_trans c.utf8Size_pos (Nat.le_add_right ..)

theorem UnaryOp.size_symbol (op : UnaryOp) : op.symbol.size = 1 := by
  cases op <;> rfl

theorem BinaryOp.size_symbol_pos (op : BinaryOp) : 1 ≤ op.symbol.size := by
  cases op <;> decide

namespace Expr

theorem size_print_pos (e : Expr) : 1 ≤ e.print.size := by
  cases e with
  | literal value => exact Text.size_pos Nat.toDigits_ne_nil
  | unary op operand =>
    rw [print, Text.size_append, op.size_symbol]
    exact Nat.le_add_right ..
  | binary op lhs rhs =>
    have hop := op.size_symbol_pos
    rw [print, Text.size_append, Text.size_append]
    omega

theorem Path.size_le (path : Path e) : path.unaries + 2 * path.binaries + 1 ≤ e.print.size := by
  induction path with
  | leaf value => exact size_print_pos (literal value)
  | operand op path ih =>
    simp only [unaries, binaries, print, Text.size_append, Text.size_enclose, op.size_symbol]
    omega
  | left op rhs path ih =>
    have hop := op.size_symbol_pos
    have hrhs := rhs.size_print_pos
    simp only [unaries, binaries, print, Text.size_append, Text.size_enclose]
    omega
  | right op lhs path ih =>
    have hop := op.size_symbol_pos
    have hlhs := lhs.size_print_pos
    simp only [unaries, binaries, print, Text.size_append, Text.size_enclose]
    omega

theorem Path.nodes_le (path : Path e) (hsize : e.print.size ≤ maxSize)
    (hweight : e.weight ≤ maxNesting) : path.nodes ≤ 2175 := by
  have hlevels : path.unaries + path.enclosed ≤ 256 := Nat.le_trans path.levels_le hweight
  have hbytes : path.unaries + 2 * path.binaries + 1 ≤ 4096 :=
    Nat.le_trans path.size_le hsize
  unfold nodes
  omega

end Expr

namespace Algebra

/-- Fold an expression with at most `limit` calls open at once. -/
def foldWithin (a : Algebra Word α) : (limit : Nat) → Expr → Option α
  | 0, _ => none
  | _ + 1, .literal value => some (a.literal value)
  | limit + 1, .unary op operand => do
    let value ← a.foldWithin limit operand
    return a.unary op value
  | limit + 1, .binary op lhs rhs => do
    let left ← a.foldWithin limit lhs
    let right ← a.foldWithin limit rhs
    return a.binary op left right

/-- While a node is folded, a call is open for it and for each node above it. -/
theorem foldWithin_eq_fold (h : ∀ path : e.Path, path.nodes < limit) :
    a.foldWithin limit e = some (e.fold a) := by
  induction e generalizing limit with
  | literal value =>
    obtain ⟨limit, rfl⟩ := Expr.Path.exists_limit h
    rfl
  | unary op operand ih =>
    obtain ⟨limit, rfl⟩ := Expr.Path.exists_limit h
    have hoperand (path : operand.Path) : path.nodes < limit := by
      simpa [Expr.Path.nodes_operand] using h (.operand op path)
    rw [foldWithin, ih hoperand]
    rfl
  | binary op lhs rhs ihl ihr =>
    obtain ⟨limit, rfl⟩ := Expr.Path.exists_limit h
    have hlhs (path : lhs.Path) : path.nodes < limit := by
      simpa [Expr.Path.nodes_left] using h (.left op rhs path)
    have hrhs (path : rhs.Path) : path.nodes < limit := by
      simpa [Expr.Path.nodes_right] using h (.right op lhs path)
    rw [foldWithin, ihl hlhs, ihr hrhs]
    rfl

theorem foldWithin_eq_none (path : e.Path) (h : limit ≤ path.nodes) :
    a.foldWithin limit e = none := by
  induction path generalizing limit with
  | leaf value =>
    obtain rfl := Nat.le_zero.mp h
    rfl
  | operand op path ih =>
    cases limit with
    | zero => rfl
    | succ limit =>
      rw [Expr.Path.nodes_operand] at h
      rw [foldWithin, ih (Nat.le_of_succ_le_succ h)]
      rfl
  | left op rhs path ih =>
    cases limit with
    | zero => rfl
    | succ limit =>
      rw [Expr.Path.nodes_left] at h
      rw [foldWithin, ih (Nat.le_of_succ_le_succ h)]
      rfl
  | right op lhs path ih =>
    cases limit with
    | zero => rfl
    | succ limit =>
      rw [Expr.Path.nodes_right] at h
      rw [foldWithin, ih (Nat.le_of_succ_le_succ h)]
      cases a.foldWithin limit lhs <;> rfl

def lines : Algebra Word (Nat → List Text) where
  literal value depth := (Expr.literal value).listingLines depth
  unary op lines depth :=
    (List.replicate (2 * depth) '.' ++ "EXPR ".toList ++ ("OPER1 ".toList ++ op.label.toList)) ::
      lines (depth + 1)
  binary op left right depth :=
    (List.replicate (2 * depth) '.' ++ "EXPR ".toList ++ ("OPER2 ".toList ++ op.label.toList)) ::
      (left (depth + 1) ++ right (depth + 1))

end Algebra

theorem Expr.fold_lines (e : Expr) : e.fold .lines = fun depth => e.listingLines depth := by
  induction e with
  | literal value => rfl
  | unary op operand ih =>
    rw [fold, ih]
    rfl
  | binary op lhs rhs ihl ihr =>
    rw [fold, ihl, ihr]
    rfl

section TallTrees

namespace Expr

def negations : Nat → Expr
  | 0 => literal 1
  | n + 1 => unary .negate (negations n)

def sums (first : Expr) : Nat → Expr
  | 0 => first
  | n + 1 => binary .add (sums first n) (literal 1)

theorem weight_negations (n : Nat) : (negations n).weight = n := by
  induction n with
  | zero => rfl
  | succ n ih =>
    have hbinary : (negations n).isBinary = false := by cases n <;> rfl
    rw [negations, weight, ih, hbinary]
    rfl

theorem size_print_negations (n : Nat) : (negations n).print.size = n + 1 := by
  induction n with
  | zero => rfl
  | succ n ih =>
    have hbinary : (negations n).isBinary = false := by cases n <;> rfl
    rw [negations, print, Text.size_append, Text.size_enclose, ih, hbinary, UnaryOp.size_symbol,
      Bool.toNat_false]
    omega

theorem weight_sums (first : Expr) (n : Nat) : (sums first n).weight = first.weight := by
  induction n with
  | zero => rfl
  | succ n ih =>
    rw [sums, weight, ih]
    exact Nat.max_zero _

theorem size_print_sums (first : Expr) (n : Nat) :
    (sums first n).print.size = first.print.size + 2 * n := by
  induction n with
  | zero => rfl
  | succ n ih =>
    have hone : (literal 1).isBinary = false ∧ (literal 1).print.size = 1 := ⟨rfl, rfl⟩
    have hadd : BinaryOp.add.symbol.size = 1 := rfl
    rw [sums, print, Text.size_append, Text.size_append, Text.size_enclose, ih, hone.1, hone.2,
      hadd, Bool.toNat_false]
    omega

theorem Path.exists_negations (n : Nat) :
    ∃ path : (negations n).Path, path.unaries = n ∧ path.binaries = 0 := by
  induction n with
  | zero => exact ⟨.leaf 1, rfl, rfl⟩
  | succ n ih =>
    obtain ⟨path, hunaries, hbinaries⟩ := ih
    exact ⟨.operand .negate path, congrArg (· + 1) hunaries, hbinaries⟩

theorem Path.exists_sums {first : Expr} (path : first.Path) (n : Nat) :
    ∃ path' : (sums first n).Path,
      path'.unaries = path.unaries ∧ path'.binaries = path.binaries + n := by
  induction n with
  | zero => exact ⟨path, rfl, rfl⟩
  | succ n ih =>
    obtain ⟨path', hunaries, hbinaries⟩ := ih
    exact ⟨.left .add (literal 1) path', hunaries, congrArg (· + 1) hbinaries⟩

end Expr

end TallTrees

theorem Spells.exists_ofLexemes {c : Chain Word} (h : Spells Base.word? source c.terminals)
    (hn : c.nesting ≤ maxNesting) :
    ∃ items, Lexeme.scanFrom 0 0 source = .ok items ∧ Expr.ofLexemes source items = .ok c.tree := by
  obtain ⟨body, last, hcovers, hlast, hw⟩ := h.covers []
  rw [List.nil_append, valueAt_word?] at hw
  exact ⟨_, Lexeme.scanFrom_of_covers hcovers,
    Expr.ofLexemes_of_derives ⟨body, last, [], rfl, hlast, hw⟩ hn⟩

namespace Expr

theorem nodes_le_of_ofText (h : ofText source = .ok e) (path : e.Path) : path.nodes ≤ 2175 := by
  obtain ⟨hsize, -⟩ := ofText_eq_ok_iff.mp h
  exact path.nodes_le (Nat.le_trans (size_print_le h) hsize) (weight_le h)

theorem foldWithin_of_ofText (h : ofText source = .ok e) (a : Algebra Word α) :
    a.foldWithin 2176 e = some (e.fold a) :=
  Algebra.foldWithin_eq_fold fun path => Nat.lt_succ_of_le (nodes_le_of_ofText h path)

/-- Every number of unary and binary nodes that the limits admit is on a path of some text. -/
theorem exists_path_of_le (unaries binaries : Nat) (hlevels : unaries ≤ maxNesting)
    (hsize : unaries + 2 * binaries + 1 ≤ maxSize) :
    ∃ source e, ofText source = .ok e ∧
      ∃ path : e.Path, path.unaries = unaries ∧ path.binaries = binaries := by
  obtain ⟨path, hunaries, hbinaries⟩ := Path.exists_negations unaries
  obtain ⟨path', hunaries', hbinaries'⟩ := path.exists_sums binaries
  refine ⟨(sums (negations unaries) binaries).print, _, ofText_print ?_ ?_, path', ?_, ?_⟩
  · rw [size_print_sums, size_print_negations]
    omega
  · rwa [weight_sums, weight_negations]
  · rw [hunaries', hunaries]
  · rw [hbinaries', hbinaries, Nat.zero_add]

/-- Additions take no nesting level, so the number of levels bounds no path on its own. -/
theorem exists_path_of_weight_zero (n : Nat) :
    ∃ source items e, Lexeme.scanFrom 0 0 source = .ok items ∧ ofLexemes source items = .ok e ∧
      e.weight = 0 ∧ ∃ path : e.Path, path.nodes = n := by
  obtain ⟨path, hunaries, hbinaries⟩ := (Path.leaf 1).exists_sums n
  have hweight : (sums (literal 1) n).weight = 0 := weight_sums ..
  have hnesting : (sums (literal 1) n).canonical.nesting ≤ maxNesting := by
    rw [nesting_canonical, hweight]
    exact Nat.zero_le _
  obtain ⟨items, hscan, hread⟩ := (Chain.spells _).exists_ofLexemes hnesting
  rw [tree_canonical] at hread
  refine ⟨_, items, _, hscan, hread, hweight, path, ?_⟩
  simp [Path.nodes, hunaries, hbinaries]

/-- The paths of an expression with a text are bounded by the levels and bytes that they take, and
so is each recursion over it, with its value and its listing as instances. The bound is attained.
Without the limit on sizes, no number of levels would bound the paths. -/
theorem ofText_paths :
    (∀ source e, ofText source = .ok e →
      Text.size source ≤ 4096 ∧
      (∀ path : e.Path, path.nodes ≤ 2175 ∧ path.unaries + path.enclosed ≤ 256 ∧
        path.unaries + 2 * path.binaries + 1 ≤ Text.size source) ∧
      (∀ (α : Type) (a : Algebra Word α), a.foldWithin 2176 e = some (e.fold a)) ∧
      Algebra.value.foldWithin 2176 e = some e.eval ∧
      Algebra.lines.foldWithin 2176 e = some fun depth => e.listingLines depth) ∧
    (∃ source e, ofText source = .ok e ∧ (∃ path : e.Path, path.nodes = 2175) ∧
      ∀ (α : Type) (a : Algebra Word α), a.foldWithin 2175 e = none) ∧
    ∀ n, ∃ source items e, Lexeme.scanFrom 0 0 source = .ok items ∧
      ofLexemes source items = .ok e ∧ (∃ path : e.Path, path.nodes = n) ∧
      ∀ path : e.Path, path.unaries + path.enclosed = 0 := by
  refine ⟨fun source e h => ?_, ?_, fun n => ?_⟩
  · obtain ⟨hsize, -⟩ := ofText_eq_ok_iff.mp h
    have hfold {α : Type} (a : Algebra Word α) := foldWithin_of_ofText h a
    refine ⟨hsize, fun path => ⟨nodes_le_of_ofText h path, ?_, ?_⟩, fun α a => hfold a, ?_, ?_⟩
    · exact Nat.le_trans path.levels_le (weight_le h)
    · exact Nat.le_trans path.size_le (size_print_le h)
    · rw [hfold, fold_value]
    · rw [hfold, fold_lines]
  · obtain ⟨source, e, h, path, hunaries, hbinaries⟩ :=
      exists_path_of_le 255 1920 (by decide) (by decide)
    have hnodes : path.nodes = 2175 := by rw [Path.nodes, hunaries, hbinaries]
    exact ⟨source, e, h, ⟨path, hnodes⟩, fun α a =>
      Algebra.foldWithin_eq_none path (Nat.le_of_eq hnodes.symm)⟩
  · obtain ⟨source, items, e, hscan, hread, hweight, hpath⟩ := exists_path_of_weight_zero n
    exact ⟨source, items, e, hscan, hread, hpath, fun path =>
      Nat.le_zero.mp (hweight ▸ path.levels_le)⟩

theorem ofText_paths_group :
    ∃ path : (unary .negate (binary .add (literal 1) (literal 2))).Path,
      path.unaries = 1 ∧ path.binaries = 1 ∧ path.enclosed = 1 ∧
      path.unaries + path.enclosed ≤ 256 ∧
      path.unaries + 2 * path.binaries + 1 ≤ Text.size ['-', '(', '1', '+', '2', ')'] ∧
      Algebra.value.foldWithin 2176 (unary .negate (binary .add (literal 1) (literal 2))) =
        some (.ok (0 - 3)) := by
  have hread : ofText ['-', '(', '1', '+', '2', ')'] =
      .ok (unary .negate (binary .add (literal 1) (literal 2))) := rfl
  obtain ⟨-, hpaths, -, hvalue, -⟩ := ofText_paths.1 _ _ hread
  let path : (unary .negate (binary .add (literal 1) (literal 2))).Path :=
    .operand .negate (.right .add (literal 1) (.leaf 2))
  obtain ⟨-, hlevels, hbytes⟩ := hpaths path
  exact ⟨path, rfl, rfl, rfl, hlevels, hbytes, hvalue⟩

end Expr

end WordCalc
