import Mathlib.Data.List.Forall2
import WordCalc.Proofs.Except
import WordCalc.Session

/-! # Evaluation in postorder

The operators of an expression are applied in postorder. Evaluation fails exactly if one of them
divides by zero, and records each application up to the first that does.
-/

namespace WordCalc

open Logged

def Record.result? : Record → Option Word
  | unary _ _ result | binary _ _ _ result => some result
  | settings _ | expression _ | lexeme _ _ | failedNear _ | listing _ => none

namespace Expr

variable {e lhs rhs operand node : Expr} {op : BinaryOp} {value left right : Word}
  {nodes nodes' before after : List Expr} {records records' : List Record} {record : Record}
  {result : Except EvalError Word} {error : EvalError}

/-- The operator nodes of an expression: those of the operands from left to right, then its own. -/
def operations : Expr → List Expr
  | literal _ => []
  | unary op operand => operand.operations ++ [unary op operand]
  | binary op lhs rhs => lhs.operations ++ rhs.operations ++ [binary op lhs rhs]

/-- The node is a division, and its divisor has the value zero. -/
def DividesByZero (node : Expr) : Prop :=
  ∃ dividend divisor, node = binary .div dividend divisor ∧ divisor.eval = .ok 0

/-- The record shows the operator of the node, the values of its operands, and its own value. -/
inductive RecordedAs : Expr → Record → Prop
  | unary {op : UnaryOp} {operand : Expr} {value result : Word}
      (operand_eval : operand.eval = .ok value) (eval : (unary op operand).eval = .ok result) :
      RecordedAs (.unary op operand) (.unary op value result)
  | binary {op : BinaryOp} {lhs rhs : Expr} {left right result : Word}
      (lhs_eval : lhs.eval = .ok left) (rhs_eval : rhs.eval = .ok right)
      (eval : (binary op lhs rhs).eval = .ok result) :
      RecordedAs (.binary op lhs rhs) (.binary op left right result)

/-- The nodes are all recorded, or those in front of the first division by zero are. -/
inductive Trail : List Expr → List Record → Except EvalError Word → Prop
  | complete {nodes : List Expr} {records : List Record} (value : Word)
      (regular : ∀ node ∈ nodes, ¬node.DividesByZero)
      (recorded : List.Forall₂ RecordedAs nodes records) : Trail nodes records (.ok value)
  | broken {before after : List Expr} {node : Expr} {records : List Record}
      (regular : ∀ node ∈ before, ¬node.DividesByZero) (divides : node.DividesByZero)
      (recorded : List.Forall₂ RecordedAs before records) :
      Trail (before ++ node :: after) records (.error .divisionByZero)

theorem RecordedAs.result?_eq (h : node.RecordedAs record) (hvalue : node.eval = .ok value) :
    record.result? = some value := by
  cases h with
  | unary _ heval => exact congrArg some (Except.ok.inj (heval.symm.trans hvalue))
  | binary _ _ heval => exact congrArg some (Except.ok.inj (heval.symm.trans hvalue))

theorem level_of_forall₂ (h : List.Forall₂ RecordedAs nodes records) (hrecord : record ∈ records) :
    record.level = .trace := by
  induction h with
  | nil => cases hrecord
  | cons hfirst _ ih =>
    rcases List.mem_cons.mp hrecord with rfl | hrecord
    · cases hfirst <;> rfl
    · exact ih hrecord

theorem not_dividesByZero_unary (op : UnaryOp) (operand : Expr) :
    ¬(unary op operand).DividesByZero := by
  rintro ⟨_, _, heq, -⟩
  cases heq

theorem dividesByZero_binary_iff (op : BinaryOp) (lhs : Expr) (hr : rhs.eval = .ok right) :
    (binary op lhs rhs).DividesByZero ↔ op = .div ∧ right = 0 := by
  constructor
  · rintro ⟨_, _, heq, hzero⟩
    obtain ⟨rfl, rfl, rfl⟩ := Expr.binary.inj heq
    exact ⟨rfl, Except.ok.inj (hr.symm.trans hzero)⟩
  · rintro ⟨rfl, rfl⟩
    exact ⟨lhs, rhs, rfl, hr⟩

namespace Trail

theorem single (value : Word) (hregular : ¬node.DividesByZero) (h : node.RecordedAs record) :
    Trail [node] [record] (.ok value) :=
  .complete value (by simpa using hregular) (.cons h .nil)

theorem stop (hdivides : node.DividesByZero) : Trail [node] [] (.error .divisionByZero) :=
  @broken [] [] node [] (by simp) hdivides .nil

theorem append_of_error (h : Trail nodes records (.error error)) (nodes' : List Expr) :
    Trail (nodes ++ nodes') records (.error error) := by
  cases h with
  | broken hregular hdivides hrecorded =>
    rw [List.append_assoc, List.cons_append]
    exact .broken hregular hdivides hrecorded

theorem append_of_ok (h : Trail nodes records (.ok value)) (h' : Trail nodes' records' result) :
    Trail (nodes ++ nodes') (records ++ records') result := by
  cases h with
  | complete _ hregular hrecorded =>
    cases h' with
    | complete value' hregular' hrecorded' =>
      exact .complete value' (List.forall_mem_append.mpr ⟨hregular, hregular'⟩)
        (List.rel_append hrecorded hrecorded')
    | broken hregular' hdivides hrecorded' =>
      rw [← List.append_assoc]
      exact .broken (List.forall_mem_append.mpr ⟨hregular, hregular'⟩) hdivides
        (List.rel_append hrecorded hrecorded')

theorem error_iff (h : Trail nodes records result) :
    result = .error error ↔ ∃ node ∈ nodes, node.DividesByZero := by
  cases error
  cases h with
  | complete value hregular hrecorded =>
    simp only [reduceCtorEq, false_iff, not_exists, not_and]
    exact hregular
  | @broken before after node _ hregular hdivides hrecorded =>
    simp only [true_iff]
    exact ⟨node, by simp, hdivides⟩

theorem recorded (h : Trail nodes records (.ok value)) :
    List.Forall₂ RecordedAs nodes records := by
  cases h with
  | complete _ _ hrecorded => exact hrecorded

theorem exists_forall₂ (h : Trail nodes records result) :
    ∃ nodes', List.Forall₂ RecordedAs nodes' records := by
  cases h with
  | complete _ _ hrecorded => exact ⟨_, hrecorded⟩
  | broken _ _ hrecorded => exact ⟨_, hrecorded⟩

theorem exists_first (h : Trail nodes records (.error error)) : ∃ before node after,
    nodes = before ++ node :: after ∧ (∀ node ∈ before, ¬node.DividesByZero) ∧
      node.DividesByZero ∧ List.Forall₂ RecordedAs before records := by
  cases h with
  | broken hregular hdivides hrecorded => exact ⟨_, _, _, rfl, hregular, hdivides, hrecorded⟩

end Trail

/-- An operator is recorded if it has a result, and otherwise divides by zero. -/
theorem trail_binary (op : BinaryOp) (hl : lhs.eval = .ok left) (hr : rhs.eval = .ok right) :
    Trail [binary op lhs rhs] (do
      let result ← silent (op.apply left right)
      log [.binary op left right result]
      return result : Logged EvalError Word).records (op.apply left right) := by
  have hdivides := dividesByZero_binary_iff op lhs hr
  cases happly : op.apply left right with
  | error e =>
    cases e
    exact .stop (hdivides.mpr (BinaryOp.apply_eq_error_iff.mp happly))
  | ok result =>
    refine .single result ?_ (.binary hl hr ((eval_binary_of_ok op hl hr).trans happly))
    intro hzero
    have herror : op.apply left right = .error .divisionByZero :=
      BinaryOp.apply_eq_error_iff.mpr (hdivides.mp hzero)
    rw [happly] at herror
    cases herror

theorem trail_evalLogged (e : Expr) : Trail e.operations e.evalLogged.records e.eval := by
  induction e with
  | literal value => exact .complete value (by simp [operations]) .nil
  | unary op operand ih =>
    rw [operations, evalLogged]
    cases h : operand.eval with
    | error error =>
      rw [h] at ih
      rw [records_bind_of_error ((result_evalLogged operand).trans h), eval, h]
      exact ih.append_of_error _
    | ok value =>
      rw [h] at ih
      have heval := eval_unary_of_ok op h
      rw [records_bind_of_ok ((result_evalLogged operand).trans h), heval]
      exact ih.append_of_ok (.single _ (not_dividesByZero_unary op operand) (.unary h heval))
  | binary op lhs rhs ihl ihr =>
    rw [operations, evalLogged]
    cases hl : lhs.eval with
    | error error =>
      rw [hl] at ihl
      rw [records_bind_of_error ((result_evalLogged lhs).trans hl), eval, hl, List.append_assoc]
      exact ihl.append_of_error _
    | ok left =>
      rw [hl] at ihl
      rw [records_bind_of_ok ((result_evalLogged lhs).trans hl), List.append_assoc]
      cases hr : rhs.eval with
      | error error =>
        rw [hr] at ihr
        rw [records_bind_of_error ((result_evalLogged rhs).trans hr), eval, hl, hr]
        exact ihl.append_of_ok (ihr.append_of_error _)
      | ok right =>
        rw [hr] at ihr
        rw [records_bind_of_ok ((result_evalLogged rhs).trans hr), eval_binary_of_ok op hl hr]
        exact ihl.append_of_ok (ihr.append_of_ok (trail_binary op hl hr))

theorem level_of_mem_evalLogged (h : record ∈ e.evalLogged.records) : record.level = .trace := by
  obtain ⟨nodes, hnodes⟩ := e.trail_evalLogged.exists_forall₂
  exact level_of_forall₂ hnodes h

theorem operations_cases (e : Expr) :
    (∃ value, e = literal value) ∨ ∃ front, e.operations = front ++ [e] := by
  cases e with
  | literal value => exact Or.inl ⟨value, rfl⟩
  | unary op operand => exact Or.inr ⟨operand.operations, rfl⟩
  | binary op lhs rhs => exact Or.inr ⟨lhs.operations ++ rhs.operations, rfl⟩

theorem exists_last_of_forall₂ (h : List.Forall₂ RecordedAs (before ++ [node]) records) :
    ∃ front last, records = front ++ [last] ∧ node.RecordedAs last := by
  rw [← List.forall₂_reverse_iff, List.reverse_concat, List.forall₂_cons_left_iff] at h
  obtain ⟨last, front, hlast, -, hrecords⟩ := h
  refine ⟨front.reverse, last, ?_, hlast⟩
  rw [← List.reverse_reverse records, hrecords, List.reverse_cons]

/-- Evaluation fails exactly if some operation of the expression is a division by zero. It traces
all operations in postorder, the one that yields its value last, or exactly those in front of the
first division by zero. -/
theorem evalLogged_postorder (e : Expr) :
    e.evalLogged.result = e.eval ∧
    (∀ record ∈ e.evalLogged.records, record.level = .trace) ∧
    (∀ error, e.eval = .error error ↔ ∃ node ∈ e.operations, node.DividesByZero) ∧
    (∀ value, e.eval = .ok value →
      List.Forall₂ RecordedAs e.operations e.evalLogged.records ∧
      (e = literal value ∨ ∃ front last, e.evalLogged.records = front ++ [last] ∧
        e.RecordedAs last ∧ last.result? = some value)) ∧
    ∀ error, e.eval = .error error → ∃ before node after,
      e.operations = before ++ node :: after ∧ (∀ node ∈ before, ¬node.DividesByZero) ∧
      node.DividesByZero ∧ List.Forall₂ RecordedAs before e.evalLogged.records := by
  have htrail := e.trail_evalLogged
  refine ⟨result_evalLogged e, fun _ => level_of_mem_evalLogged, fun error => htrail.error_iff,
    fun value hvalue => ?_, fun error herror => ?_⟩
  · rw [hvalue] at htrail
    have hrecorded := htrail.recorded
    refine ⟨hrecorded, ?_⟩
    rcases e.operations_cases with ⟨value', rfl⟩ | ⟨front, hfront⟩
    · exact Or.inl (congrArg literal (Except.ok.inj hvalue))
    · rw [hfront] at hrecorded
      obtain ⟨front, last, hrecords, hlast⟩ := exists_last_of_forall₂ hrecorded
      exact Or.inr ⟨front, last, hrecords, hlast, hlast.result?_eq hvalue⟩
  · rw [herror] at htrail
    exact htrail.exists_first

theorem evalLogged_postorder_nested :
    (∃ before node after,
      (binary .add (binary .div (literal 8) (binary .sub (literal 4) (literal 4)))
        (binary .div (literal 6) (literal 0))).operations = before ++ node :: after ∧
      (∀ node ∈ before, ¬node.DividesByZero) ∧ node.DividesByZero ∧
      List.Forall₂ RecordedAs before [.binary .sub 4 4 0]) ∧
    List.Forall₂ RecordedAs (binary .div (literal 1) (literal 2)).operations
      [.binary .div 1 2 0] ∧
    ∃ node ∈ (binary .div (literal 5) (binary .div (literal 1) (literal 2))).operations,
      node.DividesByZero := by
  have hbroken : (binary .add (binary .div (literal 8) (binary .sub (literal 4) (literal 4)))
      (binary .div (literal 6) (literal 0))).eval = .error .divisionByZero := rfl
  have hcomplete : (binary .div (literal 1) (literal 2)).eval = .ok 0 := rfl
  have hnested : (binary .div (literal 5) (binary .div (literal 1) (literal 2))).eval =
      .error .divisionByZero := rfl
  obtain ⟨-, -, -, -, hfirst⟩ := evalLogged_postorder
    (binary .add (binary .div (literal 8) (binary .sub (literal 4) (literal 4)))
      (binary .div (literal 6) (literal 0)))
  obtain ⟨-, -, -, hall, -⟩ := evalLogged_postorder (binary .div (literal 1) (literal 2))
  obtain ⟨-, -, herror, -, -⟩ :=
    evalLogged_postorder (binary .div (literal 5) (binary .div (literal 1) (literal 2)))
  exact ⟨hfirst _ hbroken, (hall _ hcomplete).1, (herror _).mp hnested⟩

end Expr

end WordCalc
