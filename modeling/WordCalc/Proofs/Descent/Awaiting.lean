import WordCalc.Proofs.Descent.Calls
import WordCalc.Proofs.Grammar.Reading

/-! # Calls that wait for each other

A call waits for another one in few ways, and in each of them what the outer call reads is made
from what the inner one reads. Along a stack of waiting calls this leads from the innermost call
to the whole list of lexemes. It also counts the calls: a level is open for each operand but one
at most.
-/

namespace WordCalc.Descent

variable {source : Text} {items : List Lexeme} {c : Context} {item : Lexeme}

namespace Context

def rest (items : List Lexeme) (c : Context) : List Lexeme := items.drop c.position

/-- The reader of operands at the levels that are left. -/
def reader (source : Text) (c : Context) : Expr.Reader :=
  Expr.operand source (maxNesting - c.depth)

theorem position_lt (h : c.current? items = some item) : c.position < items.length :=
  (List.getElem?_eq_some_iff.mp h).1

theorem rest_eq_nil (h : c.current? items = none) : c.rest items = [] :=
  List.drop_eq_nil_of_le (List.getElem?_eq_none_iff.mp h)

theorem rest_eq_cons (h : c.current? items = some item) :
    c.rest items = item :: c.advance.rest items := by
  obtain ⟨hlt, rfl⟩ := List.getElem?_eq_some_iff.mp h
  exact List.drop_eq_getElem_cons hlt

theorem reader_consumes (source : Text) (c : Context) : Expr.Consumes (c.reader source) :=
  Expr.operand_consumes source _

end Context

/-- Since the entry the cursor has been moved on, within the list, and the levels are the same. -/
structure Passed (items : List Lexeme) (entry c : Context) : Prop where
  forward : entry.position < c.position
  within : c.position ≤ items.length
  depth_eq : c.depth = entry.depth

theorem passed_advance (h : c.current? items = some item) : Passed items c c.advance :=
  ⟨Nat.lt_succ_self _, Context.position_lt h, rfl⟩

theorem Passed.trans {c₀ c₁ c₂ : Context} (h : Passed items c₀ c₁) (h' : Passed items c₁ c₂) :
    Passed items c₀ c₂ :=
  ⟨Nat.lt_trans h.forward h'.forward, h'.within, h'.depth_eq.trans h.depth_eq⟩

/-- What the call reads, and what it leaves of the lexemes. A unary operator and a group are read
with the level that has been opened for them. -/
def Call.reads (source : Text) (items : List Lexeme) :
    Call → Except ReadError (Expr × List Lexeme)
  | ⟨.expression, c⟩ => Expr.expression (c.reader source) (c.rest items)
  | ⟨.operand, c⟩ | ⟨.nested _ _, c⟩ | ⟨.literal, c⟩ => c.reader source (c.rest items)
  | ⟨.unary, c⟩ | ⟨.group, c⟩ => Expr.operand source (maxNesting - c.depth + 1) (c.rest items)

/-- What a waiting call reads, once the one that it waits for has read an expression. -/
def Frame.reads (source : Text) (e : Expr) (rest : List Lexeme) :
    Frame → Except ReadError (Expr × List Lexeme)
  | first entry => Expr.chain (entry.reader source) 0 e rest
  | further entry lhs op => Expr.chain (entry.reader source) 0 (.binary op lhs e) rest
  | operand _ | nested _ _ _ => .ok (e, rest)
  | unary _ op => .ok (.unary op e, rest)
  | group _ => Expr.closeGroup e rest

/-- The ways in which one call waits for another. -/
inductive Awaits (source : Text) (items : List Lexeme) : Frame → Call → Prop
  | first {c : Context} : Awaits source items (.first c) ⟨.operand, c⟩
  | further {entry c : Context} {lhs : Expr} {item : Lexeme} {op : BinaryOp}
      (current : c.current? items = some item) (operator : item.token.binaryOp? = some op)
      (passed : Passed items entry c)
      (reads : Call.reads source items ⟨.expression, entry⟩ =
        Expr.chain (entry.reader source) 0 lhs (c.rest items)) :
      Awaits source items (.further entry lhs op) ⟨.operand, c.advance⟩
  | operand {c : Context} {item : Lexeme} {start : OperandStart} {routine : Routine}
      (current : c.current? items = some item) (starts : item.token.start? = some start)
      (routine_eq : Routine.ofStart item.span start = routine) :
      Awaits source items (.operand c) ⟨routine, c⟩
  | nested {c : Context} {item : Lexeme} {start : OperandStart} {inner : Routine} {span : Span}
      (current : c.current? items = some item) (starts : item.token.start? = some start)
      (routine_eq : Routine.ofStart item.span start = .nested inner span)
      (room : c.depth < maxNesting) :
      Awaits source items (.nested c inner span) ⟨inner, { c with depth := c.depth + 1 }⟩
  | unary {c : Context} {item : Lexeme} {op : UnaryOp}
      (current : c.current? items = some item) (starts : item.token.start? = some (.unary op)) :
      Awaits source items (.unary c op) ⟨.operand, c.advance⟩
  | group {c : Context} {item : Lexeme}
      (current : c.current? items = some item) (starts : item.token.start? = some .group) :
      Awaits source items (.group c) ⟨.expression, c.advance⟩

/-- Each call on the stack waits for the one above it, the uppermost one for the given call. -/
inductive Linked (source : Text) (items : List Lexeme) : Call → List Frame → Prop
  | start : Linked source items ⟨.expression, .start⟩ []
  | cons {f : Frame} {call : Call} {frames : List Frame} (awaits : Awaits source items f call)
      (linked : Linked source items f.call frames) : Linked source items call (f :: frames)

theorem bind_pair_eq (x : Except ReadError (Expr × List Lexeme)) :
    (x >>= fun (e, rest) => .ok (e, rest)) = x := by
  cases x <;> rfl

variable {call : Call} {f : Frame} {frames : List Frame}

/-- What a call reads is made from what the one that it waits for reads. -/
theorem Awaits.reads_eq (h : Awaits source items f call) :
    f.call.reads source items =
      call.reads source items >>= fun (e, rest) => f.reads source e rest := by
  cases h with
  | first => rfl
  | @further entry c lhs item op hcurrent hop hpassed hreads =>
    have hreader : entry.reader source = c.reader source := by
      rw [Context.reader, Context.reader, hpassed.depth_eq]
    rw [Frame.call, hreads, Context.rest_eq_cons hcurrent,
      Expr.chain_of_binaryOp?_eq_some (entry.reader_consumes source) hop]
    simp only [Frame.reads, hreader]
    rfl
  | @operand c item start routine hcurrent hstart hroutine =>
    subst hroutine
    cases start <;> exact (bind_pair_eq _).symm
  | @nested c item start inner span hcurrent hstart hroutine hroom =>
    have hlevels : maxNesting - c.depth = maxNesting - (c.depth + 1) + 1 := by omega
    have hreader : c.reader source = Expr.operand source (maxNesting - (c.depth + 1) + 1) := by
      rw [Context.reader, hlevels]
    have hinner : (Frame.nested c inner span).call.reads source items =
        Call.reads source items ⟨inner, { c with depth := c.depth + 1 }⟩ := by
      cases start with
      | literal base => cases hroutine
      | unary op =>
        cases hroutine
        exact congrFun hreader _
      | group =>
        cases hroutine
        exact congrFun hreader _
    exact hinner.trans (bind_pair_eq _).symm
  | @unary c item op hcurrent hstart =>
    change Expr.operand source (maxNesting - c.depth + 1) (c.rest items) = _
    rw [Context.rest_eq_cons hcurrent, Expr.operand_of_unary hstart]
    rfl
  | @group c item hcurrent hstart =>
    change Expr.operand source (maxNesting - c.depth + 1) (c.rest items) = _
    rw [Context.rest_eq_cons hcurrent, Expr.operand_of_group hstart]
    rfl

namespace Linked

theorem of_cons (h : Linked source items call (f :: frames)) :
    Linked source items f.call frames := by
  cases h with
  | cons _ hlinked => exact hlinked

theorem exists_start {routine : Routine} (h : Linked source items ⟨routine, c⟩ frames)
    (hexpression : routine ≠ .expression) (hoperand : routine ≠ .operand) :
    ∃ item start, c.current? items = some item ∧ item.token.start? = some start ∧
      (Routine.ofStart item.span start = routine ∨
        ∃ span, Routine.ofStart item.span start = .nested routine span) := by
  cases h with
  | start => exact absurd rfl hexpression
  | cons hawaits _ =>
    cases hawaits with
    | first | further | unary => exact absurd rfl hoperand
    | group => exact absurd rfl hexpression
    | operand hcurrent hstart hroutine => exact ⟨_, _, hcurrent, hstart, .inl hroutine⟩
    | nested hcurrent hstart hroutine => exact ⟨_, _, hcurrent, hstart, .inr ⟨_, hroutine⟩⟩

theorem exists_nested {inner : Routine} {span : Span}
    (h : Linked source items ⟨.nested inner span, c⟩ frames) :
    ∃ item start, c.current? items = some item ∧ item.token.start? = some start ∧
      Routine.ofStart item.span start = .nested inner span := by
  obtain ⟨item, start, hcurrent, hstart, hroutine | ⟨_, hroutine⟩⟩ :=
    h.exists_start (by simp) (by simp)
  · exact ⟨item, start, hcurrent, hstart, hroutine⟩
  · cases start <;> cases hroutine

theorem exists_unary (h : Linked source items ⟨.unary, c⟩ frames) :
    ∃ item op, c.current? items = some item ∧ item.token.start? = some (.unary op) := by
  obtain ⟨item, start, hcurrent, hstart, hroutine | ⟨_, hroutine⟩⟩ :=
    h.exists_start (by simp) (by simp)
  · cases start <;> cases hroutine
  · cases start <;> cases hroutine
    exact ⟨item, _, hcurrent, hstart⟩

theorem exists_group (h : Linked source items ⟨.group, c⟩ frames) :
    ∃ item, c.current? items = some item ∧ item.token.start? = some .group := by
  obtain ⟨item, start, hcurrent, hstart, hroutine | ⟨_, hroutine⟩⟩ :=
    h.exists_start (by simp) (by simp)
  · cases start <;> cases hroutine
  · cases start <;> cases hroutine
    exact ⟨item, hcurrent, hstart⟩

theorem exists_literal (h : Linked source items ⟨.literal, c⟩ frames) :
    ∃ item base, c.current? items = some item ∧ item.token.start? = some (.literal base) := by
  obtain ⟨item, start, hcurrent, hstart, hroutine | ⟨_, hroutine⟩⟩ :=
    h.exists_start (by simp) (by simp)
  · cases start <;> cases hroutine
    exact ⟨item, _, hcurrent, hstart⟩
  · cases start <;> cases hroutine

theorem ofLexemes_eq_error {error : ReadError} (h : Linked source items call frames)
    (herror : call.reads source items = .error error) :
    Expr.ofLexemes source items = .error error := by
  induction h with
  | start =>
    have hread : Expr.expression (Expr.operand source maxNesting) items = .error error := herror
    rw [Expr.ofLexemes, hread]
    rfl
  | cons hawaits _ ih =>
    refine ih ?_
    rw [hawaits.reads_eq, herror]
    rfl

theorem position_le (h : Linked source items call frames) :
    call.entry.position ≤ items.length := by
  induction h with
  | start => exact Nat.zero_le _
  | cons hawaits _ ih =>
    cases hawaits with
    | first | operand | nested => exact ih
    | further hcurrent | unary hcurrent | group hcurrent => exact Context.position_lt hcurrent

theorem depth_le (h : Linked source items call frames) : call.entry.depth ≤ maxNesting := by
  induction h with
  | start => exact Nat.zero_le _
  | cons hawaits _ ih =>
    cases hawaits with
    | nested _ _ _ hroom => exact hroom
    | further _ _ hpassed => exact hpassed.depth_eq ▸ ih
    | first | operand | unary | group => exact ih

end Linked

section Height

def Routine.rank : Routine → Nat
  | unary | group => 0
  | expression => 1
  | operand => 2
  | nested _ _ | literal => 3

/-- The greatest number of calls up to this one: four at each level. -/
def Call.height (call : Call) : Nat := 4 * call.entry.depth + call.routine.rank

/-- The number of operands up to this call: one for each open level, and the innermost one if no
level is opened for it yet. -/
def Call.operands (call : Call) : Nat :=
  call.entry.depth + if Routine.rank .operand ≤ call.routine.rank then 1 else 0

def countOperands (calls : List Call) : Nat := calls.countP (·.routine = .operand)

theorem Awaits.height_lt (h : Awaits source items f call) : f.call.height < call.height := by
  cases h with
  | first | unary | group => simp [Frame.call, Call.height, Routine.rank, Context.advance]
  | further _ _ hpassed =>
    simp [Frame.call, Call.height, Routine.rank, Context.advance, hpassed.depth_eq]
  | @operand c item start routine _ _ hroutine =>
    subst hroutine
    cases start <;> simp [Frame.call, Call.height, Routine.rank, Routine.ofStart]
  | @nested c item start inner span _ _ hroutine =>
    cases start <;> cases hroutine <;> simp [Frame.call, Call.height, Routine.rank] <;> omega

theorem Awaits.operands_eq (h : Awaits source items f call) :
    call.operands = f.call.operands + if call.routine = .operand then 1 else 0 := by
  cases h with
  | first | unary | group => simp [Frame.call, Call.operands, Routine.rank, Context.advance]
  | further _ _ hpassed =>
    simp [Frame.call, Call.operands, Routine.rank, Context.advance, hpassed.depth_eq]
  | @operand c item start routine _ _ hroutine =>
    subst hroutine
    cases start <;> simp [Frame.call, Call.operands, Routine.rank, Routine.ofStart]
  | @nested c item start inner span _ _ hroutine =>
    cases start <;> cases hroutine <;> simp [Frame.call, Call.operands, Routine.rank]

namespace Linked

theorem length_le_height (h : Linked source items call frames) :
    (call :: frames.map Frame.call).length ≤ call.height := by
  induction h with
  | start => exact Nat.le_refl 1
  | cons hawaits _ ih =>
    rw [List.map_cons, List.length_cons]
    exact Nat.lt_of_le_of_lt ih hawaits.height_lt

theorem countOperands_eq (h : Linked source items call frames) :
    countOperands (call :: frames.map Frame.call) = call.operands := by
  induction h with
  | start => rfl
  | @cons f call frames hawaits _ ih =>
    rw [hawaits.operands_eq, ← ih]
    simp [countOperands, List.countP_cons]

theorem height_le (h : Linked source items call frames) : call.height ≤ 4 * maxNesting + 3 := by
  have hdepth := h.depth_le
  have hrank : call.routine.rank ≤ 3 := by cases call.routine <;> simp [Routine.rank]
  rw [Call.height]
  omega

theorem operands_le (h : Linked source items call frames) : call.operands ≤ maxNesting + 1 := by
  have hdepth := h.depth_le
  rw [Call.operands]
  split <;> omega

end Linked

end Height

end WordCalc.Descent
