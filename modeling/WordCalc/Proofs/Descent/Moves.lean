import WordCalc.Proofs.Descent.Awaiting

/-! # What a step of the descent can do

A step ends the descent, lets the innermost call wait for another one, or goes on in the innermost
call or in the one that waits for it. Where calls are linked and what they have read is what the
readers read, this stays so, and each step leaves less to do.
-/

namespace WordCalc.Descent

variable {source : Text} {items : List Lexeme} {c entry : Context} {call : Call} {f : Frame}
  {frames : List Frame} {control : Control} {inner : Routine} {item : Lexeme} {lhs e : Expr}
  {span : Span}

/-- What the innermost call has read so far is what the readers read. -/
inductive Holds (source : Text) (items : List Lexeme) (c : Context) : Control → Prop
  | enter {routine : Routine} : Holds source items c (.enter routine)
  | loop {entry : Context} {lhs : Expr} (passed : Passed items entry c)
      (reads : Call.reads source items ⟨.expression, entry⟩ =
        Expr.chain (entry.reader source) 0 lhs (c.rest items)) :
      Holds source items c (.loop entry lhs)
  | leave {call : Call} {e : Expr} (passed : Passed items call.entry c)
      (reads : call.reads source items = .ok (e, c.rest items)) :
      Holds source items c (.leave call e)

/-- The steps that are due before the cursor moves on, and those that the calls made by then take
later. -/
@[simp] def Control.work : Control → Nat
  | enter .expression => 7
  | enter .operand => 4
  | enter (.nested _ _) => 2
  | enter .unary | enter .group | enter .literal => 0
  | loop _ _ => 1
  | leave _ _ => 0

@[simp] def Frame.work : Frame → Nat
  | first _ | further _ _ _ => 2
  | operand _ | nested _ _ _ | unary _ _ | group _ => 1

/-- The steps that are due in the innermost call. Moving on by a lexeme pays for nine of them. -/
def load (items : List Lexeme) (c : Context) (control : Control) : Nat :=
  9 * (items.length - c.position) + control.work

/-- The states to which a step can lead. -/
inductive Moves (source : Text) (items : List Lexeme) (c : Context) (frames : List Frame)
    (control : Control) : State → Prop
  | halt : Moves source items c frames control (.halted (Expr.ofLexemes source items))
  | call {f : Frame} {routine : Routine} {c' : Context} (call_eq : f.call = control.call c)
      (awaits : Awaits source items f ⟨routine, c'⟩)
      (less : load items c' (.enter routine) + f.work < load items c control) :
      Moves source items c frames control (.active c' (f :: frames) (.enter routine))
  | goOn {c' : Context} {control' : Control} (call_eq : control'.call c' = control.call c)
      (holds : Holds source items c' control')
      (less : load items c' control' < load items c control) :
      Moves source items c frames control (.active c' frames control')
  | back {f : Frame} {below : List Frame} {c' : Context} {control' : Control}
      (frames_eq : frames = f :: below) (call_eq : control'.call c' = f.call)
      (holds : Holds source items c' control')
      (less : load items c' control' < load items c control + f.work) :
      Moves source items c frames control (.active c' below control')

theorem Linked.moves_fail {error : ReadError} {below : List Frame}
    (h : Linked source items call below) (herror : call.reads source items = .error error) :
    Moves source items c frames control (fail error) := by
  rw [fail, ← h.ofLexemes_eq_error herror]
  exact .halt

section Entering

theorem load_advance (h : c.current? items = some item) (control : Control) :
    load items c.advance control + 9 = load items c control := by
  have hlt := Context.position_lt h
  simp only [load, Context.advance]
  omega

theorem moves_enter_expression :
    Moves source items c frames (.enter .expression) (enter source items c frames .expression) := by
  refine .call rfl .first ?_
  simp [load]

theorem moves_enter_operand (h : Linked source items ⟨.operand, c⟩ frames) :
    Moves source items c frames (.enter .operand) (enter source items c frames .operand) := by
  cases hcurrent : c.current? items with
  | none =>
    have hread : Call.reads source items ⟨.operand, c⟩ = .error .endOfItems := by
      rw [Call.reads, Context.rest_eq_nil hcurrent, Context.reader, Expr.operand]
    simpa [enter, onCurrent, hcurrent] using h.moves_fail hread
  | some item =>
    simp only [enter, onCurrent, hcurrent]
    cases hstart : item.token.start? with
    | none =>
      refine h.moves_fail ?_
      rw [Call.reads, Context.rest_eq_cons hcurrent]
      exact Expr.operand_of_start?_eq_none hstart
    | some start =>
      refine .call rfl (.operand hcurrent hstart rfl) ?_
      cases start <;> simp [load, Routine.ofStart]

theorem moves_enter_nested (h : Linked source items ⟨.nested inner span, c⟩ frames) :
    Moves source items c frames (.enter (.nested inner span))
      (enter source items c frames (.nested inner span)) := by
  obtain ⟨item, start, hcurrent, hstart, hroutine⟩ := h.exists_nested
  by_cases hfull : c.depth = maxNesting
  · have hspan : span = item.span := by cases start <;> cases hroutine <;> rfl
    have hne : ∀ base, start ≠ .literal base := by
      rintro base rfl
      cases hroutine
    simp only [enter, Context.descend?, if_pos hfull]
    refine h.moves_fail ?_
    rw [Call.reads, Context.rest_eq_cons hcurrent, Context.reader, hfull, Nat.sub_self, hspan]
    exact Expr.operand_zero hstart hne
  · have hroom : c.depth < maxNesting := Nat.lt_of_le_of_ne h.depth_le hfull
    simp only [enter, Context.descend?, if_neg hfull]
    refine .call rfl (.nested hcurrent hstart hroutine hroom) ?_
    cases start <;> cases hroutine <;> simp [load]

theorem moves_enter_unary (h : Linked source items ⟨.unary, c⟩ frames) :
    Moves source items c frames (.enter .unary) (enter source items c frames .unary) := by
  obtain ⟨item, op, hcurrent, hstart⟩ := h.exists_unary
  simp only [enter, onCurrent, hcurrent, Token.start?_eq_unary_iff.mp hstart]
  refine .call rfl (.unary hcurrent hstart) ?_
  rw [← load_advance hcurrent]
  simp [load]

theorem moves_enter_group (h : Linked source items ⟨.group, c⟩ frames) :
    Moves source items c frames (.enter .group) (enter source items c frames .group) := by
  obtain ⟨item, hcurrent, hstart⟩ := h.exists_group
  refine .call rfl (.group hcurrent hstart) ?_
  rw [← load_advance hcurrent]
  simp [load]

theorem moves_enter_literal (h : Linked source items ⟨.literal, c⟩ frames) :
    Moves source items c frames (.enter .literal) (enter source items c frames .literal) := by
  obtain ⟨item, base, hcurrent, hstart⟩ := h.exists_literal
  have hbase : literalBase item.token = base := by
    rw [Token.start?_eq_literal_iff.mp hstart, literalBase]
  have hread : Call.reads source items ⟨.literal, c⟩ =
      Expr.literalWord source base item.span >>= fun value =>
        .ok (.literal value, c.advance.rest items) := by
    rw [Call.reads, Context.rest_eq_cons hcurrent]
    exact Expr.operand_of_literal hstart
  simp only [enter, onCurrent, hcurrent, hbase]
  cases hvalue : Expr.literalWord source base item.span with
  | error error => exact h.moves_fail (by rw [hread, hvalue, error_bind])
  | ok value =>
    refine .goOn rfl (.leave (passed_advance hcurrent) (by rw [hread, hvalue, ok_bind])) ?_
    rw [← load_advance hcurrent]
    simp [load]

end Entering

theorem moves_loop (h : Holds source items c (.loop entry lhs)) :
    Moves source items c frames (.loop entry lhs) (loop items c frames entry lhs) := by
  cases h with
  | loop hpassed hreads =>
    have hleave (hhalt : Expr.chain (entry.reader source) 0 lhs (c.rest items) =
        .ok (lhs, c.rest items)) : Moves source items c frames (.loop entry lhs)
          (.active c frames (.leave ⟨.expression, entry⟩ lhs)) := by
      refine .goOn rfl (.leave hpassed (hreads.trans hhalt)) ?_
      simp [load]
    cases hcurrent : c.current? items with
    | none =>
      simp only [loop, hcurrent, Option.bind_none]
      exact hleave (by rw [Context.rest_eq_nil hcurrent, Expr.chain_nil])
    | some item =>
      cases hop : item.token.binaryOp? with
      | none =>
        simp only [loop, hcurrent, Option.bind_some, hop]
        refine hleave ?_
        rw [Context.rest_eq_cons hcurrent]
        exact Expr.chain_of_binaryOp?_eq_none hop
      | some op =>
        simp only [loop, hcurrent, Option.bind_some, hop]
        refine .call rfl (.further hcurrent hop hpassed hreads) ?_
        rw [← load_advance hcurrent]
        simp [load]

section Resuming

theorem moves_resume_nil (hlinked : Linked source items call [])
    (h : Holds source items c (.leave call e)) :
    Moves source items c [] (.leave call e) (resume items c e []) := by
  cases hlinked
  cases h with
  | leave hpassed hreads =>
    have hread : Expr.expression (Expr.operand source maxNesting) items =
        .ok (e, c.rest items) := hreads
    have hresume : resume items c e [] = .halted (Expr.ofLexemes source items) := by
      rw [Expr.ofLexemes, hread, ok_bind, resume, onCurrent]
      cases hcurrent : c.current? items with
      | none => rw [Context.rest_eq_nil hcurrent]; rfl
      | some item =>
        rw [Context.rest_eq_cons hcurrent]
        by_cases hend : item.token = .endOfText
        · simp only [if_pos hend]
          rfl
        · simp only [if_neg hend]
          rfl
    rw [hresume]
    exact .halt

theorem load_lt_add_work (h : control.work < f.work) (given : Control) :
    load items c control < load items c given + f.work := by
  rw [load, load, Nat.add_assoc]
  exact Nat.add_lt_add_left (Nat.lt_add_left _ h) _

theorem moves_resume_nested (hpassed : Passed items { entry with depth := entry.depth + 1 } c)
    (hreads : Call.reads source items ⟨.nested inner span, entry⟩ = .ok (e, c.rest items)) :
    Moves source items c (.nested entry inner span :: frames) (.leave call e)
      (resume items c e (.nested entry inner span :: frames)) := by
  have hdepth : c.depth = entry.depth + 1 := hpassed.depth_eq
  simp only [resume, Context.ascend?, hdepth]
  have habove : Passed items entry { c with depth := entry.depth } :=
    ⟨hpassed.forward, hpassed.within, rfl⟩
  exact .back rfl rfl (.leave habove hreads) (load_lt_add_work (by simp) _)

theorem moves_resume_group (hlinked : Linked source items ⟨.group, entry⟩ frames)
    (hpassed : Passed items entry c)
    (hreads : Call.reads source items ⟨.group, entry⟩ = Expr.closeGroup e (c.rest items)) :
    Moves source items c (.group entry :: frames) (.leave call e)
      (resume items c e (.group entry :: frames)) := by
  cases hcurrent : c.current? items with
  | none =>
    simp only [resume, onCurrent, hcurrent]
    refine hlinked.moves_fail ?_
    rw [hreads, Context.rest_eq_nil hcurrent, Expr.closeGroup]
  | some item =>
    rw [Context.rest_eq_cons hcurrent] at hreads
    simp only [resume, onCurrent, hcurrent]
    by_cases hclose : item.token = .closeParen
    · rw [Expr.closeGroup, if_pos hclose] at hreads
      rw [if_pos hclose]
      refine .back rfl rfl (.leave (hpassed.trans (passed_advance hcurrent)) hreads) ?_
      rw [← load_advance hcurrent]
      simp only [load, Control.work, Frame.work]
      omega
    · rw [Expr.closeGroup, if_neg hclose] at hreads
      rw [if_neg hclose]
      exact hlinked.moves_fail hreads

theorem moves_resume_cons (hlinked : Linked source items call (f :: frames))
    (h : Holds source items c (.leave call e)) :
    Moves source items c (f :: frames) (.leave call e) (resume items c e (f :: frames)) := by
  cases hlinked with
  | cons hawaits hlinked =>
    cases h with
    | leave hpassed hreads =>
      have hframe : f.call.reads source items = f.reads source e (c.rest items) := by
        rw [hawaits.reads_eq, hreads, ok_bind]
      cases hawaits with
      | first => exact .back rfl rfl (.loop hpassed hframe) (load_lt_add_work (by simp) _)
      | further hcurrent _ hbefore =>
        have hpassed := hbefore.trans ((passed_advance hcurrent).trans hpassed)
        exact .back rfl rfl (.loop hpassed hframe) (load_lt_add_work (by simp) _)
      | operand => exact .back rfl rfl (.leave hpassed hframe) (load_lt_add_work (by simp) _)
      | nested => exact moves_resume_nested hpassed hframe
      | unary hcurrent =>
        have hpassed := (passed_advance hcurrent).trans hpassed
        exact .back rfl rfl (.leave hpassed hframe) (load_lt_add_work (by simp) _)
      | group hcurrent =>
        exact moves_resume_group hlinked ((passed_advance hcurrent).trans hpassed) hframe

end Resuming

/-- Where the calls are linked, a step does nothing else, and never closes a level in vain. -/
theorem moves_step (hlinked : Linked source items (control.call c) frames)
    (h : Holds source items c control) :
    Moves source items c frames control (step source items (.active c frames control)) := by
  cases control with
  | enter routine =>
    cases routine with
    | expression => exact moves_enter_expression
    | operand => exact moves_enter_operand hlinked
    | nested inner span => exact moves_enter_nested hlinked
    | unary => exact moves_enter_unary hlinked
    | group => exact moves_enter_group hlinked
    | literal => exact moves_enter_literal hlinked
  | loop entry lhs => exact moves_loop h
  | leave call e =>
    cases frames with
    | nil => exact moves_resume_nil hlinked h
    | cons f frames => exact moves_resume_cons hlinked h

end WordCalc.Descent
