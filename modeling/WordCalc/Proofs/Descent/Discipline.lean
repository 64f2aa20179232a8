import WordCalc.Proofs.Descent.Moves

/-! # The discipline of the descent

What holds after any number of steps: the cursor stays in the list, the levels and the calls stay
within their limits, and a call that gives something back has moved the cursor on and has left the
levels as it found them. After steps enough for each lexeme the descent ends with what the readers
make of the list.
-/

namespace WordCalc.Descent

variable {source : Text} {items : List Lexeme} {c : Context} {call : Call} {frames : List Frame}
  {control : Control} {e : Expr} {s : State} {steps : Nat}

def Valid (source : Text) (items : List Lexeme) : State → Prop
  | .active c frames control =>
    Linked source items (control.call c) frames ∧ Holds source items c control
  | .halted result => result = Expr.ofLexemes source items
  | .underflow => False

theorem Moves.valid (h : Moves source items c frames control s)
    (hlinked : Linked source items (control.call c) frames) : Valid source items s := by
  cases h with
  | halt => rfl
  | call hcall hawaits => exact ⟨.cons hawaits (hcall ▸ hlinked), .enter⟩
  | goOn hcall hholds => exact ⟨hcall ▸ hlinked, hholds⟩
  | back hframes hcall hholds =>
    subst hframes
    exact ⟨hcall ▸ hlinked.of_cons, hholds⟩

theorem valid_step (h : Valid source items s) : Valid source items (step source items s) := by
  cases s with
  | active c frames control => exact (moves_step h.1 h.2).valid h.1
  | halted result => exact h
  | underflow => exact h

theorem valid_run (source : Text) (items : List Lexeme) (steps : Nat) :
    Valid source items (run source items steps) := by
  induction steps with
  | zero => exact ⟨.start, .enter⟩
  | succ steps ih => exact valid_step ih

theorem valid_of_run (h : run source items steps = .active c frames control) :
    Linked source items (control.call c) frames ∧ Holds source items c control := by
  have hvalid := valid_run source items steps
  rwa [h] at hvalid

theorem moves_of_run (h : run source items steps = .active c frames control) :
    Moves source items c frames control (run source items (steps + 1)) := by
  rw [run, h]
  exact moves_step (valid_of_run h).1 (valid_of_run h).2

namespace Holds

theorem position_le (h : Holds source items c control)
    (hlinked : Linked source items (control.call c) frames) : c.position ≤ items.length := by
  cases h with
  | enter => exact hlinked.position_le
  | loop hpassed => exact hpassed.within
  | leave hpassed => exact hpassed.within

theorem depth_le (h : Holds source items c control)
    (hlinked : Linked source items (control.call c) frames) : c.depth ≤ maxNesting := by
  cases h with
  | enter => exact hlinked.depth_le
  | loop hpassed => exact hpassed.depth_eq ▸ hlinked.depth_le
  | leave hpassed => exact hpassed.depth_eq ▸ hlinked.depth_le

theorem of_leave (h : Holds source items c (.leave call e)) :
    Passed items call.entry c ∧ call.reads source items = .ok (e, c.rest items) := by
  cases h with
  | leave hpassed hreads => exact ⟨hpassed, hreads⟩

end Holds

section Entries

/-- The frames stand at the bottom of the stack. -/
def State.Over (frames : List Frame) : State → Prop
  | active _ stack _ => frames <:+ stack
  | halted _ | underflow => False

/-- The call was entered over the frames after so many steps at most, and the frames have not been
left since. -/
def Entered (source : Text) (items : List Lexeme) (steps : Nat) (call : Call)
    (frames : List Frame) : Prop :=
  ∃ before ≤ steps,
    run source items before = .active call.entry frames (.enter call.routine) ∧
    ∀ between, before ≤ between → between ≤ steps → (run source items between).Over frames

def AllEntered (source : Text) (items : List Lexeme) (steps : Nat) (call : Call) :
    List Frame → Prop
  | [] => Entered source items steps call []
  | f :: frames =>
    Entered source items steps call (f :: frames) ∧ AllEntered source items steps f.call frames

theorem entered_of_run
    (h : run source items steps = .active call.entry frames (.enter call.routine)) :
    Entered source items steps call frames := by
  refine ⟨steps, Nat.le_refl _, h, fun between hge hle => ?_⟩
  rw [Nat.le_antisymm hle hge, h]
  exact List.suffix_refl frames

theorem Entered.succ (h : Entered source items steps call frames)
    (hover : (run source items (steps + 1)).Over frames) :
    Entered source items (steps + 1) call frames := by
  obtain ⟨before, hle, hbefore, hsince⟩ := h
  refine ⟨before, Nat.le_succ_of_le hle, hbefore, fun between hge hle => ?_⟩
  rcases Nat.le_succ_iff.mp hle with hle | rfl
  · exact hsince between hge hle
  · exact hover

namespace AllEntered

theorem entered (h : AllEntered source items steps call frames) :
    Entered source items steps call frames := by
  cases frames with
  | nil => exact h
  | cons f frames => exact h.1

theorem succ {stack : List Frame} (h : AllEntered source items steps call frames)
    (hrun : run source items (steps + 1) = .active c stack control) (hover : frames <:+ stack) :
    AllEntered source items (steps + 1) call frames := by
  have hstate {kept : List Frame} (hkept : kept <:+ stack) :
      (run source items (steps + 1)).Over kept := by
    rw [hrun]
    exact hkept
  induction frames generalizing call with
  | nil => exact h.entered.succ (hstate hover)
  | cons f frames ih => exact ⟨h.1.succ (hstate hover), ih h.2 ((List.suffix_cons f _).trans hover)⟩

end AllEntered

theorem Moves.allEntered {stack : List Frame} {given : Control} {c' : Context}
    (h : Moves source items c stack given (.active c' frames control))
    (hall : AllEntered source items steps (given.call c) stack)
    (hrun : run source items (steps + 1) = .active c' frames control) :
    AllEntered source items (steps + 1) (control.call c') frames := by
  cases h with
  | @call f routine _ hcall =>
    rw [← hcall] at hall
    exact ⟨entered_of_run hrun, hall.succ hrun (List.suffix_cons f _)⟩
  | goOn hcall =>
    rw [hcall]
    exact hall.succ hrun (List.suffix_refl _)
  | back hframes hcall =>
    subst hframes
    rw [hcall]
    exact hall.2.succ hrun (List.suffix_refl _)

theorem allEntered_run (h : run source items steps = .active c frames control) :
    AllEntered source items steps (control.call c) frames := by
  induction steps generalizing c frames control with
  | zero =>
    cases h
    exact entered_of_run rfl
  | succ steps ih =>
    cases hbefore : run source items steps with
    | active c₀ stack given =>
      have hmoves := moves_of_run hbefore
      rw [h] at hmoves
      exact hmoves.allEntered (ih hbefore) h
    | halted result => simp [run, hbefore, step] at h
    | underflow => simp [run, hbefore, step] at h

end Entries

section Work

def stackWork : List Frame → Nat
  | [] => 0
  | f :: frames => f.work + stackWork frames

def State.work (items : List Lexeme) : State → Nat
  | active c frames control => load items c control + stackWork frames + 1
  | halted _ | underflow => 0

theorem Moves.work_lt (h : Moves source items c frames control s) :
    s.work items < (State.active c frames control).work items := by
  cases h with
  | halt => exact Nat.succ_pos _
  | call _ _ hless =>
    simp only [State.work, stackWork]
    omega
  | goOn _ _ hless =>
    simp only [State.work]
    omega
  | back hframes _ _ hless =>
    subst hframes
    simp only [State.work, stackWork]
    omega

theorem work_run_le (source : Text) (items : List Lexeme) (steps : Nat) :
    (run source items steps).work items ≤ 9 * items.length + 8 - steps := by
  induction steps with
  | zero => exact Nat.le_refl _
  | succ steps ih =>
    cases h : run source items steps with
    | active c frames control =>
      have hless := (moves_of_run h).work_lt
      rw [← h] at hless
      omega
    | halted result => simp [run, h, step, State.work]
    | underflow => simp [run, h, step, State.work]

end Work

theorem run_eq_halted (source : Text) (items : List Lexeme) :
    run source items (9 * items.length + 8) = .halted (Expr.ofLexemes source items) := by
  have hvalid := valid_run source items (9 * items.length + 8)
  have hwork := work_run_le source items (9 * items.length + 8)
  cases h : run source items (9 * items.length + 8) with
  | active c frames control =>
    rw [h, State.work] at hwork
    omega
  | halted result =>
    rw [h] at hvalid
    exact congrArg State.halted hvalid
  | underflow =>
    rw [h] at hvalid
    exact hvalid.elim

theorem run_ne_underflow (source : Text) (items : List Lexeme) (steps : Nat) :
    run source items steps ≠ .underflow := by
  intro h
  have hvalid := valid_run source items steps
  rw [h] at hvalid
  exact hvalid

/-- No level is closed that is not open. Whatever is called, the cursor stands in the list, and
the levels, the operands and all calls are within their limits. A call that gives something back
was entered before, has moved the cursor on since, has left the levels as they were, and has read
what the readers read. Every descent ends, with what the readers make of the list. -/
theorem run_disciplined (source : Text) (items : List Lexeme) :
    (∀ steps, run source items steps ≠ .underflow) ∧
    (∀ steps c frames control, run source items steps = .active c frames control →
      c.position ≤ items.length ∧ c.depth ≤ maxNesting ∧
        countOperands (calls c frames control) ≤ maxNesting + 1 ∧
        (calls c frames control).length ≤ 4 * maxNesting + 3) ∧
    (∀ steps c frames call e, run source items steps = .active c frames (.leave call e) →
      Entered source items steps call frames ∧ call.entry.position < c.position ∧
        c.depth = call.entry.depth ∧ call.reads source items = .ok (e, c.rest items)) ∧
    ∃ steps ≤ 9 * items.length + 8,
      run source items steps = .halted (Expr.ofLexemes source items) := by
  refine ⟨run_ne_underflow source items, ?_, ?_, 9 * items.length + 8, Nat.le_refl _,
    run_eq_halted source items⟩
  · intro steps c frames control h
    obtain ⟨hlinked, hholds⟩ := valid_of_run h
    have hoperands : countOperands (calls c frames control) ≤ maxNesting + 1 :=
      Nat.le_trans (Nat.le_of_eq hlinked.countOperands_eq) hlinked.operands_le
    have hcalls : (calls c frames control).length ≤ 4 * maxNesting + 3 :=
      Nat.le_trans hlinked.length_le_height hlinked.height_le
    exact ⟨hholds.position_le hlinked, hholds.depth_le hlinked, hoperands, hcalls⟩
  · intro steps c frames call e h
    obtain ⟨hpassed, hreads⟩ := (valid_of_run h).2.of_leave
    exact ⟨(allEntered_run h).entered, hpassed.forward, hpassed.depth_eq, hreads⟩

theorem run_disciplined_negation :
    run ['-', '1'] [⟨.operator .sub, ⟨0, 0⟩⟩, ⟨.literal .decimal, ⟨1, 1⟩⟩, ⟨.endOfText, ⟨2, 2⟩⟩]
        10 = .active ⟨2, 0⟩ [.first .start]
          (.leave ⟨.operand, .start⟩ (.unary .negate (.literal 1))) ∧
      Context.start.position < 2 ∧ 0 = Context.start.depth := by
  have hrun : run ['-', '1']
      [⟨.operator .sub, ⟨0, 0⟩⟩, ⟨.literal .decimal, ⟨1, 1⟩⟩, ⟨.endOfText, ⟨2, 2⟩⟩] 10 =
      .active ⟨2, 0⟩ [.first .start]
        (.leave ⟨.operand, .start⟩ (.unary .negate (.literal 1))) := rfl
  obtain ⟨-, hforward, hdepth, -⟩ := (run_disciplined _ _).2.2.1 _ _ _ _ _ hrun
  exact ⟨hrun, hforward, hdepth⟩

end WordCalc.Descent
