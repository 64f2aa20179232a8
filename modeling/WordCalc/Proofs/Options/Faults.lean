import WordCalc.Proofs.Options.Latest

/-! # Errors of a command

A command that is long enough fails where its settings end too early, or for want of an expression.
What is wrong with the word there, or with the value behind it, stays wrong whatever follows; only a
flag at the very end can still get its value.
-/

namespace WordCalc

variable {settings : List Setting} {rest command : List String} {e e' : OptionError}
  {options : Options}

namespace Setting

theorem Misfit.unique (h : Misfit rest e) (h' : Misfit rest e') : e = e' :=
  Except.error.inj ((readAll_of_misfit h []).symm.trans (readAll_of_misfit h' []))

theorem Misfit.ne_nil (h : Misfit rest e) : rest ≠ [] := by
  cases h <;> exact List.cons_ne_nil _ _

theorem Misfit.append (h : Misfit rest e) (hvalue : ∀ flag, e ≠ .missingValue flag)
    (later : List String) : Misfit (rest ++ later) e := by
  cases h with
  | missingValue => exact absurd rfl (hvalue _)
  | invalidBase hinvalid behind => exact .invalidBase hinvalid (behind ++ later)
  | invalidWidth hinvalid behind => exact .invalidWidth hinvalid (behind ++ later)
  | unknownArgument hunknown behind => exact .unknownArgument hunknown (behind ++ later)

end Setting

namespace Options

open Setting

def LacksExpression (settings : List Setting) : Prop :=
  latest .expression settings = none ∨ latest .expression settings = some (.expression "")

/-- The error of a command that is a longest row of settings and the rest behind it. -/
inductive Fails (settings : List Setting) : List String → OptionError → Prop
  | noExpression (lacks : LacksExpression settings) : Fails settings [] .noExpression
  | misfit {rest : List String} {e : OptionError} (misfit : Misfit rest e) : Fails settings rest e

theorem fails_nil_iff :
    Fails settings [] e ↔ e = .noExpression ∧ LacksExpression settings := by
  constructor
  · rintro (hlacks | hmisfit)
    · exact ⟨rfl, hlacks⟩
    · exact absurd rfl hmisfit.ne_nil
  · rintro ⟨rfl, hlacks⟩
    exact .noExpression hlacks

theorem fails_iff_of_misfit (h : Misfit rest e) : Fails settings rest e' ↔ e = e' := by
  constructor
  · rintro (- | hmisfit)
    · exact absurd rfl h.ne_nil
    · exact h.unique hmisfit
  · rintro rfl
    exact .misfit h

theorem InForce.expression_eq_empty_iff (h : InForce settings options) :
    options.expression = "" ↔ LacksExpression settings := by
  constructor
  · intro hempty
    rcases h.expression with hlast | ⟨hnone, -⟩
    · exact Or.inr (hempty ▸ hlast)
    · exact Or.inl hnone
  · rintro (hnone | hlast)
    · exact h.expression.unique (fun _ _ => Setting.expression.inj) (Or.inr ⟨hnone, rfl⟩)
    · exact h.expression.unique (fun _ _ => Setting.expression.inj) (Or.inl hlast)

theorem ofSettings_eq_error_iff :
    ofSettings settings = .error e ↔ e = .noExpression ∧ LacksExpression settings := by
  rw [ofSettings_eq, ← (inForce_foldl settings).expression_eq_empty_iff]
  split
  · rename_i hempty
    rw [Except.error.injEq, and_iff_left hempty, eq_comm]
  · rename_i hne
    simp only [reduceCtorEq, hne, and_false]

theorem ofCommand_eq_error_iff (hlength : 2 < command.length)
    (hparts : command.drop 1 = settings.flatMap words ++ rest)
    (hrest : rest = [] ∨ ∃ e, Misfit rest e) :
    ofCommand command = .error e ↔ Fails settings rest e := by
  rw [ofCommand_eq hlength, hparts]
  rcases hrest with rfl | ⟨e', he'⟩
  · rw [List.append_nil, readAll_flatMap_words, ok_bind, ofSettings_eq_error_iff, fails_nil_iff]
  · rw [readAll_of_misfit he', error_bind, fails_iff_of_misfit he', Except.error.injEq]

theorem exists_fails (hlength : 2 < command.length) :
    ∃ settings rest, Leads settings rest (command.drop 1) ∧
      (∀ e, ofCommand command = .error e ↔ Fails settings rest e) ∧
      (rest ≠ [] → ∃ e, Misfit rest e) := by
  obtain ⟨settings, rest, hleads, hrest⟩ := exists_leads (command.drop 1)
  exact ⟨settings, rest, hleads, fun e => ofCommand_eq_error_iff hlength hleads.split hrest,
    hrest.resolve_left⟩

theorem ofCommand_eq_usage_iff : ofCommand command = .error .usage ↔ command.length ≤ 2 := by
  constructor
  · intro h
    by_contra hlength
    obtain ⟨settings, rest, -, hfails, -⟩ := exists_fails (Nat.lt_of_not_le hlength)
    cases (hfails .usage).mp h with
    | misfit hmisfit => cases hmisfit
  · exact ofCommand_eq_usage

/-- What is wrong in front of the last word of a command is wrong in every longer one. -/
theorem ofCommand_append_of_error (h : ofCommand command = .error e) (husage : e ≠ .usage)
    (hexpression : e ≠ .noExpression) (hvalue : ∀ flag, e ≠ .missingValue flag)
    (later : List String) : ofCommand (command ++ later) = .error e := by
  have hlength : 2 < command.length := by
    by_contra hshort
    rw [ofCommand_eq_usage (Nat.le_of_not_lt hshort)] at h
    exact husage (Except.error.inj h).symm
  obtain ⟨settings, rest, hleads, hfails, -⟩ := exists_fails hlength
  cases (hfails e).mp h with
  | noExpression => exact absurd rfl hexpression
  | misfit hmisfit =>
    have hparts : (command ++ later).drop 1 = settings.flatMap words ++ (rest ++ later) := by
      rw [List.drop_append_of_le_length (by omega), hleads.split, List.append_assoc]
    have hlonger : 2 < (command ++ later).length := by
      rw [List.length_append]
      omega
    rw [ofCommand_eq hlonger, hparts, readAll_of_misfit (hmisfit.append hvalue later)]
    rfl

/-- A command is too short, or its error is found where the longest row of settings ends. An error
over a base, a width or an unknown word stays the same however the command goes on. -/
theorem ofCommand_rejected (command : List String) :
    (ofCommand command = .error .usage ↔ command.length ≤ 2) ∧
    (2 < command.length → ∃ settings rest, Leads settings rest (command.drop 1) ∧
      (∀ e, ofCommand command = .error e ↔ Fails settings rest e) ∧
      (rest ≠ [] → ∃ e, Misfit rest e)) ∧
    ∀ e text later, e ∈ [.invalidBase text, .invalidWidth text, .unknownArgument text] →
      ofCommand command = .error e → ofCommand (command ++ later) = .error e := by
  refine ⟨ofCommand_eq_usage_iff, exists_fails, fun e text later he h => ?_⟩
  simp only [List.mem_cons, List.not_mem_nil, or_false] at he
  rcases he with rfl | rfl | rfl <;>
    exact ofCommand_append_of_error h (by simp) (by simp) (by simp) later

theorem ofCommand_rejected_base :
    2 < [programName, "-e", "", "-b", "8", "-x"].length ∧
    ofCommand [programName, "-e", "", "-b", "8", "-x"] = .error (.invalidBase "8") ∧
    (∃ settings rest, Leads settings rest ["-e", "", "-b", "8", "-x"] ∧
      Fails settings rest (.invalidBase "8")) ∧
    ofCommand [programName, "-e", "", "-b", "8", "-x", "-e", "1"] =
      .error (.invalidBase "8") := by
  have hlength : 2 < [programName, "-e", "", "-b", "8", "-x"].length := by decide
  have hcommand : ofCommand [programName, "-e", "", "-b", "8", "-x"] =
      .error (.invalidBase "8") := rfl
  obtain ⟨-, hleads, hlater⟩ := ofCommand_rejected [programName, "-e", "", "-b", "8", "-x"]
  obtain ⟨settings, rest, hleads, hfails, -⟩ := hleads hlength
  exact ⟨hlength, hcommand, ⟨settings, rest, hleads, (hfails _).mp hcommand⟩,
    hlater (.invalidBase "8") "8" ["-e", "1"] (by simp) hcommand⟩

end Options

end WordCalc
