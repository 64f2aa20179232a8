import WordCalc.Proofs.Machine.Reports
import WordCalc.Proofs.Numeral.Form
import WordCalc.Proofs.Print.Output
import WordCalc.Session

/-! # Outcomes of sessions

A session has the result of its options, whatever it logs on the way. The texts that it logs are
pieces of the expression that it was given. Its answer is the result or the message of the error,
and the exit code tells which.
-/

namespace WordCalc

open Logged

variable {ε ε' α β : Type} {P : Record → Prop} {source : Text}

theorem Expr.result_ofTextLogged (source : Text) :
    (ofTextLogged source).result = ofText source := by
  rw [ofTextLogged, ofText]
  simp only [result_bind, result_log, result_silent, ok_bind]
  cases Lexeme.scan source with
  | error => rfl
  | ok items =>
    simp only [ok_bind]
    cases ofLexemes source items <;> rfl

/-- Logging is left out of a session by leaving out its records. -/
theorem Session.result_run (command : List String) :
    (run command).result = (Options.ofCommand command).mapError .options >>= Options.run := by
  rw [run]
  simp only [result_bind, result_log, result_silent, result_mapError, result_pure, ok_bind,
    Expr.result_ofTextLogged, Expr.result_evalLogged]
  cases (Options.ofCommand command).mapError Error.options with
  | error => rfl
  | ok options =>
    simp only [ok_bind, Options.run, Text.evaluate]
    cases (Expr.ofText options.expression.toList).mapError Error.read <;> rfl

/-- Each text in the record is a piece of the source, and it is there. -/
def Record.Quotes (source : Text) : Record → Prop
  | expression text => text = source
  | lexeme item text => item.text? source = some text
  | failedNear rest => ∃ before after, source = before ++ after ∧ rest = some after
  | settings _ | listing _ | unary .. | binary .. => True

namespace Logged

def Makes (P : Record → Prop) (x : Logged ε α) : Prop := ∀ record ∈ x.records, P record

theorem makes_pure (a : α) : (pure a : Logged ε α).Makes P := by
  simp [Makes, pure]

theorem makes_silent (result : Except ε α) : (silent result).Makes P := by
  simp [Makes, silent]

theorem makes_log {records : List Record} (h : ∀ record ∈ records, P record) :
    (log records : Logged ε Unit).Makes P := h

theorem Makes.mapError {x : Logged ε α} (h : x.Makes P) (f : ε → ε') : (x.mapError f).Makes P := h

theorem Makes.bind {x : Logged ε α} {f : α → Logged ε β} (h : x.Makes P)
    (hf : ∀ a, x.result = .ok a → (f a).Makes P) : (x >>= f).Makes P := by
  obtain ⟨records, result⟩ := x
  cases result with
  | error => exact h
  | ok a =>
    intro record hrecord
    rcases List.mem_append.mp hrecord with hx | hnext
    · exact h record hx
    · exact hf a rfl record hnext

end Logged

theorem Expr.makes_evalLogged (e : Expr) : e.evalLogged.Makes (Record.Quotes source) := by
  induction e with
  | literal => exact makes_pure _
  | unary op operand ih =>
    refine ih.bind fun value _ => (makes_log ?_).bind fun _ _ => makes_pure _
    simp [Record.Quotes]
  | binary op lhs rhs ihl ihr =>
    refine ihl.bind fun left _ => ihr.bind fun right _ => (makes_silent _).bind fun result _ =>
      (makes_log ?_).bind fun _ _ => makes_pure _
    simp [Record.Quotes]

theorem Expr.makes_ofTextLogged (source : Text) :
    (ofTextLogged source).Makes (Record.Quotes source) := by
  refine (makes_log ?_).bind fun _ _ => (makes_silent _).bind fun items hscan =>
    (makes_log ?_).bind fun _ _ => ?_
  · simp [Record.Quotes]
  · intro record hrecord
    obtain ⟨item, hitem, rfl⟩ := List.mem_map.mp hrecord
    obtain ⟨raw, hraw⟩ := Lexeme.exists_text?_of_scan hscan hitem
    simp [Record.Quotes, hraw]
  · cases hread : ofLexemes source items with
    | ok e => exact (makes_log (by simp [Record.Quotes])).bind fun _ _ => makes_pure _
    | error e =>
      obtain ⟨span, hspan, before, after, rfl, hfirst, -⟩ := exists_span?_of_ofLexemes hscan hread
      refine (makes_log ?_).bind fun _ _ => makes_silent _
      simp [Record.Quotes, hspan, ← hfirst]

theorem Session.makes_run {command : List String} {options : Options}
    (h : Options.ofCommand command = .ok options) :
    (run command).Makes (Record.Quotes options.expression.toList) := by
  have hoptions {options' : Options}
      (h' : (Options.ofCommand command).mapError Error.options = .ok options') :
      options' = options := by
    rw [mapError_eq_ok_iff, h] at h'
    exact (Except.ok.inj h').symm
  refine (makes_silent _).bind fun options' h' => ?_
  obtain rfl := hoptions h'
  refine (makes_log ?_).bind fun _ _ => ?_
  · simp [Record.Quotes]
  refine ((Expr.makes_ofTextLogged _).mapError _).bind fun e _ => ?_
  exact (e.makes_evalLogged.mapError _).bind fun _ _ => makes_pure _

theorem Expr.ofText_ne_unreadable (source : Text) (span : Span) :
    ofText source ≠ .error (.unreadable span) := by
  intro h
  cases hscan : Lexeme.scan source with
  | error e =>
    rw [ofText, hscan] at h
    obtain rfl := Except.error.inj h
    cases (concerns_of_scan hscan).1
  | ok items =>
    rw [ofText, hscan] at h
    cases (concerns_of_ofLexemes hscan h).1

theorem Options.run_ne_unreadable (options : Options) (span : Span) :
    options.run ≠ .error (.read (.unreadable span)) := by
  intro h
  rw [run, Text.evaluate] at h
  cases hread : Expr.ofText options.expression.toList with
  | error e =>
    rw [hread] at h
    obtain rfl := Error.read.inj (Except.error.inj h)
    exact Expr.ofText_ne_unreadable _ span hread
  | ok e =>
    rw [hread] at h
    cases heval : e.eval <;> simp [heval, Except.mapError] at h

namespace Session

/-- A session has the result of its options, quotes pieces of their expression only, and never
stops at a missing piece. It exits with 0 exactly if it has a result, and then prints a line with a
numeral of the format; with an error it exits with 1 and prints the message. -/
theorem run_outcome (command : List String) :
    (run command).result = (Options.ofCommand command).mapError .options >>= Options.run ∧
    (∀ options, Options.ofCommand command = .ok options →
      ∀ record ∈ (run command).records, record.Quotes options.expression.toList) ∧
    (∀ span, (run command).result ≠ .error (.read (.unreadable span))) ∧
    (∀ text, (run command).result = .ok text →
      answer (run command).result = ⟨0, text ++ "\n"⟩ ∧ text ≠ "" ∧ '\n' ∉ text.toList ∧
      ∃ options, Options.ofCommand command = .ok options ∧ options.format.HasForm text.toList) ∧
    ∀ e, (run command).result = .error e →
      answer (run command).result = ⟨1, e.message ++ "\n"⟩ := by
  refine ⟨result_run command, fun options h => makes_run h, fun span => ?_, fun text h => ?_,
    fun e h => by rw [h, answer]⟩
  · rw [result_run]
    cases hoptions : Options.ofCommand command with
    | error e => simp [Except.mapError]
    | ok options => exact options.run_ne_unreadable span
  · have hrun := h
    rw [result_run] at hrun
    obtain ⟨options, hoptions, hrun⟩ := bind_eq_ok_iff.mp hrun
    rw [mapError_eq_ok_iff] at hoptions
    obtain ⟨word, -, rfl⟩ := Options.run_eq_ok_iff.mp hrun
    have hform := options.format.hasForm_render word
    rw [String.toList_ofList]
    exact ⟨by rw [h, answer], by simpa using hform.ne_nil, hform.newline_not_mem, options, hoptions,
      hform⟩

theorem run_outcome_end :
    (∀ record ∈ (run ["ntlang", "-e", "5 -", "-w", "8"]).records, record.Quotes ['5', ' ', '-']) ∧
    answer (run ["ntlang", "-e", "5 -", "-w", "8"]).result =
      ⟨1, "Bad operand: unexpected token `end of text` at position [3:3]\n"⟩ ∧
    answer (run ["ntlang", "-e", "5 - 19", "-w", "8"]).result = ⟨0, "-14\n"⟩ := by
  have hoptions : Options.ofCommand ["ntlang", "-e", "5 -", "-w", "8"] =
      .ok ⟨"5 -", ⟨.decimal, .w8, false⟩⟩ := rfl
  have herror : (run ["ntlang", "-e", "5 -", "-w", "8"]).result =
      .error (.read (.badOperand .endOfText ⟨3, 3⟩)) := rfl
  have hresult : (run ["ntlang", "-e", "5 - 19", "-w", "8"]).result = .ok "-14" := rfl
  obtain ⟨-, hrecords, -, -, hmessage⟩ := run_outcome ["ntlang", "-e", "5 -", "-w", "8"]
  obtain ⟨-, -, -, hline, -⟩ := run_outcome ["ntlang", "-e", "5 - 19", "-w", "8"]
  exact ⟨hrecords _ hoptions, (hmessage _ herror).trans rfl, (hline _ hresult).1⟩

end Session

end WordCalc
