import WordCalc.Proofs.Session.Outcome
import WordCalc.Proofs.Tree.Postorder

/-! # The log of a session

What a session logs follows from how far it comes: its settings, its expression, the lexemes of
the expression, and then either the rest of the text at the place of a reading error or the
listing of the tree and the operations of its evaluation.
-/

namespace WordCalc

open Logged

variable {source before rest : Text} {items : List Lexeme} {item : Lexeme} {e : Expr}
  {error : ReadError} {command : List String} {options : Options}

abbrev Entry := Level × Record

def Record.entry (record : Record) : Entry := (record.level, record)

namespace Session

def opening (options : Options) : List Entry :=
  [(.info, .settings options.format), (.debug, .expression options.expression.toList)]

/-- There is one entry for each lexeme, in order, and the last one is for the end of the text. -/
structure ListsLexemes (source : Text) (items : List Lexeme) (entries : List Entry) : Prop where
  each : List.Forall₂ (fun item entry =>
    ∃ raw, item.text? source = some raw ∧ entry = (.debug, .lexeme item raw)) items entries
  last : entries.getLast? = some (.debug, .lexeme ⟨.endOfText, .one source.size⟩ [])

/-- The error shows at one of the lexemes, where the rest of the text starts. Nothing is left
exactly at the end of the text. -/
def ShowsAt (source : Text) (items : List Lexeme) (error : ReadError) (rest : Text) : Prop :=
  ∃ item ∈ items, error.span? = some item.span ∧
    (∃ before, source = before ++ rest ∧ before.size = item.span.first) ∧
    (rest = [] ↔ item.token = .endOfText)

/-- The log of a session, for each way in which it can end. -/
inductive Logs (command : List String) : List Entry → Prop
  | options {error : OptionError} (options_eq : Options.ofCommand command = .error error) :
      Logs command []
  | scan {options : Options} {error : ReadError}
      (options_eq : Options.ofCommand command = .ok options)
      (scan_eq : Lexeme.scan options.expression.toList = .error error) :
      Logs command (opening options)
  | read {options : Options} {items : List Lexeme} {error : ReadError} {lexemes : List Entry}
      {rest : Text} (options_eq : Options.ofCommand command = .ok options)
      (scan_eq : Lexeme.scan options.expression.toList = .ok items)
      (read_eq : Expr.ofLexemes options.expression.toList items = .error error)
      (lists : ListsLexemes options.expression.toList items lexemes)
      (shows : ShowsAt options.expression.toList items error rest) :
      Logs command (opening options ++ lexemes ++ [(.trace, .failedNear (some rest))])
  | eval {options : Options} {items : List Lexeme} {e : Expr} {lexemes : List Entry}
      (options_eq : Options.ofCommand command = .ok options)
      (scan_eq : Lexeme.scan options.expression.toList = .ok items)
      (read_eq : Expr.ofLexemes options.expression.toList items = .ok e)
      (lists : ListsLexemes options.expression.toList items lexemes) :
      Logs command (opening options ++ lexemes ++
        (.trace, .listing e) :: e.evalLogged.records.map fun record => (.trace, record))

end Session

theorem Lexeme.exists_append_of_scan (hscan : scan source = .ok items) (hitem : item ∈ items) :
    ∃ before rest, source = before ++ rest ∧ before.size = item.span.first ∧
      (rest = [] ↔ item.token = .endOfText) := by
  obtain ⟨body, rfl, hbody⟩ := exists_of_scan hscan
  rcases List.mem_append.mp hitem with hitem | hlast
  · obtain ⟨raw, hraw, hselect⟩ := hbody.exists_select? [] rfl hitem
    obtain ⟨before, after, heq, hfirst, -⟩ := Span.select?_eq_some_iff.mp (hselect [])
    refine ⟨before, raw ++ after, by simpa using heq, hfirst, ?_⟩
    have htoken : item.token ≠ .endOfText := by
      intro htoken
      rw [htoken] at hraw
      exact Token.not_isSpelling_endOfText hraw
    simp [hraw.shape.1, htoken]
  · rw [List.mem_singleton.mp hlast]
    exact ⟨source, [], (List.append_nil _).symm, rfl, by simp⟩

namespace Session

def lexemeRecord (source : Text) (item : Lexeme) : Record :=
  .lexeme item ((item.text? source).getD [])

theorem ListsLexemes.eq {lexemes : List Entry} (h : ListsLexemes source items lexemes) :
    lexemes = (items.map (lexemeRecord source)).map Record.entry := by
  have heach := h.each
  clear h
  induction heach with
  | nil => rfl
  | cons hentry _ ih =>
    obtain ⟨raw, hraw, rfl⟩ := hentry
    simp [ih, lexemeRecord, hraw, Record.entry, Record.level]

theorem listsLexemes_of_scan (hscan : Lexeme.scan source = .ok items) :
    ListsLexemes source items ((items.map (lexemeRecord source)).map Record.entry) := by
  constructor
  · rw [List.map_map, List.forall₂_map_right_iff, List.forall₂_same]
    intro item hitem
    obtain ⟨raw, hraw⟩ := Lexeme.exists_text?_of_scan hscan hitem
    exact ⟨raw, hraw, by simp [lexemeRecord, hraw, Record.entry, Record.level]⟩
  · obtain ⟨body, rfl, -⟩ := Lexeme.exists_of_scan hscan
    simp [lexemeRecord, Lexeme.text?, Record.entry, Record.level]

theorem exists_showsAt (hscan : Lexeme.scan source = .ok items)
    (h : Expr.ofLexemes source items = .error error) : ∃ rest, ShowsAt source items error rest := by
  obtain ⟨item, hitem, state, hrefuses⟩ := Expr.exists_refuses_of_ofLexemes hscan h
  obtain ⟨before, rest, hsplit, hfirst, hend⟩ := Lexeme.exists_append_of_scan hscan hitem
  exact ⟨rest, item, hitem, hrefuses.span?_eq, ⟨before, hsplit, hfirst⟩, hend⟩

theorem ShowsAt.dropBytes?_eq (h : ShowsAt source items error rest) :
    (error.span?.bind fun span => source.dropBytes? span.first) = some rest := by
  obtain ⟨item, -, hspan, ⟨before, rfl, hfirst⟩, -⟩ := h
  rw [hspan, Option.bind_some, ← hfirst]
  exact Text.dropBytes?_size_append before rest

end Session

theorem Expr.records_ofTextLogged_of_scan_eq_error (h : Lexeme.scan source = .error error) :
    (ofTextLogged source).records = [.expression source] := by
  rw [ofTextLogged, h]
  rfl

theorem Expr.records_ofTextLogged_of_eq_error (hscan : Lexeme.scan source = .ok items)
    (h : ofLexemes source items = .error error) : (ofTextLogged source).records =
      [.expression source] ++ items.map (Session.lexemeRecord source) ++
        [.failedNear (error.span?.bind fun span => source.dropBytes? span.first)] := by
  rw [ofTextLogged, hscan]
  simp only [records_log_bind, records_silent_ok_bind, h]
  rfl

theorem Expr.records_ofTextLogged_of_eq_ok (hscan : Lexeme.scan source = .ok items)
    (h : ofLexemes source items = .ok e) : (ofTextLogged source).records =
      [.expression source] ++ items.map (Session.lexemeRecord source) ++ [.listing e] := by
  rw [ofTextLogged, hscan]
  simp only [records_log_bind, records_silent_ok_bind, h]
  rfl

theorem Expr.map_entry_evalLogged (e : Expr) : e.evalLogged.records.map Record.entry =
    e.evalLogged.records.map fun record => (.trace, record) := by
  refine List.map_congr_left fun record hrecord => ?_
  exact congrArg (·, record) (level_of_mem_evalLogged hrecord)

namespace Session

theorem records_run_of_options_eq_error {error : OptionError}
    (h : Options.ofCommand command = .error error) : (run command).records = [] := by
  rw [run, h]
  rfl

theorem records_run_of_ofText_eq_error (hoptions : Options.ofCommand command = .ok options)
    (h : Expr.ofText options.expression.toList = .error error) : (run command).records =
      [.settings options.format] ++ (Expr.ofTextLogged options.expression.toList).records := by
  have hread : ((Expr.ofTextLogged options.expression.toList).mapError Error.read).result =
      .error (.read error) := by
    rw [result_mapError, Expr.result_ofTextLogged, h]
    rfl
  rw [run, hoptions]
  exact congrArg ([.settings options.format] ++ ·) (records_bind_of_error hread)

theorem records_run_of_ofText_eq_ok (hoptions : Options.ofCommand command = .ok options)
    (h : Expr.ofText options.expression.toList = .ok e) : (run command).records =
      [.settings options.format] ++ (Expr.ofTextLogged options.expression.toList).records ++
        e.evalLogged.records := by
  have hread : ((Expr.ofTextLogged options.expression.toList).mapError Error.read).result =
      .ok e := by
    rw [result_mapError, Expr.result_ofTextLogged, h]
    rfl
  have heval : ((e.evalLogged.mapError Error.eval) >>= fun value =>
      (pure (String.ofList (options.format.render value)) : Logged Error String)).records =
      e.evalLogged.records := by
    cases hvalue : (e.evalLogged.mapError Error.eval).result with
    | error _ => exact records_bind_of_error hvalue
    | ok value => exact (records_bind_of_ok hvalue).trans (List.append_nil _)
  rw [run, hoptions, List.append_assoc]
  refine congrArg ([.settings options.format] ++ ·) ((records_bind_of_ok hread).trans ?_)
  exact congrArg ((Expr.ofTextLogged options.expression.toList).records ++ ·) heval

theorem entries_of_scan_eq_error (hoptions : Options.ofCommand command = .ok options)
    (hscan : Lexeme.scan options.expression.toList = .error error) :
    (run command).records.map Record.entry = opening options := by
  have hread : Expr.ofText options.expression.toList = .error error := by
    rw [Expr.ofText, hscan]
    rfl
  rw [records_run_of_ofText_eq_error hoptions hread,
    Expr.records_ofTextLogged_of_scan_eq_error hscan]
  rfl

theorem entries_of_ofLexemes_eq_error (hoptions : Options.ofCommand command = .ok options)
    (hscan : Lexeme.scan options.expression.toList = .ok items)
    (h : Expr.ofLexemes options.expression.toList items = .error error)
    (hshows : ShowsAt options.expression.toList items error rest) :
    (run command).records.map Record.entry = opening options ++
      (items.map (lexemeRecord options.expression.toList)).map Record.entry ++
        [(.trace, .failedNear (some rest))] := by
  have hread : Expr.ofText options.expression.toList = .error error := by
    rw [Expr.ofText, hscan]
    exact h
  rw [records_run_of_ofText_eq_error hoptions hread,
    Expr.records_ofTextLogged_of_eq_error hscan h, hshows.dropBytes?_eq]
  simp only [List.map_append, List.append_assoc]
  rfl

theorem entries_of_ofLexemes_eq_ok (hoptions : Options.ofCommand command = .ok options)
    (hscan : Lexeme.scan options.expression.toList = .ok items)
    (h : Expr.ofLexemes options.expression.toList items = .ok e) :
    (run command).records.map Record.entry = opening options ++
      (items.map (lexemeRecord options.expression.toList)).map Record.entry ++
        (.trace, .listing e) :: e.evalLogged.records.map fun record => (.trace, record) := by
  have hread : Expr.ofText options.expression.toList = .ok e := by
    rw [Expr.ofText, hscan]
    exact h
  rw [records_run_of_ofText_eq_ok hoptions hread, Expr.records_ofTextLogged_of_eq_ok hscan h,
    ← Expr.map_entry_evalLogged]
  simp only [List.map_append, List.append_assoc]
  rfl

theorem Logs.eq {entries : List Entry} (h : Logs command entries) :
    (run command).records.map Record.entry = entries := by
  cases h with
  | options hoptions => rw [records_run_of_options_eq_error hoptions, List.map_nil]
  | scan hoptions hscan => exact entries_of_scan_eq_error hoptions hscan
  | read hoptions hscan hread hlists hshows =>
    rw [hlists.eq]
    exact entries_of_ofLexemes_eq_error hoptions hscan hread hshows
  | eval hoptions hscan hread hlists =>
    rw [hlists.eq]
    exact entries_of_ofLexemes_eq_ok hoptions hscan hread

theorem logs_run (command : List String) :
    Logs command ((run command).records.map Record.entry) := by
  cases hoptions : Options.ofCommand command with
  | error e =>
    rw [records_run_of_options_eq_error hoptions]
    exact .options hoptions
  | ok options =>
    cases hscan : Lexeme.scan options.expression.toList with
    | error error =>
      rw [entries_of_scan_eq_error hoptions hscan]
      exact .scan hoptions hscan
    | ok items =>
      have hlists := listsLexemes_of_scan hscan
      cases hread : Expr.ofLexemes options.expression.toList items with
      | error error =>
        obtain ⟨rest, hshows⟩ := exists_showsAt hscan hread
        rw [entries_of_ofLexemes_eq_error hoptions hscan hread hshows]
        exact .read hoptions hscan hread hlists hshows
      | ok e =>
        rw [entries_of_ofLexemes_eq_ok hoptions hscan hread]
        exact .eval hoptions hscan hread hlists

/-- A session logs exactly what belongs to the way in which it ends. -/
theorem entries_run_iff (command : List String) (entries : List Entry) :
    (run command).records.map Record.entry = entries ↔ Logs command entries := by
  constructor
  · rintro rfl
    exact logs_run command
  · exact Logs.eq

example : (run ["ntlang", "-e", "5 -"]).records =
    [.settings {}, .expression ['5', ' ', '-'], .lexeme ⟨.literal .decimal, ⟨0, 0⟩⟩ ['5'],
      .lexeme ⟨.operator .sub, ⟨2, 2⟩⟩ ['-'], .lexeme ⟨.endOfText, ⟨3, 3⟩⟩ [],
      .failedNear (some [])] := rfl

end Session

end WordCalc
