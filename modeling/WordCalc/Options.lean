import WordCalc.Numeral.Format

/-! # Options of a command

A command is the program's name followed by flags, most of them with a value
behind them. Each flag with its value is a setting; a later setting overrides
an earlier one of the same flag. An expression has to be given.
-/

namespace WordCalc

def programName : String := "ntlang"

inductive Flag where
  | expression
  | base
  | width
  | unsigned
  deriving DecidableEq, Repr

namespace Flag

def display : Flag → String
  | expression => "-e"
  | base => "-b"
  | width => "-w"
  | unsigned => "-u"

def ofDisplay? : String → Option Flag
  | "-e" => some expression
  | "-b" => some base
  | "-w" => some width
  | "-u" => some unsigned
  | _ => none

@[simp] theorem ofDisplay?_display (flag : Flag) : ofDisplay? flag.display = some flag := by
  cases flag <;> rfl

end Flag

inductive OptionError where
  | usage
  | missingValue (flag : Flag)
  | invalidBase (text : String)
  | invalidWidth (text : String)
  | unknownArgument (text : String)
  | noExpression
  deriving DecidableEq, Repr

def OptionError.message : OptionError → String
  | usage =>
    "Usage: " ++ programName ++ " -e expression [-b base] [-w width] [-u]\n" ++
      "Example: " ++ programName ++ " -e \"1 + 2\" -b 10 -w 32 -u"
  | missingValue flag => "Missing argument for " ++ flag.display
  | invalidBase text => "Invalid number base: " ++ text
  | invalidWidth text => "Invalid width: " ++ text
  | unknownArgument text => "Unknown argument " ++ text
  | noExpression => "No expression given to evaluate"

/-- One flag of a command together with its value. -/
inductive Setting where
  | expression (text : String)
  | base (base : Base)
  | width (width : Width)
  | unsigned
  deriving DecidableEq, Repr

namespace Setting

def readBase (text : String) : Except OptionError Base :=
  match Base.ofDisplay? text with
  | some value => .ok value
  | none => .error (.invalidBase text)

def readWidth (text : String) : Except OptionError Width :=
  match Width.ofDisplay? text with
  | some value => .ok value
  | none => .error (.invalidWidth text)

/-- The settings that the words of a command spell, up to the first word that fits nowhere. The
word behind a flag that wants a value is its value, even if it looks like a flag. -/
def readAll : List String → Except OptionError (List Setting)
  | [] => .ok []
  | word :: words =>
    match Flag.ofDisplay? word, words with
    | none, _ => .error (.unknownArgument word)
    | some .unsigned, words => return unsigned :: (← readAll words)
    | some flag, [] => .error (.missingValue flag)
    | some .expression, text :: words => return expression text :: (← readAll words)
    | some .base, text :: words => do
      let value ← readBase text
      return base value :: (← readAll words)
    | some .width, text :: words => do
      let value ← readWidth text
      return width value :: (← readAll words)

/-- The words that spell a setting. -/
def words : Setting → List String
  | expression text => [Flag.expression.display, text]
  | base value => [Flag.base.display, value.display]
  | width value => [Flag.width.display, value.display]
  | unsigned => [Flag.unsigned.display]

/-- Settings are read back from the words that spell them. -/
theorem readAll_flatMap_words (settings : List Setting) :
    readAll (settings.flatMap words) = .ok settings := by
  induction settings with
  | nil => rfl
  | cons setting settings ih =>
    cases setting <;>
      simp only [List.flatMap_cons, words, List.cons_append, List.nil_append, readAll, readBase,
        readWidth, Flag.ofDisplay?_display, Base.ofDisplay?_display, Width.ofDisplay?_display,
        ih] <;> rfl

end Setting

structure Options where
  expression : String := ""
  format : Format := {}
  deriving DecidableEq, Repr

namespace Options

def override (options : Options) : Setting → Options
  | .expression text => { options with expression := text }
  | .base value => { options with format.base := value }
  | .width value => { options with format.width := value }
  | .unsigned => { options with format.unsigned := true }

/-- The options that the settings make of the default ones. -/
def ofSettings (settings : List Setting) : Except OptionError Options :=
  let options := settings.foldl override {}
  if options.expression = "" then .error .noExpression else .ok options

/-- The options of a command. One that is too short to hold a flag and its value asks for help. -/
def ofCommand (command : List String) : Except OptionError Options :=
  if command.length ≤ 2 then .error .usage
  else do
    let settings ← Setting.readAll (command.drop 1)
    ofSettings settings

end Options

end WordCalc
