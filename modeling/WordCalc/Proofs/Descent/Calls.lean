import WordCalc.Expr.Parse

/-! # The descent, call by call

The readers of expressions as routines that call each other, one step at a time. All routines work
on one context: a cursor into the lexemes that is only ever moved on, and a count of the open
levels. Those that wait for the routine they have called stand on a stack.
-/

namespace WordCalc.Descent

/-- Where the cursor stands, and how many levels are open. -/
structure Context where
  position : Nat
  depth : Nat
  deriving DecidableEq, Repr

namespace Context

def start : Context := ⟨0, 0⟩

def advance (c : Context) : Context := { c with position := c.position + 1 }

def descend? (c : Context) : Option Context :=
  if c.depth = maxNesting then none else some { c with depth := c.depth + 1 }

def ascend? (c : Context) : Option Context :=
  match c.depth with
  | 0 => none
  | depth + 1 => some { c with depth }

def current? (items : List Lexeme) (c : Context) : Option Lexeme := items[c.position]?

end Context

inductive Routine where
  | expression
  | operand
  /-- Another routine, one level deeper. The lexeme at the span opens the level. -/
  | nested (inner : Routine) (span : Span)
  | unary
  | group
  | literal
  deriving DecidableEq, Repr

def Routine.ofStart (span : Span) : OperandStart → Routine
  | .literal _ => .literal
  | .unary _ => .nested .unary span
  | .group => .nested .group span

structure Call where
  routine : Routine
  entry : Context
  deriving DecidableEq, Repr

/-- A call that waits for another one, with what it keeps until then. -/
inductive Frame where
  | first (entry : Context)
  | further (entry : Context) (lhs : Expr) (op : BinaryOp)
  | operand (entry : Context)
  | nested (entry : Context) (inner : Routine) (span : Span)
  | unary (entry : Context) (op : UnaryOp)
  | group (entry : Context)
  deriving DecidableEq, Repr

def Frame.call : Frame → Call
  | first entry => ⟨.expression, entry⟩
  | further entry _ _ => ⟨.expression, entry⟩
  | operand entry => ⟨.operand, entry⟩
  | nested entry inner span => ⟨.nested inner span, entry⟩
  | unary entry _ => ⟨.unary, entry⟩
  | group entry => ⟨.group, entry⟩

/-- What happens next in the innermost call. -/
inductive Control where
  | enter (routine : Routine)
  | loop (entry : Context) (lhs : Expr)
  | leave (call : Call) (e : Expr)
  deriving DecidableEq, Repr

inductive State where
  | active (context : Context) (frames : List Frame) (control : Control)
  | halted (result : Except ReadError Expr)
  /-- A level was closed where none was open. -/
  | underflow

def Control.call (context : Context) : Control → Call
  | enter routine => ⟨routine, context⟩
  | loop entry _ => ⟨.expression, entry⟩
  | leave call _ => call

/-- All calls that have not ended yet, the innermost one first. -/
def calls (context : Context) (frames : List Frame) (control : Control) : List Call :=
  control.call context :: frames.map Frame.call

def fail (error : ReadError) : State := .halted (.error error)

def onCurrent (items : List Lexeme) (c : Context) (next : Lexeme → State) : State :=
  match c.current? items with
  | none => fail .endOfItems
  | some item => next item

def literalBase : Token → Base
  | .literal base => base
  | _ => .decimal

/-- What a routine does up to its first call. -/
def enter (source : Text) (items : List Lexeme) (c : Context) (frames : List Frame) :
    Routine → State
  | .expression => .active c (.first c :: frames) (.enter .operand)
  | .operand => onCurrent items c fun item =>
    match item.token.start? with
    | none => fail (.badOperand item.token item.span)
    | some start => .active c (.operand c :: frames) (.enter (.ofStart item.span start))
  | .nested inner span =>
    match c.descend? with
    | none => fail (.tooDeep span)
    | some below => .active below (.nested c inner span :: frames) (.enter inner)
  | .unary => onCurrent items c fun item =>
    match item.token.unaryOp? with
    | none => fail (.badOperand item.token item.span)
    | some op => .active c.advance (.unary c op :: frames) (.enter .operand)
  | .group => .active c.advance (.group c :: frames) (.enter .expression)
  | .literal => onCurrent items c fun item =>
    match Expr.literalWord source (literalBase item.token) item.span with
    | .error error => fail error
    | .ok value => .active c.advance frames (.leave ⟨.literal, c⟩ (.literal value))

def loop (items : List Lexeme) (c : Context) (frames : List Frame) (entry : Context) (lhs : Expr) :
    State :=
  match (c.current? items).bind (·.token.binaryOp?) with
  | none => .active c frames (.leave ⟨.expression, entry⟩ lhs)
  | some op => .active c.advance (.further entry lhs op :: frames) (.enter .operand)

/-- Give what has been read to the call that waits for it. If none does, the text has to end. -/
def resume (items : List Lexeme) (c : Context) (e : Expr) : List Frame → State
  | [] => onCurrent items c fun item =>
    if item.token = .endOfText then .halted (.ok e) else fail (.expectedEnd item.token item.span)
  | .first entry :: frames => .active c frames (.loop entry e)
  | .further entry lhs op :: frames => .active c frames (.loop entry (.binary op lhs e))
  | .operand entry :: frames => .active c frames (.leave ⟨.operand, entry⟩ e)
  | .nested entry inner span :: frames =>
    match c.ascend? with
    | none => .underflow
    | some above => .active above frames (.leave ⟨.nested inner span, entry⟩ e)
  | .unary entry op :: frames => .active c frames (.leave ⟨.unary, entry⟩ (.unary op e))
  | .group entry :: frames => onCurrent items c fun item =>
    if item.token = .closeParen then .active c.advance frames (.leave ⟨.group, entry⟩ e)
    else fail (.expectedClosingParen item.token item.span)

def step (source : Text) (items : List Lexeme) : State → State
  | .active c frames (.enter routine) => enter source items c frames routine
  | .active c frames (.loop entry lhs) => loop items c frames entry lhs
  | .active c frames (.leave _ e) => resume items c e frames
  | .halted result => .halted result
  | .underflow => .underflow

def run (source : Text) (items : List Lexeme) : Nat → State
  | 0 => .active .start [] (.enter .expression)
  | steps + 1 => step source items (run source items steps)

end WordCalc.Descent
