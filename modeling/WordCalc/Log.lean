import WordCalc.Error
import WordCalc.Expr.Listing
import WordCalc.Lexeme
import WordCalc.Text.Quoted

/-! # Logged calculations

A logged calculation yields records, in the order in which they arise, next to
its result. An error keeps the records made before it.
-/

namespace WordCalc

inductive Level where
  | info
  | debug
  | trace
  deriving DecidableEq, Repr

/-- What a calculation tells about its progress. -/
inductive Record where
  | settings (format : Format)
  | expression (source : Text)
  | lexeme (lexeme : Lexeme) (text : Text)
  /-- Reading stopped in front of the rest of the text, if the place is known. -/
  | failedNear (rest : Option Text)
  | listing (expr : Expr)
  | unary (op : UnaryOp) (value result : Word)
  | binary (op : BinaryOp) (left right result : Word)
  deriving DecidableEq, Repr

namespace Record

def level : Record → Level
  | settings _ => .info
  | expression _ => .debug
  | lexeme _ _ => .debug
  | failedNear _ => .trace
  | listing _ => .trace
  | unary _ _ _ => .trace
  | binary _ _ _ _ => .trace

def message : Record → String
  | settings format =>
    s!"base {format.base.display} width {format.width.display} unsigned {format.unsigned}"
  | expression source => String.ofList source.quoted
  | lexeme item text =>
    s!"{item.span.display} - {item.token.label}: {String.ofList text.quoted}"
  | failedNear none => "failed near None"
  | failedNear (some rest) => s!"failed near Some({String.ofList rest.quoted})"
  | listing expr => "\n" ++ String.ofList expr.listing
  | unary op value result => s!"{op.label} {value.toNat} => {result.toNat}"
  | binary op left right result =>
    s!"{op.label} {left.toNat} {right.toNat} => {result.toNat}"

end Record

structure Logged (ε α : Type) where
  records : List Record
  result : Except ε α

namespace Logged

variable {ε α β : Type}

instance : Monad (Logged ε) where
  pure a := ⟨[], .ok a⟩
  bind x f :=
    match x.result with
    | .error e => ⟨x.records, .error e⟩
    | .ok a =>
      let y := f a
      ⟨x.records ++ y.records, y.result⟩

/-- Make records and nothing else. -/
def log (records : List Record) : Logged ε Unit := ⟨records, .ok ()⟩

def silent (result : Except ε α) : Logged ε α := ⟨[], result⟩

def mapError {ε' : Type} (f : ε → ε') (x : Logged ε α) : Logged ε' α :=
  ⟨x.records, x.result.mapError f⟩

@[simp] theorem result_log (records : List Record) :
    (log records : Logged ε Unit).result = .ok () := rfl

@[simp] theorem result_silent (result : Except ε α) : (silent result).result = result := rfl

@[simp] theorem result_pure (a : α) : (pure a : Logged ε α).result = .ok a := rfl

@[simp] theorem result_mapError {ε' : Type} (f : ε → ε') (x : Logged ε α) :
    (x.mapError f).result = x.result.mapError f := rfl

@[simp] theorem result_bind (x : Logged ε α) (f : α → Logged ε β) :
    (x >>= f).result = x.result >>= fun a => (f a).result := by
  obtain ⟨records, result⟩ := x
  cases result <;> rfl

theorem records_bind_of_ok {x : Logged ε α} {f : α → Logged ε β} {a : α}
    (h : x.result = .ok a) : (x >>= f).records = x.records ++ (f a).records := by
  obtain ⟨records, result⟩ := x
  obtain rfl : result = .ok a := h
  rfl

theorem records_bind_of_error {x : Logged ε α} {f : α → Logged ε β} {e : ε}
    (h : x.result = .error e) : (x >>= f).records = x.records := by
  obtain ⟨records, result⟩ := x
  obtain rfl : result = .error e := h
  rfl

@[simp] theorem records_log_bind (records : List Record) (g : Unit → Logged ε β) :
    (log records >>= g).records = records ++ (g ()).records := rfl

@[simp] theorem records_silent_ok_bind (a : α) (f : α → Logged ε β) :
    (silent (.ok a) >>= f).records = (f a).records := rfl

end Logged

end WordCalc
