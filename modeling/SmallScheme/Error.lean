import SmallScheme.Span

/-!
# What can go wrong

The causes of failure while reading and while evaluating, their wording, and the distinction between
broken input and input that more text could complete.
-/

namespace SmallScheme

/-- How many arguments a procedure takes; a missing bound is no bound. -/
structure Arity where
  least : Option Nat
  most : Option Nat
  deriving DecidableEq, Repr

namespace Arity

def exactly (n : Nat) : Arity := ⟨some n, some n⟩

def atLeast (n : Nat) : Arity := ⟨some n, none⟩

def admits (a : Arity) (count : Nat) : Bool :=
  a.least.all (· ≤ count) && a.most.all (count ≤ ·)

def counted (n : Nat) : String :=
  if n = 1 then "1 argument" else s!"{n} arguments"

def text : Arity → String
  | ⟨some least, some most⟩ =>
    if least = most then counted least else s!"{least} to {most} arguments"
  | ⟨none, none⟩ => "any number of arguments"
  | ⟨some least, none⟩ => if least = 0 then "any number of arguments" else s!"at least {counted least}"
  | ⟨none, some most⟩ => s!"at most {counted most}"

end Arity

/-- The cause of a failure. The input may end between expressions or inside one; a detail says what is wrong, and a
limit is the one that would have been passed. -/
inductive Fault where
  | endOfInput
  | lexical (detail : String)
  | unexpectedCloseParen
  | unexpectedDot
  | malformedDot (detail : String)
  | invalidNumber (text : String)
  | nestingTooDeep (limit : Nat)
  | unboundSymbol (name : String)
  | notAProcedure (text : String)
  | notAPair (text : String)
  | notANumber (text : String)
  | arityMismatch (expected : Arity) (got : Nat)
  | malformedForm (form detail : String)
  | recursionTooDeep (limit : Nat)
  deriving DecidableEq, Repr

/-- The opening words of the lexical fault for a string literal that the input cuts off. -/
def unterminatedString : String := "unterminated string"

namespace Fault

def text : Fault → String
  | endOfInput => "End of File"
  | lexical detail => detail
  | unexpectedCloseParen => "Unexpected `)`"
  | unexpectedDot => "Unexpected `.` outside of a list"
  | malformedDot detail => s!"Malformed dotted list: {detail}"
  | invalidNumber text => s!"Invalid number `{text}`"
  | nestingTooDeep limit => s!"Expression too deeply nested (max depth: {limit})"
  | unboundSymbol name => s!"Undefined symbol: {name}"
  | notAProcedure text => s!"Not a procedure: {text}"
  | notAPair text => s!"Not a pair: {text}"
  | notANumber text => s!"Not a number: {text}"
  | arityMismatch expected got =>
    s!"Argument count mismatch: expected {expected.text}, got {got}"
  | malformedForm form detail => s!"Malformed `{form}`: {detail}"
  | recursionTooDeep limit => s!"Evaluation depth limit exceeded (max: {limit})"

end Fault

/-- A failure: its cause and, for failures of reading, where it was noticed. -/
structure Error where
  fault : Fault
  span : Option Span := none
  deriving DecidableEq, Repr

namespace Error

/-- The wording of a failure, with its line and column if it has a place. -/
def message (e : Error) : String :=
  match e.span with
  | some span => s!"{e.fault.text} (at {span.text})"
  | none => e.fault.text

def isEndOfInput (e : Error) : Bool :=
  e.fault == .endOfInput

/-- More text could still complete the input: a list, a quote or a string literal is open. -/
def isIncomplete (e : Error) : Bool :=
  match e.fault with
  | .endOfInput => true
  | .lexical detail => unterminatedString.toList.isPrefixOf detail.toList
  | _ => false

end Error

end SmallScheme
