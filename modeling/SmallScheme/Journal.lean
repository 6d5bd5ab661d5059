import SmallScheme.Datum.Reader
import SmallScheme.Machine

/-!
# The journal

Reading, evaluation and the command line note what they do, each note at a level of importance. A
journal keeps the notes at its own level and above, and counts the symbols in use.
-/

namespace SmallScheme

/-- The importance of a note; a journal at level `off` keeps none. -/
inductive Level where
  | off
  | warn
  | info
  | debug
  | trace
  deriving DecidableEq, Repr

namespace Level

/-- Levels by how much a journal at that level keeps. -/
def rank : Level → Nat
  | off => 0
  | warn => 1
  | info => 2
  | debug => 3
  | trace => 4

def text : Level → String
  | off => "OFF"
  | warn => "WARN"
  | info => "INFO"
  | debug => "DEBUG"
  | trace => "TRACE"

end Level

inductive Note where
  | scanned (lexeme : Lexeme)
  | listRead (length : Nat) (span : Span)
  | evaluating (exp : Value)
  | calling (exp : Value)
  | assignedUnbound (s : Symbol)
  | binding (s : Symbol) (v : Value)
  | symbolCount (count : Nat)
  | quitting
  | loading (path : String)
  | noHistory (path reason : String)
  | malformedHistory (line : String)
  | historyNotSaved (path reason : String)

namespace Note

def level : Note → Level
  | scanned _ | listRead .. => .trace
  | evaluating _ | calling _ | assignedUnbound _ | noHistory .. => .debug
  | binding .. | symbolCount _ | quitting | loading _ => .info
  | historyNotSaved .. | malformedHistory _ => .warn

/-- The part of the program that the note comes from. -/
def origin : Note → String
  | scanned _ | listRead .. => "rsi::parse"
  | evaluating _ | calling _ | assignedUnbound _ | binding .. | symbolCount _ | quitting =>
    "rsi::eval"
  | loading _ | noHistory .. | historyNotSaved .. => "rsi"
  | malformedHistory _ => "rustyline"

/-- The span of a list in full. -/
def spanText (s : Span) : String :=
  s!"Some(RsiInSpan({s.start.offset}, {s.start.line}, {s.start.column}, {s.length}))"

def text : Note → String
  | scanned lexeme => "scan: " ++ lexeme.text
  | listRead length span => s!"list of {length} read at " ++ spanText span
  | evaluating exp => "eval: " ++ exp.text
  | calling exp => "procedure call " ++ exp.text
  | assignedUnbound s => s!"set! of unbound {s.name} binds it globally"
  | binding s v => s.name ++ ": " ++ v.text
  | symbolCount count => s!"{count} symbols interned"
  | quitting => "quit"
  | loading path => "loading " ++ path
  | noHistory path reason => "no history from " ++ path ++ ": " ++ reason
  | malformedHistory line => "bad escaped line: " ++ line
  | historyNotSaved path reason => "can't save history to " ++ path ++ ": " ++ reason

end Note

/-- Notes kept, latest first, and the symbols in use. -/
structure Journal where
  level : Level
  symbols : SymbolTable
  notes : List Note := []

namespace Journal

/-- The journal of a fresh program, which uses the symbols of its initial bindings. -/
def initial (level : Level) : Journal :=
  let symbols := Store.initialBindings.foldl (fun table (s, _) => (table.enter s).2) ⟨0, #[]⟩
  { level, symbols }

/-- Keeps a note if it is important enough. -/
def add (j : Journal) (note : Note) : Journal :=
  if note.level.rank ≤ j.level.rank then { j with notes := note :: j.notes } else j

def intern (j : Journal) (s : Symbol) : Journal :=
  { j with symbols := (j.symbols.enter s).2 }

/-- Takes down what the reader did. -/
def noteReading (j : Journal) : ReadEvent → Journal
  | .scanned lexeme => j.add (.scanned lexeme)
  | .interned s => j.intern s
  | .listRead length span => j.add (.listRead length span)

/-- Takes down what evaluation did. -/
def noteEvaluation (j : Journal) : EvalEvent → Journal
  | .evaluating exp => j.add (.evaluating exp)
  | .calling exp => j.add (.calling exp)
  | .interned s => j.intern s
  | .assignedUnbound s => j.add (.assignedUnbound s)
  | .binding s v => j.add (.binding s v)
  | .countedSymbols => j.add (.symbolCount j.symbols.size)
  | .quitting => j.add .quitting

def toList (j : Journal) : List Note :=
  j.notes.reverse

def clear (j : Journal) : Journal :=
  { j with notes := [] }

end Journal

end SmallScheme
