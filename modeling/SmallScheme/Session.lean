import SmallScheme.Journal

/-!
# Sessions

A session holds the store of a program and the journal of what it did. Texts are given to it one after
the other; each text is read and evaluated expression by expression, until it ends or something fails.
-/

namespace SmallScheme

/-- The state of a program between two texts. -/
structure Session where
  store : Store
  journal : Journal

namespace Session

def initial (level : Level) : Session :=
  ⟨.initial, .initial level⟩

/-- Evaluates an expression in a frame, in at most `fuel` steps. -/
def eval (fuel : Nat) (s : Session) (exp : Value) (frame : FrameId) : Outcome × Session :=
  let (journal, result, store) :=
    (State.start exp frame 0 s.store).run Journal.noteEvaluation fuel s.journal
  (result, ⟨store, journal⟩)

def evalDatum (fuel : Nat) (s : Session) (d : Datum) (frame : FrameId) : Outcome × Session :=
  let (exp, store) := s.store.embed d
  Session.eval fuel { s with store } exp frame

def noteReading (s : Session) (events : List ReadEvent) : Session :=
  { s with journal := events.foldl Journal.noteReading s.journal }

/-- How the evaluation of a text ended. -/
inductive Ending where
  | complete
  | failed (e : Error)
  | quit
  | unfinished

/-- The result of a text: the value of the last expression that was evaluated, and how it ended. -/
structure Result where
  value : Option Value := none
  ending : Ending

/-- Reads and evaluates the expressions of a sequence of tokens, after `last` was the value of those
before. -/
def runTokens (fuel : Nat) (frame : FrameId) (s : Session) (last : Option Value)
    (tokens : TokenStream) : Result × Session :=
  match h : tokens.readNext with
  | ⟨.exhausted, events, _⟩ => (⟨last, .complete⟩, s.noteReading events)
  | ⟨.failed e, events, _⟩ => (⟨last, .failed e⟩, s.noteReading events)
  | ⟨.datum d, events, rest⟩ =>
    have := TokenStream.length_readNext h
    match (s.noteReading events).evalDatum fuel d frame with
    | (.value v, s) => runTokens fuel frame s (some v) rest
    | (.failed e, s) => (⟨last, .failed e⟩, s)
    | (.quit, s) => (⟨last, .quit⟩, s)
    | (.unfinished, s) => (⟨last, .unfinished⟩, s)
termination_by tokens.tokens.length

/-- Reads and evaluates the expressions of a text. -/
def run (fuel : Nat) (s : Session) (text : String) (frame : FrameId) : Result × Session :=
  runTokens fuel frame s none (.ofString text)

end Session

end SmallScheme
