import SmallScheme.Datum.Basic
import SmallScheme.Decimal.Numeral
import SmallScheme.Token.Scan

/-!
# Reading data

The reader takes tokens one at a time and keeps the lists and quotes that are still open. A datum that
is complete is handed to the innermost of them, which may complete that one in turn. Reading fails at
the first token that fits no continuation.
-/

namespace SmallScheme

/-- The most lists and quotes that may be open at once. -/
def maxNesting : Nat := 10000

/-- A list or a quote that has begun and is not complete yet: a list before its dot, between the dot and the tail,
or behind the tail. The items of a list are given latest first. -/
inductive Context where
  | items (start : Span) (found : List Datum)
  | dotted (found : List Datum) (dot : Span)
  | tailed (found : List Datum) (dot : Span) (tail : Datum)
  | quote

/-- What the reader does that an observer may want to know. -/
inductive ReadEvent where
  | scanned (lexeme : Lexeme)
  | interned (s : Symbol)
  | listRead (length : Nat) (span : Span)

/-- The state of the reader after a token. -/
inductive Reading where
  | pending (contexts : List Context)
  | complete (d : Datum)
  | failed (e : Error)

namespace Reading

def failAt (fault : Fault) (span : Span) : Reading :=
  failed ⟨fault, some span⟩

/-- Hands a datum to the innermost context. The events are those seen before, latest first. -/
def deliver (events : List ReadEvent) (d : Datum) : List Context → List ReadEvent × Reading
  | [] => (events, complete d)
  | .quote :: outer => deliver (.interned Datum.quoteSymbol :: events) d.quote outer
  | .items start found :: outer => (events, pending (.items start (d :: found) :: outer))
  | .dotted found dot :: outer => (events, pending (.tailed found dot d :: outer))
  | .tailed _ dot _ :: _ =>
    (events, failAt (.malformedDot "more than one object follows .") dot)

def close (events : List ReadEvent) (span : Span) : List Context → List ReadEvent × Reading
  | [] | .quote :: _ => (events, failAt .unexpectedCloseParen span)
  | .items start found :: outer =>
    deliver (.listRead found.length (start.merge span) :: events) (.ofReversed found .nil) outer
  | .dotted _ dot :: _ => (events, failAt (.malformedDot "nothing follows .") dot)
  | .tailed found _ tail :: outer => deliver events (.ofReversed found tail) outer

def dot (span : Span) : List Context → Reading
  | [] | .quote :: _ | .dotted .. :: _ => failAt .unexpectedDot span
  | .items _ found :: outer => pending (.dotted found span :: outer)
  | .tailed _ dot _ :: _ => failAt (.malformedDot "more than one object follows .") dot

/-- Opens one more list or quote, unless the limit is reached. -/
def enter (context : Context) (span : Span) (contexts : List Context) : Reading :=
  if maxNesting ≤ contexts.length then failAt (.nestingTooDeep maxNesting) span
  else pending (context :: contexts)

def take (events : List ReadEvent) (contexts : List Context) (t : Token) :
    List ReadEvent × Reading :=
  let events := .scanned t.lexeme :: events
  match t.lexeme with
  | .blank _ | .comment _ => (events, pending contexts)
  | .endOfText => (events, failAt .endOfInput t.span)
  | .leftParen => (events, enter (.items t.span []) t.span contexts)
  | .rightParen => close events t.span contexts
  | .quote => (events, enter .quote t.span contexts)
  | .dot => (events, dot t.span contexts)
  | .symbol name =>
    let s := Symbol.ofName name
    deliver (.interned s :: events) (.atom (.symbol s)) contexts
  | .number text =>
    match Decimal.number? text with
    | some x => deliver events (.atom (.number x)) contexts
    | none => (events, failAt (.invalidNumber text) t.span)
  | .string text => deliver events (.atom (.string text)) contexts
  | .boolean value => deliver events (.atom (.boolean value)) contexts
  | .illegal detail => (events, failAt (.lexical detail) t.span)

end Reading

/-- The result of looking for one datum. -/
inductive ReadResult where
  | datum (d : Datum)
  | exhausted
  | failed (e : Error)

/-- The result of looking for one datum, what was seen on the way, and the tokens not taken. -/
structure ReadStep where
  result : ReadResult
  events : List ReadEvent
  rest : TokenStream

namespace TokenStream

/-- Goes on reading within open contexts. -/
def readWithin (stop : Position) (events : List ReadEvent) (contexts : List Context) :
    List Token → ReadStep
  | [] =>
    let last := (⟨[], stop⟩ : TokenStream).endToken
    let result := if contexts.isEmpty then .exhausted else .failed ⟨.endOfInput, some last.span⟩
    ⟨result, (.scanned last.lexeme :: events).reverse, ⟨[], stop⟩⟩
  | t :: tokens =>
    match Reading.take events contexts t with
    | (events, .pending contexts) => readWithin stop events contexts tokens
    | (events, .complete d) => ⟨.datum d, events.reverse, ⟨tokens, stop⟩⟩
    | (events, .failed e) => ⟨.failed e, events.reverse, ⟨tokens, stop⟩⟩

def readNext (s : TokenStream) : ReadStep :=
  readWithin s.stop [] [] s.tokens

theorem length_readWithin (stop : Position) (events : List ReadEvent) (contexts : List Context)
    (tokens : List Token) :
    (∀ d, (readWithin stop events contexts tokens).result = .datum d →
      (readWithin stop events contexts tokens).rest.tokens.length < tokens.length) := by
  induction tokens generalizing events contexts with
  | nil => intro d; simp only [readWithin]; split <;> simp
  | cons t tokens ih =>
    intro d
    simp only [readWithin]
    split
    · intro h
      exact Nat.lt_succ_of_lt (ih _ _ d h)
    · simp
    · simp

theorem length_readNext {s rest : TokenStream} {d : Datum} {events : List ReadEvent}
    (h : s.readNext = ⟨.datum d, events, rest⟩) : rest.tokens.length < s.tokens.length := by
  have := length_readWithin s.stop [] [] s.tokens d (by rw [← readNext, h])
  rwa [← readNext, h] at this

/-- Reads data to the end or the first failure, after those read before, latest first. -/
def readAllFrom (found : List Datum) (events : List ReadEvent) (s : TokenStream) :
    List ReadEvent × Except Error (List Datum) :=
  match h : s.readNext with
  | ⟨.datum d, seen, rest⟩ =>
    have := length_readNext h
    readAllFrom (d :: found) (seen.reverse ++ events) rest
  | ⟨.exhausted, seen, _⟩ => ((seen.reverse ++ events).reverse, .ok found.reverse)
  | ⟨.failed e, seen, _⟩ => ((seen.reverse ++ events).reverse, .error e)
termination_by s.tokens.length

end TokenStream

/-- All data of a text, or the first failure, with what was seen on the way. -/
def readTraced (text : String) : List ReadEvent × Except Error (List Datum) :=
  (TokenStream.ofString text).readAllFrom [] []

/-- All data of a text, or the first failure. -/
def readAll (text : String) : Except Error (List Datum) :=
  (readTraced text).2

/-- The result of asking for a datum where one is needed: the end of the input is a failure too. -/
def ReadResult.required : ReadResult → Except Error Datum
  | .datum d => .ok d
  | .exhausted => .error ⟨.endOfInput, none⟩
  | .failed e => .error e

end SmallScheme
