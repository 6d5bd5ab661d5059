import SmallScheme.Config
import SmallScheme.Directory
import SmallScheme.History
import SmallScheme.Session
import SmallScheme.Text.Class
import SmallScheme.Text.Line

/-!
# The shell

The shell evaluates files and then lines of input. Lines are collected until they hold whole
expressions; then they are evaluated and the last value is printed. What the shell prints is part of its
state, so that it can be run on any source of lines.
-/

namespace SmallScheme

/-- A line for standard output or, if it is a diagnostic, for standard error. -/
inductive Output where
  | result (line : String)
  | diagnostic (line : String)

/-- The state of the shell. The buffer holds lines that are no whole expressions yet, the output is given latest
first, and there is an exit code once the shell has ended. -/
structure Shell where
  session : Session
  buffer : String := ""
  history : History := {}
  count : Nat := 1
  output : List Output := []
  exit : Option UInt32 := none

namespace Shell

def initial (config : Config) (debug : Bool) : Shell :=
  { session := .initial (if debug || config.debug then .trace else .info) }

def print (sh : Shell) (line : String) : Shell :=
  { sh with output := .result line :: sh.output }

def quit (sh : Shell) (code : UInt32) : Shell :=
  { sh with exit := some code }

/-- A note as a line. Further lines, which only a path can bring in, are indented. -/
def noteLine (note : Note) : String :=
  note.level.text ++ " " ++ note.origin ++ " " ++ "\n    ".intercalate (note.text.splitOn "\n")

/-- Prints the notes of the journal on standard error. -/
def flush (sh : Shell) : Shell :=
  let ⟨⟨store, journal⟩, buffer, history, count, output, exit⟩ := sh
  let lines := journal.notes.map fun note => Output.diagnostic (noteLine note)
  ⟨⟨store, journal.clear⟩, buffer, history, count, lines ++ output, exit⟩

def note (sh : Shell) (n : Note) : Shell :=
  flush { sh with session := { sh.session with journal := sh.session.journal.add n } }

/-- Evaluates a text in the outermost frame. -/
def run (fuel : Nat) (sh : Shell) (text : String) : Session.Result × Shell :=
  let ⟨session, buffer, history, count, output, exit⟩ := sh
  let (result, session) := session.run fuel text Store.globalFrame
  (result, flush ⟨session, buffer, history, count, output, exit⟩)

/-- Evaluates a file. Only failures are printed. -/
def load (fuel : Nat) (sh : Shell) (path : String) (contents : Except FileFault ByteArray) : Shell :=
  match contents.bind decodeText with
  | .error fault => sh.print ("Error: can't read " ++ path ++ ": " ++ fault.text)
  | .ok text =>
    let (result, sh) := (sh.note (.loading path)).run fuel text
    match result.ending with
    | .complete => sh
    | .failed e => sh.print ("Error: " ++ path ++ ": " ++ e.message)
    | .quit => sh.quit 0
    | .unfinished => sh.quit 1

/-- Prints the value of a text and its failure. -/
def report (sh : Shell) (result : Session.Result) : Shell :=
  let printed := match result.value with
    | some v => sh.print v.text
    | none => sh
  match result.ending with
  | .complete => printed
  | .failed e => printed.print ("Error: " ++ e.message)
  | .quit => sh.quit 0
  | .unfinished => sh.quit 1

def joinLine (buffer line : String) : String :=
  if buffer.isEmpty then line else buffer ++ "\n" ++ line

/-- What the collected lines amount to; an input may turn out not to be readable. -/
inductive Collected where
  | nothing
  | partly (buffer : String)
  | input (text : String)

/-- The beginning of something that more text could complete. -/
def awaitsMore : Except Error (List Datum) → Bool
  | .error e => e.isIncomplete
  | .ok _ => false

/-- Adds a line to those collected before, with what was seen on reading them. -/
def collect (buffer line : String) : List ReadEvent × Collected :=
  let text := joinLine buffer line
  if Text.isBlankText text then ([], .nothing)
  else
    let (events, data) := readTraced text
    (events, if awaitsMore data then .partly text else .input text)

/-- Takes the collected lines as one input. -/
def accept (sh : Shell) (input : String) : Shell :=
  { sh with buffer := "", history := sh.history.add input, count := sh.count + 1 }

/-- What invites the next line. -/
def prompt (config : Config) (sh : Shell) : String :=
  if sh.buffer.isEmpty then s!"{config.prompt}[{sh.count}]-> " else ": "

def feed (fuel : Nat) (sh : Shell) (line : String) : Shell :=
  let (events, collected) := collect sh.buffer line
  let sh := flush { sh with session := sh.session.noteReading events }
  match collected with
  | .nothing => { sh with buffer := "" }
  | .partly buffer => { sh with buffer }
  | .input text =>
    let (result, sh) := (sh.accept text).run fuel text
    sh.report result

/-- Begins with the history of earlier runs, as far as its file can be read. -/
def remember (sh : Shell) (path : String) (contents : Except FileFault ByteArray) : Shell :=
  match contents with
  | .error fault => sh.note (.noHistory path fault.text)
  | .ok bytes =>
    let loaded := History.Loaded.ofLines ((Text.Line.ofBytes bytes.toList).map Text.Line.text?)
    let noted := loaded.malformed.reverse.foldl (fun sh line => sh.note (.malformedHistory line)) sh
    let sh := { noted with history := loaded.history }
    if loaded.isComplete then sh else sh.note (.noHistory path FileFault.notText.text)

def historyNotSaved (sh : Shell) (path : String) (fault : FileFault) : Shell :=
  sh.note (.historyNotSaved path fault.text)

/-- Takes the end of the input. Collected lines are dropped. -/
def farewell (sh : Shell) : Shell :=
  sh.print "bye!"

/-- Takes input that is not text. -/
def badInput (sh : Shell) : Shell :=
  let line := Output.diagnostic ("Error: " ++ FileFault.notText.text)
  { sh with output := line :: sh.output }.quit 1

end Shell

end SmallScheme
