import SmallScheme.Shell
import SmallScheme.Text.Backspace

/-!
# The command line

The arguments of the program, the choice of its settings, and a whole run on the files of a directory
and a given input.
-/

namespace SmallScheme

/-- The arguments of the program. -/
structure Arguments where
  debug : Bool := false
  config : Option String := none
  files : List String := []
  deriving DecidableEq, Repr

namespace Arguments

/-- How the program is called. -/
def usage : String := "usage: rsi [--debug] [--config <file>] [file…]"

/-- Reads arguments after those taken before; the failure says what is wrong. The last settings file
counts. -/
def parseFrom (args : Arguments) : List String → Except String Arguments
  | [] => .ok { args with files := args.files.reverse }
  | "--debug" :: rest => parseFrom { args with debug := true } rest
  | ["--config"] => .error "--config needs a file"
  | "--config" :: path :: rest => parseFrom { args with config := some path } rest
  | arg :: rest =>
    if arg.startsWith "--" then .error ("unknown flag " ++ arg)
    else parseFrom { args with files := arg :: args.files } rest

def parse (args : List String) : Except String Arguments :=
  parseFrom {} args

end Arguments

namespace Config

/-- The settings file that is used if it exists and no other is named. -/
def defaultFile : String := "rsi.toml"

/-- The settings in a file; the failure says what is wrong. -/
def load (path : String) (contents : Except FileFault ByteArray) : Except String Config :=
  match contents with
  | .error fault => .error ("can't read config " ++ path ++ ": " ++ fault.text)
  | .ok bytes =>
    match ofBytes? bytes with
    | some config => .ok config
    | none => .error ("bad config " ++ path)

end Config

/-- What a run of the program printed, and its exit code. A text is printed with a line feed after
it. -/
structure Report where
  exit : UInt32
  results : List String := []
  diagnostics : List String := []

namespace Report

/-- A run that came to nothing. -/
def failed (exit : UInt32) (diagnostics : List String) : Report :=
  { exit, diagnostics }

def ofShell (sh : Shell) : Report :=
  let result? : Output → Option String
    | .result line => some line
    | .diagnostic _ => none
  let diagnostic? : Output → Option String
    | .result _ => none
    | .diagnostic line => some line
  { exit := sh.exit.getD 0
    results := sh.output.reverse.filterMap result?
    diagnostics := sh.output.reverse.filterMap diagnostic? }

def output (r : Report) : String :=
  String.join (r.results.map (· ++ "\n"))

/-- The lines of standard error, as texts. A text may have several. -/
def diagnosticLines (r : Report) : List String :=
  let printed := String.join (r.diagnostics.map (· ++ "\n"))
  (Text.Line.ofBytes printed.toUTF8.toList).filterMap Text.Line.text?

end Report

def inputText? (line : Text.Line) : Option String :=
  line.text?.map Text.applyBackspaces

/-- How a shell came to the end of its lines. -/
inductive LastLine where
  | exhausted
  | notText
  | stopped

namespace Shell

/-- Takes lines to the end of the input, or until the shell ends. -/
def feedAll (fuel : Nat) (sh : Shell) : List (Option String) → Shell × LastLine
  | [] => (sh, .exhausted)
  | none :: _ => (sh, .notText)
  | some line :: lines =>
    let sh := sh.feed fuel line
    if sh.exit.isSome then (sh, .stopped) else feedAll fuel sh lines

/-- Evaluates files in order, until the shell ends. -/
def loadAll (fuel : Nat) (d : Directory) (sh : Shell) : List String → Shell
  | [] => sh
  | path :: paths =>
    let sh := sh.load fuel path (d.read path)
    if sh.exit.isSome then sh else loadAll fuel d sh paths

/-- Saves the history in a directory, if there is a file for it and something new. -/
def save (d : Directory) (config : Config) (sh : Shell) : Shell :=
  match config.historyFile with
  | some path =>
    match d.checkWrite path with
    | .error fault => if sh.history.hasNew then sh.historyNotSaved path fault else sh
    | .ok () => sh
  | none => sh

/-- Takes the input, with the history of earlier runs if there is a file for it. -/
def interact (fuel : Nat) (d : Directory) (config : Config) (sh : Shell)
    (lines : List (Option String)) : Shell :=
  let sh := match config.historyFile with
    | some path => sh.remember path (d.read path)
    | none => sh
  match sh.feedAll fuel lines with
  | (sh, .stopped) => sh
  | (sh, .exhausted) => (sh.farewell.save d config).quit 0
  | (sh, .notText) => (sh.save d config).badInput

end Shell

/-- The settings for a run in a directory. -/
def chooseConfig (d : Directory) (args : Arguments) : Except String Config :=
  match args.config with
  | some path => Config.load path (d.read path)
  | none =>
    if d.hasFile Config.defaultFile then Config.load Config.defaultFile (d.read Config.defaultFile)
    else .ok {}

def runProgram (fuel : Nat) (d : Directory) (args : List String) (input : ByteArray) : Report :=
  match Arguments.parse args with
  | .error text => .failed 2 [text, Arguments.usage]
  | .ok args =>
    match chooseConfig d args with
    | .error text => .failed 1 ["Error: " ++ text]
    | .ok config =>
      let sh := (Shell.initial config args.debug).loadAll fuel d (config.preload ++ args.files)
      let lines := (Text.Line.ofBytes input.toList).map inputText?
      .ofShell (if sh.exit.isSome then sh else sh.interact fuel d config lines)

end SmallScheme
