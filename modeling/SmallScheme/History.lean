/-!
# History

The inputs that were given to the command line, and the file in which they are kept. In the file every
input is one line, in which line feeds and backslashes are escaped.
-/

namespace SmallScheme

/-- The inputs so far, latest first, and whether there are new ones. -/
structure History where
  inputs : List String := []
  hasNew : Bool := false

namespace History

def capacity : Nat := 100

/-- The line that begins a history file. -/
def mark : String := "#V2"

/-- Adds an input, unless it repeats the one before. -/
def push (inputs : List String) (input : String) : List String :=
  if inputs.head? == some input then inputs else (input :: inputs).take capacity

/-- Adds a new input, unless it repeats the one before. -/
def add (h : History) (input : String) : History :=
  if h.inputs.head? == some input then h else ⟨push h.inputs input, true⟩

/-- Decodes the escapes of a line after the characters decoded before, latest first. There is no
result if a backslash stands before anything but `n` and a backslash. -/
def unescapeFrom (found : List Char) : List Char → Option (List Char)
  | [] => some found.reverse
  | '\\' :: 'n' :: cs => unescapeFrom ('\n' :: found) cs
  | '\\' :: '\\' :: cs => unescapeFrom ('\\' :: found) cs
  | '\\' :: _ => none
  | c :: cs => unescapeFrom (c :: found) cs

def unescape? (line : String) : Option String :=
  (unescapeFrom [] line.toList).map String.ofList

/-- One character of an input as the file holds it. -/
def escapeChar : Char → List Char
  | '\n' => ['\\', 'n']
  | '\\' => ['\\', '\\']
  | c => [c]

/-- What was found in the lines of a file, latest first. A malformed line has an escape that stands for nothing. -/
structure Loaded where
  inputs : List String := []
  malformed : List String := []
  isComplete : Bool := true

namespace Loaded

/-- Takes one line. Empty lines are left out, and a malformed one stands for itself. -/
def add (l : Loaded) (isEscaped : Bool) (line : String) : Loaded :=
  if line.isEmpty then l
  else if isEscaped then
    match unescape? line with
    | some input => { l with inputs := push l.inputs input }
    | none => { l with inputs := push l.inputs line, malformed := line :: l.malformed }
  else { l with inputs := push l.inputs line }

/-- Takes lines up to the first that is not text. -/
def addAll (l : Loaded) (isEscaped : Bool) : List (Option String) → Loaded
  | [] => l
  | none :: _ => { l with isComplete := false }
  | some line :: lines => (l.add isEscaped line).addAll isEscaped lines

/-- Takes the lines of a file. Only in a file that begins with the mark are there escapes. -/
def ofLines (lines : List (Option String)) : Loaded :=
  if lines.head? = some (some mark) then ({} : Loaded).addAll true lines.tail
  else ({} : Loaded).addAll false lines

/-- The history that begins with what was found. After a failure all of it is to be saved again. -/
def history (l : Loaded) : History :=
  ⟨l.inputs, !l.isComplete && !l.inputs.isEmpty⟩

end Loaded

def text (h : History) : String :=
  let line (input : String) := String.ofList (input.toList.flatMap escapeChar)
  String.join ((mark :: h.inputs.reverse.map line).map (· ++ "\n"))

end History

end SmallScheme
