import SmallScheme.Toml.Document

/-!
# Settings

The settings of the command line, read from a TOML document. Settings that the document does not mention
keep their defaults, and what it holds beyond them is ignored.
-/

namespace SmallScheme

/-- The settings of the command line. -/
structure Config where
  debug : Bool := false
  prompt : String := ""
  historyFile : Option String := none
  preload : List String := []
  deriving DecidableEq, Repr

namespace Config

def names : List String := ["debug", "prompt", "history_file", "preload"]

/-- The text that a value of a document is. -/
def text? : Toml.Value → Option String
  | .string text => some text
  | _ => none

/-- Takes one entry of a document. A setting has to have a value of its type. -/
def set (c : Config) (entry : String × Toml.Value) : Option Config :=
  match entry with
  | ("debug", .boolean debug) => some { c with debug }
  | ("prompt", .string prompt) => some { c with prompt }
  | ("history_file", .string path) => some { c with historyFile := some path }
  | ("preload", .array items) => (items.mapM text?).map fun preload => { c with preload }
  | (name, _) => if names.contains name then none else some c

/-- No setting is mentioned twice, and none is given as a table. -/
def isWellFormed (d : Toml.Document) : Bool :=
  names.all fun name =>
    (d.entries.filter (·.1 == name)).length ≤ 1 && d.sections.all (·.header.head? != some name)

def ofDocument? (d : Toml.Document) : Option Config :=
  if isWellFormed d then d.entries.foldlM set {} else none

/-- The settings in the bytes of a file. -/
def ofBytes? (bytes : ByteArray) : Option Config := do
  ofDocument? (← Toml.Document.ofString? (← String.fromUTF8? bytes))

end Config

end SmallScheme
