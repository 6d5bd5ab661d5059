import SmallScheme.Toml.Number
import SmallScheme.Toml.Token

/-!
# TOML documents

A document is a list of entries followed by tables, each with a header and entries of its own. Reading
fails at the first token that does not fit; a document is also refused if a header defines a table
again.
-/

namespace SmallScheme.Toml

inductive Value where
  | string (text : String)
  | integer (n : Int)
  | float (x : Float)
  | boolean (b : Bool)
  /-- A date or a time of day. Only its outline is checked. -/
  | moment
  | array (items : List Value)
  /-- A table; one that was made by dotted keys may be extended by further dotted keys. -/
  | table (entries : List (String × Value)) (extensible : Bool)

/-- The entries of a table in the order of the text. -/
abbrev Entries := List (String × Value)

namespace Entries

/-- Adds an entry under a dotted key, given by its first part and the others. -/
def add (entries : Entries) (key : String) (path : List String) (v : Value) : Option Entries :=
  match path with
  | [] => some (entries ++ [(key, v)])
  | next :: more =>
    match entries.findIdx? (·.1 == key) with
    | none => (add [] next more v).map fun inner => entries ++ [(key, .table inner true)]
    | some i =>
      match entries[i]? with
      | some (_, .table inner true) =>
        (add inner next more v).map fun inner => entries.set i (key, .table inner true)
      | _ => none

end Entries

def skipBlank : List Token → List Token
  | .blank _ :: ts => skipBlank ts
  | ts => ts

def skipLines : List Token → List Token
  | .blank _ :: ts | .newline :: ts | .comment :: .newline :: ts => skipLines ts
  | [.comment] => []
  | ts => ts

/-- The end of a line, after optional blanks and an optional comment. -/
def lineEnd (ts : List Token) : Option (List Token) :=
  match skipBlank ts with
  | [] | [.comment] => some []
  | .newline :: ts | .comment :: .newline :: ts => some ts
  | _ => none

/-- The parts of a dotted key and the rest, after the parts found before, latest first. A part is
`wanted` at the start and after every period. -/
def keyParts (found : List String) (wanted : Bool) : List Token → Option (List String × List Token)
  | .blank _ :: ts => keyParts found wanted ts
  | .period :: ts => if wanted then none else keyParts found true ts
  | .bare text :: ts =>
    if wanted then keyParts (String.ofList text :: found) false ts
    else some (found.reverse, .bare text :: ts)
  | .quoted text false :: ts =>
    if wanted then keyParts (text :: found) false ts
    else some (found.reverse, .quoted text false :: ts)
  | ts => if wanted then none else some (found.reverse, ts)

/-- A dotted key, as its first part and the others, and the rest. -/
def dottedKey (ts : List Token) : Option (String × List String × List Token) :=
  match keyParts [] true ts with
  | some (key :: path, rest) => some (key, path, rest)
  | _ => none

/-- The power of ten at the end of a floating-point number, and the rest. A plus sign divides it into
two tokens. -/
def exponent (suffix : List Char) (ts : List Token) : Option (Int × List Token) := do
  match suffix with
  | [] => return (0, ts)
  | mark :: digits =>
    if mark != 'e' && mark != 'E' then none
    let (run, ts) ← match digits, ts with
      | [], .plus :: .bare word :: ts | [], .bare word :: ts =>
        (digits? 10 false true word).map (·, ts)
      | [], _ => none
      | digits, ts => (digits? 10 true true digits).map (·, ts)
    if !run.rest.isEmpty then none
    let n : Int := digitsNumber 10 run.digits
    return (if run.negative then -n else n, ts)

/-- A floating-point number that begins with a word, and the rest. -/
def floatValue (word : List Char) (fraction : Option (List Char)) (ts : List Token) :
    Option (Value × List Token) := do
  let whole ← digits? 10 true false word
  let (after, suffix) ← match fraction with
    | none => some ([], whole.rest)
    | some cs =>
      if !whole.rest.isEmpty then none
      (digits? 10 false true cs).map fun d => (d.digits, d.rest)
  let (e, ts) ← exponent suffix ts
  return (.float (← float? whole after e), ts)

/-- A number that begins with a word, and the rest. -/
def numberValue (word : List Char) (ts : List Token) : Option (Value × List Token) :=
  match word with
  | '0' :: 'x' :: cs => (integer? 16 cs).map (.integer ·, ts)
  | '0' :: 'o' :: cs => (integer? 8 cs).map (.integer ·, ts)
  | '0' :: 'b' :: cs => (integer? 2 cs).map (.integer ·, ts)
  | _ =>
    if word.contains 'e' || word.contains 'E' then floatValue word none ts
    else match ts with
      | .period :: .bare fraction :: ts => floatValue word (some fraction) ts
      | .period :: _ => none
      | ts =>
        match String.ofList word with
        | "inf" => some (.float (1 / 0), ts)
        | "-inf" => some (.float (-1 / 0), ts)
        | "nan" | "-nan" => some (.float (0 / 0), ts)
        | _ => (integer? 10 word).map (.integer ·, ts)

/-- Drops a token in front of a word together with the word. -/
def optionalWord (t : Token) (ts : List Token) : Option (List Token) :=
  match ts with
  | u :: rest =>
    if u = t then
      match rest with
      | .bare _ :: ts => some ts
      | _ => none
    else some ts
  | [] => some []

/-- The minutes, seconds and offset of a time of day, after the colon behind the hour: the rest. -/
def clock : List Token → Option (List Token)
  | .bare _ :: .colon :: .bare _ :: ts => do
    optionalWord .colon (← optionalWord .plus (← optionalWord .period ts))
  | _ => none

/-- The remainder of a date or a time of day: the rest after it. A single blank may divide the date
from the hour. -/
def moment (inClock : Bool) (ts : List Token) : Option (List Token) :=
  let ts := match ts with
    | .blank " " :: .bare _ :: ts => ts
    | ts => ts
  match inClock, ts with
  | true, ts | false, .colon :: ts => clock ts
  | false, ts => some ts

/-- The mark of a power of ten with a minus sign stands in the word. -/
def hasNegativeExponent : List Char → Bool
  | 'e' :: '-' :: _ | 'E' :: '-' :: _ => true
  | _ :: cs => hasNegativeExponent cs
  | [] => false

/-- A hyphen stands in the word, other than as a sign. -/
def hasInnerHyphen (word : List Char) : Bool :=
  word.tail.contains '-' && !hasNegativeExponent word

/-- A number, a date or a time of day that begins with a word, and the rest. -/
def wordValue (word : List Char) (ts : List Token) : Option (Value × List Token) :=
  let first := word.head?.getD ' '
  let isNumberWord := first == '-' || Text.isDigit first || word == ['i', 'n', 'f'] ||
    word == ['n', 'a', 'n']
  if !isNumberWord then none
  else if word.contains 'T' || word.contains 't' || hasInnerHyphen word then
    (moment false ts).map (.moment, ·)
  else match ts with
    | .colon :: ts => (moment true ts).map (.moment, ·)
    | ts => numberValue word ts

mutual

/-- A value and the rest. Every level of nesting takes up tokens, which bounds the rounds. -/
def value : Nat → List Token → Option (Value × List Token)
  | 0, _ => none
  | rounds + 1, ts =>
    match ts with
    | .quoted text _ :: ts => some (.string text, ts)
    | .bare ['t', 'r', 'u', 'e'] :: ts => some (.boolean true, ts)
    | .bare ['f', 'a', 'l', 's', 'e'] :: ts => some (.boolean false, ts)
    | .bare word :: ts => wordValue word ts
    | .plus :: .bare word :: ts => numberValue word ts
    | .leftBracket :: ts => items rounds [] ts
    | .leftBrace :: ts =>
      match skipBlank ts with
      | .rightBrace :: ts => some (.table [] false, ts)
      | ts => inlineEntries rounds [] ts
    | _ => none

/-- The items of an array up to its closing bracket, after those found before, latest first. -/
def items : Nat → List Value → List Token → Option (Value × List Token)
  | 0, _, _ => none
  | rounds + 1, found, ts =>
    match skipLines ts with
    | .rightBracket :: ts => some (.array found.reverse, ts)
    | ts =>
      match value rounds ts with
      | none => none
      | some (v, ts) =>
        match skipLines ts with
        | .comma :: ts => items rounds (v :: found) ts
        | .rightBracket :: ts => some (.array (v :: found).reverse, ts)
        | _ => none

/-- The entries of a table within a line up to its closing brace, after those found before. -/
def inlineEntries : Nat → Entries → List Token → Option (Value × List Token)
  | 0, _, _ => none
  | rounds + 1, found, ts =>
    match dottedKey ts with
    | some (key, path, .equals :: ts) =>
      match value rounds (skipBlank ts) with
      | none => none
      | some (v, ts) =>
        match found.add key path v, skipBlank ts with
        | some found, .rightBrace :: ts => some (.table found false, ts)
        | some found, .comma :: ts => inlineEntries rounds found (skipBlank ts)
        | _, _ => none
    | _ => none

end

/-- A table with its header. -/
structure Section where
  header : List String
  inArray : Bool
  entries : Entries := []

/-- The entries before the first header, and the tables. -/
structure Document where
  entries : Entries := []
  sections : List Section := []

namespace Document

/-- Adds an entry to the last table, or to the entries before the first. The tables are given latest
first. -/
def add (d : Document) (key : String) (path : List String) (v : Value) : Option Document :=
  match d.sections with
  | [] => (d.entries.add key path v).map fun entries => { d with entries }
  | s :: before =>
    (s.entries.add key path v).map fun entries =>
      { d with sections := { s with entries } :: before }

/-- The header of a table, after its opening brackets, and the rest. -/
def header (inArray : Bool) (ts : List Token) : Option (Section × List Token) :=
  match keyParts [] true ts with
  | some (parts, .rightBracket :: ts) =>
    match inArray, ts with
    | true, .rightBracket :: ts | false, ts => (lineEnd ts).map (⟨parts, inArray, []⟩, ·)
    | true, _ => none
  | _ => none

/-- Reads entries and headers line by line. -/
def readLines (d : Document) : Nat → List Token → Option Document
  | 0, _ => none
  | rounds + 1, ts =>
    match skipLines ts with
    | [] => some { d with sections := d.sections.reverse }
    | .leftBracket :: ts =>
      let result := match ts with
        | .leftBracket :: ts => header true ts
        | ts => header false ts
      match result with
      | some (s, ts) => readLines { d with sections := s :: d.sections } rounds ts
      | none => none
    | ts =>
      match dottedKey ts with
      | some (key, path, .equals :: ts) =>
        match value (2 * ts.length + 2) (skipBlank ts) with
        | none => none
        | some (v, ts) =>
          match d.add key path v, lineEnd ts with
          | some d, some ts => readLines d rounds ts
          | _, _ => none
      | _ => none

/-- A header that was seen, and whether it belongs to an array of tables. -/
abbrev Defined := List String × Bool

/-- The first path leads to something inside the second. -/
def isInside (path outer : List String) : Bool :=
  outer.isPrefixOf path && path != outer

/-- Takes one more header into account. A table is defined once. A header of an array may come again,
and then starts a new table in which nothing is defined yet; it may not come after a header that leads
inside it. -/
def define (defined : List Defined) (s : Section) : Option (List Defined) :=
  match defined.find? (·.1 == s.header), s.inArray with
  | none, false => some ((s.header, false) :: defined)
  | none, true =>
    if defined.any (isInside ·.1 s.header) then none else some ((s.header, true) :: defined)
  | some (_, true), true => some (defined.filter fun d => !isInside d.1 s.header)
  | some _, _ => none

def ofString? (text : String) : Option Document := do
  let ts ← tokens? text
  let d ← readLines {} (ts.length + 1) ts
  let _ ← d.sections.foldlM define []
  return d

end Document

end SmallScheme.Toml
