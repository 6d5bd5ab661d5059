import SmallScheme.Text.Class

/-!
# Tokens of TOML

The settings of the program are written in TOML. This module divides such a text into tokens. A line
ends with a line feed, before which a carriage return may stand.
-/

namespace SmallScheme.Toml

open Text

inductive Token where
  | blank (text : String)
  | newline
  | comment
  | equals
  | period
  | comma
  | colon
  | plus
  | leftBrace
  | rightBrace
  | leftBracket
  | rightBracket
  /-- Letters, digits, hyphens and underscores: a key without quotes, a number, part of a date. -/
  | bare (text : List Char)
  /-- A text in quotation marks, tripled if it may span lines. -/
  | quoted (text : String) (multiline : Bool)
  deriving DecidableEq, Repr

/-- A character of a key without quotes. -/
def isBareChar (c : Char) : Bool :=
  ('A' ≤ c && c ≤ 'Z') || ('a' ≤ c && c ≤ 'z') || isDigit c || c == '-' || c == '_'

/-- A character that may stand in a quoted text: no control character but the tab. -/
def isPlainChar (c : Char) : Bool :=
  c == '\t' || (0x20 ≤ c.toNat && c.toNat != 0x7F)

def isCommentChar (c : Char) : Bool :=
  c == '\t' || 0x20 ≤ c.toNat

/-- Drops the carriage return of every line end, after the characters found before, latest first. -/
def foldLineEnds (found : List Char) : List Char → List Char
  | '\r' :: '\n' :: cs => foldLineEnds ('\n' :: found) cs
  | c :: cs => foldLineEnds (c :: found) cs
  | [] => found.reverse

/-- A text between apostrophes, latest character first in `found`: the text and the rest. -/
def literalText (multiline : Bool) (found : List Char) : List Char → Option (List Char × List Char)
  | [] => none
  | '\x27' :: '\x27' :: '\x27' :: cs =>
    if multiline then
      match cs with
      | '\x27' :: '\x27' :: rest => some (('\x27' :: '\x27' :: found).reverse, rest)
      | '\x27' :: rest => some (('\x27' :: found).reverse, rest)
      | rest => some (found.reverse, rest)
    else some (found.reverse, '\x27' :: '\x27' :: cs)
  | c :: cs =>
    if c == '\x27' && !multiline then some (found.reverse, cs)
    else if isPlainChar c || (c == '\n' && multiline) then literalText multiline (c :: found) cs
    else none

/-- What a text between quotation marks is in the middle of: behind a backslash, blanks are dropped up to the end of
the line, which has to come next, and from there up to the text. -/
inductive Trim where
  | no
  | toLineEnd
  | toText

/-- The character with a code written in exactly these hexadecimal digits. -/
def codePoint? (digits : List Char) : Option Char :=
  (hexNumber? digits).bind fun n => if n.isValidChar then some (Char.ofNat n) else none

/-- The characters that a backslash and one letter stand for. -/
def escape? : Char → Option Char
  | '"' => some '"'
  | '\\' => some '\\'
  | 'b' => some '\x08'
  | 'f' => some '\x0c'
  | 'n' => some '\n'
  | 'r' => some '\r'
  | 't' => some '\t'
  | _ => none

/-- A text between quotation marks, latest character first in `found`: the text and the rest. -/
def basicText (multiline : Bool) (trim : Trim) (found : List Char) :
    List Char → Option (List Char × List Char)
  | [] => none
  | '\\' :: 'u' :: a :: b :: c :: d :: cs =>
    match trim with
    | .toLineEnd => none
    | _ => (codePoint? [a, b, c, d]).bind fun x => basicText multiline .no (x :: found) cs
  | '\\' :: 'U' :: a :: b :: c :: d :: e :: f :: g :: h :: cs =>
    match trim with
    | .toLineEnd => none
    | _ =>
      (codePoint? [a, b, c, d, e, f, g, h]).bind fun x => basicText multiline .no (x :: found) cs
  | '\\' :: c :: cs =>
    match trim with
    | .toLineEnd => none
    | _ =>
      if multiline && c == '\n' then basicText multiline .toText found cs
      else if multiline && (c == ' ' || c == '\t') then basicText multiline .toLineEnd found cs
      else (escape? c).bind fun x => basicText multiline .no (x :: found) cs
  | '"' :: '"' :: '"' :: cs =>
    match trim, multiline with
    | .toLineEnd, _ => none
    | _, true =>
      match cs with
      | '"' :: '"' :: rest => some (('"' :: '"' :: found).reverse, rest)
      | '"' :: rest => some (('"' :: found).reverse, rest)
      | rest => some (found.reverse, rest)
    | _, false => some (found.reverse, '"' :: '"' :: cs)
  | c :: cs =>
    match trim with
    | .toLineEnd =>
      if c == '\n' then basicText multiline .toText found cs
      else if c == ' ' || c == '\t' then basicText multiline .toLineEnd found cs
      else none
    | .toText =>
      if c == ' ' || c == '\t' || c == '\n' then basicText multiline .toText found cs
      else if isPlainChar c then basicText multiline .no (c :: found) cs
      else none
    | .no =>
      if c == '"' && !multiline then some (found.reverse, cs)
      else if isPlainChar c || (c == '\n' && multiline) then basicText multiline .no (c :: found) cs
      else none

/-- Drops the line end that may follow the opening marks of a text that spans lines. -/
def dropLineEnd : List Char → List Char
  | '\n' :: cs => cs
  | cs => cs

/-- The token of a quoted text and the rest. -/
def quotedToken (multiline : Bool) (result : Option (List Char × List Char)) :
    Option (Token × List Char) :=
  result.map fun (text, rest) => (.quoted (String.ofList text) multiline, rest)

/-- The token at the front of a text that is not empty, and the rest. -/
def firstToken (c : Char) (cs : List Char) : Option (Token × List Char) :=
  match c with
  | '\n' => some (.newline, cs)
  | '#' => some (.comment, cs.dropWhile isCommentChar)
  | '=' => some (.equals, cs)
  | '.' => some (.period, cs)
  | ',' => some (.comma, cs)
  | ':' => some (.colon, cs)
  | '+' => some (.plus, cs)
  | '\x7b' => some (.leftBrace, cs)
  | '\x7d' => some (.rightBrace, cs)
  | '[' => some (.leftBracket, cs)
  | ']' => some (.rightBracket, cs)
  | '\x27' =>
    match cs with
    | '\x27' :: '\x27' :: cs => quotedToken true (literalText true [] (dropLineEnd cs))
    | cs => quotedToken false (literalText false [] cs)
  | '"' =>
    match cs with
    | '"' :: '"' :: cs => quotedToken true (basicText true .no [] (dropLineEnd cs))
    | cs => quotedToken false (basicText false .no [] cs)
  | c =>
    if c == ' ' || c == '\t' then
      let isGap (d : Char) := d == ' ' || d == '\t'
      some (.blank (String.ofList (c :: cs.takeWhile isGap)), cs.dropWhile isGap)
    else if isBareChar c then some (.bare (c :: cs.takeWhile isBareChar), cs.dropWhile isBareChar)
    else none

/-- The tokens of a text, after those found before, latest first. Every token takes up a character, so
as many rounds as there are characters are enough. -/
def tokensFrom (found : List Token) : Nat → List Char → Option (List Token)
  | _, [] => some found.reverse
  | 0, _ => none
  | rounds + 1, c :: cs =>
    match firstToken c cs with
    | some (t, rest) => tokensFrom (t :: found) rounds rest
    | none => none

/-- The tokens of a text, which may begin with a byte order mark. -/
def tokens? (text : String) : Option (List Token) :=
  let cs := match text.toList with
    | '\uFEFF' :: cs => cs
    | cs => cs
  let folded := foldLineEnds [] cs
  tokensFrom [] folded.length folded

end SmallScheme.Toml
