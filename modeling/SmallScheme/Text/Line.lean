/-!
# Lines

The lines in a run of bytes, and their text. A line feed ends a line; what follows the last one is a
line too unless it is empty.
-/

namespace SmallScheme.Text

/-- The bytes of a line, without its line feed. -/
structure Line where
  bytes : List UInt8
  isEnded : Bool

namespace Line

/-- Splits bytes into lines, given the lines before and the bytes of the current line, both latest
first. -/
def splitFrom (found : List Line) (current : List UInt8) : List UInt8 → List Line
  | [] => (if current.isEmpty then found else ⟨current.reverse, false⟩ :: found).reverse
  | b :: bytes =>
    if b == 10 then splitFrom (⟨current.reverse, true⟩ :: found) [] bytes
    else splitFrom found (b :: current) bytes

def ofBytes (bytes : List UInt8) : List Line :=
  splitFrom [] [] bytes

/-- The text of a line, without the carriage return before its line feed. There is none if the bytes
are not UTF-8. -/
def text? (line : Line) : Option String :=
  (String.fromUTF8? ⟨line.bytes.toArray⟩).map fun text =>
    if line.isEnded && text.endsWith "\r" then (text.dropEnd 1).toString else text

end Line

end SmallScheme.Text
