import SmallScheme.Text.Hidden

/-!
# Quoted text

How a text or a single character is shown between quotation marks. A quotation mark of the kind that
encloses the text, the backslash and four control characters have short escapes; hidden characters are
spelled by their code point in hexadecimal.
-/

namespace SmallScheme.Text

/-- The code point in lower-case hexadecimal without leading zeros, as `\u` and braces. -/
def codeEscape (c : Char) : List Char :=
  "\\u\x7b".toList ++ Nat.toDigits 16 c.toNat ++ ['\x7d']

/-- One character as it stands between marks of the kind `mark`. -/
def escapeChar (mark c : Char) : List Char :=
  if c == '\x00' then ['\\', '0']
  else if c == '\t' then ['\\', 't']
  else if c == '\r' then ['\\', 'r']
  else if c == '\n' then ['\\', 'n']
  else if c == mark || c == '\\' then ['\\', c]
  else if isHidden c then codeEscape c
  else [c]

def quoted (s : String) : String :=
  String.ofList ('"' :: (s.toList.flatMap (escapeChar '"') ++ ['"']))

def quotedChar (c : Char) : String :=
  String.ofList ('\x27' :: (escapeChar '\x27' c ++ ['\x27']))

end SmallScheme.Text
