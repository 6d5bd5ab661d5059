import SmallScheme.Token.StringLiteral

/-!
# Dividing text into tokens

The lexeme at the front of a text depends on the characters alone; positions are added afterwards, from
the characters that each lexeme takes up. So the same characters give the same lexemes wherever they
stand.
-/

namespace SmallScheme

open Text

/-- A character that may stand inside a symbol or a numeral. -/
def isWordChar (c : Char) : Bool :=
  match c with
  | '(' | ')' | '\x27' | '"' | ';' => false
  | c => !isBlank c && !isControl c

/-- A lexeme found at the front of a text, the characters it takes up, and the rest. -/
structure Found where
  lexeme : Lexeme
  written : List Char
  rest : List Char

namespace Found

def single (lexeme : Lexeme) (c : Char) (rest : List Char) : Found :=
  ⟨lexeme, [c], rest⟩

/-- The longest run of characters of a class after the first one. -/
def run (p : Char → Bool) (lexeme : String → Lexeme) (c : Char) (cs : List Char) : Found :=
  let written := c :: cs.takeWhile p
  ⟨lexeme (String.ofList written), written, cs.dropWhile p⟩

/-- A comment runs through the end of its line. -/
def comment (c : Char) (cs : List Char) : Found :=
  let line := cs.takeWhile (· != '\n')
  match cs.dropWhile (· != '\n') with
  | [] => ⟨.comment (String.ofList (c :: line)), c :: line, []⟩
  | feed :: rest =>
    let written := c :: (line ++ [feed])
    ⟨.comment (String.ofList written), written, rest⟩

/-- The meaning of the word after a hash sign. -/
def hashWord (word : String) : Lexeme :=
  if word = "t" then .boolean true
  else if word = "f" then .boolean false
  else .illegal ("unsupported hash code #" ++ word)

def hash (c : Char) (cs : List Char) : Found :=
  let word := cs.takeWhile isWordChar
  ⟨hashWord (String.ofList word), c :: word, cs.dropWhile isWordChar⟩

/-- A string literal with its quotation marks. -/
def stringLiteral (c : Char) (cs : List Char) : Found :=
  let (lexeme, written, rest) := StringLiteral.scan cs
  ⟨lexeme, c :: written, rest⟩

/-- The word that starts with these characters is meant as a number. -/
def startsNumber (c : Char) (next : Option Char) : Bool :=
  isDigit c || ((c == '+' || c == '-') && next.any fun d => isDigit d || d == '.') ||
    (c == '.' && next.any isDigit)

/-- A dot on its own, a number, or a symbol. -/
def word (c : Char) (cs : List Char) : Found :=
  if c == '.' && !cs.head?.any isWordChar then single .dot c cs
  else if !isWordChar c then single (.illegal ("unexpected character " ++ quotedChar c)) c cs
  else run isWordChar (if startsNumber c cs.head? then .number else .symbol) c cs

/-- The lexeme at the front of a text, given by its first character and the others. -/
def first (c : Char) (cs : List Char) : Found :=
  if isBlank c then run isBlank .blank c cs
  else match c with
    | '(' => single .leftParen c cs
    | ')' => single .rightParen c cs
    | '\x27' => single .quote c cs
    | '"' => stringLiteral c cs
    | ';' => comment c cs
    | '#' => hash c cs
    | c => word c cs

end Found

theorem Found.length_rest_first (c : Char) (cs : List Char) :
    (Found.first c cs).rest.length ≤ cs.length := by
  have drop (p : Char → Bool) : (cs.dropWhile p).length ≤ cs.length :=
    (List.dropWhile_sublist (p := p)).length_le
  unfold Found.first
  split
  · exact drop _
  · split
    · exact Nat.le_refl _
    · exact Nat.le_refl _
    · exact Nat.le_refl _
    · exact StringLiteral.scanFrom_length _ _
    · unfold Found.comment
      have := drop (· != '\n')
      split
      · simp
      · next h => rw [h] at this; simp at this; simp; omega
    · exact drop _
    · unfold Found.word
      split
      · exact Nat.le_refl _
      · split
        · exact Nat.le_refl _
        · exact drop _

/-- A sequence of tokens and the place where the text ends. -/
structure TokenStream where
  tokens : List Token
  stop : Position

namespace TokenStream

/-- The token that closes the sequence, and is found again however often one more is asked for. -/
def endToken (s : TokenStream) : Token :=
  ⟨.endOfText, ⟨s.stop, 0⟩⟩

def toList (s : TokenStream) : List Token :=
  s.tokens ++ [s.endToken]

/-- The next token, and the sequence behind it. -/
def pull (s : TokenStream) : Token × TokenStream :=
  match s.tokens with
  | [] => (s.endToken, s)
  | t :: tokens => (t, ⟨tokens, s.stop⟩)

/-- Adds the tokens of a text that starts at `p` to those found before it, latest first. -/
def scanFrom (found : List Token) (p : Position) (cs : List Char) : TokenStream :=
  match cs with
  | [] => ⟨found.reverse, p⟩
  | c :: cs =>
    let next := Found.first c cs
    scanFrom (⟨next.lexeme, ⟨p, next.written.length⟩⟩ :: found) (p.after next.written) next.rest
termination_by cs.length
decreasing_by exact Nat.lt_succ_of_le (Found.length_rest_first c cs)

def ofString (text : String) : TokenStream :=
  scanFrom [] {} text.toList

end TokenStream

end SmallScheme
