import SmallScheme.Span
import SmallScheme.Text.Quoted

/-!
# Tokens

The units into which source text is divided. Every character of a text belongs to exactly one token;
white space and comments are tokens as well, and an end token closes the sequence.
-/

namespace SmallScheme

/-- What a token stands for. A string literal has its escapes decoded, a comment its semicolon and its line feed. -/
inductive Lexeme where
  | endOfText
  | blank (text : String)
  | leftParen
  | rightParen
  | quote
  | dot
  | symbol (text : String)
  | number (text : String)
  | string (text : String)
  | boolean (value : Bool)
  | comment (text : String)
  | illegal (detail : String)
  deriving DecidableEq, Repr

namespace Lexeme

def kind : Lexeme → String
  | endOfText => "EOF"
  | blank _ => "WS"
  | leftParen => "LEFT_PAREN"
  | rightParen => "RIGHT_PAREN"
  | quote => "QUOTE"
  | dot => "DOT"
  | symbol _ => "SYMBOL"
  | number _ => "NUMBER"
  | string _ => "STRING"
  | boolean true => "TRUE"
  | boolean false => "FALSE"
  | comment _ => "COMMENT"
  | illegal _ => "ILLEGAL"

def content : Lexeme → String
  | endOfText => ""
  | leftParen => "("
  | rightParen => ")"
  | quote => "'"
  | dot => "."
  | boolean true => "t"
  | boolean false => "f"
  | blank text | symbol text | number text | string text | comment text => text
  | illegal detail => detail

def text (l : Lexeme) : String :=
  l.kind ++ " " ++ Text.quoted l.content

/-- White space and comments separate other tokens and mean nothing themselves. -/
def isSeparator : Lexeme → Bool
  | blank _ | comment _ => true
  | _ => false

end Lexeme

/-- A lexeme and the stretch of source text that it came from. -/
structure Token where
  lexeme : Lexeme
  span : Span
  deriving DecidableEq, Repr

end SmallScheme
