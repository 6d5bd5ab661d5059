import SmallScheme.Decimal.Shortest
import SmallScheme.Sexp
import SmallScheme.Symbol

/-!
# Data

What source text denotes before anything is evaluated: symbols, numbers, strings and truth values, and
the lists and pairs built from them.
-/

namespace SmallScheme

/-- An atom that can be written down. -/
inductive Literal where
  | symbol (s : Symbol)
  | number (x : Float)
  | string (text : String)
  | boolean (value : Bool)

namespace Literal

def text : Literal → String
  | symbol s => s.name
  | number x => Decimal.text x
  | string text => Text.quoted text
  | boolean true => "#t"
  | boolean false => "#f"

/-- Equality of atoms; that of numbers is the one of floating-point arithmetic. -/
def same : Literal → Literal → Bool
  | symbol s, symbol t => s == t
  | number x, number y => x == y
  | string s, string t => s == t
  | boolean a, boolean b => a == b
  | _, _ => false

end Literal

/-- An expression as it was read. -/
abbrev Datum := Sexp Unit Literal

namespace Datum

@[match_pattern] abbrev symbol (s : Symbol) : Datum := .atom (.symbol s)

@[match_pattern] abbrev cons (head tail : Datum) : Datum := .pair () head tail

/-- Puts items, given last first, in front of a tail. -/
def ofReversed (items : List Datum) (tail : Datum) : Datum :=
  items.foldl (fun rest item => cons item rest) tail

/-- The symbol that an apostrophe stands for. -/
def quoteSymbol : Symbol := .ofName "quote"

/-- The long form of a quoted datum. -/
def quote (d : Datum) : Datum :=
  cons (symbol quoteSymbol) (cons d .nil)

def text (d : Datum) : String :=
  Sexp.text Literal.text d

end Datum

end SmallScheme
