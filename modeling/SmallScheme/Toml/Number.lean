import SmallScheme.Decimal.Nearest
import SmallScheme.Decimal.Numeral

/-!
# Numbers of TOML

Whole numbers in four bases and floating-point numbers. Single underscores may stand between digits, and
a decimal number of more than one digit does not begin with a zero.
-/

namespace SmallScheme.Toml

open Text

/-- The value of a digit in a base up to sixteen. -/
def digit? (base : Nat) (c : Char) : Option Nat :=
  (hexDigit? c).filter (· < base)

/-- Underscores stand between digits only, and one at a time. -/
def wellSpaced : List Char → Bool
  | [] => true
  | ['_'] => false
  | '_' :: '_' :: _ => false
  | _ :: cs => wellSpaced cs

/-- A run of digits at the front of a text. -/
structure Digits where
  negative : Bool
  digits : List Char
  rest : List Char

/-- Takes a run of digits with an optional sign off the front of a text. -/
def digits? (base : Nat) (signed leadingZeros : Bool) (cs : List Char) : Option Digits :=
  let (negative, body) := if signed then Decimal.splitSign cs else (false, cs)
  let isRunChar (c : Char) := (digit? base c).isSome || c == '_'
  let run := body.takeWhile isRunChar
  let digits := run.filter (· != '_')
  if run.isEmpty || run.head? == some '_' || !wellSpaced run then none
  else if !leadingZeros && digits.head? == some '0' && 1 < digits.length then none
  else some ⟨negative, digits, body.dropWhile isRunChar⟩

def digitsNumber (base : Nat) (digits : List Char) : Nat :=
  digits.foldl (fun n c => base * n + (digit? base c).getD 0) 0

/-- The least number above all whole numbers of 64 bits with a sign. -/
def integerBound : Int := 0x8000000000000000

/-- A whole number of 64 bits that takes up the whole text. -/
def integer? (base : Nat) (cs : List Char) : Option Int := do
  let d ← digits? base (base == 10) (base != 10) cs
  let n : Int := digitsNumber base d.digits
  let value := if d.negative then -n else n
  if d.rest.isEmpty && -integerBound ≤ value && value < integerBound then some value else none

/-- A finite floating-point number of this whole part, fraction and exponent. -/
def float? (whole : Digits) (fraction : List Char) (exponent : Int) : Option Float :=
  let digits := digitsNumber 10 (whole.digits ++ fraction)
  let x := Decimal.nearest whole.negative digits (exponent - fraction.length)
  if x.isFinite then some x else none

end SmallScheme.Toml
