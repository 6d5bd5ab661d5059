import SmallScheme.Decimal.Nearest
import SmallScheme.Text.Class

/-!
# Numerals

The written form of numbers: an optional sign, digits with an optional point among or beside them,
and an optional power of ten. At least one digit stands before the power of ten, and at least one
inside it. Underscores may stand anywhere and count for nothing.
-/

namespace SmallScheme.Decimal

open Text

/-- A sign in front, if there is one: whether it is a minus, and what follows it. -/
def splitSign : List Char → Bool × List Char
  | '-' :: rest => (true, rest)
  | '+' :: rest => (false, rest)
  | cs => (false, cs)

/-- The number written by a run of decimal digits. -/
def digitsValue (digits : List Char) : Nat :=
  digits.foldl (fun n c => 10 * n + (c.toNat - '0'.toNat)) 0

/-- The power of ten written by a run of decimal digits. Once it has come to 65536 it takes in no further
digits, being far outside the range of the numbers. -/
def powerValue (digits : List Char) : Nat :=
  digits.foldl (fun n c => if n < 65536 then 10 * n + (c.toNat - '0'.toNat) else n) 0

/-- The power of ten at the end of a numeral: nothing, or a mark and a signed run of digits. -/
def exponent? : List Char → Option Int
  | [] => some 0
  | mark :: cs =>
    let (negative, digits) := splitSign cs
    if (mark == 'e' || mark == 'E') && !digits.isEmpty && digits.all isDigit then
      some (if negative then -(powerValue digits : Int) else powerValue digits)
    else none

/-- The digits before and after the point, and what follows them. -/
def splitDigits (cs : List Char) : List Char × List Char × List Char :=
  let whole := cs.takeWhile isDigit
  match cs.dropWhile isDigit with
  | '.' :: rest => (whole, rest.takeWhile isDigit, rest.dropWhile isDigit)
  | rest => (whole, [], rest)

/-- The number that a numeral without underscores denotes. -/
def plainNumber? (cs : List Char) : Option Float :=
  let (negative, unsigned) := splitSign cs
  let (whole, fraction, rest) := splitDigits unsigned
  if whole.isEmpty && fraction.isEmpty then none
  else (exponent? rest).map fun e =>
    nearest negative (digitsValue (whole ++ fraction)) (e - fraction.length)

/-- The number that a numeral denotes. -/
def number? (text : String) : Option Float :=
  plainNumber? (text.toList.filter (· != '_'))

end SmallScheme.Decimal
