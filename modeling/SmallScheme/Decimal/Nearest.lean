/-!
# The binary number nearest to a decimal

A decimal `digits * 10 ^ exponent` is rounded to the nearest binary number with 53 significant bits,
a tie going to the even neighbour. All arithmetic is on natural numbers, so the rounding is exact
however many digits are given.
-/

namespace SmallScheme.Decimal

def twoTo (n : Nat) : Nat := Nat.pow 2 n

def tenTo (n : Nat) : Nat := Nat.pow 10 n

/-- The quotient rounded to the nearest natural number, a tie to the even one. -/
def roundDiv (num den : Nat) : Nat :=
  let low := num / den
  let twice := 2 * (num % den)
  if twice < den then low
  else if den < twice then low + 1
  else low + low % 2

/-- The bits of the positive infinity, above those of every finite number. -/
def infinityBits : Nat := 0x7FF <<< 52

/-- The quotient of `num / den` and `2 ^ exponent` as a fraction. -/
def scaleDown (num den : Nat) (exponent : Int) : Nat × Nat :=
  if exponent < 0 then (num * twoTo (-exponent).toNat, den)
  else (num, den * twoTo exponent.toNat)

/-- The weight of the last bit kept when the positive fraction `num / den` is rounded: the one that
leaves 53 bits, but never below the least weight `2 ^ -1074`. -/
def lastBit (num den : Nat) : Int :=
  let guess : Int := (num.log2 : Int) - den.log2 - 52
  let (n, d) := scaleDown num den guess
  max (-1074) (if n < d * twoTo 52 then guess - 1 else guess)

/-- The bits of the binary number nearest to the positive fraction `num / den`. The exponent field
counts the weights above the least one, and a mantissa that rounds up to the next power of two
carries into it. -/
def fractionBits (num den : Nat) : Nat :=
  let weight := lastBit num den
  let scaled := scaleDown num den weight
  let mantissa := roundDiv scaled.1 scaled.2
  min infinityBits (((weight + 1074).toNat <<< 52) + mantissa)

/-- The bits of the number nearest to `digits * 10 ^ exponent`. Exponents far outside the range of
binary numbers are settled by the count of digits alone. -/
def nearestBits (digits : Nat) (exponent : Int) : Nat :=
  if digits = 0 then 0
  else
    let bits : Int := digits.log2
    -- the decimal is at least `2 ^ bits * 10 ^ exponent` and below `2 ^ (bits + 1) * 10 ^ exponent`
    if 3 * exponent + bits > 1100 ∧ 0 ≤ exponent then infinityBits
    else if 3 * exponent + bits < -1100 ∧ exponent < 0 then 0
    else if exponent < 0 then fractionBits digits (tenTo (-exponent).toNat)
    else fractionBits (digits * tenTo exponent.toNat) 1

/-- The floating-point number nearest to `± digits * 10 ^ exponent`. -/
def nearest (negative : Bool) (digits : Nat) (exponent : Int) : Float :=
  let bits := nearestBits digits exponent
  Float.ofBits (UInt64.ofNat (if negative then (1 <<< 63) + bits else bits))

end SmallScheme.Decimal
