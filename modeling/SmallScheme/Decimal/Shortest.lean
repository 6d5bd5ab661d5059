import SmallScheme.Decimal.Nearest

/-!
# The shortest decimal of a floating-point number

A finite number is written with the fewest significant digits that still read back as the same
number. Of the decimals with that many digits the nearest one is taken, and the upper one of two
equally near. The text never uses an exponent.
-/

namespace SmallScheme.Decimal

/-- A positive finite number `mantissa * 2 ^ exponent`. The gap to the number below is half as wide
as the gap above when `narrowBelow` holds. -/
structure Binary where
  mantissa : Nat
  exponent : Int
  narrowBelow : Bool

/-- The magnitude with these bits, without its sign. -/
def Binary.ofBits (bits : Nat) : Binary :=
  let fraction := bits % twoTo 52
  let field : Nat := bits / twoTo 52 % twoTo 11
  if field = 0 then ⟨fraction, -1074, false⟩
  else ⟨fraction + twoTo 52, (field : Int) - 1075, fraction = 0 ∧ 1 < field⟩

/-- A number measured on a decimal grid: in units of the grid it is `value / unit`, and the decimals
that read back as it lie between `low / unit` and `high / unit`. -/
structure Measured where
  unit : Nat
  low : Nat
  value : Nat
  high : Nat
  closed : Bool

/-- Measures a number on the grid of multiples of `10 ^ place`. A quarter of the gap above is the
common unit in which the number and both ends of its interval are whole. -/
def Binary.measure (b : Binary) (place : Int) : Measured :=
  let quarter := b.exponent - 2
  let up := twoTo quarter.toNat * tenTo (-place).toNat
  let down := twoTo (-quarter).toNat * tenTo place.toNat
  { unit := down
    low := (4 * b.mantissa - if b.narrowBelow then 1 else 2) * up
    value := 4 * b.mantissa * up
    high := (4 * b.mantissa + 2) * up
    closed := b.mantissa % 2 = 0 }

/-- The grid point reads back as the number. -/
def Measured.accepts (m : Measured) (point : Nat) : Bool :=
  let scaled := point * m.unit
  if m.closed then m.low ≤ scaled && scaled ≤ m.high else m.low < scaled && scaled < m.high

/-- The nearer of the two grid points next to the number among those that read back. -/
def Measured.pick (m : Measured) : Option Nat :=
  let below := m.value / m.unit
  let lowFits := m.accepts below
  let highFits := m.accepts (below + 1)
  if highFits && (!lowFits || m.unit ≤ 2 * (m.value % m.unit)) then some (below + 1)
  else if lowFits then some below
  else none

/-- Counts upward from `place`, at most `fuel` times, while `10 ^ place` is not above the number. -/
def Binary.magnitudeFrom (b : Binary) : Nat → Int → Int
  | 0, place => place
  | fuel + 1, place =>
    let m := b.measure place
    if m.unit ≤ m.value then b.magnitudeFrom fuel (place + 1) else place

/-- The least power of ten above the number. Its binary length gives an estimate from below that is
at most three short. -/
def Binary.magnitude (b : Binary) : Int :=
  let bits : Int := b.mantissa.log2 + b.exponent
  b.magnitudeFrom 4 (Int.fdiv (bits * 30103) 100000 - 1)

/-- The first grid, coarsest first, with a point that reads back: the point and the grid's place.
Seventeen digits always suffice. -/
def Binary.shortestFrom (b : Binary) (place : Int) : Nat → Nat × Int
  | 0 => ((b.measure place).value / (b.measure place).unit, place)
  | fuel + 1 =>
    match (b.measure place).pick with
    | some point => (point, place)
    | none => b.shortestFrom (place - 1) fuel

/-- The shortest decimal `point * 10 ^ place` that reads back as the number. -/
def Binary.shortest (b : Binary) : Nat × Int :=
  b.shortestFrom (b.magnitude - 1) 17

def dropTrailingZeros (digits : List Char) : List Char :=
  (digits.reverse.dropWhile (· == '0')).reverse

/-- `point * 10 ^ place` in positional notation. -/
def positional (point : Nat) (place : Int) : List Char :=
  let digits := Nat.toDigits 10 point
  if 0 ≤ place then digits ++ List.replicate place.toNat '0'
  else
    let places := (-place).toNat
    let padded := List.replicate (places + 1 - digits.length) '0' ++ digits
    let whole := padded.take (padded.length - places)
    match dropTrailingZeros (padded.drop (padded.length - places)) with
    | [] => whole
    | fraction => whole ++ '.' :: fraction

/-- The text of a floating-point number. -/
def text (x : Float) : String :=
  if x.isNaN then "NaN"
  else
    let bits := x.toBits.toNat
    let sign := if bits / twoTo 63 = 1 then ['-'] else []
    let magnitude := bits % twoTo 63
    String.ofList <| sign ++
      if magnitude = infinityBits then ['i', 'n', 'f']
      else if magnitude = 0 then ['0']
      else
        let (point, place) := (Binary.ofBits magnitude).shortest
        positional point place

end SmallScheme.Decimal
