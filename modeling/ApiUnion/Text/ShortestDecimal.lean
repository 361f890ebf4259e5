-- Floating-point numbers as text: the fewest decimal digits that read back as the same number, and
-- of those the nearest. Numbers from 1e-4 up to 1e16 are written out, with one digit at least after
-- the point; others have an exponent.

namespace ApiUnion.Text

-- The widths of the two fields below the sign.
structure FloatFormat where
  fractionBits : Nat
  exponentBits : Nat

def singleFormat : FloatFormat := ⟨23, 8⟩

def doubleFormat : FloatFormat := ⟨52, 11⟩

namespace FloatFormat

-- A finite number is `mantissa * 2 ^ exponent`. The gap below it is half as wide if it is the least
-- of its binade.
structure Finite where
  mantissa : Nat
  exponent : Int
  isBinadeStart : Bool

def fraction (format : FloatFormat) (bits : Nat) : Nat :=
  bits % Nat.pow 2 format.fractionBits

def biased (format : FloatFormat) (bits : Nat) : Nat :=
  bits / Nat.pow 2 format.fractionBits % Nat.pow 2 format.exponentBits

def isNegative (format : FloatFormat) (bits : Nat) : Bool :=
  bits / Nat.pow 2 (format.fractionBits + format.exponentBits) % 2 = 1

-- The exponent of the least positive number.
def leastExponent (format : FloatFormat) : Int :=
  2 - (Nat.pow 2 (format.exponentBits - 1) : Nat) - format.fractionBits

-- Subnormal numbers have the least exponent and no leading one.
def finite (format : FloatFormat) (bits : Nat) : Finite :=
  let fraction := format.fraction bits
  let biased := format.biased bits
  if biased = 0 then ⟨fraction, format.leastExponent, false⟩
  else
    ⟨Nat.pow 2 format.fractionBits + fraction, format.leastExponent + (biased - 1 : Nat),
      fraction = 0 && 1 < biased⟩

end FloatFormat

-- A non-negative rational number.
structure Ratio where
  num : Nat
  den : Nat

-- `n * base ^ exponent`
def Ratio.scaled (n base : Nat) (exponent : Int) : Ratio :=
  if exponent < 0 then ⟨n, Nat.pow base exponent.natAbs⟩
  else ⟨n * Nat.pow base exponent.natAbs, 1⟩

def Ratio.le (a b : Ratio) : Bool :=
  a.num * b.den ≤ b.num * a.den

def Ratio.lt (a b : Ratio) : Bool :=
  a.num * b.den < b.num * a.den

-- The exponent of the least power of ten above a positive number.
def Ratio.magnitude (a : Ratio) : Int :=
  let estimate : Int :=
    ((Nat.toDigits 10 a.num).length : Int) - (Nat.toDigits 10 a.den).length
  if (Ratio.scaled 1 10 estimate).le a then estimate + 1 else estimate

-- What reads back as a number: the numbers nearer to it than to its neighbours. The ends belong to
-- it when its mantissa is even.
structure Interval where
  low : Ratio
  high : Ratio
  closed : Bool

def Interval.contains (interval : Interval) (a : Ratio) : Bool :=
  if interval.closed then interval.low.le a && a.le interval.high
  else interval.low.lt a && a.lt interval.high

def FloatFormat.Finite.interval (x : FloatFormat.Finite) : Interval where
  low := .scaled (4 * x.mantissa - if x.isBinadeStart then 1 else 2) 2 (x.exponent - 2)
  high := .scaled (4 * x.mantissa + 2) 2 (x.exponent - 2)
  closed := x.mantissa % 2 = 0

-- The number of `digits` digits, as a multiple of a power of ten, that is nearest to the value
-- among those that read back, the larger of two equally near. One of the two neighbours of the
-- value is, if any is.
def nearest? (interval : Interval) (value : Ratio) (magnitude : Int) (digits : Nat) :
    Option (Nat × Int) :=
  let exponent := magnitude - digits
  let unit := Ratio.scaled 1 10 exponent
  let below := value.num * unit.den / (value.den * unit.num)
  let fits (n : Nat) : Bool := 0 < n && interval.contains (.scaled n 10 exponent)
  let remainder := value.num * unit.den - below * (value.den * unit.num)
  let isNearerAbove := value.den * unit.num ≤ 2 * remainder
  if fits below && (!isNearerAbove || !fits (below + 1)) then some (below, exponent)
  else if fits (below + 1) then some (below + 1, exponent)
  else none

def shortestFrom (interval : Interval) (value : Ratio) (magnitude : Int) :
    Nat → Nat → Nat × Int
  | 0, _ => (0, 0)
  | left + 1, digits =>
    match nearest? interval value magnitude digits with
    | some found => found
    | none => shortestFrom interval value magnitude left (digits + 1)

-- The digits of a number without zeros at the end, and the place of the point in front of them.
def shortestDigits (x : FloatFormat.Finite) : List Char × Int :=
  let value := Ratio.scaled x.mantissa 2 x.exponent
  let (n, exponent) := shortestFrom x.interval value value.magnitude 17 1
  let digits := Nat.toDigits 10 n
  let point := exponent + digits.length
  ((digits.reverse.dropWhile (· = '0')).reverse, point)

-- The digits before and after the point.
private def writtenOut (digits : List Char) (point : Int) : List Char × List Char :=
  if point ≤ 0 then (['0'], List.replicate point.natAbs '0' ++ digits)
  else
    let place := point.natAbs
    (digits.take place ++ List.replicate (place - digits.length) '0', digits.drop place)

private def withExponent (digits : List Char) (point : Int) : List Char :=
  let rest := digits.drop 1
  digits.take 1 ++ (if rest.isEmpty then [] else '.' :: rest) ++ ['e'] ++
    (toString (point - 1)).toList

def magnitudeText (x : FloatFormat.Finite) : List Char :=
  if x.mantissa = 0 then ['0', '.', '0']
  else
    let (digits, point) := shortestDigits x
    if -4 < point && point ≤ 16 then
      let (whole, rest) := writtenOut digits point
      whole ++ ['.'] ++ (if rest.isEmpty then ['0'] else rest)
    else withExponent digits point

-- Written out however long it is, and without a point if it is whole.
def plainMagnitudeText (x : FloatFormat.Finite) : List Char :=
  if x.mantissa = 0 then ['0']
  else
    let (digits, point) := shortestDigits x
    let (whole, rest) := writtenOut digits point
    if rest.isEmpty then whole else whole ++ ['.'] ++ rest

private def signedText (magnitude : FloatFormat.Finite → List Char) (format : FloatFormat)
    (bits : Nat) : String :=
  let sign := if format.isNegative bits then ['-'] else []
  if format.biased bits = Nat.pow 2 format.exponentBits - 1 then
    if format.fraction bits = 0 then String.ofList (sign ++ ['i', 'n', 'f']) else "NaN"
  else String.ofList (sign ++ magnitude (format.finite bits))

-- The text of an IEEE number given by its bits. NaN has no sign.
def floatText (format : FloatFormat) (bits : Nat) : String :=
  signedText magnitudeText format bits

-- The text of an IEEE number without exponents.
def plainFloatText (format : FloatFormat) (bits : Nat) : String :=
  signedText plainMagnitudeText format bits

end ApiUnion.Text
