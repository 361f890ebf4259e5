import ApiUnion.Text.ShortestDecimal

-- Decimal numerals, and the IEEE number nearest to one. A numeral has digits with a point among
-- them or at one of their ends, and may go on with an exponent.

namespace ApiUnion.Text

-- `digits * 10 ^ exponent`, below zero or not.
structure Decimal where
  isNegative : Bool
  digits : Nat
  exponent : Int
deriving DecidableEq, Repr

def digitsValue (digits : List Char) : Nat :=
  digits.foldl (fun value c => 10 * value + (c.toNat - '0'.toNat)) 0

-- A sign at the front and what follows it.
def signed (text : List Char) : Bool × List Char :=
  match text with
  | '-' :: rest => (true, rest)
  | '+' :: rest => (false, rest)
  | rest => (false, rest)

-- An integer in decimal digits, with a sign or without.
def integerOf? (text : List Char) : Option Int :=
  let (isNegative, digits) := signed text
  if digits.isEmpty || !digits.all Char.isDigit then none
  else some (if isNegative then -(digitsValue digits : Int) else digitsValue digits)

namespace Decimal

def ofParts (isNegative : Bool) (whole fraction : List Char) (exponent : Int) : Decimal :=
  ⟨isNegative, digitsValue (whole ++ fraction), exponent - fraction.length⟩

def ofChars? (text : List Char) : Option Decimal := do
  let (isNegative, text) := signed text
  let whole := text.takeWhile Char.isDigit
  let rest := text.dropWhile Char.isDigit
  let (fraction, rest) := match rest with
    | '.' :: rest => (rest.takeWhile Char.isDigit, rest.dropWhile Char.isDigit)
    | rest => ([], rest)
  if whole.isEmpty && fraction.isEmpty then none
  else
    match rest with
    | [] => some (ofParts isNegative whole fraction 0)
    | e :: exponent =>
      if e = 'e' || e = 'E' then
        (integerOf? exponent).map (ofParts isNegative whole fraction)
      else none

end Decimal

namespace FloatFormat

-- The bits of the number that is infinite and not negative.
def infinity (format : FloatFormat) : Nat :=
  (Nat.pow 2 format.exponentBits - 1) * Nat.pow 2 format.fractionBits

def withSign (format : FloatFormat) (isNegative : Bool) (bits : Nat) : Nat :=
  if isNegative then Nat.pow 2 (format.fractionBits + format.exponentBits) + bits else bits

-- The whole number nearest to a ratio, the even one of two.
def roundedToEven (a : Ratio) : Nat :=
  let below := a.num / a.den
  let twice := 2 * (a.num - below * a.den)
  if twice < a.den || (twice = a.den && below % 2 = 0) then below else below + 1

-- The bits of the number nearest to a positive ratio. A mantissa rounded up to the next binade
-- carries over into the exponent, which stands right above it.
def nearest (format : FloatFormat) (a : Ratio) : Nat :=
  let estimate : Int := (a.num.log2 : Int) - a.den.log2 - format.fractionBits
  let scaledBy (exponent : Int) : Ratio :=
    if exponent < 0 then ⟨a.num * Nat.pow 2 exponent.natAbs, a.den⟩
    else ⟨a.num, a.den * Nat.pow 2 exponent.natAbs⟩
  let isBelow := (scaledBy estimate).lt ⟨Nat.pow 2 format.fractionBits, 1⟩
  let exponent := max format.leastExponent (if isBelow then estimate - 1 else estimate)
  min format.infinity
    ((exponent - format.leastExponent).natAbs * Nat.pow 2 format.fractionBits +
      roundedToEven (scaledBy exponent))

-- The bits of the number nearest to a numeral. What is beyond the greatest number is infinite.
-- Numerals far out of range are told from their exponent alone.
def ofDecimal (format : FloatFormat) (x : Decimal) : Nat :=
  let magnitude := x.exponent + (Nat.toDigits 10 x.digits).length
  let bound : Int := (Nat.pow 2 format.exponentBits : Nat)
  format.withSign x.isNegative <|
    if x.digits = 0 || magnitude < -bound then 0
    else if bound < magnitude then format.infinity
    else format.nearest (.scaled x.digits 10 x.exponent)

end FloatFormat

end ApiUnion.Text
