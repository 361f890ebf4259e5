import ApiUnion.LogFilter.Pattern.Validity
import ApiUnion.Text.Decimal

-- Fields of log messages that a filter asks for: a name, and what the value has to be if it says
-- so.

namespace ApiUnion

-- What a value has to be. Numbers with a fraction are given by the bits of the nearest double. What
-- is no truth value and no number is a pattern.
inductive LogValue
  | truth (value : Bool)
  | number (bits : Nat)
  | notNumber
  | natural (value : Nat)
  | negative (value : Int)
  | pattern (text : String)
deriving DecidableEq, Repr

namespace LogValue

-- The numbers that have a name, in any case, with a sign or without.
private def named? (text : List Char) : Option LogValue :=
  let (isNegative, name) := Text.signed text
  let name := (String.ofList name).toLower
  if name = "nan" then some notNumber
  else if name = "inf" || name = "infinity" then
    some (number (Text.doubleFormat.withSign isNegative Text.doubleFormat.infinity))
  else none

private def integer? (text : List Char) : Option LogValue := do
  let value ← Text.integerOf? text
  if text.head? = some '-' then
    if -0x8000000000000000 ≤ value then some (negative value) else none
  else if value < 0x10000000000000000 then some (natural value.toNat)
  else none

private def number? (text : List Char) : Option LogValue :=
  (Text.Decimal.ofChars? text).map fun x => number (Text.doubleFormat.ofDecimal x)

private def pattern? (text : List Char) : Option LogValue :=
  if LogPattern.isValid text then some (pattern (String.ofList text)) else none

-- Integers beyond 64 bits are numbers as those with a fraction are.
def ofChars? (text : List Char) : Option LogValue :=
  match String.ofList text with
  | "true" => some (truth true)
  | "false" => some (truth false)
  | _ => integer? text <|> named? text <|> number? text <|> pattern? text

def text : LogValue → String
  | truth value => if value then "true" else "false"
  | number bits => Text.plainFloatText Text.doubleFormat bits
  | notNumber => "NaN"
  | natural value => Nat.repr value
  | negative value => toString value
  | pattern text => text

private def kind : LogValue → Nat
  | truth _ => 0
  | number _ => 1
  | notNumber => 2
  | natural _ => 3
  | negative _ => 4
  | pattern _ => 5

-- The place of a number among the others. Both zeros have the same.
private def place (bits : Nat) : Int :=
  let magnitude : Nat := bits % 0x8000000000000000
  if Text.doubleFormat.isNegative bits then -(magnitude : Int) else magnitude

-- The order of values: by kind, then by size or by text.
def compare (a b : LogValue) : Ordering :=
  match a, b with
  | truth a, truth b => Ord.compare a b
  | number a, number b => Ord.compare (place a) (place b)
  | natural a, natural b => Ord.compare a b
  | negative a, negative b => Ord.compare a b
  | pattern a, pattern b => Ord.compare a b
  | a, b => Ord.compare a.kind b.kind

end LogValue

structure LogField where
  name : String
  value : Option LogValue
deriving DecidableEq, Repr

namespace LogField

-- A name and what stands between the first equals sign and the next. A field is not empty.
def ofChars? (text : List Char) : Option LogField :=
  let name := String.ofList (text.takeWhile (· ≠ '='))
  if text.isEmpty then none
  else
    match text.dropWhile (· ≠ '=') with
    | [] => some ⟨name, none⟩
    | _ :: value => (LogValue.ofChars? (value.takeWhile (· ≠ '='))).map (⟨name, some ·⟩)

def text (field : LogField) : String :=
  match field.value with
  | none => field.name
  | some value => field.name ++ "=" ++ value.text

-- A field with a value is more special than one without.
def compare (a b : LogField) : Ordering :=
  (Ord.compare a.value.isSome b.value.isSome).then <| (Ord.compare a.name b.name).then <|
    match a.value, b.value with
    | some a, some b => a.compare b
    | _, _ => .eq

end LogField

end ApiUnion
