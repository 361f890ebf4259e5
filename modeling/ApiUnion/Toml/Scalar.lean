import ApiUnion.Text.Decimal
import ApiUnion.Toml.Value

-- Reading texts, numbers and truth values. A parser takes a prefix of the input and leaves the
-- rest. Every step takes a character, so the length of the input bounds the steps.

namespace ApiUnion.Toml

abbrev Parser (α : Type) := List Char → Option (α × List Char)

def isBlank (c : Char) : Bool :=
  c = ' ' || c = '\t'

def skipBlanks (input : List Char) : List Char :=
  input.dropWhile isBlank

-- Characters that may stand for themselves: no control characters but the tabulator.
def isPlain (c : Char) : Bool :=
  c = '\t' || (0x20 ≤ c.toNat && c.toNat ≠ 0x7F)

def newline? : List Char → Option (List Char)
  | '\n' :: rest => some rest
  | '\r' :: '\n' :: rest => some rest
  | _ => none

def skipNewline (input : List Char) : List Char :=
  (newline? input).getD input

def hexDigit? (c : Char) : Option Nat :=
  if '0' ≤ c ∧ c ≤ '9' then some (c.toNat - '0'.toNat)
  else if 'a' ≤ c ∧ c ≤ 'f' then some (c.toNat - 'a'.toNat + 10)
  else if 'A' ≤ c ∧ c ≤ 'F' then some (c.toNat - 'A'.toNat + 10)
  else none

-- The number that digits of a base denote.
def natOfDigits? (base : Nat) (digits : List Char) : Option Nat :=
  digits.foldlM (fun n c => do
    let digit ← hexDigit? c
    if digit < base then some (n * base + digit) else none) 0

-- A character given by exactly so many hexadecimal digits.
def scalar? (width : Nat) : Parser Char := fun input => do
  let digits := input.take width
  let n ← natOfDigits? 16 digits
  if digits.length = width ∧ n.isValidChar then some (Char.ofNat n, input.drop width) else none

-- What follows a backslash.
def escape? : Parser Char
  | 'b' :: rest => some ('\x08', rest)
  | 't' :: rest => some ('\t', rest)
  | 'n' :: rest => some ('\n', rest)
  | 'f' :: rest => some ('\x0c', rest)
  | 'r' :: rest => some ('\r', rest)
  | '"' :: rest => some ('"', rest)
  | '\\' :: rest => some ('\\', rest)
  | 'u' :: rest => scalar? 4 rest
  | 'U' :: rest => scalar? 8 rest
  | _ => none

-- The characters up to a quote, after those found, which stand in reverse.
def quotedAfter? : Nat → List Char → Parser String
  | 0, _, _ => none
  | _ + 1, _, [] => none
  | _ + 1, found, '"' :: rest => some (String.ofList found.reverse, rest)
  | fuel + 1, found, '\\' :: rest => do
    let (c, rest) ← escape? rest
    quotedAfter? fuel (c :: found) rest
  | fuel + 1, found, c :: rest => if isPlain c then quotedAfter? fuel (c :: found) rest else none

-- Without escapes, up to a single quote.
def literal? : Parser String := fun input =>
  let inside (c : Char) : Bool := isPlain c && c ≠ '\''
  match input.dropWhile inside with
  | '\'' :: rest => some (String.ofList (input.takeWhile inside), rest)
  | _ => none

-- Up to two quotes right before the closing three belong to the text.
def closing? (quote : Char) (found : List Char) : Parser String := fun input =>
  let quotes := (input.takeWhile (· = quote)).length
  let extra := min (quotes - 3) 2
  if quotes < 3 then none
  else some (String.ofList (found.reverse ++ List.replicate extra quote), input.drop (extra + 3))

def isBlankOrBreak (c : Char) : Bool :=
  isBlank c || c = '\n'

-- After a backslash at the end of a line, blanks and line breaks are skipped.
def skipBreaks : Nat → List Char → List Char
  | 0, input => input
  | fuel + 1, input =>
    match newline? (input.dropWhile isBlankOrBreak) with
    | some rest => skipBreaks fuel rest
    | none => input.dropWhile isBlankOrBreak

def linesAfter? : Nat → List Char → Parser String
  | 0, _, _ => none
  | _ + 1, _, [] => none
  | fuel + 1, found, '"' :: rest =>
    match closing? '"' found ('"' :: rest) with
    | some closed => some closed
    | none => linesAfter? fuel ('"' :: found) rest
  | fuel + 1, found, '\\' :: rest =>
    match newline? (skipBlanks rest) with
    | some next => linesAfter? fuel found (skipBreaks next.length next)
    | none => do
      let (c, rest) ← escape? rest
      linesAfter? fuel (c :: found) rest
  | fuel + 1, found, c :: rest =>
    match newline? (c :: rest) with
    | some rest => linesAfter? fuel ('\n' :: found) rest
    | none => if isPlain c then linesAfter? fuel (c :: found) rest else none

def literalLinesAfter? : Nat → List Char → Parser String
  | 0, _, _ => none
  | _ + 1, _, [] => none
  | fuel + 1, found, '\'' :: rest =>
    match closing? '\'' found ('\'' :: rest) with
    | some closed => some closed
    | none => literalLinesAfter? fuel ('\'' :: found) rest
  | fuel + 1, found, c :: rest =>
    match newline? (c :: rest) with
    | some rest => literalLinesAfter? fuel ('\n' :: found) rest
    | none => if isPlain c then literalLinesAfter? fuel (c :: found) rest else none

-- A text in any of the four ways of writing one. A line break right after three opening quotes is
-- not part of the text.
def text? : Parser String
  | '"' :: '"' :: '"' :: rest => linesAfter? (rest.length + 1) [] (skipNewline rest)
  | '"' :: rest => quotedAfter? (rest.length + 1) [] rest
  | '\'' :: '\'' :: '\'' :: rest => literalLinesAfter? (rest.length + 1) [] (skipNewline rest)
  | '\'' :: rest => literal? rest
  | _ => none

-- Digits with single underscores between them.
def ungrouped? : List Char → Option (List Char)
  | [] => none
  | ['_'] => none
  | '_' :: _ => none
  | [c] => some [c]
  | c :: '_' :: rest => (ungrouped? rest).map (c :: ·)
  | c :: d :: rest => (ungrouped? (d :: rest)).map (c :: ·)

def based? (base : Nat) (digits : List Char) : Option Int := do
  pure (Int.ofNat (← natOfDigits? base (← ungrouped? digits)))

-- Decimal digits do not begin with zero unless there is one digit only.
def decimal? : List Char → Option Int
  | ['0'] => some 0
  | '0' :: _ => none
  | digits => based? 10 digits

def integer? : List Char → Option Int
  | '0' :: 'x' :: digits => based? 16 digits
  | '0' :: 'o' :: digits => based? 8 digits
  | '0' :: 'b' :: digits => based? 2 digits
  | '+' :: digits => decimal? digits
  | '-' :: digits => (decimal? digits).map (- ·)
  | digits => decimal? digits

-- A number with a point, an exponent or both. There are digits on either side of a point.
def decimalFraction? (word : List Char) : Option Text.Decimal := do
  let isExponentMark (c : Char) : Bool := c = 'e' || c = 'E'
  let mantissa := word.takeWhile (!isExponentMark ·)
  let exponent := word.dropWhile (!isExponentMark ·)
  let whole := mantissa.takeWhile (· ≠ '.')
  let fraction := mantissa.dropWhile (· ≠ '.')
  if exponent.isEmpty && fraction.isEmpty then none
  else
    let (isNegative, wholeDigits) := Text.signed whole
    let _ ← decimal? wholeDigits
    let fractionDigits ← if fraction.isEmpty then some [] else ungrouped? (fraction.drop 1)
    let (isSmall, exponentDigits) := Text.signed (exponent.drop 1)
    let exponentDigits ← if exponent.isEmpty then some [] else ungrouped? exponentDigits
    if (fractionDigits ++ exponentDigits).all Char.isDigit then
      let magnitude : Int := Text.digitsValue exponentDigits
      pure (Text.Decimal.ofParts isNegative (← ungrouped? wholeDigits) fractionDigits
        (if isSmall then -magnitude else magnitude))
    else none

-- Infinite numbers go by their name. Digits may not denote one, unless it is below zero.
def isFraction (word : List Char) : Bool :=
  ["inf", "nan"].contains (String.ofList (Text.signed word).2) ||
    (decimalFraction? word).any fun x => Text.doubleFormat.ofDecimal x ≠ Text.doubleFormat.infinity

-- Two digits up to a limit.
def twoDigits? (least most : Nat) : Parser Nat
  | a :: b :: rest =>
    let n := Text.digitsValue [a, b]
    if a.isDigit && b.isDigit && least ≤ n && n ≤ most then some (n, rest) else none
  | _ => none

def expect? (c : Char) : List Char → Option (List Char)
  | [] => none
  | d :: rest => if c = d then some rest else none

def daysIn (year month : Nat) : Nat :=
  let isLeap := year % 4 = 0 && (year % 100 ≠ 0 || year % 400 = 0)
  if month = 2 then if isLeap then 29 else 28
  else if [4, 6, 9, 11].contains month then 30
  else 31

-- What follows a day of the calendar.
def date? (input : List Char) : Option (List Char) := do
  let (century, rest) ← twoDigits? 0 99 input
  let (ofCentury, rest) ← twoDigits? 0 99 rest
  let (month, rest) ← twoDigits? 1 12 (← expect? '-' rest)
  let (_, rest) ← twoDigits? 1 (daysIn (100 * century + ofCentury) month) (← expect? '-' rest)
  pure rest

-- What follows a time of the day. A minute may have one second more than others.
def time? (input : List Char) : Option (List Char) := do
  let (_, rest) ← twoDigits? 0 23 input
  let (_, rest) ← twoDigits? 0 59 (← expect? ':' rest)
  let (_, rest) ← twoDigits? 0 60 (← expect? ':' rest)
  match rest with
  | '.' :: digits =>
    if digits.head?.any Char.isDigit then pure (digits.dropWhile Char.isDigit) else none
  | rest => pure rest

-- What follows the distance of a clock from the common one. There may be none.
def offset? : List Char → Option (List Char)
  | 'Z' :: rest | 'z' :: rest => some rest
  | '+' :: rest | '-' :: rest => do
    let (_, rest) ← twoDigits? 0 23 rest
    let (_, rest) ← twoDigits? 0 59 (← expect? ':' rest)
    pure rest
  | rest => some rest

-- What follows a date, a time, or both with a blank or a letter between them.
def moment? (input : List Char) : Option (List Char) :=
  match date? input with
  | none => time? input
  | some [] => some []
  | some (c :: rest) =>
    if c = 'T' || c = 't' || c = ' ' then
      match time? rest with
      | some rest => offset? rest
      | none => some (c :: rest)
    else some (c :: rest)

def isWordChar (c : Char) : Bool :=
  c.isAlphanum || c = '_' || c = '-' || c = '+' || c = '.' || c = ':'

-- A truth value, a number or a moment.
def word? : Parser Value := fun input => do
  let word := input.takeWhile isWordChar
  let rest := input.dropWhile isWordChar
  if word = ['t', 'r', 'u', 'e'] then pure (.boolean true, rest)
  else if word = ['f', 'a', 'l', 's', 'e'] then pure (.boolean false, rest)
  else
    match moment? input, integer? word with
    | some rest, _ => pure (.moment, rest)
    | none, some n => if inRange n then pure (.integer n, rest) else none
    | none, none => if isFraction word then pure (.fraction, rest) else none

end ApiUnion.Toml
