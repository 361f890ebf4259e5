import ApiUnion.Text.Blank

-- The smallest parts of patterns: characters and escapes. Patterns are regular expressions for the
-- values of fields. A filter keeps a pattern as it is written, so all there is to know is whether
-- it can be used. It stands between braces, hence has no closing brace, and so neither a counted
-- repetition nor an escape with braces can end. Characters are matched by their code points,
-- without tables of scripts: what would need one is refused.

namespace ApiUnion.LogPattern

-- How many parts of a pattern may stand within each other.
def maxDepth : Nat := 250

structure Flags where
  ignoresCase : Bool := false
  -- Characters are matched, not bytes.
  isUnicode : Bool := true
  isSpaced : Bool := false

-- Whether characters may be named at all. Both cases of a letter are known in ASCII alone.
def Flags.allowsChars (flags : Flags) : Bool :=
  !(flags.ignoresCase && flags.isUnicode)

-- Whether a set may be turned around. Among bytes, it would have some that are no characters.
def Flags.allowsNegation (flags : Flags) : Bool :=
  flags.isUnicode

-- Blanks and comments, up to the end of a line, are for the reader if the flags say so.
private def dropSpace (inComment : Bool) : List Char → List Char
  | [] => []
  | c :: rest =>
    if inComment then dropSpace (c ≠ '\n') rest
    else if Text.isBlank c then dropSpace false rest
    else if c = '#' then dropSpace true rest
    else c :: rest

def skipSpace (flags : Flags) (text : List Char) : List Char :=
  if flags.isSpaced then dropSpace false text else text

-- The next character. Blanks are looked over if the flags say so, and one mark of a comment, but
-- not the comment.
def peek? (flags : Flags) (text : List Char) : Option Char :=
  if flags.isSpaced then
    match text.dropWhile Text.isBlank with
    | '#' :: rest => (rest.dropWhile Text.isBlank).head?
    | rest => rest.head?
  else text.head?

-- What one character or one escape stands for.
inductive Atom
  | char (c : Char)
  | set
  | boundary
deriving DecidableEq, Repr

private def hexValue? (c : Char) : Option Nat :=
  if c.isDigit then some (c.toNat - '0'.toNat)
  else if 'a' ≤ c && c ≤ 'f' then some (c.toNat - 'a'.toNat + 10)
  else if 'A' ≤ c && c ≤ 'F' then some (c.toNat - 'A'.toNat + 10)
  else none

-- So many hexadecimal digits, behind those that have a value already.
private def hexDigits? (flags : Flags) : Nat → Nat → List Char → Option (Nat × List Char)
  | 0, value, text => some (value, text)
  | count + 1, value, text =>
    match skipSpace flags text with
    | [] => none
    | c :: rest => do hexDigits? flags count (16 * value + (← hexValue? c)) rest

-- A character by its code point in so many digits. Two of them are a byte among bytes, which has to
-- be a character.
private def codePoint? (flags : Flags) (count : Nat) (text : List Char) :
    Option (Atom × List Char) := do
  let (value, rest) ← hexDigits? flags count 0 text
  if !value.isValidChar || (!flags.isUnicode && count = 2 && 0x80 ≤ value) then none
  else some (.char (Char.ofNat value), rest)

-- An escape behind its backslash.
def escape? (flags : Flags) : List Char → Option (Atom × List Char)
  | [] => none
  | c :: rest =>
    match c with
    | 'a' => some (.char '\x07', rest)
    | 'f' => some (.char '\x0c', rest)
    | 't' => some (.char '\t', rest)
    | 'n' => some (.char '\n', rest)
    | 'r' => some (.char '\r', rest)
    | 'v' => some (.char '\x0b', rest)
    | 'x' => codePoint? flags 2 rest
    | 'u' => codePoint? flags 4 rest
    | 'U' => codePoint? flags 8 rest
    | 'A' | 'z' => some (.boundary, rest)
    | 'b' | 'B' | '<' | '>' => if flags.isUnicode then none else some (.boundary, rest)
    | 'd' | 's' | 'w' => if flags.isUnicode then none else some (.set, rest)
    | c => if c.toNat < 0x80 && !c.isAlphanum then some (.char c, rest) else none

-- Parts in a row or side by side are one deeper than the deepest of them, a part alone is not.
def depthOf : List Nat → Nat
  | [] => 0
  | [depth] => depth
  | depths => 1 + depths.foldl max 0

end ApiUnion.LogPattern
