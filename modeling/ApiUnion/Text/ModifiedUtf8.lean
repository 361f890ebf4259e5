-- Modified UTF-8, the text encoding of class files: the UTF-16 units of a text, each written alone
-- in one, two or three bytes. NUL takes two bytes, so that no byte is zero, and a supplementary
-- character takes the six bytes of its two surrogates.

namespace ApiUnion.ModifiedUtf8

-- The UTF-16 units of a character.
def units (c : Char) : List Nat :=
  if c.toNat < 0x10000 then [c.toNat]
  else [0xD800 + (c.toNat - 0x10000) / 0x400, 0xDC00 + (c.toNat - 0x10000) % 0x400]

-- The group of bytes that stands for one unit.
def group (unit : Nat) : List UInt8 :=
  if 0 < unit ∧ unit < 0x80 then [UInt8.ofNat unit]
  else if unit < 0x800 then
    [UInt8.ofNat (0xC0 + unit / 0x40), UInt8.ofNat (0x80 + unit % 0x40)]
  else
    [UInt8.ofNat (0xE0 + unit / 0x1000), UInt8.ofNat (0x80 + unit / 0x40 % 0x40),
      UInt8.ofNat (0x80 + unit % 0x40)]

def encode (text : String) : List UInt8 :=
  text.toList.flatMap fun c => (units c).flatMap group

def isTail (byte : UInt8) : Bool :=
  byte.toNat / 0x40 == 2

-- The units of a byte text, found so far first. Overlong groups are read like any other; a zero
-- byte, a missing or misplaced tail and a byte that starts no group are refused.
def splitUnits? : List Nat → List UInt8 → Option (List Nat)
  | found, [] => some found.reverse
  | found, a :: rest =>
    if a.toNat < 0x80 then
      if a.toNat = 0 then none else splitUnits? (a.toNat :: found) rest
    else if a.toNat / 0x20 = 6 then
      match rest with
      | b :: rest =>
        if isTail b then
          splitUnits? ((a.toNat % 0x20 * 0x40 + b.toNat % 0x40) :: found) rest
        else none
      | [] => none
    else if a.toNat / 0x10 = 14 then
      match rest with
      | b :: c :: rest =>
        if isTail b && isTail c then
          splitUnits?
            ((a.toNat % 0x10 * 0x1000 + b.toNat % 0x40 * 0x40 + c.toNat % 0x40) :: found) rest
        else none
      | _ => none
    else none

def isHighSurrogate (unit : Nat) : Bool :=
  unit / 0x400 == 0x36

def isLowSurrogate (unit : Nat) : Bool :=
  unit / 0x400 == 0x37

-- The characters of a sequence of units, in which every surrogate has to be paired.
def pairUnits? : List Char → List Nat → Option (List Char)
  | found, [] => some found.reverse
  | found, unit :: rest =>
    if isHighSurrogate unit then
      match rest with
      | low :: rest =>
        if isLowSurrogate low then
          pairUnits? (Char.ofNat (0x10000 + unit % 0x400 * 0x400 + low % 0x400) :: found) rest
        else none
      | [] => none
    else if isLowSurrogate unit then none
    else pairUnits? (Char.ofNat unit :: found) rest

def decode? (bytes : List UInt8) : Option String := do
  let units ← splitUnits? [] bytes
  let chars ← pairUnits? [] units
  pure (String.ofList chars)

end ApiUnion.ModifiedUtf8
