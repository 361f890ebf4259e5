-- Text from bytes that may not all be text. Each run of bytes that begins a character and then
-- breaks off, and each byte that begins none, gives one replacement character.

namespace ApiUnion.Text

def replacement : Char := '\ufffd'

-- How a character goes on behind its first byte: the bits that the byte gives, the bounds of the
-- second byte, and how many bytes follow.
private def leadOf? (byte : Nat) : Option (Nat × Nat × Nat × Nat) :=
  if 0xC2 ≤ byte && byte ≤ 0xDF then some (byte - 0xC0, 0x80, 0xBF, 1)
  else if byte = 0xE0 then some (0, 0xA0, 0xBF, 2)
  else if byte = 0xED then some (0xD, 0x80, 0x9F, 2)
  else if 0xE1 ≤ byte && byte ≤ 0xEF then some (byte - 0xE0, 0x80, 0xBF, 2)
  else if byte = 0xF0 then some (0, 0x90, 0xBF, 3)
  else if 0xF1 ≤ byte && byte ≤ 0xF3 then some (byte - 0xF0, 0x80, 0xBF, 3)
  else if byte = 0xF4 then some (4, 0x80, 0x8F, 3)
  else none

-- A character of which some bytes have been read, the bounds of the next byte, and how many are
-- left.
structure PartialChar where
  bits : Nat
  low : Nat
  high : Nat
  left : Nat

private def firstByte (byte : UInt8) : List Char × Option PartialChar :=
  if byte < 0x80 then ([Char.ofNat byte.toNat], none)
  else
    match leadOf? byte.toNat with
    | some (bits, low, high, left) => ([], some ⟨bits, low, high, left⟩)
    | none => ([replacement], none)

private def decodeFrom (pending : Option PartialChar) : List UInt8 → List Char
  | [] => if pending.isSome then [replacement] else []
  | byte :: rest =>
    match pending with
    | none =>
      let (found, next) := firstByte byte
      found ++ decodeFrom next rest
    | some c =>
      if c.low ≤ byte.toNat && byte.toNat ≤ c.high then
        let bits := c.bits * 0x40 + byte.toNat % 0x40
        if c.left ≤ 1 then Char.ofNat bits :: decodeFrom none rest
        else decodeFrom (some ⟨bits, 0x80, 0xBF, c.left - 1⟩) rest
      else
        let (found, next) := firstByte byte
        replacement :: found ++ decodeFrom next rest

def decodeUtf8 (bytes : List UInt8) : String :=
  String.ofList (decodeFrom none bytes)

end ApiUnion.Text
