-- Numbers and signatures among the bytes of an archive. The lowest byte of a number stands first.

namespace ApiUnion.Archive

def number (bytes : List UInt8) : Nat :=
  bytes.foldr (fun byte n => n * 0x100 + byte.toNat) 0

def slice? (bytes : List UInt8) (offset length : Nat) : Option (List UInt8) :=
  let taken := (bytes.drop offset).take length
  if taken.length = length then some taken else none

-- The number of some bytes at an offset.
def field? (bytes : List UInt8) (offset width : Nat) : Option Nat :=
  (slice? bytes offset width).map number

-- The offsets at which a signature stands, the last one first.
private def offsetsFrom (signature : Nat) : Nat → List UInt8 → List Nat → List Nat
  | _, [], found => found
  | offset, byte :: rest, found =>
    let here := field? (byte :: rest) 0 4 = some signature
    offsetsFrom signature (offset + 1) rest (if here then offset :: found else found)

def offsetsOf (signature : Nat) (bytes : List UInt8) : List Nat :=
  offsetsFrom signature 0 bytes []

end ApiUnion.Archive
