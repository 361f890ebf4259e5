-- The check sum of archives: the remainder of the bytes, as a polynomial over two elements, with
-- the lowest bit of each byte first.

namespace ApiUnion.Archive

def polynomial : UInt32 := 0xedb88320

def bitStep (sum : UInt32) : UInt32 :=
  if sum &&& 1 = 1 then (sum >>> 1) ^^^ polynomial else sum >>> 1

def byteStep (sum : UInt32) (byte : UInt8) : UInt32 :=
  Nat.repeat bitStep 8 (sum ^^^ byte.toUInt32)

def checksum (bytes : List UInt8) : UInt32 :=
  bytes.foldl byteStep 0xffffffff ^^^ 0xffffffff

end ApiUnion.Archive
