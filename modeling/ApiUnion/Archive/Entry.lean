import ApiUnion.Archive.Bytes
import ApiUnion.Archive.Checksum
import ApiUnion.Archive.Name

-- Entries of archives: what the directory says of a file, and the bytes of the file behind its
-- header.

namespace ApiUnion.Archive

-- How the bytes of a file are kept.
inductive Method
  | stored
  | deflated
  | ciphered
  | unknown (code : Nat)
deriving DecidableEq, Repr

def Method.ofCode : Nat → Method
  | 0 => stored
  | 8 => deflated
  | 99 => ciphered
  | code => unknown code

structure Entry where
  name : String
  -- The name as it stands in the directory.
  nameBytes : List UInt8
  comment : String
  isEncrypted : Bool
  -- Whether it is known which cipher was used.
  hasCipher : Bool
  method : Method
  checksum : UInt32
  -- The number of bytes in the archive, and of those they stand for.
  storedSize : Nat
  size : Nat
  -- The offset of the header.
  header : Nat
  isLink : Bool
deriving Repr

def headerSignature : Nat := 0x04034b50

inductive Fault
  | unreadable
  | corrupt
deriving DecidableEq, Repr

namespace Entry

def isDirectory (entry : Entry) : Bool :=
  entry.name.toList.getLast? = some '/' || entry.name.toList.getLast? = some '\\'

def isFile (entry : Entry) : Bool :=
  !entry.isDirectory && !entry.isLink

-- The offset of the stored bytes, behind the header.
def start? (bytes : List UInt8) (entry : Entry) : Option Nat := do
  let nameLength ← field? bytes (entry.header + 26) 2
  let extraLength ← field? bytes (entry.header + 28) 2
  if (← field? bytes entry.header 4) = headerSignature then
    pure (entry.header + 30 + nameLength + extraLength)
  else none

def isReadable (bytes : List UInt8) (entry : Entry) : Bool :=
  !entry.isEncrypted && !entry.hasCipher && [.stored, .deflated].contains entry.method &&
    (entry.start? bytes).isSome

-- The bytes of a file that is stored as it is, which have to match the check sum. They end where
-- the archive does at the latest.
def contents (bytes : List UInt8) (entry : Entry) : Except Fault (List UInt8) :=
  match entry.start? bytes with
  | none => .error .unreadable
  | some start =>
    let stored := (bytes.drop start).take entry.storedSize
    if entry.method = .stored && Archive.checksum stored = entry.checksum then .ok stored
    else .error .corrupt

end Entry

end ApiUnion.Archive
