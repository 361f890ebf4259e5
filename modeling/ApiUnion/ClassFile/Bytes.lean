import ApiUnion.ClassFile.Error

-- The bytes of a class file: big-endian numbers of one, two, four and eight bytes, written as
-- lists, and readers that take them off the front of the input.

namespace ApiUnion

namespace Bytes

-- The lowest `width` bytes of a number, the highest of them first.
def bigEndian : Nat → Nat → List UInt8
  | 0, _ => []
  | width + 1, n => bigEndian width (n / 0x100) ++ [UInt8.ofNat n]

def u1 (n : UInt8) : List UInt8 :=
  [n]

def u2 (n : UInt16) : List UInt8 :=
  bigEndian 2 n.toNat

def u4 (n : UInt32) : List UInt8 :=
  bigEndian 4 n.toNat

def u8 (n : UInt64) : List UInt8 :=
  bigEndian 8 n.toNat

-- The number whose big-endian bytes these are.
def toNat (bytes : List UInt8) : Nat :=
  bytes.foldl (fun n byte => n * 0x100 + byte.toNat) 0

end Bytes

-- A reader takes a prefix of the input and leaves the rest.
abbrev Reader := StateT (List UInt8) (Except ClassFileError)

namespace Reader

def fail {α : Type} (error : ClassFileError) : Reader α :=
  throw error

-- Exactly `count` bytes.
def take (count : Nat) : Reader (List UInt8) := fun input =>
  let taken := input.take count
  if taken.length = count then .ok (taken, input.drop count) else .error .unexpectedEnd

def u1 : Reader UInt8 := do
  let bytes ← take 1
  pure (UInt8.ofNat (Bytes.toNat bytes))

def u2 : Reader UInt16 := do
  let bytes ← take 2
  pure (UInt16.ofNat (Bytes.toNat bytes))

def u4 : Reader UInt32 := do
  let bytes ← take 4
  pure (UInt32.ofNat (Bytes.toNat bytes))

def u8 : Reader UInt64 := do
  let bytes ← take 8
  pure (UInt64.ofNat (Bytes.toNat bytes))

-- Nothing may follow.
def finish (what : String) : Reader Unit := fun input =>
  if input.isEmpty then .ok ((), input) else .error (.trailingBytes what)

-- An item read `count` times, after those already found, which stand in reverse.
def timesAfter {α : Type} (item : Reader α) : Nat → List α → Reader (List α)
  | 0, found, input => .ok (found.reverse, input)
  | count + 1, found, input =>
    match item input with
    | .ok (value, rest) => timesAfter item count (value :: found) rest
    | .error error => .error error

def times {α : Type} (count : Nat) (item : Reader α) : Reader (List α) :=
  timesAfter item count []

-- A value that has to be there.
def lift {α : Type} (value : Except ClassFileError α) : Reader α := fun input =>
  match value with
  | .ok value => .ok (value, input)
  | .error error => .error error

-- A reader run on bytes of its own, all of which it has to use.
def within {α : Type} (bytes : List UInt8) (what : String) (item : Reader α) :
    Except ClassFileError α :=
  match (do let value ← item; finish what; pure value : Reader α) bytes with
  | .ok (value, _) => .ok value
  | .error error => .error error

end Reader

end ApiUnion
