import Std.Data.HashMap
import ApiUnion.ClassFile.Pool

-- Building a constant pool: each entry is numbered when it is first asked for, and asking again
-- gives the same number. Requests for a class, a string or a reference intern their parts first.

namespace ApiUnion

-- `entries` are in order of their numbers, `numbers` inverts them, and `next` is the first number
-- that is free.
structure PoolBuilder where
  entries : Array PoolEntry
  numbers : Std.HashMap PoolEntry UInt16
  next : Nat

-- The builder survives a refused request, as a refused request changes nothing of its own.
abbrev Interning := ExceptT ClassFileError (StateM PoolBuilder)

namespace PoolBuilder

def empty : PoolBuilder :=
  ⟨#[], ∅, 1⟩

def push (builder : PoolBuilder) (entry : PoolEntry) : PoolBuilder where
  entries := builder.entries.push entry
  numbers := builder.numbers.insert entry (UInt16.ofNat builder.next)
  next := builder.next + entry.slots

-- The number of an entry. Numbers are two bytes, and the count of them, which is the next free
-- number, has to fit there too.
def intern (entry : PoolEntry) : Interning UInt16 := fun builder =>
  match builder.numbers[entry]? with
  | some number => (.ok number, builder)
  | none =>
    if builder.next + entry.slots ≤ 0xFFFF then
      (.ok (UInt16.ofNat builder.next), builder.push entry)
    else (.error .poolOverflow, builder)

def utf8 (text : String) : Interning UInt16 :=
  intern (.utf8 text)

def «class» (name : String) : Interning UInt16 := do
  intern (.class (← utf8 name))

def string (text : String) : Interning UInt16 := do
  intern (.string (← utf8 text))

def integer (value : Int32) : Interning UInt16 :=
  intern (.integer value)

def float (bits : UInt32) : Interning UInt16 :=
  intern (.float bits)

def long (value : Int64) : Interning UInt16 :=
  intern (.long value)

def double (bits : UInt64) : Interning UInt16 :=
  intern (.double bits)

def nameAndType (name descriptor : String) : Interning UInt16 := do
  let name ← utf8 name
  let descriptor ← utf8 descriptor
  intern (.nameAndType name descriptor)

def methodref (owner name descriptor : String) : Interning UInt16 := do
  let owner ← «class» owner
  let nameAndType ← nameAndType name descriptor
  intern (.methodref owner nameAndType)

-- Absent names are written as zero.
def class? : Option String → Interning UInt16
  | none => pure 0
  | some name => «class» name

def utf8? : Option String → Interning UInt16
  | none => pure 0
  | some text => utf8 text

-- Every text has to fit the two bytes of its length.
def checkLengths (builder : PoolBuilder) : Except ClassFileError Unit :=
  let fits : PoolEntry → Bool
    | .utf8 text => (ModifiedUtf8.encode text).length ≤ 0xFFFF
    | _ => true
  if builder.entries.all fits then .ok () else .error (.tooLarge "Utf8 constant")

def bytes (builder : PoolBuilder) : List UInt8 :=
  Bytes.u2 (UInt16.ofNat builder.next) ++ builder.entries.toList.flatMap PoolEntry.bytes

end PoolBuilder

end ApiUnion
