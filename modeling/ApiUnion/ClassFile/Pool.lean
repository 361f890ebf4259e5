import ApiUnion.ClassFile.Bytes
import ApiUnion.Text.ModifiedUtf8

-- The constant pool of a class file: numbered entries that the rest of the file refers to. Numbers
-- start at one, and a long or double takes two of them, of which the second refers to nothing.

namespace ApiUnion

inductive PoolEntry
  | utf8 (text : String)
  | integer (value : Int32)
  | float (bits : UInt32)
  | long (value : Int64)
  | double (bits : UInt64)
  | «class» (name : UInt16)
  | string (text : UInt16)
  | fieldref (owner member : UInt16)
  | methodref (owner member : UInt16)
  | interfaceMethodref (owner member : UInt16)
  | nameAndType (name descriptor : UInt16)
  | methodHandle (kind : UInt8) (reference : UInt16)
  | methodType (descriptor : UInt16)
  | dynamic (bootstrap member : UInt16)
  | invokeDynamic (bootstrap member : UInt16)
  | module (name : UInt16)
  | package (name : UInt16)
  | unusable
deriving DecidableEq, Hashable, Repr

namespace PoolEntry

def kind : PoolEntry → PoolKind
  | utf8 _ => .utf8
  | integer _ => .integer
  | float _ => .float
  | long _ => .long
  | double _ => .double
  | .class _ => .class
  | string _ => .string
  | fieldref .. => .fieldref
  | methodref .. => .methodref
  | interfaceMethodref .. => .interfaceMethodref
  | nameAndType .. => .nameAndType
  | methodHandle .. => .methodHandle
  | methodType _ => .methodType
  | dynamic .. => .dynamic
  | invokeDynamic .. => .invokeDynamic
  | module _ => .module
  | package _ => .package
  | unusable => .unusable

def isWide : PoolEntry → Bool
  | long _ | double _ => true
  | _ => false

def slots (entry : PoolEntry) : Nat :=
  if entry.isWide then 2 else 1

def bytes : PoolEntry → List UInt8
  | utf8 text =>
    let encoded := ModifiedUtf8.encode text
    Bytes.u1 1 ++ Bytes.u2 (UInt16.ofNat encoded.length) ++ encoded
  | integer value => Bytes.u1 3 ++ Bytes.u4 value.toUInt32
  | float bits => Bytes.u1 4 ++ Bytes.u4 bits
  | long value => Bytes.u1 5 ++ Bytes.u8 value.toUInt64
  | double bits => Bytes.u1 6 ++ Bytes.u8 bits
  | .class name => Bytes.u1 7 ++ Bytes.u2 name
  | string text => Bytes.u1 8 ++ Bytes.u2 text
  | fieldref owner member => Bytes.u1 9 ++ Bytes.u2 owner ++ Bytes.u2 member
  | methodref owner member => Bytes.u1 10 ++ Bytes.u2 owner ++ Bytes.u2 member
  | interfaceMethodref owner member => Bytes.u1 11 ++ Bytes.u2 owner ++ Bytes.u2 member
  | nameAndType name descriptor => Bytes.u1 12 ++ Bytes.u2 name ++ Bytes.u2 descriptor
  | methodHandle kind reference => Bytes.u1 15 ++ Bytes.u1 kind ++ Bytes.u2 reference
  | methodType descriptor => Bytes.u1 16 ++ Bytes.u2 descriptor
  | dynamic bootstrap member => Bytes.u1 17 ++ Bytes.u2 bootstrap ++ Bytes.u2 member
  | invokeDynamic bootstrap member => Bytes.u1 18 ++ Bytes.u2 bootstrap ++ Bytes.u2 member
  | module name => Bytes.u1 19 ++ Bytes.u2 name
  | package name => Bytes.u1 20 ++ Bytes.u2 name
  | unusable => []

def readPair (entry : UInt16 → UInt16 → PoolEntry) : Reader PoolEntry := do
  let first ← Reader.u2
  let second ← Reader.u2
  pure (entry first second)

def read : Reader PoolEntry := do
  match ← Reader.u1 with
  | 1 =>
    let encoded ← Reader.take (← Reader.u2).toNat
    match ModifiedUtf8.decode? encoded with
    | some text => pure (utf8 text)
    | none => Reader.fail .invalidText
  | 3 => return integer (← Reader.u4).toInt32
  | 4 => return float (← Reader.u4)
  | 5 => return long (← Reader.u8).toInt64
  | 6 => return double (← Reader.u8)
  | 7 => return .class (← Reader.u2)
  | 8 => return string (← Reader.u2)
  | 9 => readPair fieldref
  | 10 => readPair methodref
  | 11 => readPair interfaceMethodref
  | 12 => readPair nameAndType
  | 15 => return methodHandle (← Reader.u1) (← Reader.u2)
  | 16 => return methodType (← Reader.u2)
  | 17 => readPair dynamic
  | 18 => readPair invokeDynamic
  | 19 => return module (← Reader.u2)
  | 20 => return package (← Reader.u2)
  | tag => Reader.fail (.invalidPoolTag tag)

end PoolEntry

-- `entries[0]` stands for no entry, like the second number of a long or double.
structure Pool where
  entries : Array PoolEntry

namespace Pool

-- Entries read until `count` numbers are taken. A long or double at the end takes one more.
def readEntries (count : Nat) : Nat → Array PoolEntry → Reader (Array PoolEntry)
  | 0, entries => pure entries
  | fuel + 1, entries =>
    if entries.size < count then do
      let entry ← PoolEntry.read
      let entries := entries.push entry
      readEntries count fuel (if entry.isWide then entries.push .unusable else entries)
    else pure entries

def read : Reader Pool := do
  let count ← Reader.u2
  return ⟨← readEntries count.toNat count.toNat #[.unusable]⟩

def get (pool : Pool) (index : UInt16) : Except ClassFileError PoolEntry :=
  match pool.entries[index.toNat]? with
  | none | some .unusable => .error (.invalidPoolIndex index)
  | some entry => .ok entry

def text (pool : Pool) (index : UInt16) : Except ClassFileError String := do
  match ← pool.get index with
  | .utf8 text => .ok text
  | entry => .error (.poolMismatch index .utf8 entry.kind)

def className (pool : Pool) (index : UInt16) : Except ClassFileError String := do
  match ← pool.get index with
  | .class name => pool.text name
  | entry => .error (.poolMismatch index .class entry.kind)

def nameAndType (pool : Pool) (index : UInt16) : Except ClassFileError (String × String) := do
  match ← pool.get index with
  | .nameAndType name descriptor => return (← pool.text name, ← pool.text descriptor)
  | entry => .error (.poolMismatch index .nameAndType entry.kind)

-- Index zero stands for an absent name.
def className? (pool : Pool) (index : UInt16) : Except ClassFileError (Option String) :=
  if index = 0 then .ok none else (pool.className index).map some

def text? (pool : Pool) (index : UInt16) : Except ClassFileError (Option String) :=
  if index = 0 then .ok none else (pool.text index).map some

end Pool

end ApiUnion
