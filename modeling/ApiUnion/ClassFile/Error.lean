-- Why a class file cannot be read or written.

namespace ApiUnion

-- The entries of a constant pool, by the names that the class file format gives them.
inductive PoolKind
  | utf8 | integer | float | long | double | «class» | string | fieldref | methodref
  | interfaceMethodref | nameAndType | methodHandle | methodType | dynamic | invokeDynamic
  | module | package | unusable
deriving DecidableEq, Repr

def PoolKind.name : PoolKind → String
  | utf8 => "Utf8"
  | integer => "Integer"
  | float => "Float"
  | long => "Long"
  | double => "Double"
  | .class => "Class"
  | string => "String"
  | fieldref => "Fieldref"
  | methodref => "Methodref"
  | interfaceMethodref => "InterfaceMethodref"
  | nameAndType => "NameAndType"
  | methodHandle => "MethodHandle"
  | methodType => "MethodType"
  | dynamic => "Dynamic"
  | invokeDynamic => "InvokeDynamic"
  | module => "Module"
  | package => "Package"
  | unusable => "Unusable"

inductive ClassFileError
  | unexpectedEnd
  | invalidMagic (magic : UInt32)
  | invalidPoolIndex (index : UInt16)
  | invalidPoolTag (tag : UInt8)
  | poolMismatch (index : UInt16) (expected found : PoolKind)
  | invalidText
  | invalidDescriptor (text : String)
  | invalidSignature (text : String)
  | malformed (what : String)
  | trailingBytes (what : String)
  | poolOverflow
  | tooLarge (what : String)
  -- This one is not returned. The program stops at the addition.
  | additionOverflow
deriving DecidableEq, Repr

-- A number in lower-case hexadecimal, with zeros in front up to the width.
def hexDigits (width n : Nat) : String :=
  let digits := Nat.toDigits 16 n
  String.ofList (List.replicate (width - digits.length) '0' ++ digits)

def ClassFileError.message : ClassFileError → String
  | unexpectedEnd => "unexpected end of input"
  | invalidMagic magic => "invalid classfile magic: 0x" ++ hexDigits 8 magic.toNat
  | invalidPoolIndex index => s!"invalid constant pool index: {index.toNat}"
  | invalidPoolTag tag => s!"invalid constant pool tag: {tag.toNat}"
  | poolMismatch index expected found =>
    s!"constant pool type mismatch at index {index.toNat}: expected {expected.name}, " ++
      s!"found {found.name}"
  | invalidText => "invalid modified UTF-8 constant"
  | invalidDescriptor text => "invalid descriptor: " ++ text
  | invalidSignature text => "invalid signature: " ++ text
  | malformed what => s!"malformed {what} attribute"
  | trailingBytes what => "trailing bytes after " ++ what
  | poolOverflow => "constant pool overflow: more than 65535 entries"
  | tooLarge what => what ++ " does not fit in a u2 length"
  | additionOverflow => "attempt to add with overflow"

end ApiUnion
