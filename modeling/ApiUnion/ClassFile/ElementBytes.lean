import ApiUnion.ClassFile.Basic
import ApiUnion.ClassFile.PoolBuilder

-- Annotations in class files: the bytes of their element values, and the reader of them.

namespace ApiUnion

namespace Interning

-- The two bytes of a length, if it fits there.
def length (count : Nat) (what : String) : Interning (List UInt8) :=
  if count ≤ 0xFFFF then pure (Bytes.u2 (UInt16.ofNat count)) else throw (.tooLarge what)

-- What is written for each item, one after another.
def each {α : Type} (items : List α) (write : α → Interning (List UInt8)) :
    Interning (List UInt8) := do
  pure (← items.mapM write).flatten

def u2 (number : Interning UInt16) : Interning (List UInt8) := do
  pure (Bytes.u2 (← number))

end Interning

namespace Constant

-- The letter that announces a constant of this type.
def letter : Constant → Char
  | byte _ => 'B'
  | char _ => 'C'
  | short _ => 'S'
  | int _ => 'I'
  | long _ => 'J'
  | float _ => 'F'
  | double _ => 'D'
  | boolean _ => 'Z'
  | string _ => 's'

-- The integer entry that holds a value, for the types that have one.
def integer? : Constant → Option Int32
  | byte value => some value.toInt32
  | char value => some value.val.toInt32
  | short value => some value.toInt32
  | int value => some value
  | boolean value => some (if value then 1 else 0)
  | long _ | float _ | double _ | string _ => none

-- Annotations refer to the text of a string directly.
def internElement : Constant → Interning UInt16
  | long value => PoolBuilder.long value
  | float bits => PoolBuilder.float bits
  | double bits => PoolBuilder.double bits
  | string text => PoolBuilder.utf8 text
  | value => PoolBuilder.integer (value.integer?.getD 0)

-- Fields refer to a string entry.
def internField : Constant → Interning UInt16
  | string text => PoolBuilder.string text
  | value => value.internElement

def fromInteger (value : Int32 → Except ClassFileError Constant) (pool : Pool)
    (index : UInt16) : Except ClassFileError Constant := do
  match ← pool.get index with
  | .integer n => value n
  | entry => .error (.poolMismatch index .integer entry.kind)

def charOfInteger (n : Int32) : Except ClassFileError Constant :=
  if h : n.toUInt32.isValidChar then .ok (char ⟨n.toUInt32, h⟩)
  else .error (.malformed "char element value")

def fromLong (pool : Pool) (index : UInt16) : Except ClassFileError Constant := do
  match ← pool.get index with
  | .long value => .ok (long value)
  | entry => .error (.poolMismatch index .long entry.kind)

def fromFloat (pool : Pool) (index : UInt16) : Except ClassFileError Constant := do
  match ← pool.get index with
  | .float bits => .ok (float bits)
  | entry => .error (.poolMismatch index .float entry.kind)

def fromDouble (pool : Pool) (index : UInt16) : Except ClassFileError Constant := do
  match ← pool.get index with
  | .double bits => .ok (double bits)
  | entry => .error (.poolMismatch index .double entry.kind)

-- How the constant that a letter announces is looked up. Narrow integers drop the high bits, and a
-- character has to be a Unicode scalar value.
def ofPool? : Char → Option (Pool → UInt16 → Except ClassFileError Constant)
  | 's' => some fun pool index => (pool.text index).map string
  | 'B' => some (fromInteger fun n => .ok (byte n.toInt8))
  | 'S' => some (fromInteger fun n => .ok (short n.toInt16))
  | 'I' => some (fromInteger fun n => .ok (int n))
  | 'Z' => some (fromInteger fun n => .ok (boolean (n != 0)))
  | 'C' => some (fromInteger charOfInteger)
  | 'J' => some fromLong
  | 'F' => some fromFloat
  | 'D' => some fromDouble
  | _ => none

-- The constant of a field. Narrow types are written as integers and read back as such.
def ofField (pool : Pool) (index : UInt16) : Except ClassFileError Constant := do
  match ← pool.get index with
  | .integer value => .ok (int value)
  | .float bits => .ok (float bits)
  | .long value => .ok (long value)
  | .double bits => .ok (double bits)
  | .string text => (pool.text text).map string
  | _ => .error (.malformed "ConstantValue")

end Constant

def tagByte (letter : Char) : List UInt8 :=
  [UInt8.ofNat letter.toNat]

-- Lists are written from the front, with the pieces that are done kept in reverse.
mutual

def ElementValue.write : ElementValue → Interning (List UInt8)
  | .constant value => do
    pure (tagByte value.letter ++ (← Interning.u2 value.internElement))
  | .enumConstant type name => do
    let type ← Interning.u2 (PoolBuilder.utf8 type)
    let name ← Interning.u2 (PoolBuilder.utf8 name)
    pure (tagByte 'e' ++ type ++ name)
  | .classLiteral descriptor => do
    pure (tagByte 'c' ++ (← Interning.u2 (PoolBuilder.utf8 descriptor)))
  | .nested value => do
    pure (tagByte '@' ++ (← value.write))
  | .array values => do
    let length ← Interning.length values.length "annotation array"
    pure (tagByte '[' ++ length ++ (← writeValues [] values))

def AnnotationValue.write : AnnotationValue → Interning (List UInt8)
  | ⟨type, elements, _⟩ => do
    let type ← Interning.u2 (PoolBuilder.utf8 type)
    let length ← Interning.length elements.length "annotation elements"
    pure (type ++ length ++ (← writeElements [] elements))

def writeValues : List (List UInt8) → List ElementValue → Interning (List UInt8)
  | done, [] => pure done.reverse.flatten
  | done, value :: rest => do
    let bytes ← value.write
    writeValues (bytes :: done) rest

def writeElements : List (List UInt8) → List (String × ElementValue) → Interning (List UInt8)
  | done, [] => pure done.reverse.flatten
  | done, (name, value) :: rest => do
    let name ← Interning.u2 (PoolBuilder.utf8 name)
    let bytes ← value.write
    writeElements ((name ++ bytes) :: done) rest

end

-- A counted list of annotations.
def writeAnnotations (annotations : List AnnotationValue) (what : String) :
    Interning (List UInt8) := do
  let length ← Interning.length annotations.length what
  pure (length ++ (← Interning.each annotations AnnotationValue.write))

namespace Reader

-- An entry of the pool, looked up by `find` under the next two bytes.
def pooled {α : Type} (find : UInt16 → Except ClassFileError α) : Reader α := do
  lift (find (← u2))

def element (pool : Pool) (value : Reader ElementValue) : Reader (String × ElementValue) := do
  let name ← pooled pool.text
  pure (name, ← value)

def annotationValue (pool : Pool) (value : Reader ElementValue) : Reader AnnotationValue := do
  let type ← pooled pool.text
  let count ← u2
  let elements ← times count.toNat (element pool value)
  pure { type, elements }

def constantValue (pool : Pool) (letter : Char) : Reader ElementValue := do
  match Constant.ofPool? letter with
  | some find => return .constant (← pooled (find pool))
  | none => fail (.malformed "element_value tag")

-- An element value. Each level of nesting takes a byte, so the number of bytes at hand bounds the
-- depth.
def elementValue (pool : Pool) : Nat → Reader ElementValue
  | 0 => fail .unexpectedEnd
  | depth + 1 => do
    let letter := Char.ofNat (← u1).toNat
    match letter with
    | 'e' =>
      let type ← pooled pool.text
      return .enumConstant type (← pooled pool.text)
    | 'c' => return .classLiteral (← pooled pool.text)
    | '@' => return .nested (← annotationValue pool (elementValue pool depth))
    | '[' =>
      let count ← u2
      return .array (← times count.toNat (elementValue pool depth))
    | _ => constantValue pool letter

def annotations (pool : Pool) (depth : Nat) : Reader (List AnnotationValue) := do
  let count ← u2
  times count.toNat (annotationValue pool (elementValue pool depth))

def parameterAnnotations (pool : Pool) (depth : Nat) : Reader (List (List AnnotationValue)) := do
  let count ← u1
  times count.toNat (annotations pool depth)

end Reader

end ApiUnion
