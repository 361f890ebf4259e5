-- Descriptors: the erased types that a class file writes for its members, their printed form, and
-- the local variable slots that their values take.

namespace ApiUnion

-- A sum in sixteen bits, if it fits.
def checkedAdd? (a b : UInt16) : Option UInt16 :=
  if a.toNat + b.toNat ≤ 0xFFFF then some (a + b) else none

inductive BaseType
  | byte | char | double | float | int | long | short | boolean
deriving DecidableEq, Repr

namespace BaseType

def letter : BaseType → Char
  | byte => 'B'
  | char => 'C'
  | double => 'D'
  | float => 'F'
  | int => 'I'
  | long => 'J'
  | short => 'S'
  | boolean => 'Z'

def ofLetter? : Char → Option BaseType
  | 'B' => some byte
  | 'C' => some char
  | 'D' => some double
  | 'F' => some float
  | 'I' => some int
  | 'J' => some long
  | 'S' => some short
  | 'Z' => some boolean
  | _ => none

def slots : BaseType → UInt16
  | long | double => 2
  | _ => 1

theorem ofLetter?_letter (b : BaseType) : ofLetter? b.letter = some b := by
  cases b <;> rfl

end BaseType

inductive FieldType
  | base (type : BaseType)
  | object (name : String)
  | array (component : FieldType)
deriving DecidableEq, Repr

-- `none` as result is void.
structure MethodType where
  parameters : List FieldType
  result : Option FieldType
deriving DecidableEq, Repr

-- The text up to the first `stop`, which has to occur, and the text after it.
def cutAt? (stop : Char) (text : List Char) : Option (List Char × List Char) :=
  match text.dropWhile (· != stop) with
  | [] => none
  | _ :: rest => some (text.takeWhile (· != stop), rest)

namespace FieldType

-- Arrays and objects are references and take one slot.
def slots : FieldType → UInt16
  | base type => type.slots
  | object _ | array _ => 1

def chars : FieldType → List Char
  | base type => [type.letter]
  | object name => 'L' :: (name.toList ++ [';'])
  | array component => '[' :: component.chars

def text (type : FieldType) : String :=
  String.ofList type.chars

-- One type at the front of the text, with what follows it. An object name ends at the first
-- semicolon and is not empty.
def split? : List Char → Option (FieldType × List Char)
  | [] => none
  | 'L' :: input => do
    let (name, rest) ← cutAt? ';' input
    if name.isEmpty then none else pure (object (String.ofList name), rest)
  | '[' :: input => do
    let (component, rest) ← split? input
    pure (array component, rest)
  | letter :: rest => do
    let type ← BaseType.ofLetter? letter
    pure (base type, rest)

def ofChars? (input : List Char) : Option FieldType :=
  match split? input with
  | some (type, []) => some type
  | _ => none

def ofText? (text : String) : Option FieldType :=
  ofChars? text.toList

end FieldType

namespace MethodType

-- The slots of all parameters. They are added up in sixteen bits, and where that overflows there is
-- no answer.
def slots? (type : MethodType) : Option UInt16 :=
  (type.parameters.map FieldType.slots).foldlM checkedAdd? 0

def resultChars : Option FieldType → List Char
  | none => ['V']
  | some type => type.chars

def chars (type : MethodType) : List Char :=
  '(' :: (type.parameters.flatMap FieldType.chars ++ ')' :: resultChars type.result)

def text (type : MethodType) : String :=
  String.ofList type.chars

-- Parameters up to the closing parenthesis. Each takes a letter at least, so the length of the
-- input bounds their number.
def splitParameters? :
    Nat → List FieldType → List Char → Option (List FieldType × List Char)
  | _, found, ')' :: rest => some (found.reverse, rest)
  | 0, _, _ => none
  | fuel + 1, found, input => do
    let (type, rest) ← FieldType.split? input
    splitParameters? fuel (type :: found) rest

def resultOfChars? : List Char → Option (Option FieldType)
  | ['V'] => some none
  | input => (FieldType.ofChars? input).map some

def ofChars? : List Char → Option MethodType
  | '(' :: input => do
    let (parameters, rest) ← splitParameters? input.length [] input
    let result ← resultOfChars? rest
    pure ⟨parameters, result⟩
  | _ => none

def ofText? (text : String) : Option MethodType :=
  ofChars? text.toList

end MethodType

-- The class name inside an object descriptor: what stands between a leading `L` and a closing
-- semicolon. Other texts name no class.
def className? (descriptor : String) : Option String :=
  match descriptor.toList with
  | 'L' :: rest =>
    if rest.getLast? = some ';' then some (String.ofList rest.dropLast) else none
  | _ => none

end ApiUnion
