import ApiUnion.Descriptor

-- Annotations and the constants that they and fields carry. Floating-point values are kept as their
-- IEEE bits, so that a value is equal to itself whatever it is. `agrees` compares them as numbers.

namespace ApiUnion

inductive Constant
  | byte (value : Int8)
  | char (value : Char)
  | short (value : Int16)
  | int (value : Int32)
  | long (value : Int64)
  | float (bits : UInt32)
  | double (bits : UInt64)
  | boolean (value : Bool)
  | string (value : String)
deriving DecidableEq, Repr

mutual

inductive ElementValue
  | constant (value : Constant)
  | enumConstant (type name : String)
  | classLiteral (descriptor : String)
  | nested (value : AnnotationValue)
  | array (values : List ElementValue)

-- `type` is a descriptor, and `className` the name of the class that it stands for. Elements keep
-- the order in which they are written.
structure AnnotationValue where
  type : String
  elements : List (String × ElementValue)
  className : Option String := className? type

end

namespace AnnotationValue

-- The first element of that name.
def element? (value : AnnotationValue) (name : String) : Option ElementValue :=
  value.elements.lookup name

end AnnotationValue

mutual

def ElementValue.same : ElementValue → ElementValue → Bool
  | .constant a, .constant b => a = b
  | .enumConstant a x, .enumConstant b y => a = b && x = y
  | .classLiteral a, .classLiteral b => a = b
  | .nested a, .nested b => a.same b
  | .array a, .array b => sameValues a b
  | _, _ => false

def AnnotationValue.same : AnnotationValue → AnnotationValue → Bool
  | ⟨a, xs, m⟩, ⟨b, ys, n⟩ => a = b && m = n && sameElements xs ys

def sameValues : List ElementValue → List ElementValue → Bool
  | [], [] => true
  | x :: xs, y :: ys => x.same y && sameValues xs ys
  | _, _ => false

def sameElements : List (String × ElementValue) → List (String × ElementValue) → Bool
  | [], [] => true
  | (a, x) :: xs, (b, y) :: ys => a = b && x.same y && sameElements xs ys
  | _, _ => false

end

mutual

theorem ElementValue.same_iff : ∀ x y : ElementValue, x.same y = true ↔ x = y
  | .constant a, y => by cases y <;> simp [ElementValue.same]
  | .enumConstant a b, y => by cases y <;> simp [ElementValue.same]
  | .classLiteral a, y => by cases y <;> simp [ElementValue.same]
  | .nested a, y => by cases y <;> simp [ElementValue.same, AnnotationValue.same_iff a]
  | .array a, y => by cases y <;> simp [ElementValue.same, sameValues_iff a]

theorem AnnotationValue.same_iff : ∀ x y : AnnotationValue, x.same y = true ↔ x = y
  | ⟨a, xs, m⟩, ⟨b, ys, n⟩ => by
    simp [AnnotationValue.same, sameElements_iff xs, and_assoc, and_comm (a := m = n)]

theorem sameValues_iff : ∀ xs ys : List ElementValue, sameValues xs ys = true ↔ xs = ys
  | [], ys => by cases ys <;> simp [sameValues]
  | x :: xs, ys => by
    cases ys <;> simp [sameValues, ElementValue.same_iff x, sameValues_iff xs]

theorem sameElements_iff :
    ∀ xs ys : List (String × ElementValue), sameElements xs ys = true ↔ xs = ys
  | [], ys => by cases ys <;> simp [sameElements]
  | (a, x) :: xs, ys => by
    cases ys with
    | nil => simp [sameElements]
    | cons y ys =>
      obtain ⟨b, y⟩ := y
      simp [sameElements, ElementValue.same_iff x, sameElements_iff xs]

end

instance : DecidableEq ElementValue := fun x y => decidable_of_iff _ (ElementValue.same_iff x y)

instance : DecidableEq AnnotationValue := fun x y => decidable_of_iff _ (AnnotationValue.same_iff x y)

-- Equality of two IEEE numbers of which the top bit is the sign and `infinity` is the largest
-- magnitude that is a number. A NaN agrees with nothing, and the two zeros agree.
def agreeAsFloats (signBit infinity a b : Nat) : Bool :=
  a % signBit ≤ infinity && b % signBit ≤ infinity &&
    (a = b || (a % signBit = 0 && b % signBit = 0))

def Constant.agrees : Constant → Constant → Bool
  | .float a, .float b => agreeAsFloats 0x80000000 0x7F800000 a.toNat b.toNat
  | .double a, .double b => agreeAsFloats 0x8000000000000000 0x7FF0000000000000 a.toNat b.toNat
  | a, b => a = b

mutual

def ElementValue.agrees : ElementValue → ElementValue → Bool
  | .constant a, .constant b => a.agrees b
  | .enumConstant a x, .enumConstant b y => a = b && x = y
  | .classLiteral a, .classLiteral b => a = b
  | .nested a, .nested b => a.agrees b
  | .array a, .array b => agreeingValues a b
  | _, _ => false

def AnnotationValue.agrees : AnnotationValue → AnnotationValue → Bool
  | ⟨a, xs, m⟩, ⟨b, ys, n⟩ => a = b && m = n && agreeingElements xs ys

def agreeingValues : List ElementValue → List ElementValue → Bool
  | [], [] => true
  | x :: xs, y :: ys => x.agrees y && agreeingValues xs ys
  | _, _ => false

def agreeingElements : List (String × ElementValue) → List (String × ElementValue) → Bool
  | [], [] => true
  | (a, x) :: xs, (b, y) :: ys => a = b && x.agrees y && agreeingElements xs ys
  | _, _ => false

end

end ApiUnion
