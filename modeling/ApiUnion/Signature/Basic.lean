import ApiUnion.Descriptor

-- Generic signatures: the types of classes and members before erasure, with type variables and type
-- arguments.

namespace ApiUnion

inductive Variance
  | exact | covariant | contravariant
deriving DecidableEq, Repr

mutual

inductive GenericType
  | base (type : BaseType)
  | array (component : GenericType)
  | var (name : String)
  | classType (segments : List Segment)

-- The first segment of a class type names its outermost class in full, each further one a class
-- nested in the one before.
structure Segment where
  name : String
  arguments : List TypeArgument

-- `any` is the wildcard without a bound.
inductive TypeArgument
  | any
  | bounded (variance : Variance) (bound : GenericType)

end

abbrev ClassType := List Segment

structure TypeParameter where
  name : String
  classBound : Option GenericType
  interfaceBounds : List GenericType

structure ClassSignature where
  typeParameters : List TypeParameter
  superclass : ClassType
  interfaces : List ClassType

-- `none` as result is void.
structure MethodSignature where
  typeParameters : List TypeParameter
  parameters : List GenericType
  result : Option GenericType
  throws : List GenericType

namespace ClassType

def outerName (type : ClassType) : String :=
  match type with
  | [] => ""
  | segment :: _ => segment.name

-- Binary names join nested classes with a dollar sign.
def internalName (type : ClassType) : String :=
  "$".intercalate (type.map Segment.name)

end ClassType

mutual

def GenericType.same : GenericType → GenericType → Bool
  | .base a, .base b => a = b
  | .array a, .array b => a.same b
  | .var a, .var b => a = b
  | .classType a, .classType b => sameSegments a b
  | _, _ => false

def Segment.same : Segment → Segment → Bool
  | ⟨a, xs⟩, ⟨b, ys⟩ => a = b && sameArguments xs ys

def TypeArgument.same : TypeArgument → TypeArgument → Bool
  | .any, .any => true
  | .bounded v a, .bounded w b => v = w && a.same b
  | _, _ => false

def sameSegments : List Segment → List Segment → Bool
  | [], [] => true
  | x :: xs, y :: ys => x.same y && sameSegments xs ys
  | _, _ => false

def sameArguments : List TypeArgument → List TypeArgument → Bool
  | [], [] => true
  | x :: xs, y :: ys => x.same y && sameArguments xs ys
  | _, _ => false

end

mutual

theorem GenericType.same_iff : ∀ x y : GenericType, x.same y = true ↔ x = y
  | .base a, y => by cases y <;> simp [GenericType.same]
  | .array a, y => by cases y <;> simp [GenericType.same, GenericType.same_iff a]
  | .var a, y => by cases y <;> simp [GenericType.same]
  | .classType a, y => by cases y <;> simp [GenericType.same, sameSegments_iff a]

theorem Segment.same_iff : ∀ x y : Segment, x.same y = true ↔ x = y
  | ⟨a, xs⟩, ⟨b, ys⟩ => by simp [Segment.same, sameArguments_iff xs]

theorem TypeArgument.same_iff : ∀ x y : TypeArgument, x.same y = true ↔ x = y
  | .any, y => by cases y <;> simp [TypeArgument.same]
  | .bounded v a, y => by cases y <;> simp [TypeArgument.same, GenericType.same_iff a]

theorem sameSegments_iff : ∀ xs ys : List Segment, sameSegments xs ys = true ↔ xs = ys
  | [], ys => by cases ys <;> simp [sameSegments]
  | x :: xs, ys => by
    cases ys <;> simp [sameSegments, Segment.same_iff x, sameSegments_iff xs]

theorem sameArguments_iff : ∀ xs ys : List TypeArgument, sameArguments xs ys = true ↔ xs = ys
  | [], ys => by cases ys <;> simp [sameArguments]
  | x :: xs, ys => by
    cases ys <;> simp [sameArguments, TypeArgument.same_iff x, sameArguments_iff xs]

end

instance : DecidableEq GenericType := fun x y => decidable_of_iff _ (GenericType.same_iff x y)

instance : DecidableEq Segment := fun x y => decidable_of_iff _ (Segment.same_iff x y)

instance : DecidableEq TypeArgument := fun x y => decidable_of_iff _ (TypeArgument.same_iff x y)

deriving instance DecidableEq for TypeParameter, ClassSignature, MethodSignature

end ApiUnion
