import ApiUnion.Signature.Basic

-- Joining generic types: the tightest type that two types can both be used as, where loosening
-- changes type arguments only. Types of different shape have no join; type arguments always have
-- one, at worst the wildcard.

namespace ApiUnion

-- `Object` without arguments, below which every reference type lies.
def GenericType.isObject : GenericType → Bool
  | .classType [⟨name, []⟩] => name = "java/lang/Object"
  | _ => false

-- The join of two bounded arguments, given the join of their bounds, if there is one. An exact
-- argument loosens to the variance of the other. Everything lies below a bound by `Object`.
def TypeArgument.joinBounds (v : Variance) (a : GenericType) (w : Variance) (b : GenericType)
    (join : Option GenericType) : TypeArgument :=
  let under (variance : Variance) : TypeArgument := join.elim .any (.bounded variance)
  match v, w with
  | .exact, .exact => under .exact
  | .covariant, .covariant => under .covariant
  | .contravariant, .contravariant => under .contravariant
  | .contravariant, .exact | .exact, .contravariant => under .contravariant
  | .covariant, .exact => join.elim (if a.isObject then .bounded .covariant a else .any)
      (.bounded .covariant)
  | .exact, .covariant => join.elim (if b.isObject then .bounded .covariant b else .any)
      (.bounded .covariant)
  | .covariant, .contravariant | .contravariant, .covariant => .any

mutual

def GenericType.join? : GenericType → GenericType → Option GenericType
  | .base a, .base b => if a = b then some (.base a) else none
  | .var a, .var b => if a = b then some (.var a) else none
  | .array a, .array b => (a.join? b).map .array
  | .classType a, .classType b => (joinSegments? a b).map .classType
  | _, _ => none

def Segment.join? : Segment → Segment → Option Segment
  | ⟨a, xs⟩, ⟨b, ys⟩ => if a = b then (joinArguments? xs ys).map (⟨a, ·⟩) else none

def TypeArgument.join : TypeArgument → TypeArgument → TypeArgument
  | .bounded v a, .bounded w b => TypeArgument.joinBounds v a w b (a.join? b)
  | _, _ => .any

def joinSegments? : List Segment → List Segment → Option (List Segment)
  | [], [] => some []
  | x :: xs, y :: ys => do pure ((← x.join? y) :: (← joinSegments? xs ys))
  | _, _ => none

def joinArguments? : List TypeArgument → List TypeArgument → Option (List TypeArgument)
  | [], [] => some []
  | x :: xs, y :: ys => do pure (x.join y :: (← joinArguments? xs ys))
  | _, _ => none

end

def ClassType.join? (a b : ClassType) : Option ClassType :=
  joinSegments? a b

def joinAll? : List GenericType → List GenericType → Option (List GenericType)
  | [], [] => some []
  | a :: as, b :: bs => do pure ((← a.join? b) :: (← joinAll? as bs))
  | _, _ => none

-- Both have to be there, or neither.
def joinOption? : Option GenericType → Option GenericType → Option (Option GenericType)
  | none, none => some none
  | some a, some b => (a.join? b).map some
  | _, _ => none

-- The name of the first parameter is kept.
def TypeParameter.join? (a b : TypeParameter) : Option TypeParameter := do
  let classBound ← joinOption? a.classBound b.classBound
  let interfaceBounds ← joinAll? a.interfaceBounds b.interfaceBounds
  pure ⟨a.name, classBound, interfaceBounds⟩

def joinParameters? : List TypeParameter → List TypeParameter → Option (List TypeParameter)
  | [], [] => some []
  | a :: as, b :: bs => do pure ((← a.join? b) :: (← joinParameters? as bs))
  | _, _ => none

def MethodSignature.join? (a b : MethodSignature) : Option MethodSignature := do
  let result ← joinOption? a.result b.result
  let typeParameters ← joinParameters? a.typeParameters b.typeParameters
  let parameters ← joinAll? a.parameters b.parameters
  let throws ← joinAll? a.throws b.throws
  pure ⟨typeParameters, parameters, result, throws⟩

-- An interface joined with the first in a list that denotes the same class, if there is one.
def ClassType.joinNamesake? (others : List ClassType) (type : ClassType) : Option ClassType :=
  match others.find? fun other => other.internalName = type.internalName with
  | some other => type.join? other
  | none => some type

-- The interfaces of either side: those of the first in order, then those that only the second has.
def joinInterfaces? (as bs : List ClassType) : Option (List ClassType) := do
  let shared ← as.mapM (ClassType.joinNamesake? bs)
  let added := bs.filter fun b => !as.any fun a => a.internalName = b.internalName
  pure (shared ++ added)

def ClassSignature.join? (a b : ClassSignature) : Option ClassSignature := do
  let typeParameters ← joinParameters? a.typeParameters b.typeParameters
  let superclass ← a.superclass.join? b.superclass
  let interfaces ← joinInterfaces? a.interfaces b.interfaces
  pure ⟨typeParameters, superclass, interfaces⟩

end ApiUnion
