import ApiUnion.Alternatives
import ApiUnion.ClassFile.Basic
import ApiUnion.Table

-- One class across versions. A class taken from one snapshot describes just that; a merged class
-- describes all snapshots it was merged from, and every part of it tells the versions it was seen
-- in.

namespace ApiUnion

-- From the strongest promise to none.
inductive Nullability
  | notNull | nullable | unknown
deriving DecidableEq, Repr

namespace Nullability

def rank : Nullability → Nat
  | notNull => 0
  | nullable => 1
  | unknown => 2

-- The weaker promise of two.
def weaken (a b : Nullability) : Nullability :=
  if a.rank ≤ b.rank then b else a

-- The stronger promise of two.
def strengthen (a b : Nullability) : Nullability :=
  if a.rank ≤ b.rank then a else b

end Nullability

-- Whether the class carries the metadata of a Kotlin compiler.
inductive Origin
  | plain | kotlin
deriving DecidableEq, Repr

def Origin.label : Origin → String
  | plain => "Plain"
  | kotlin => "Kotlin"

-- Annotations by retention.
structure Annotations where
  visible : List AnnotationValue := []
  invisible : List AnnotationValue := []
deriving DecidableEq

namespace Annotations

def none : Annotations := {}

def all (annotations : Annotations) : List AnnotationValue :=
  annotations.visible ++ annotations.invisible

def isEmpty (annotations : Annotations) : Bool :=
  annotations.visible.isEmpty && annotations.invisible.isEmpty

end Annotations

structure Parameter where
  name : Option String := none
  access : UInt16 := 0
  nullability : Nullability := .unknown
  annotations : Annotations := {}
deriving DecidableEq

-- What an inner class is to its outer class, under the name of the inner class.
structure InnerRef where
  outer : Option String
  innerName : Option String
  access : UInt16
deriving DecidableEq, Repr

-- A version of `none` is that of the class.
structure ApiField where
  access : Access
  name : String
  descriptor : String
  signature : Option String := none
  constant : Option Constant := none
  version : Option Version := none
  visibilities : Alternatives Visibility := .empty
  modalities : Alternatives Modality := .empty
  nullability : Nullability := .unknown
  annotations : Annotations := {}
deriving DecidableEq

structure ApiMethod where
  access : Access
  name : String
  descriptor : String
  signature : Option String := none
  exceptions : List String := []
  version : Option Version := none
  visibilities : Alternatives Visibility := .empty
  modalities : Alternatives Modality := .empty
  nullability : Nullability := .unknown
  parameters : List Parameter := []
  annotations : Annotations := {}
  annotationDefault : Option ElementValue := none
deriving DecidableEq

-- Members are told apart by name and erased descriptor.
def memberKey (name descriptor : String) : String :=
  name ++ descriptor

def ApiField.key (field : ApiField) : String :=
  memberKey field.name field.descriptor

def ApiMethod.key (method : ApiMethod) : String :=
  memberKey method.name method.descriptor

def ApiMethod.isConstructor (method : ApiMethod) : Bool :=
  method.name = "<init>"

-- The methods of one key: a single one, or a group where versions cannot be reconciled.
inductive MethodSlot
  | single (method : ApiMethod)
  | group (variants : List ApiMethod)
deriving DecidableEq

namespace MethodSlot

def toList : MethodSlot → List ApiMethod
  | single method => [method]
  | group variants => variants

def isGroup : MethodSlot → Bool
  | single _ => false
  | group _ => true

def map (f : ApiMethod → ApiMethod) : MethodSlot → MethodSlot
  | single method => single (f method)
  | group variants => group (variants.map f)

-- As many methods in the place of those that the slot has.
def refill : MethodSlot → List ApiMethod → MethodSlot
  | single method, methods => single (methods.headD method)
  | group _, methods => group methods

-- All variants taken out, which leaves an empty group.
def take (slot : MethodSlot) : List ApiMethod × MethodSlot :=
  (slot.toList, group [])

-- A single method makes a group with the other one, in the slot that it was taken out of.
def push (slot : MethodSlot) (method : ApiMethod) : MethodSlot :=
  match slot with
  | group variants => group (variants ++ [method])
  | single _ =>
    let (variants, emptied) := slot.take
    emptied.refill (variants ++ [method])

end MethodSlot

structure ApiClass where
  name : String
  access : Access
  signature : Option String := none
  superclass : Option String
  interfaces : List String := []
  enclosing : Option EnclosingMethod := none
  version : Version
  visibilities : Alternatives Visibility := .empty
  modalities : Alternatives Modality := .empty
  origin : Origin := .plain
  metadata : Option AnnotationValue := none
  annotations : Annotations := {}
  innerClasses : Table InnerRef := .empty
  fields : Table ApiField := .empty
  methods : Table MethodSlot := .empty
deriving DecidableEq

namespace ApiClass

-- The name with dots.
def qualifiedName (entry : ApiClass) : String :=
  entry.name.map fun c => if c = '/' then '.' else c

def method? (entry : ApiClass) (name descriptor : String) : Option MethodSlot :=
  entry.methods.get? (memberKey name descriptor)

def field? (entry : ApiClass) (name descriptor : String) : Option ApiField :=
  entry.fields.get? (memberKey name descriptor)

-- A local or nested class that its package keeps to itself.
def isPackagePrivateMember (entry : ApiClass) : Bool :=
  entry.enclosing.isSome && entry.access.visibility = .packagePrivate

def allMethods (entry : ApiClass) : List ApiMethod :=
  entry.methods.values.flatMap MethodSlot.toList

-- Every version that is written down in the class: its own, then those of fields and methods.
def versions (entry : ApiClass) : List Version :=
  entry.version :: (entry.fields.values.filterMap ApiField.version ++
    entry.allMethods.filterMap ApiMethod.version)

end ApiClass

end ApiUnion
