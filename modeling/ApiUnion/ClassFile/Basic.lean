import ApiUnion.Annotations

-- A class as its file describes it, without method bodies. The one body that can be written is a
-- stub that throws.

namespace ApiUnion

structure MethodParameter where
  name : Option String
  access : UInt16
deriving DecidableEq, Repr

-- Throws `exception`, constructed with `message`.
structure StubBody where
  exception : String
  message : String
deriving DecidableEq, Repr

-- A field or a method. Exceptions, parameters, their annotations, the default and the body belong
-- to methods, the constant to fields.
structure Member where
  access : UInt16
  name : String
  descriptor : String
  signature : Option String := none
  visible : List AnnotationValue := []
  invisible : List AnnotationValue := []
  exceptions : List String := []
  parameters : List MethodParameter := []
  visibleParameters : List (List AnnotationValue) := []
  invisibleParameters : List (List AnnotationValue) := []
  annotationDefault : Option ElementValue := none
  constant : Option Constant := none
  body : Option StubBody := none
deriving DecidableEq

namespace Member

def annotations (member : Member) : List AnnotationValue :=
  member.visible ++ member.invisible

-- The same name with another descriptor is another member.
def key (member : Member) : String :=
  member.name ++ member.descriptor

end Member

structure InnerClass where
  name : String
  outer : Option String
  innerName : Option String
  access : UInt16
deriving DecidableEq, Repr

-- Where a local or anonymous class is declared.
structure EnclosingMethod where
  owner : String
  name : Option String
  descriptor : Option String
deriving DecidableEq, Repr

structure ClassFile where
  minor : UInt16 := 0
  major : UInt16 := 52
  access : UInt16
  name : String
  superclass : Option String
  interfaces : List String := []
  fields : List Member := []
  methods : List Member := []
  signature : Option String := none
  visible : List AnnotationValue := []
  invisible : List AnnotationValue := []
  innerClasses : List InnerClass := []
  enclosing : Option EnclosingMethod := none
deriving DecidableEq

namespace ClassFile

def magic : UInt32 := 0xCAFEBABE

def annotations (file : ClassFile) : List AnnotationValue :=
  file.visible ++ file.invisible

end ClassFile

end ApiUnion
