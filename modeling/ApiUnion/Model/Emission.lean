import ApiUnion.ClassFile.Binary
import ApiUnion.Model.Marks

-- Classes written back as class files, with the versions recorded in annotations.

namespace ApiUnion

structure EmitOptions where
  writeParameters : Bool := true
  stubBodies : Bool := true
  major : UInt16 := 52
deriving DecidableEq, Repr

namespace Emission

def stub : StubBody :=
  ⟨"java/lang/RuntimeException", "Stub!"⟩

def fieldMember (field : ApiField) : Member where
  access := field.access.bits
  name := field.name
  descriptor := field.descriptor
  signature := field.signature
  constant := field.constant
  visible := field.annotations.visible ++ Marks.ofNullability field.nullability ++
    Marks.versionMetadata field.version field.visibilities field.modalities
  invisible := field.annotations.invisible

-- Variants of a group are numbered.
def variantName (name : String) : Option Nat → String
  | none => name
  | some index => s!"{name}$V{index}"

def declaredParameters (method : ApiMethod) (options : EmitOptions) : List MethodParameter :=
  if options.writeParameters && method.parameters.any fun p => p.name.isSome then
    method.parameters.map fun p => ⟨p.name, p.access⟩
  else []

-- Nullability of a parameter is a visible annotation of it.
def visibleParameters (method : ApiMethod) : List (List AnnotationValue) :=
  if method.parameters.any fun p => !p.annotations.visible.isEmpty || p.nullability ≠ .unknown then
    method.parameters.map fun p => p.annotations.visible ++ Marks.ofNullability p.nullability
  else []

def invisibleParameters (method : ApiMethod) : List (List AnnotationValue) :=
  if method.parameters.any fun p => !p.annotations.invisible.isEmpty then
    method.parameters.map fun p => p.annotations.invisible
  else []

def methodMember (options : EmitOptions) (method : ApiMethod) (variant : Option Nat) : Member where
  access := method.access.bits
  name := variantName method.name variant
  descriptor := method.descriptor
  signature := method.signature
  exceptions := method.exceptions
  annotationDefault := method.annotationDefault
  visible := method.annotations.visible ++ Marks.ofNullability method.nullability ++
    Marks.versionMetadata method.version method.visibilities method.modalities ++
    (variant.map fun _ => Marks.ofMangledName method.name).toList
  invisible := method.annotations.invisible
  parameters := declaredParameters method options
  visibleParameters := visibleParameters method
  invisibleParameters := invisibleParameters method
  body := if options.stubBodies && !method.access.isBodiless then some stub else none

def variantMembers (options : EmitOptions) : MethodSlot → List Member
  | .single method => [methodMember options method none]
  | .group variants =>
    variants.mapIdx fun index method => methodMember options method (some index)

end Emission

namespace ApiClass

open Emission

def toClassFile (entry : ApiClass) (options : EmitOptions) : ClassFile where
  major := options.major
  access := entry.access.bits
  name := entry.name
  superclass := entry.superclass
  interfaces := entry.interfaces
  signature := entry.signature
  enclosing := entry.enclosing
  visible := entry.metadata.toList ++ entry.annotations.visible ++
    Marks.versionMetadata (some entry.version) entry.visibilities entry.modalities
  invisible := entry.annotations.invisible
  innerClasses := entry.innerClasses.rows.map fun row =>
    ⟨row.1, row.2.outer, row.2.innerName, row.2.access⟩
  fields := entry.fields.values.map fieldMember
  methods := entry.methods.values.flatMap (variantMembers options)

def toBytes (entry : ApiClass) (options : EmitOptions) : Except ClassFileError (List UInt8) :=
  (entry.toClassFile options).toBytes

end ApiClass

end ApiUnion
