import ApiUnion.Catalog.Basic
import ApiUnion.ClassFile.Binary
import ApiUnion.Model.Marks

-- Which versions a class or member is available in. A catalog can tell, and so can an index of the
-- class files that were emitted from it.

namespace ApiUnion

-- Code in the versions of `scope` may refer to what exists in all of them, and to what nothing is
-- known about.
def isReferenceAllowed (target : Option Version) (scope : Version) : Bool :=
  target.all fun target => target.contains scope

namespace Catalog

def classVersion? (catalog : Catalog) (name : String) : Option Version :=
  (catalog.get? name).map ApiClass.version

-- All variants together, if there are any.
def slotVersion? (ofClass : Version) (slot : MethodSlot) : Option Version :=
  (slot.toList.map fun method => method.version.getD ofClass).foldl
    (fun joined version => Version.plus? joined (some version)) none

def methodVersion? (catalog : Catalog) (owner name descriptor : String) : Option Version := do
  let entry ← catalog.get? owner
  let slot ← entry.method? name descriptor
  slotVersion? entry.version slot

def fieldVersion? (catalog : Catalog) (owner name descriptor : String) : Option Version := do
  let entry ← catalog.get? owner
  let field ← entry.field? name descriptor
  pure (field.version.getD entry.version)

end Catalog

-- Versions by name of class and by path of member.
structure VersionIndex where
  classes : Table Version
  methods : Table Version
  fields : Table Version

namespace VersionIndex

def empty : VersionIndex :=
  ⟨.empty, .empty, .empty⟩

def path (owner name descriptor : String) : String :=
  s!"{owner}.{memberKey name descriptor}"

def markedVersion? (marks : List AnnotationValue) : Option Version := do
  let mark ← marks.find? fun mark => mark.type = Marks.existsIn
  let literal ← Marks.text? mark "version"
  pure (.ofLiteral literal)

def mangledFrom? (marks : List AnnotationValue) : Option String := do
  let mark ← marks.find? fun mark => mark.type = Marks.mangledName
  Marks.text? mark "original"

-- The name that a method of a group had before it was emitted.
def unmangledName (member : Member) : String :=
  (mangledFrom? member.annotations).getD member.name

def memberVersion (ofClass : Version) (member : Member) : Version :=
  (markedVersion? member.annotations).getD ofClass

def insertField (owner : String) (ofClass : Version) (fields : Table Version) (member : Member) :
    Table Version :=
  fields.insert (path owner member.name member.descriptor) (memberVersion ofClass member)

-- The variants of a group come under one name.
def insertMethod (owner : String) (ofClass : Version) (methods : Table Version)
    (member : Member) : Table Version :=
  let path := path owner (unmangledName member) member.descriptor
  let version := memberVersion ofClass member
  methods.insert path (((methods.get? path).map (·.plus version)).getD version)

-- Classes without a version are not indexed. Members without one have that of their class.
def add (index : VersionIndex) (file : ClassFile) : VersionIndex :=
  match markedVersion? file.annotations with
  | none => index
  | some version =>
    { classes := index.classes.insert file.name version
      methods := file.methods.foldl (insertMethod file.name version) index.methods
      fields := file.fields.foldl (insertField file.name version) index.fields }

def addBytes (index : VersionIndex) (bytes : List UInt8) : Except ClassFileError VersionIndex :=
  (ClassFile.ofBytes bytes).map index.add

def classVersion? (index : VersionIndex) (name : String) : Option Version :=
  index.classes.get? name

def methodVersion? (index : VersionIndex) (owner name descriptor : String) : Option Version :=
  index.methods.get? (path owner name descriptor)

def fieldVersion? (index : VersionIndex) (owner name descriptor : String) : Option Version :=
  index.fields.get? (path owner name descriptor)

end VersionIndex

end ApiUnion
