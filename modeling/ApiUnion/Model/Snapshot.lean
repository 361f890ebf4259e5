import ApiUnion.ClassFile.Binary
import ApiUnion.Model.Marks

-- Snapshots: what one version of a class offers to others. Private members and private inner
-- classes are left out.

namespace ApiUnion

inductive SnapshotError
  | classFile (error : ClassFileError)
  | duplicateMember (className key : String)
deriving DecidableEq, Repr

def SnapshotError.message : SnapshotError → String
  | classFile error => error.message
  | duplicateMember className key => s!"duplicate member \x60{key}\x60 in \x60{className}\x60"

namespace Snapshot

def privateBit : UInt16 := 0x0002

def isPrivate (access : UInt16) : Bool :=
  access &&& privateBit != 0

-- The strongest promise that any annotation makes.
def nullability (marks : List AnnotationValue) : Nullability :=
  (marks.filterMap Marks.nullability?).foldl Nullability.strengthen .unknown

-- Annotations that are kept as they are.
def kept (marks : List AnnotationValue) : List AnnotationValue :=
  marks.filter fun mark => !(Marks.nullability? mark).isSome && !Marks.isVersionMetadata mark

def keptBoth (visible invisible : List AnnotationValue) : Annotations :=
  ⟨kept visible, kept invisible⟩

def keptOnClass (marks : List AnnotationValue) : List AnnotationValue :=
  marks.filter fun mark => !Marks.isKotlinMetadata mark && !Marks.isVersionMetadata mark

-- The last one counts.
def metadata (file : ClassFile) : Option AnnotationValue :=
  (file.annotations.filter Marks.isKotlinMetadata).getLast?

def innerClasses (file : ClassFile) : Table InnerRef :=
  .ofRows ((file.innerClasses.filter fun inner => !isPrivate inner.access).map fun inner =>
    (inner.name, ⟨inner.outer, inner.innerName, inner.access⟩))

def field (version : Version) (member : Member) : ApiField where
  access := ⟨member.access⟩
  name := member.name
  descriptor := member.descriptor
  signature := member.signature
  constant := member.constant
  version := some version
  nullability := nullability member.annotations
  annotations := keptBoth member.visible member.invisible

-- What is known of the parameter at a position.
def parameter (member : Member) (index : Nat) : Parameter :=
  let declared := member.parameters[index]?
  let visible := (member.visibleParameters[index]?).getD []
  let invisible := (member.invisibleParameters[index]?).getD []
  { name := declared.bind MethodParameter.name
    access := (declared.map MethodParameter.access).getD 0
    nullability := nullability (visible ++ invisible)
    annotations := keptBoth visible invisible }

def method (version : Version) (arity : Nat) (member : Member) : ApiMethod where
  access := ⟨member.access⟩
  name := member.name
  descriptor := member.descriptor
  signature := member.signature
  exceptions := member.exceptions
  version := some version
  nullability := nullability member.annotations
  parameters := (List.range arity).map (parameter member)
  annotations := keptBoth member.visible member.invisible
  annotationDefault := member.annotationDefault

-- A table grown by a member whose key is not in use.
def insertNew {α : Type} (className : String) (table : Table α) (key : String) (value : α) :
    Except SnapshotError (Table α) :=
  if table.contains key then .error (.duplicateMember className key)
  else .ok (table.insert key value)

def insertField (className : String) (version : Version) (table : Table ApiField)
    (member : Member) : Except SnapshotError (Table ApiField) :=
  insertNew className table member.key (field version member)

def insertMethod (className : String) (version : Version) (table : Table MethodSlot)
    (member : Member) : Except SnapshotError (Table MethodSlot) :=
  match MethodType.ofText? member.descriptor with
  | none => .error (.classFile (.invalidDescriptor member.descriptor))
  | some type =>
    insertNew className table member.key (.single (method version type.parameters.length member))

-- The members that others can see.
def offered (members : List Member) : List Member :=
  members.filter fun member => !isPrivate member.access

end Snapshot

namespace ApiClass

open Snapshot

-- A class as its file declares it in a version. Two offered members may not share a key.
def ofClassFile (file : ClassFile) (version : Version) : Except SnapshotError ApiClass := do
  let fields ← (offered file.fields).foldlM (insertField file.name version) .empty
  let methods ← (offered file.methods).foldlM (insertMethod file.name version) .empty
  let metadata := Snapshot.metadata file
  pure {
    name := file.name
    access := ⟨file.access⟩
    signature := file.signature
    superclass := file.superclass
    interfaces := file.interfaces
    enclosing := file.enclosing
    version
    origin := if metadata.isSome then .kotlin else .plain
    metadata
    annotations := ⟨keptOnClass file.visible, keptOnClass file.invisible⟩
    innerClasses := Snapshot.innerClasses file
    fields, methods
  }

def ofBytes (bytes : List UInt8) (version : Version) : Except SnapshotError ApiClass :=
  match ClassFile.ofBytes bytes with
  | .ok file => ofClassFile file version
  | .error error => .error (.classFile error)

end ApiClass

end ApiUnion
