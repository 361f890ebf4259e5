import ApiUnion.Signature.ClassNames
import ApiUnion.Splitting.Splitter

-- Split classes under names of their own. Each group of a class that was split is numbered, and
-- every snapshot refers to the groups that exist in its version.

namespace ApiUnion

-- The name of a class in a version. A class of one group keeps its name.
def Groups.nameIn (groups : Groups) (version : Version) (name : String) : String :=
  match groups.get? name with
  | some (_ :: _ :: _) =>
    match groups.resolve? name version with
    | some index => s!"{name}V{index}"
    | none => name
  | _ => name

namespace Splitting

def renameOwner (names : String → String) (enclosing : EnclosingMethod) : EnclosingMethod :=
  { enclosing with
    owner := names enclosing.owner
    descriptor := enclosing.descriptor.map (renameInMethodDescriptor names) }

def renameInner (names : String → String) (row : String × InnerRef) : String × InnerRef :=
  (names row.1, { row.2 with outer := row.2.outer.map names })

def renameField (names : String → String) (field : ApiField) : ApiField :=
  { field with
    descriptor := renameInFieldDescriptor names field.descriptor
    signature := field.signature.map (renameInFieldSignature names) }

def renameMethod (names : String → String) (method : ApiMethod) : ApiMethod :=
  { method with
    descriptor := renameInMethodDescriptor names method.descriptor
    signature := method.signature.map (renameInMethodSignature names)
    exceptions := method.exceptions.map names }

-- Methods that come to share a key become variants.
def insertVariant (methods : Table MethodSlot) (method : ApiMethod) : Table MethodSlot :=
  methods.insert method.key <|
    match methods.get? method.key with
    | some slot => slot.push method
    | none => .single method

-- A snapshot with other names for classes, its own and those it refers to.
def renameClass (names : String → String) (snapshot : ApiClass) : ApiClass :=
  { snapshot with
    name := names snapshot.name
    superclass := snapshot.superclass.map names
    interfaces := snapshot.interfaces.map names
    enclosing := snapshot.enclosing.map (renameOwner names)
    signature := snapshot.signature.map (renameInClassSignature names)
    innerClasses := .ofRows (snapshot.innerClasses.rows.map (renameInner names))
    fields := .ofRows (snapshot.fields.values.map fun field =>
      let field := renameField names field
      (field.key, field))
    methods := (snapshot.allMethods.map (renameMethod names)).foldl insertVariant .empty }

end Splitting

namespace Splitter

def renameOne (groups : Groups) (snapshot : ApiClass) : ApiClass :=
  Splitting.renameClass (groups.nameIn snapshot.version) snapshot

-- All snapshots under the names of their groups, by class in the order of first arrival, and in
-- order of arrival within a class.
def renamed (splitter : Splitter) (order : QueueOrder) : List ApiClass :=
  let grouped := if splitter.groups.isEmpty then splitter.groupAll order else splitter
  grouped.snapshots.values.flatMap fun snapshots => snapshots.map (renameOne grouped.groups)

end Splitter

end ApiUnion
