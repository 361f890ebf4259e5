import ApiUnion.Merge.Members

-- Merging two versions of a class. What has to hold of the classes as wholes is checked before
-- anything is merged.

namespace ApiUnion.Merge

-- The signature of the merged class. The first thing that does not match counts.
def checkClass (target incoming : ApiClass) : Except Conflict (Option String) :=
  let a := target.access.classKind
  let b := incoming.access.classKind
  if a ≠ b then .error ⟨.classKindMismatch, s!"{a.text} vs {b.text}"⟩
  else if target.enclosing ≠ incoming.enclosing then
    .error ⟨.ownerMismatch, EnclosingMethod.shown? target.enclosing ++ " vs " ++
      EnclosingMethod.shown? incoming.enclosing⟩
  else if target.superclass ≠ incoming.superclass then
    .error ⟨.superTypeMismatch, target.superclass.getD "<none>" ++ " vs " ++
      incoming.superclass.getD "<none>"⟩
  else classSignatures target.signature incoming.signature

-- Members that go by the version of their class get it for their own.
def explicitField (version : Version) (field : ApiField) : ApiField :=
  { field with version := some (field.version.getD version) }

def explicitMethod (version : Version) (method : ApiMethod) : ApiMethod :=
  { method with version := some (method.version.getD version) }

def withExplicitVersions (entry : ApiClass) : ApiClass :=
  { entry with
    fields := entry.fields.map (explicitField entry.version)
    methods := entry.methods.map (MethodSlot.map (explicitMethod entry.version)) }

def originMismatch (target incoming : ApiClass) : List Event :=
  if target.origin = incoming.origin then []
  else
    let conflict : Conflict :=
      ⟨.originMismatch, s!"{target.origin.label} vs {incoming.origin.label}"⟩
    [.tolerated .classes (conflict.on target.name)]

def checkInner (target : Table InnerRef) (name : String) (inner : InnerRef) :
    Except Conflict (Table InnerRef) :=
  match target.get? name with
  | none => .ok (target.insert name inner)
  | some existing =>
    if existing = inner then .ok target
    else .error ⟨.differentInnerRefsSameDescriptor, s!"{existing.shown} vs {inner.shown}"⟩

def innerClasses (owner : String) (target incoming : Table InnerRef) : Logged (Table InnerRef) :=
  incoming.rows.foldlM (fun target row =>
    .attempt .innerClasses s!"{owner}->{row.1}" target (checkInner target row.1 row.2)) target

def intoFields (owner : String) (target : Table ApiField) (row : String × ApiField) :
    Logged (Table ApiField) := do
  match target.get? row.1 with
  | none => pure (target.insert row.1 row.2)
  | some existing => pure (target.insert row.1 (← field owner existing row.2))

def intoMethods (options : MergeOptions) (owner : String) (target : Table MethodSlot)
    (row : String × MethodSlot) : Logged (Table MethodSlot) := do
  match target.get? row.1 with
  | none => pure (target.insert row.1 row.2)
  | some existing =>
    pure (target.insert row.1 (← row.2.toList.foldlM (intoVariants options owner) existing))

-- Two versions of a class that match as wholes, merged.
def applyClass (options : MergeOptions) (target incoming : ApiClass) (signature : Option String) :
    Logged ApiClass := do
  let owner := target.name
  let target := withExplicitVersions target
  let incoming := withExplicitVersions incoming
  let (access, visibilities) :=
    widenVisibility ⟨target.access, target.visibilities, some target.version⟩
      ⟨incoming.access, incoming.visibilities, some incoming.version⟩
  let (access, modalities) :=
    widenModality ⟨access, target.modalities, some target.version⟩
      ⟨incoming.access, incoming.modalities, some incoming.version⟩
  let annotations ← annotations owner target.annotations incoming.annotations
  let innerClasses ← innerClasses owner target.innerClasses incoming.innerClasses
  let fields ← incoming.fields.rows.foldlM (intoFields owner) target.fields
  let methods ← incoming.methods.rows.foldlM (intoMethods options owner) target.methods
  pure { target with
    signature, access, visibilities, modalities, annotations, innerClasses, fields, methods
    interfaces := union target.interfaces incoming.interfaces
    metadata := target.metadata.or incoming.metadata
    version := target.version.plus incoming.version }

-- Two versions of a class merged, or `none` if they do not match as wholes.
def classes (options : MergeOptions) (target incoming : ApiClass) : Logged (Option ApiClass) := do
  let checked := checkClass target incoming
  Logged.record (.ofResult .classes target.name checked)
  match checked with
  | .ok signature =>
    (originMismatch target incoming).forM Logged.record
    some <$> applyClass options target incoming signature
  | .error _ => pure none

end ApiUnion.Merge
