import ApiUnion.Merge.Annotations
import ApiUnion.Merge.Facets
import ApiUnion.Merge.Signatures

-- Merging the fields and methods of two versions of a class. A field that does not fit is left out.
-- A method that fits none of the variants under its key becomes a variant of its own.

namespace ApiUnion

structure MergeOptions where
  -- Join signatures that differ. Those of constructors are joined in any case.
  deep : Bool := true
  -- Leave out local and nested classes that their package keeps to itself.
  skipPackagePrivateMembers : Bool := true
deriving DecidableEq, Repr

namespace Merge

-- The items of a list, followed by those of another that it lacks.
def union (target incoming : List String) : List String :=
  incoming.foldl (fun found item => if found.contains item then found else found ++ [item]) target

-- The signature of the merged field.
def checkField (target incoming : ApiField) : Except Conflict (Option String) :=
  let a := target.access.modality
  let b := incoming.access.modality
  if a = b then fieldSignatures target.signature incoming.signature
  else .error ⟨.fieldModalityMismatch, s!"{a.label} vs {b.label}"⟩

def applyField (subject : String) (target incoming : ApiField) (signature : Option String) :
    Logged ApiField := do
  let (access, visibilities) :=
    widenVisibility ⟨target.access, target.visibilities, target.version⟩
      ⟨incoming.access, incoming.visibilities, incoming.version⟩
  let annotations ← annotations subject target.annotations incoming.annotations
  pure { target with
    signature, access, visibilities, annotations
    constant := target.constant.or incoming.constant
    nullability := target.nullability.weaken incoming.nullability
    version := Version.plus? target.version incoming.version }

def field (owner : String) (target incoming : ApiField) : Logged ApiField := do
  let subject := s!"{owner}.{incoming.name}:{incoming.descriptor}"
  let checked := checkField target incoming
  Logged.record (.ofResult .fields subject checked)
  match checked with
  | .ok signature => applyField subject target incoming signature
  | .error _ => pure target

-- The signature of the merged method.
def checkMethod (options : MergeOptions) (target incoming : ApiMethod) :
    Except Conflict (Option String) :=
  let a := target.access.methodKind
  let b := incoming.access.methodKind
  if a = b then
    methodSignatures target.signature incoming.signature (target.isConstructor || options.deep)
  else
    .error ⟨.methodKindMismatch, s!"0x{hexDigits 4 a.toNat} vs 0x{hexDigits 4 b.toNat}"⟩

def parameter (subject : String) (target incoming : Parameter) : Logged Parameter := do
  let annotations ← annotations subject target.annotations incoming.annotations
  pure {
    name := target.name.or incoming.name
    access := target.access ||| incoming.access
    nullability := target.nullability.weaken incoming.nullability
    annotations }

-- By position, from an index on. Parameters that only one side has are kept.
def parametersFrom (subject : String) : Nat → List Parameter → List Parameter →
    Logged (List Parameter)
  | _, targets, [] => pure targets
  | _, [], incomings => pure incomings
  | index, target :: targets, incoming :: incomings => do
    let merged ← parameter s!"{subject}#{index}" target incoming
    let rest ← parametersFrom subject (index + 1) targets incomings
    pure (merged :: rest)

def applyMethod (subject : String) (target incoming : ApiMethod) (signature : Option String) :
    Logged ApiMethod := do
  let (access, visibilities) :=
    widenVisibility ⟨target.access, target.visibilities, target.version⟩
      ⟨incoming.access, incoming.visibilities, incoming.version⟩
  let (access, modalities) :=
    widenModality ⟨access, target.modalities, target.version⟩
      ⟨incoming.access, incoming.modalities, incoming.version⟩
  let parameters ← parametersFrom subject 0 target.parameters incoming.parameters
  let annotations ← annotations subject target.annotations incoming.annotations
  pure { target with
    signature, access, visibilities, modalities, parameters, annotations
    exceptions := union target.exceptions incoming.exceptions
    nullability := target.nullability.weaken incoming.nullability
    annotationDefault := target.annotationDefault.or incoming.annotationDefault
    version := Version.plus? target.version incoming.version }

-- The methods of a list with the first one that accepts the incoming method merged with it, or
-- `none` if no one does. Each refusal is recorded.
def intoFirst (options : MergeOptions) (subject : String) (incoming : ApiMethod) :
    List ApiMethod → Logged (Option (List ApiMethod))
  | [] => pure none
  | target :: rest => do
    let checked := checkMethod options target incoming
    Logged.record (.ofResult .methods subject checked)
    match checked with
    | .ok signature =>
      let merged ← applyMethod subject target incoming signature
      pure (some (merged :: rest))
    | .error _ =>
      let rest ← intoFirst options subject incoming rest
      pure (rest.map (target :: ·))

def intoVariants (options : MergeOptions) (owner : String) (slot : MethodSlot)
    (incoming : ApiMethod) : Logged MethodSlot := do
  let subject := s!"{owner}.{incoming.name}{incoming.descriptor}"
  match ← intoFirst options subject incoming slot.toList with
  | some methods => pure (slot.refill methods)
  | none => pure (slot.push incoming)

end Merge

end ApiUnion
