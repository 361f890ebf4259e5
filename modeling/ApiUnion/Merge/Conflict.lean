-- What can stand in the way of a merge, and the records of how merges went.

namespace ApiUnion

-- In alphabetical order of their names.
inductive ConflictKind
  | classKindMismatch | differentAnnotationsSameDescriptor | differentInnerRefsSameDescriptor
  | fieldModalityMismatch | genericsMismatch | methodKindMismatch | originMismatch | ownerMismatch
  | superTypeMismatch
deriving DecidableEq, Repr

namespace ConflictKind

def all : List ConflictKind :=
  [classKindMismatch, differentAnnotationsSameDescriptor, differentInnerRefsSameDescriptor,
    fieldModalityMismatch, genericsMismatch, methodKindMismatch, originMismatch, ownerMismatch,
    superTypeMismatch]

def name : ConflictKind → String
  | classKindMismatch => "classKindMismatch"
  | differentAnnotationsSameDescriptor => "differentAnnotationsSameDescriptor"
  | differentInnerRefsSameDescriptor => "differentInnerRefsSameDescriptor"
  | fieldModalityMismatch => "fieldModalityMismatch"
  | genericsMismatch => "genericsMismatch"
  | methodKindMismatch => "methodKindMismatch"
  | originMismatch => "originMismatch"
  | ownerMismatch => "ownerMismatch"
  | superTypeMismatch => "superTypeMismatch"

end ConflictKind

structure Conflict where
  kind : ConflictKind
  message : String
deriving DecidableEq, Repr

-- The kinds of things that are merged, in the order in which they are reported.
inductive Scope
  | classes | fields | methods | annotations | innerClasses
deriving DecidableEq, Repr

namespace Scope

def all : List Scope :=
  [classes, fields, methods, annotations, innerClasses]

def title : Scope → String
  | classes => "Classes"
  | fields => "Fields"
  | methods => "Methods"
  | annotations => "Annotations"
  | innerClasses => "Inner class refs"

end Scope

-- A conflict and what it happened on.
structure Finding where
  kind : ConflictKind
  subject : String
  message : String
deriving DecidableEq, Repr

def Finding.text (finding : Finding) : String :=
  s!"{finding.kind.name} on {finding.subject}: {finding.message}"

def Conflict.on (conflict : Conflict) (subject : String) : Finding :=
  ⟨conflict.kind, subject, conflict.message⟩

-- How one attempt went. A tolerated conflict does not stop the merge.
inductive Event
  | succeeded (scope : Scope)
  | failed (scope : Scope) (finding : Finding)
  | tolerated (scope : Scope) (finding : Finding)
deriving DecidableEq, Repr

-- The record of an attempt on a subject.
def Event.ofResult {α : Type} (scope : Scope) (subject : String) :
    Except Conflict α → Event
  | .ok _ => .succeeded scope
  | .error conflict => .failed scope (conflict.on subject)

end ApiUnion
