import ApiUnion.Merge.Logged
import ApiUnion.Merge.Payload

-- Merging annotations. They are matched by type within a retention. Where versions carry different
-- payloads the first one stays, and the conflict is recorded.

namespace ApiUnion.Merge

def payloadsDiffer (existing : AnnotationValue) : Conflict :=
  ⟨.differentAnnotationsSameDescriptor,
    s!"{existing.type} payloads differ ({AnnotationValue.shown existing})"⟩

-- A list with one more annotation in it.
def checkMark (target : List AnnotationValue) (mark : AnnotationValue) :
    Except Conflict (List AnnotationValue) :=
  match target.find? fun existing => existing.type = mark.type with
  | none => .ok (target ++ [mark])
  | some existing =>
    if existing.agrees mark then .ok target else .error (payloadsDiffer existing)

def marks (subject : String) (target incoming : List AnnotationValue) :
    Logged (List AnnotationValue) :=
  incoming.foldlM
    (fun target mark => .attempt .annotations subject target (checkMark target mark)) target

def annotations (subject : String) (target incoming : Annotations) : Logged Annotations := do
  let visible ← marks subject target.visible incoming.visible
  let invisible ← marks subject target.invisible incoming.invisible
  pure ⟨visible, invisible⟩

end ApiUnion.Merge
