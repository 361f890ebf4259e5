import ApiUnion.Merge.Conflict
import ApiUnion.Signature.Join
import ApiUnion.Signature.Parser
import ApiUnion.Signature.Variables

-- Merging the signature texts of two versions. Signatures that differ only in the names of their
-- own type variables are the same; others are joined, and the join is printed with the names of the
-- first.

namespace ApiUnion.Merge

def genericsMismatch (message : String) : Conflict :=
  ⟨.genericsMismatch, message⟩

-- The signature that a text holds.
def readable {α : Type} (ofText : String → Except ClassFileError α) (text : String) :
    Except Conflict α :=
  match ofText text with
  | .ok signature => .ok signature
  | .error error => .error (genericsMismatch s!"unreadable signature {text}: {error.message}")

def joined {α : Type} (target source : String) : Option α → Except Conflict α
  | some join => .ok join
  | none => .error (genericsMismatch s!"{target} vs {source}")

-- Where a version does not give a signature.
def erased (signature : Option String) : String :=
  signature.getD "<erased>"

def methodTexts (target source : String) (deep : Bool) : Except Conflict String := do
  let a ← readable MethodSignature.ofText target
  let b ← readable MethodSignature.ofText source
  if a.canonical = b.canonical then pure target
  else
    let join ← joined target source (if deep then a.canonical.join? b.canonical else none)
    pure (join.rename (.fromPlaceholders a.ownNames b.ownNames)).text

def fieldTexts (target source : String) : Except Conflict String := do
  let a ← readable GenericType.ofText target
  let b ← readable GenericType.ofText source
  pure (← joined target source (a.join? b)).text

def classTexts (target source : String) : Except Conflict String := do
  let a ← readable ClassSignature.ofText target
  let b ← readable ClassSignature.ofText source
  if a.canonical = b.canonical then pure target
  else
    let join ← joined target source (a.canonical.join? b.canonical)
    pure (join.rename (.fromPlaceholders a.ownNames b.ownNames)).text

-- The signature of a method in both versions. One that a version does not give is dropped, as the
-- erased descriptor is all that the versions share. Unless `deep`, signatures are not joined.
def methodSignatures (target source : Option String) (deep : Bool) :
    Except Conflict (Option String) :=
  match target, source with
  | some a, some b => if a = b then pure (some a) else some <$> methodTexts a b deep
  | _, _ => pure none

-- Fields and classes are generic in both versions or in neither.
private def bothOrNeither (texts : String → String → Except Conflict String) :
    Option String → Option String → Except Conflict (Option String)
  | none, none => pure none
  | some a, some b => if a = b then pure (some a) else some <$> texts a b
  | a, b => throw (genericsMismatch s!"{erased a} vs {erased b}")

def fieldSignatures (target source : Option String) : Except Conflict (Option String) :=
  bothOrNeither fieldTexts target source

def classSignatures (target source : Option String) : Except Conflict (Option String) :=
  bothOrNeither classTexts target source

end ApiUnion.Merge
