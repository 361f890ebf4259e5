import ApiUnion.Model.Basic
import ApiUnion.Signature.Parser
import ApiUnion.Signature.Variables

-- Groups: the snapshots of a class divided so that those of one group can be merged. Whether two
-- can depends on which groups the classes that they refer to fall into in their versions, so every
-- class that is looked up is noted.

namespace ApiUnion

-- `members` are positions among the snapshots of a class, in increasing order.
structure Group where
  members : List Nat
  version : Version
deriving DecidableEq

def Group.add (group : Group) (index : Nat) (version : Version) : Group :=
  ⟨group.members ++ [index], group.version.plus version⟩

abbrev Groups := Table (List Group)

-- The group that a class falls into in a version.
def Groups.resolve? (groups : Groups) (name : String) (version : Version) : Option Nat := do
  let found ← groups.get? name
  found.findIdx? fun group => group.version.contains version

-- Answers that come with the names that were looked up, the last one first.
abbrev Noting := StateM (List String)

namespace Splitting

def note (name : String) : Noting Unit :=
  modify fun names => if names.contains name then names else name :: names

-- What two snapshots see: the groups, and the version that each of them is of.
structure Context where
  groups : Groups
  left : Version
  right : Version

def sameClass (context : Context) (a b : String) : Noting Bool :=
  if a = b then do
    note a
    pure (context.groups.resolve? a context.left = context.groups.resolve? b context.right)
  else pure false

mutual

def sameType (context : Context) : GenericType → GenericType → Noting Bool
  | .classType a, .classType b => do
    if a.length ≠ b.length then pure false
    else if ← sameClass context (ClassType.internalName a) (ClassType.internalName b) then
      sameSegments context a b
    else pure false
  | .array a, .array b => sameType context a b
  | .base a, .base b => pure (a = b)
  | .var a, .var b => pure (a = b)
  | _, _ => pure false

def sameSegment (context : Context) : Segment → Segment → Noting Bool
  | ⟨_, xs⟩, ⟨_, ys⟩ =>
    if xs.length = ys.length then sameArguments context xs ys else pure false

def sameArgument (context : Context) : TypeArgument → TypeArgument → Noting Bool
  | .any, .any => pure true
  | .bounded v a, .bounded w b => if v = w then sameType context a b else pure false
  | _, _ => pure false

def sameSegments (context : Context) : List Segment → List Segment → Noting Bool
  | x :: xs, y :: ys => do
    if ← sameSegment context x y then sameSegments context xs ys else pure false
  | _, _ => pure true

def sameArguments (context : Context) : List TypeArgument → List TypeArgument → Noting Bool
  | x :: xs, y :: ys => do
    if ← sameArgument context x y then sameArguments context xs ys else pure false
  | _, _ => pure true

end

def sameClassType (context : Context) (a b : ClassType) : Noting Bool :=
  sameType context (.classType a) (.classType b)

def sameTypes (context : Context) : List GenericType → List GenericType → Noting Bool
  | [], [] => pure true
  | x :: xs, y :: ys => do
    if xs.length ≠ ys.length then pure false
    else if ← sameType context x y then sameTypes context xs ys
    else pure false
  | _, _ => pure false

def sameBound (context : Context) : Option GenericType → Option GenericType → Noting Bool
  | none, none => pure true
  | some a, some b => sameType context a b
  | _, _ => pure false

-- Names do not matter.
def sameParameter (context : Context) (a b : TypeParameter) : Noting Bool := do
  if ← sameBound context a.classBound b.classBound then
    sameTypes context a.interfaceBounds b.interfaceBounds
  else pure false

def sameParameters (context : Context) : List TypeParameter → List TypeParameter → Noting Bool
  | [], [] => pure true
  | x :: xs, y :: ys => do
    if xs.length ≠ ys.length then pure false
    else if ← sameParameter context x y then sameParameters context xs ys
    else pure false
  | _, _ => pure false

-- An interface that only one side has does not matter.
def sameInterface (context : Context) (others : List ClassType) (type : ClassType) :
    Noting Bool :=
  match others.find? fun other => other.internalName = type.internalName with
  | some other => sameClassType context type other
  | none => pure true

-- Canonical signatures that can be joined without loosening anything.
def sameCanonical (context : Context) (a b : ClassSignature) : Noting Bool := do
  if ← sameParameters context a.typeParameters b.typeParameters then
    if ← sameClassType context a.superclass b.superclass then
      a.interfaces.allM (sameInterface context b.interfaces)
    else pure false
  else pure false

def sameSignature (context : Context) : Option String → Option String → Noting Bool
  | none, none => pure true
  | some a, some b =>
    match ClassSignature.ofChars? a.toList, ClassSignature.ofChars? b.toList with
    | some x, some y => sameCanonical context x.canonical y.canonical
    | _, _ => pure (a = b)
  | _, _ => pure false

def sameOwner (context : Context) : Option EnclosingMethod → Option EnclosingMethod → Noting Bool
  | none, none => pure true
  | some a, some b =>
    if a.name = b.name && a.descriptor = b.descriptor then sameClass context a.owner b.owner
    else pure false
  | _, _ => pure false

def sameSuperclass (context : Context) : Option String → Option String → Noting Bool
  | none, none => pure true
  | some a, some b => sameClass context a b
  | _, _ => pure false

-- Whether two snapshots of a class can be merged as wholes, their references resolved in their own
-- versions.
def mergeable (groups : Groups) (a b : ApiClass) : Noting Bool := do
  let context := ⟨groups, a.version, b.version⟩
  if a.access.classKind ≠ b.access.classKind then pure false
  else if ← sameOwner context a.enclosing b.enclosing then
    if ← sameSuperclass context a.superclass b.superclass then
      sameSignature context a.signature b.signature
    else pure false
  else pure false

def mergeableAt (groups : Groups) (snapshots : List ApiClass) (snapshot : ApiClass)
    (index : Nat) : Noting Bool :=
  match snapshots[index]? with
  | some member => mergeable groups member snapshot
  | none => pure true

-- A snapshot fits a group if it can be merged with each member.
def fits (groups : Groups) (snapshots : List ApiClass) (group : Group) (snapshot : ApiClass) :
    Noting Bool :=
  group.members.allM (mergeableAt groups snapshots snapshot)

-- The first group that a snapshot fits takes it in, or else it starts a group of its own.
def place (groups : Groups) (snapshots : List ApiClass) (index : Nat) (snapshot : ApiClass) :
    List Group → Noting (List Group)
  | [] => pure [⟨[index], snapshot.version⟩]
  | group :: rest => do
    if ← fits groups snapshots group snapshot then
      pure (group.add index snapshot.version :: rest)
    else
      pure (group :: (← place groups snapshots index snapshot rest))

def divideFrom (groups : Groups) (snapshots : List ApiClass) :
    Nat → List Group → List ApiClass → Noting (List Group)
  | _, found, [] => pure found
  | index, found, snapshot :: rest => do
    let found ← place groups snapshots index snapshot found
    divideFrom groups snapshots (index + 1) found rest

-- The groups of the snapshots of one class, given how other classes are grouped.
def divide (groups : Groups) (snapshots : List ApiClass) : Noting (List Group) :=
  divideFrom groups snapshots 0 [] snapshots

end Splitting

end ApiUnion
