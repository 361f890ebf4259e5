import ApiUnion.Merge.Conflict

-- Tallies: how many merges of each kind succeeded, and every conflict that was met.

namespace ApiUnion

structure ScopeTally where
  successes : Nat := 0
  failures : Array Finding := #[]
  warnings : Array Finding := #[]
deriving DecidableEq, Repr

namespace ScopeTally

def failed (tally : ScopeTally) : Nat :=
  tally.failures.size

def total (tally : ScopeTally) : Nat :=
  tally.successes + tally.failed

def findings (tally : ScopeTally) : List Finding :=
  tally.failures.toList ++ tally.warnings.toList

-- The kinds of conflict that occurred, with how often, in alphabetical order.
def byCategory (tally : ScopeTally) : List (ConflictKind × Nat) :=
  let counts := ConflictKind.all.map fun kind =>
    (kind, tally.findings.countP fun finding => finding.kind = kind)
  counts.filter fun (_, count) => count ≠ 0

def add (tally other : ScopeTally) : ScopeTally where
  successes := tally.successes + other.successes
  failures := tally.failures ++ other.failures
  warnings := tally.warnings ++ other.warnings

def text (tally : ScopeTally) : String :=
  String.join (tally.byCategory.map fun (kind, count) => s!"{kind.name} - {count}\n") ++
    s!"s:{tally.successes} f:{tally.failed} t:{tally.total}\n"

end ScopeTally

structure Tally where
  classes : ScopeTally := {}
  fields : ScopeTally := {}
  methods : ScopeTally := {}
  annotations : ScopeTally := {}
  innerClasses : ScopeTally := {}
deriving DecidableEq, Repr

namespace Tally

def scope (tally : Tally) : Scope → ScopeTally
  | .classes => tally.classes
  | .fields => tally.fields
  | .methods => tally.methods
  | .annotations => tally.annotations
  | .innerClasses => tally.innerClasses

def modify (tally : Tally) (f : ScopeTally → ScopeTally) : Scope → Tally
  | .classes => { tally with classes := f tally.classes }
  | .fields => { tally with fields := f tally.fields }
  | .methods => { tally with methods := f tally.methods }
  | .annotations => { tally with annotations := f tally.annotations }
  | .innerClasses => { tally with innerClasses := f tally.innerClasses }

def record (tally : Tally) : Event → Tally
  | .succeeded scope => tally.modify (fun s => { s with successes := s.successes + 1 }) scope
  | .failed scope finding =>
    tally.modify (fun s => { s with failures := s.failures.push finding }) scope
  | .tolerated scope finding =>
    tally.modify (fun s => { s with warnings := s.warnings.push finding }) scope

def recordAll (tally : Tally) (events : List Event) : Tally :=
  events.foldl record tally

def add (tally other : Tally) : Tally where
  classes := tally.classes.add other.classes
  fields := tally.fields.add other.fields
  methods := tally.methods.add other.methods
  annotations := tally.annotations.add other.annotations
  innerClasses := tally.innerClasses.add other.innerClasses

-- Every failure and warning, scope by scope, failures first.
def findings (tally : Tally) : List (Scope × Finding) :=
  Scope.all.flatMap fun scope => (tally.scope scope).findings.map (scope, ·)

def hasFindings (tally : Tally) : Bool :=
  !tally.findings.isEmpty

def text (tally : Tally) : String :=
  String.join (Scope.all.map fun scope => scope.title ++ ":\n" ++ (tally.scope scope).text)

end Tally

end ApiUnion
