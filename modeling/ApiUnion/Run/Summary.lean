import ApiUnion.Merge.Tally
import ApiUnion.Run.Reading
import ApiUnion.Text.Json

-- Summaries of runs: what was read from each root, how many classes there are, and how merging
-- went.

namespace ApiUnion

-- The name of a scope in JSON.
def Scope.key : Scope → String
  | classes => "classes"
  | fields => "fields"
  | methods => "methods"
  | annotations => "annotations"
  | innerClasses => "inner_class_refs"

def ScopeTally.json (tally : ScopeTally) : JsonValue :=
  .record [
    ("success", .number tally.successes),
    ("failed", .number tally.failed),
    ("total", .number tally.total),
    ("by_category", .record (tally.byCategory.map fun (kind, count) => (kind.name, .number count)))]

def Tally.json (tally : Tally) : JsonValue :=
  .record [("scopes", .record (Scope.all.map fun scope => (scope.key, (tally.scope scope).json)))]

structure RunSummary where
  roots : List (RootSpec × ReadStats)
  classes : Nat
  tally : Tally

namespace RunSummary

def rootText : RootSpec × ReadStats → String
  | (root, stats) =>
    s!"root {root.version} ({root.path}): " ++
      s!"decoded {stats.decoded}, failed {stats.failures}, skipped {stats.skipped}\n"

def text (summary : RunSummary) : String :=
  String.join (summary.roots.map rootText) ++ s!"classes: {summary.classes}\n" ++
    summary.tally.text

def rootJson : RootSpec × ReadStats → JsonValue
  | (root, stats) =>
    .record [
      ("version", .text root.version),
      ("path", .text root.path),
      ("decoded", .number stats.decoded),
      ("decode_failures", .number stats.failures),
      ("skipped", .number stats.skipped)]

def json (summary : RunSummary) : JsonValue :=
  .record [
    ("roots", .list (summary.roots.map rootJson)),
    ("classes", .number summary.classes),
    ("statistics", summary.tally.json)]

end RunSummary

end ApiUnion
