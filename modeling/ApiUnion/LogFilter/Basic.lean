import ApiUnion.LogFilter.Directive

-- Filters of the log: the least level at which messages are kept, by target, by span and field, and
-- for all others. A filter is written as directives between commas. The settings give one, and the
-- environment may add to it.

namespace ApiUnion

-- A filter, the most special scopes first. A directive may belong to both lists.
structure LogFilter where
  fixed : List LogDirective
  dynamic : List LogDirective
deriving DecidableEq, Repr

namespace LogFilter

-- A directive for a scope that has one already takes its place.
def place (directive : LogDirective) : List LogDirective → List LogDirective
  | [] => [directive]
  | d :: rest =>
    match directive.toLogScope.compare d.toLogScope with
    | .eq => directive :: rest
    | .gt => directive :: d :: rest
    | .lt => d :: place directive rest

def placed (directives : List LogDirective) : List LogDirective :=
  directives.foldl (fun placed directive => place directive placed) []

-- Without a directive, nothing is kept.
def ofDirectives (directives : List LogDirective) : LogFilter :=
  if directives.isEmpty then ⟨[{ level := .off }], []⟩
  else
    let dynamic := directives.filter (·.isDynamic)
    ⟨placed (directives.filter (!·.isDynamic) ++ dynamic.filter (·.isStatic)), placed dynamic⟩

def ofText? (text : String) : Option LogFilter := do
  let pieces := (Text.splitChars ',' text.toList).filter (!·.isEmpty)
  let directives ← pieces.mapM LogDirective.ofChars?
  pure (ofDirectives directives)

def text (filter : LogFilter) : String :=
  String.intercalate "," ((filter.fixed ++ filter.dynamic).map LogDirective.text)

-- The names of levels are taken in any case and may have another name for one of them.
def normalLevel (level : String) : String :=
  let level := Text.trim level
  let lower := if level.toLower = "warning" then "warn" else level.toLower
  if level.isEmpty then "info"
  else if ["trace", "debug", "info", "warn", "error"].contains lower then lower
  else level

-- The filter in force: the level of the settings with what the environment adds, else what the
-- environment has, else the level alone, whichever can be read.
def inForce (level : String) (environment : Option String) : LogFilter :=
  let configured := normalLevel level
  let added := (environment.map Text.trim).filter (!·.isEmpty)
  let candidates := match added with
    | none => [configured]
    | some added => [configured ++ "," ++ added, added, configured]
  (candidates.findSome? ofText?).getD (ofDirectives [{ level := .info }])

end LogFilter

end ApiUnion
