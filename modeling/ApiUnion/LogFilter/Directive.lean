import ApiUnion.LogFilter.Field
import ApiUnion.LogFilter.Level
import ApiUnion.Text.Alphanumeric
import ApiUnion.Text.Blank

-- Directives of a log filter: a level for a target, for the spans of a name, for messages with a
-- field, or for all of them. `target[span{field=value}]=level` is the whole of one.

namespace ApiUnion

-- What a level is for. What is absent is not asked for.
structure LogScope where
  target : Option String := none
  span : Option String := none
  field : Option LogField := none
deriving DecidableEq, Repr

structure LogDirective extends LogScope where
  level : LogLevel
deriving DecidableEq, Repr

namespace LogScope

-- Whether the scope depends on what goes on at the time of a message.
def isDynamic (scope : LogScope) : Bool :=
  scope.span.isSome || scope.field.isSome

-- Whether it is known of a place in the program if its messages belong to the scope. The presence
-- of a field is, its value is not.
def isStatic (scope : LogScope) : Bool :=
  scope.span.isNone && (scope.field.bind LogField.value).isNone

private def compareFields (a b : Option LogField) : Ordering :=
  match a, b with
  | none, none => .eq
  | none, some _ => .lt
  | some _, none => .gt
  | some a, some b => a.compare b

-- How special a scope is. Longer targets are more special, then scopes with a span, then those with
-- a field. The order of their texts decides among equals.
def compare (a b : LogScope) : Ordering :=
  (Ord.compare (a.target.map String.utf8ByteSize) (b.target.map String.utf8ByteSize)).then <|
    (Ord.compare a.span.isSome b.span.isSome).then <|
    (Ord.compare a.field.isSome b.field.isSome).then <|
    (Ord.compare a.target b.target).then <|
    (Ord.compare a.span b.span).then (compareFields a.field b.field)

def text (scope : LogScope) : String :=
  let span := scope.span.getD ""
  let field := match scope.field with
    | none => ""
    | some field => "\x7b" ++ field.text ++ "\x7d"
  scope.target.getD "" ++ if scope.isDynamic then "[" ++ span ++ field ++ "]" else ""

end LogScope

namespace LogDirective

-- The text of a directive. The level stands alone if it is for all messages.
def text (directive : LogDirective) : String :=
  let isForAll := directive.target.isNone && !directive.isDynamic
  (if isForAll then "" else directive.toLogScope.text ++ "=") ++ directive.level.name

-- The part of a directive that is being read, and where it begins.
private inductive Part
  | start
  | levelOrTarget (first : Nat)
  | span (first : Nat)
  | field (first : Nat)
  | afterField
  | afterScope
  | level (first : Nat)

-- A directive begins with a letter, a numeral or one of three signs.
def mayBegin (c : Char) : Bool :=
  Text.isAlphanumeric c || c = '-' || c = ':' || c = '_'

-- The characters from one place to another, both in bytes.
private def slice (first last : Nat) : List Char → List Char
  | [] => []
  | c :: rest =>
    if last = 0 then []
    else if first = 0 then c :: slice 0 (last - c.utf8Size) rest
    else slice (first - c.utf8Size) (last - c.utf8Size) rest

private def step (piece : List Char) (scope : LogScope) (place : Nat) (c : Char) :
    Part → Option (LogScope × Part)
  | .start =>
    if c = '[' then some (scope, .span (place + 1))
    else if mayBegin c then some (scope, .levelOrTarget place)
    else none
  | .levelOrTarget first =>
    let target := some (String.ofList (slice first place piece))
    if c = '=' then some ({ scope with target }, .level (place + 1))
    else if c = '[' then some ({ scope with target }, .span (place + 1))
    else some (scope, .levelOrTarget first)
  | .span first =>
    let name := slice first place piece
    if c = ']' then some ({ scope with span := some (String.ofList name) }, .afterScope)
    else if c = '\x7b' then
      some ({ scope with span := if name.isEmpty then none else some (String.ofList name) },
        .field (place + 1))
    else some (scope, .span first)
  | .field first =>
    if c = '\x7d' then do
      let field ← LogField.ofChars? (slice first place piece)
      some ({ scope with field := some field }, .afterField)
    else some (scope, .field first)
  | .afterField => if c = ']' then some (scope, .afterScope) else none
  | .afterScope => if c = '=' then some (scope, .level (place + 1)) else none
  | .level first => some (scope, .level first)

-- Where no level is given, everything is kept.
private def finish? (piece : List Char) (scope : LogScope) : Part → Option LogDirective
  | .levelOrTarget first =>
    let word := slice first (String.ofList piece).utf8ByteSize piece
    match LogLevel.ofChars? word with
    | some level => some { scope with level }
    | none => some { scope with target := some (String.ofList word), level := .trace }
  | .afterScope => some { scope with level := .trace }
  | .level first =>
    let word := slice first (String.ofList piece).utf8ByteSize piece
    if word.isEmpty then some { scope with level := .trace }
    else (LogLevel.ofChars? word).map fun level => { scope with level }
  | _ => none

private def readFrom (piece : List Char) (scope : LogScope) (part : Part) (place : Nat) :
    List Char → Option LogDirective
  | [] => finish? piece scope part
  | c :: rest => do
    let (scope, part) ← step piece scope place c part
    readFrom piece scope part (place + c.utf8Size) rest

-- Reads a directive. Blanks at the ends do not take part in finding its parts, but the parts are
-- cut out of the whole piece at the places found, the last of them up to the end of the piece. So a
-- blank behind a target belongs to it, and a blank before a directive moves its parts.
def ofChars? (piece : List Char) : Option LogDirective :=
  readFrom piece {} .start 0 (Text.trimChars piece)

end LogDirective

end ApiUnion
