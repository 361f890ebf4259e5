import ApiUnion.LogFilter.Pattern.Set
import ApiUnion.Text.Alphanumeric

-- Whether a pattern can be used: its groups and sets are closed, what is repeated is there, flags
-- and names are given once, nothing needs a table of characters, and its parts are not too deep
-- within each other.

namespace ApiUnion.LogPattern

-- The flags between a question mark and a colon or a closing parenthesis, each of them once.
private def flags? (isNegated : Bool) (seen : List Char) (flags : Flags) :
    List Char → Option (Flags × List Char)
  | [] => none
  | c :: rest =>
    if c = ':' || c = ')' then
      if seen.head? = some '-' || (c = ')' && seen.isEmpty) then none else some (flags, c :: rest)
    else if seen.contains c then none
    else
      let seen := c :: seen
      match c with
      | '-' => flags? true seen flags rest
      | 'i' => flags? isNegated seen { flags with ignoresCase := !isNegated } rest
      | 'u' => flags? isNegated seen { flags with isUnicode := !isNegated } rest
      | 'x' => flags? isNegated seen { flags with isSpaced := !isNegated } rest
      | 'm' | 's' | 'U' | 'R' => flags? isNegated seen flags rest
      | _ => none

structure Part where
  depth : Nat
  mayRepeat : Bool := true

-- What has been read of a group: the depths of the branches that are complete, and the parts of the
-- last branch, the last of them first.
structure GroupReading where
  branches : List Nat := []
  parts : List Part := []

namespace GroupReading

def add (group : GroupReading) (part : Part) : GroupReading :=
  { group with parts := part :: group.parts }

def lastBranch (group : GroupReading) : Nat :=
  depthOf (group.parts.map Part.depth)

def branch (group : GroupReading) : GroupReading :=
  ⟨group.lastBranch :: group.branches, []⟩

def depth (group : GroupReading) : Nat :=
  depthOf (group.lastBranch :: group.branches)

-- The last part repeated, if it can be.
def repeated? (group : GroupReading) : Option GroupReading :=
  match group.parts with
  | ⟨depth, true⟩ :: parts => some { group with parts := { depth := depth + 1 } :: parts }
  | _ => none

end GroupReading

-- The state between two parts of a pattern: the flags in force, the innermost group that is open,
-- the groups around it with the flags in force there, and the names that groups have.
structure Reading where
  flags : Flags := {}
  group : GroupReading := {}
  outer : List (Flags × GroupReading) := []
  names : List (List Char) := []

namespace Reading

def add (reading : Reading) (part : Part) : Reading :=
  { reading with group := reading.group.add part }

private def opened (reading : Reading) (flags : Flags) : Reading :=
  { reading with flags, group := {}, outer := (reading.flags, reading.group) :: reading.outer }

private def closed? (reading : Reading) : Option Reading :=
  match reading.outer with
  | [] => none
  | (flags, above) :: outer =>
    some { reading with flags, group := above.add { depth := reading.group.depth + 1 }, outer }

private def mayName (c : Char) : Bool :=
  c = '_' || c = '.' || c = '[' || c = ']' || Text.isAlphanumeric c

-- A name up to a closing angle. It begins with a letter or an underscore.
private def named? (reading : Reading) (text : List Char) : Option (Reading × List Char) :=
  let name := text.takeWhile (· ≠ '>')
  if (name.head?.any fun c => c = '_' || Text.isAlphabetic c) && name.all mayName &&
      name.length < text.length && !reading.names.contains name then
    some ({ reading with names := name :: reading.names }.opened reading.flags,
      text.drop (name.length + 1))
  else none

-- What follows an opening parenthesis: a name, flags for the group or for the rest of the group
-- around it, or nothing of the kind. There is no looking around.
private def group? (reading : Reading) (text : List Char) : Option (Reading × List Char) :=
  match skipSpace reading.flags text with
  | '?' :: 'P' :: '<' :: rest => reading.named? rest
  | '?' :: '<' :: rest =>
    if ['=', '!'].contains (rest.headD '=') then none else reading.named? rest
  | '?' :: rest =>
    match flags? false [] reading.flags rest with
    | some (flags, ':' :: rest) => some (reading.opened flags, rest)
    | some (flags, _ :: rest) =>
      some ({ reading with flags }.add { depth := 0, mayRepeat := false }, rest)
    | _ => none
  | rest => some (reading.opened reading.flags, rest)

-- A repetition may be marked as one that takes as little as it can.
private def skipMark : List Char → List Char
  | '?' :: rest => rest
  | rest => rest

private def single (reading : Reading) : Reading :=
  reading.add { depth := 0 }

private def char? (reading : Reading) (isAllowed : Bool) (rest : List Char) :
    Option (Reading × List Char) :=
  if isAllowed then some (reading.single, rest) else none

-- One step, which takes the first character at least.
private def step? (reading : Reading) (c : Char) (rest : List Char) :
    Option (Reading × List Char) :=
  match c with
  | '(' => reading.group? rest
  | ')' => reading.closed?.map (·, rest)
  | '|' => some ({ reading with group := reading.group.branch }, rest)
  | '*' | '+' | '?' =>
    reading.group.repeated?.map fun group => ({ reading with group }, skipMark rest)
  | '{' => none
  | '^' | '$' => some (reading.single, rest)
  | '.' => reading.char? reading.flags.isUnicode rest
  | '[' => (set? reading.flags rest).map fun (depth, rest) => (reading.add { depth }, rest)
  | '\\' =>
    match escape? reading.flags rest with
    | some (.char _, rest) => reading.char? reading.flags.allowsChars rest
    | some (_, rest) => some (reading.single, rest)
    | none => none
  | _ => reading.char? reading.flags.allowsChars rest

private def accepts : Nat → Reading → List Char → Bool
  | 0, _, _ => false
  | fuel + 1, reading, text =>
    match skipSpace reading.flags text with
    | [] => reading.outer.isEmpty && reading.group.depth ≤ maxDepth
    | c :: rest =>
      match reading.step? c rest with
      | some (reading, rest) => accepts fuel reading rest
      | none => false

end Reading

-- Whether a text can be used as a pattern.
def isValid (text : List Char) : Bool :=
  Reading.accepts (text.length + 1) {} text

end ApiUnion.LogPattern
