import ApiUnion.LogFilter.Pattern.Basic

-- Sets of characters in patterns. Between brackets stand characters, ranges, named sets, sets in
-- brackets of their own, and operators with all that stands on either side of them.

namespace ApiUnion.LogPattern

-- What has been read of a set: the depth of what stands before the last operator, and the depths of
-- the members behind it.
structure SetReading where
  left : Option Nat := none
  members : List Nat := []

namespace SetReading

def add (set : SetReading) (depth : Nat) : SetReading :=
  { set with members := depth :: set.members }

def depth (set : SetReading) : Nat :=
  match set.left with
  | none => depthOf set.members
  | some left => 1 + max left (depthOf set.members)

-- An operator takes all before it on its left.
def operate (set : SetReading) : SetReading :=
  ⟨some set.depth, []⟩

end SetReading

-- One character of a set, or one escape. Among bytes, it has to be a byte.
private def member? (flags : Flags) (text : List Char) : Option (Atom × List Char) := do
  let (atom, rest) ← match text with
    | [] => none
    | '\\' :: rest => escape? flags rest
    | c :: rest => some (.char c, rest)
  match atom with
  | .char c => if flags.isUnicode || c.toNat < 0x80 then some (atom, rest) else none
  | _ => some (atom, rest)

-- One member or a range from one to another. A bar at the end of the set is a member, and two of
-- them are an operator.
private def members? (flags : Flags) (text : List Char) : Option (List Char) := do
  let (first, rest) ← member? flags text
  let rest := skipSpace flags rest
  let isRange := rest.head? = some '-' &&
    !((peek? flags (rest.drop 1)).any fun c => c = ']' || c = '-')
  if isRange then
    let (last, rest) ← member? flags (skipSpace flags (rest.drop 1))
    match first, last with
    | .char a, .char b => if a ≤ b then some rest else none
    | _, _ => none
  else if first = .boundary then none
  else some rest

def namedSets : List String :=
  ["alnum", "alpha", "ascii", "blank", "cntrl", "digit", "graph", "lower", "print", "punct",
    "space", "upper", "word", "xdigit"]

-- A set that has a name between colons, behind its bracket: whether it is turned around, and what
-- follows it.
private def namedSet? : List Char → Option (Bool × List Char)
  | ':' :: rest =>
    let isNegated := rest.head? = some '^'
    let rest := if isNegated then rest.drop 1 else rest
    let name := rest.takeWhile (· ≠ ':')
    if namedSets.contains (String.ofList name) &&
        (rest.drop name.length).take 2 = [':', ']'] then
      some (isNegated, rest.drop (name.length + 2))
    else none
  | _ => none

-- Bars at the front of a set are members.
private def leadingBars (flags : Flags) : Nat → SetReading → List Char → SetReading × List Char
  | fuel + 1, set, '-' :: rest => leadingBars flags fuel (set.add 0) (skipSpace flags rest)
  | _, set, text => (set, text)

-- What follows the first bracket of a set, up to the first member that is not at its place alone. A
-- closing bracket at the very front is a member.
private def opened? (flags : Flags) (text : List Char) : Option (SetReading × List Char) :=
  let text := skipSpace flags text
  let isNegated := text.head? = some '^'
  let text := if isNegated then skipSpace flags (text.drop 1) else text
  let (set, rest) := leadingBars flags text.length {} text
  let (set, rest) := match set.members, rest with
    | [], ']' :: rest => (set.add 0, rest)
    | _, rest => (set, rest)
  if (isNegated && !flags.allowsNegation) || (!set.members.isEmpty && !flags.allowsChars) then none
  else some (set, rest)

-- The depth of a set and what follows it. Sets that are open stand from the innermost outwards.
private def closed? (flags : Flags) :
    Nat → SetReading → List SetReading → List Char → Option (Nat × List Char)
  | 0, _, _, _ => none
  | fuel + 1, set, outer, text =>
    match skipSpace flags text with
    | [] => none
    | ']' :: rest =>
      match outer with
      | [] => some (set.depth + 1, rest)
      | above :: outer => closed? flags fuel (above.add (set.depth + 1)) outer rest
    | '[' :: rest =>
      match namedSet? rest with
      | some (isNegated, rest) =>
        if flags.allowsChars && (!isNegated || flags.allowsNegation) then
          closed? flags fuel (set.add 0) outer rest
        else none
      | none => do
        let (inner, rest) ← opened? flags rest
        closed? flags fuel inner (set :: outer) rest
    | '&' :: '&' :: rest => closed? flags fuel set.operate outer rest
    | '-' :: '-' :: rest => closed? flags fuel set.operate outer rest
    | '~' :: '~' :: rest => closed? flags fuel set.operate outer rest
    | text => do
      let rest ← members? flags text
      if flags.allowsChars then closed? flags fuel (set.add 0) outer rest else none

-- The depth of a set, behind its first bracket, and what follows it. Every step takes a character.
def set? (flags : Flags) (text : List Char) : Option (Nat × List Char) := do
  let (set, rest) ← opened? flags text
  closed? flags (rest.length + 1) set [] rest

end ApiUnion.LogPattern
