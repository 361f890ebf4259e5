-- JSON values and their text, one item a line and two blanks a level.

namespace ApiUnion

inductive JsonValue
  | number (n : Nat)
  | text (value : String)
  | list (items : List JsonValue)
  | record (rows : List (String × JsonValue))

namespace JsonValue

def hexPadded (n : Nat) : List Char :=
  let digits := Nat.toDigits 16 n
  List.replicate (4 - digits.length) '0' ++ digits

-- Control characters are escaped, by a letter if there is one for them.
def escape (c : Char) : List Char :=
  if c = '"' || c = '\\' then ['\\', c]
  else if c = '\x08' then ['\\', 'b']
  else if c = '\t' then ['\\', 't']
  else if c = '\n' then ['\\', 'n']
  else if c = '\x0c' then ['\\', 'f']
  else if c = '\r' then ['\\', 'r']
  else if c.toNat < 0x20 then ['\\', 'u'] ++ hexPadded c.toNat
  else [c]

def quoted (value : String) : String :=
  String.ofList (['"'] ++ value.toList.flatMap escape ++ ['"'])

-- A line break and the blanks of a level.
def newLine (level : Nat) : String :=
  String.ofList ('\n' :: List.replicate (2 * level) ' ')

-- Items between brackets, which stand together if there are none.
def enclosed (level : Nat) (left right : String) (items : List String) : String :=
  if items.isEmpty then left ++ right
  else
    left ++ String.intercalate "," (items.map (newLine (level + 1) ++ ·)) ++ newLine level ++ right

mutual

def textAt (level : Nat) : JsonValue → String
  | .number n => Nat.repr n
  | .text value => quoted value
  | .list items => enclosed level "[" "]" (itemsAt (level + 1) items)
  | .record rows => enclosed level "\x7b" "\x7d" (rowsAt (level + 1) rows)

def itemsAt (level : Nat) : List JsonValue → List String
  | [] => []
  | item :: rest => textAt level item :: itemsAt level rest

def rowsAt (level : Nat) : List (String × JsonValue) → List String
  | [] => []
  | (key, value) :: rest => (quoted key ++ ": " ++ textAt level value) :: rowsAt level rest

end

-- The value written at the left margin.
def pretty (value : JsonValue) : String :=
  textAt 0 value

end JsonValue

end ApiUnion
