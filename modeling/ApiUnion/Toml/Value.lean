-- The values of a settings file. No setting is a fraction or a moment in time, but a list may hold
-- some where nothing looks at them.

namespace ApiUnion.Toml

inductive Value
  | boolean (value : Bool)
  | integer (value : Int)
  | text (value : String)
  | list (items : List Value)
  | fraction
  | moment
  -- A row stands in tables within this one if its path has more than one key.
  | table (rows : List (List String × Value))

-- The numbers that a file may hold.
def inRange (n : Int) : Bool :=
  -0x8000000000000000 ≤ n && n ≤ 0x7fffffffffffffff

-- How many lists and tables may stand within each other.
def maxDepth : Nat := 79

-- How many keys a path may have.
def maxPathLength : Nat := 79

end ApiUnion.Toml
