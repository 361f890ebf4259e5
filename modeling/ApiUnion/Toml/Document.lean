import ApiUnion.Table
import ApiUnion.Toml.Scalar

-- Settings files: lines that set a key to a value, below headers that name sections. A section may
-- also be written as a table on one line, or by keys of two parts in front of the first header. No
-- setting lies deeper, so longer keys and arrays of tables are refused.

namespace ApiUnion.Toml

def isBareKeyChar (c : Char) : Bool :=
  c.isAlphanum || c = '_' || c = '-'

def key? : Parser String
  | '"' :: rest => quotedAfter? (rest.length + 1) [] rest
  | '\'' :: rest => literal? rest
  | input =>
    let name := input.takeWhile isBareKeyChar
    if name.isEmpty then none else some (String.ofList name, input.dropWhile isBareKeyChar)

-- The parts of a key, with dots between them.
def keyPartsAfter? : Nat → List String → Parser (List String)
  | 0, _, _ => none
  | fuel + 1, found, input => do
    let (part, rest) ← key? (skipBlanks input)
    match skipBlanks rest with
    | '.' :: rest => keyPartsAfter? fuel (part :: found) rest
    | rest => pure ((part :: found).reverse, rest)

def keyParts? : Parser (List String) := fun input => do
  let (parts, rest) ← keyPartsAfter? (input.length + 1) [] input
  if parts.length ≤ maxPathLength then pure (parts, rest) else none

-- What follows a comment that may stand here, up to the end of the line.
def skipComment : List Char → List Char
  | '#' :: rest => rest.dropWhile isPlain
  | input => input

-- Nothing but a comment may follow on the line.
def lineEnd? (input : List Char) : Option (List Char) :=
  match skipComment (skipBlanks input) with
  | [] => some []
  | rest => newline? rest

-- Blanks, comments and line breaks.
def skipLines : Nat → List Char → List Char
  | 0, input => input
  | fuel + 1, input =>
    let rest := skipComment (skipBlanks input)
    match newline? rest with
    | some rest => skipLines fuel rest
    | none => rest

def skipSpace (input : List Char) : List Char :=
  skipLines (input.length + 1) input

-- A comma may also stand behind the last item.
def itemsAfter? (item : Parser Value) : Nat → List Value → Parser (List Value)
  | 0, _, _ => none
  | fuel + 1, found, input =>
    match skipSpace input with
    | ']' :: rest => some (found.reverse, rest)
    | input => do
      let (value, rest) ← item input
      match skipSpace rest with
      | ',' :: rest => itemsAfter? item fuel (value :: found) rest
      | ']' :: rest => pure ((value :: found).reverse, rest)
      | _ => none

abbrev Rows :=
  List (List String × Value)

-- No row stands in place of another or within it, even if it is a table.
def addRow? (path : List String) (value : Value) (rows : Rows) : Option Rows :=
  if rows.any fun row => path.isPrefixOf row.1 || row.1.isPrefixOf path then none
  else some (rows ++ [(path, value)])

-- Rows of a table on one line, without a comma behind the last row.
def rowsAfter? (item : Parser Value) : Nat → Rows → Parser Rows
  | 0, _, _ => none
  | fuel + 1, found, input => do
    let (path, rest) ← keyParts? input
    let rest ← expect? '=' rest
    let (value, rest) ← item (skipBlanks rest)
    let found ← addRow? path value found
    match skipBlanks rest with
    | ',' :: rest => rowsAfter? item fuel found rest
    | '}' :: rest => pure (found, rest)
    | _ => none

def inlineRows? (item : Parser Value) : Parser Rows := fun input =>
  match skipBlanks input with
  | '}' :: rest => some ([], rest)
  | rest => rowsAfter? item (rest.length + 1) [] rest

-- A value with at most `depth` lists and tables within each other.
def value? : Nat → Parser Value
  | depth + 1, '[' :: rest => do
    let (items, rest) ← itemsAfter? (value? depth) (rest.length + 1) [] rest
    pure (.list items, rest)
  | depth + 1, '{' :: rest => do
    let (rows, rest) ← inlineRows? (value? depth) rest
    pure (.table rows, rest)
  | _, c :: rest =>
    if c = '"' || c = '\'' then do
      let (value, rest) ← text? (c :: rest)
      pure (.text value, rest)
    else word? (c :: rest)
  | _, [] => none

-- What has been read: the rows so far, the sections among them that keys of two parts may still
-- extend, and the section of the last header.
structure Draft where
  root : Table Value := .empty
  dotted : List String := []
  header : Option String := none

namespace Draft

def extend? (draft : Draft) (sectionName key : String) (value : Value) : Option Draft := do
  match draft.root.get? sectionName with
  | some (.table rows) =>
    pure { draft with root := draft.root.insert sectionName (.table (← addRow? [key] value rows)) }
  | _ => none

-- A header opens a section that is not there yet.
def enter? (draft : Draft) (sectionName : String) : Option Draft :=
  if draft.root.contains sectionName then none
  else
    some { draft with
      root := draft.root.insert sectionName (.table [])
      header := some sectionName }

def assign? (draft : Draft) (parts : List String) (value : Value) : Option Draft :=
  match draft.header, parts with
  | some sectionName, [key] => draft.extend? sectionName key value
  | none, [key] =>
    if draft.root.contains key then none
    else some { draft with root := draft.root.insert key value }
  | none, [sectionName, key] =>
    if draft.dotted.contains sectionName then draft.extend? sectionName key value
    else if draft.root.contains sectionName then none
    else
      some { draft with
        root := draft.root.insert sectionName (.table [([key], value)])
        dotted := sectionName :: draft.dotted }
  | _, _ => none

end Draft

def header? : Parser String := fun input => do
  let (name, rest) ← key? (skipBlanks input)
  pure (name, ← expect? ']' (skipBlanks rest))

def assignment? : Parser (List String × Value) := fun input => do
  let (parts, rest) ← keyParts? input
  let rest ← expect? '=' rest
  let (value, rest) ← value? maxDepth (skipBlanks rest)
  pure ((parts, value), rest)

def linesInto? : Nat → Draft → List Char → Option Draft
  | 0, _, _ => none
  | fuel + 1, draft, input =>
    match skipSpace input with
    | [] => some draft
    | '[' :: rest => do
      let (name, rest) ← header? rest
      linesInto? fuel (← draft.enter? name) (← lineEnd? rest)
    | rest => do
      let ((parts, value), rest) ← assignment? rest
      linesInto? fuel (← draft.assign? parts value) (← lineEnd? rest)

-- A mark of the byte order may stand first.
def skipMark : List Char → List Char
  | '\ufeff' :: rest => rest
  | input => input

-- The sections and values of a whole file.
def ofText? (text : String) : Option (Table Value) :=
  let input := skipMark text.toList
  (linesInto? (input.length + 1) {} input).map Draft.root

end ApiUnion.Toml
