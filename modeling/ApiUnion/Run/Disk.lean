import ApiUnion.Text.Blank

-- The files that a run sees, by the names on the way to them, and the directory in which it runs. A
-- directory is there if it was made or if a file is somewhere below it.

namespace ApiUnion

-- The names on the way from the top.
abbrev Place := List String

structure Disk where
  files : List (Place × List UInt8)
  -- The directories that were made.
  made : List Place
  -- The directory that paths start from.
  directory : Place

-- Why a file cannot be written.
inductive WriteFault
  | noDirectory
  | noFile
deriving DecidableEq, Repr

namespace Disk

def emptyAt (directory : Place) : Disk :=
  ⟨[], [], directory⟩

def pieces (path : String) : List String :=
  (Text.splitChars '/' path.toList).map String.ofList

def isAbsolute (path : String) : Bool :=
  path.toList.head? = some '/'

-- A path below a directory, unless it starts at the top.
def join (directory path : String) : String :=
  if isAbsolute path || directory.isEmpty then path
  else if directory.toList.getLast? = some '/' then directory ++ path
  else directory ++ "/" ++ path

-- The directory of a path, without slashes at its end.
def parent (path : String) : String :=
  let above := (pieces path).dropLast.reverse.dropWhile fun piece => piece = "" || piece = "."
  if above.isEmpty && isAbsolute path then "/" else String.intercalate "/" above.reverse

def contents? (disk : Disk) (place : Place) : Option (List UInt8) :=
  disk.files.lookup place

def isDirectoryAt (disk : Disk) (place : Place) : Bool :=
  place.isPrefixOf disk.directory || disk.made.any place.isPrefixOf ||
    disk.files.any fun file => place.isPrefixOf file.1 && place ≠ file.1

def startOf (disk : Disk) (path : String) : Place :=
  if isAbsolute path then [] else disk.directory

-- Every piece but the last has to lead to a directory.
def walk? (disk : Disk) : Place → List String → Option Place
  | place, [] => some place
  | place, piece :: rest =>
    if !disk.isDirectoryAt place then none
    else if piece = "" || piece = "." then walk? disk place rest
    else if piece = ".." then walk? disk place.dropLast rest
    else
      let next := place ++ [piece]
      if (disk.contents? next).isSome || disk.isDirectoryAt next then walk? disk next rest
      else none

-- Paths are shorter than a limit.
def isPath (path : String) : Bool :=
  path.utf8ByteSize < 4096

-- Where a path leads, if there is a file or a directory.
def place? (disk : Disk) (path : String) : Option Place :=
  if path.isEmpty || !isPath path then none else disk.walk? (disk.startOf path) (pieces path)

def read? (disk : Disk) (path : String) : Option (List UInt8) :=
  disk.place? path >>= disk.contents?

def isFile (disk : Disk) (path : String) : Bool :=
  (disk.read? path).isSome

-- The names on the way down to a place, if it is below the other.
def below? : Place → Place → Option Place
  | [], rest => some rest
  | _ :: _, [] => none
  | name :: top, other :: rest => if name = other then below? top rest else none

-- The files below a place, in the order of their names from there.
def filesBelow (disk : Disk) (place : Place) : List (Place × List UInt8) :=
  let files := disk.files.filterMap fun file => (below? place file.1).map (·, file.2)
  files.mergeSort fun a b => !decide (b.1 < a.1)

def isName (name : String) : Bool :=
  name.utf8ByteSize ≤ 255 && !name.toList.contains '\x00'

-- Directories that are missing are made, also those that the path leaves again. A file in their
-- place stays.
def makeWay? : Disk → Place → List String → Option (Disk × Place)
  | disk, place, [] => some (disk, place)
  | disk, place, piece :: rest =>
    if piece = "" || piece = "." then makeWay? disk place rest
    else if piece = ".." then makeWay? disk place.dropLast rest
    else
      let next := place ++ [piece]
      if !isName piece || (disk.contents? next).isSome then none
      else if disk.isDirectoryAt next then makeWay? disk next rest
      else makeWay? { disk with made := disk.made ++ [next] } next rest

-- A directory, with the directories on the way to it.
def makeDirectory? (disk : Disk) (path : String) : Option (Disk × Place) :=
  if isPath path then disk.makeWay? (disk.startOf path) (pieces path) else none

def put (disk : Disk) (place : Place) (bytes : List UInt8) : Disk :=
  if (disk.contents? place).isSome then
    { disk with files := disk.files.map fun file => if file.1 = place then (place, bytes) else file }
  else { disk with files := disk.files ++ [(place, bytes)] }

-- A file written with the directories on the way to it.
def write (disk : Disk) (path : String) (bytes : List UInt8) : Except WriteFault Disk :=
  match disk.makeDirectory? (parent path) with
  | none => .error .noDirectory
  | some (disk, above) =>
    let name := (pieces path).getLast?.getD ""
    let place := above ++ [name]
    if !isPath path || !isName name || disk.isDirectoryAt place then .error .noFile
    else .ok (disk.put place bytes)

-- An empty file, if the directory for it is there and it is not.
def touch (disk : Disk) (path : String) : Disk :=
  let way := pieces path
  match disk.walk? (disk.startOf path) way.dropLast with
  | none => disk
  | some parent =>
    let name := way.getLast?.getD ""
    let place := parent ++ [name]
    if ["", ".", ".."].contains name || !isPath path || !isName name || !disk.isDirectoryAt parent ||
        disk.isDirectoryAt place || (disk.contents? place).isSome then disk
    else disk.put place []

end Disk

end ApiUnion
