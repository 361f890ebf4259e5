import ApiUnion.Archive.Directory
import ApiUnion.Model.Snapshot
import ApiUnion.Run.Disk
import ApiUnion.Run.RootSpec

-- Reading the classes of a root. A file that is no class is counted and left out; a root that
-- cannot be read is an error.

namespace ApiUnion

inductive RunError
  | missingRoot (path : String)
  | notArchive (path : String)
  | unreadableEntry (index : Nat) (path : String)
  | corruptEntry (name path : String)
  | notEncoded (className : String)
  | noDirectory (path : String)
  | notWritten (path : String)
  -- This one is not returned. The program stops there.
  | broken (message : String)
deriving DecidableEq, Repr

def RunError.message : RunError → String
  | missingRoot path => s!"root {path} does not exist"
  | notArchive path => s!"{path} is not a jar"
  | unreadableEntry index path => s!"failed to read entry {index} of {path}"
  | corruptEntry name path => s!"failed to read {name} from {path}"
  | notEncoded className => s!"failed to encode {className}"
  | noDirectory path => s!"failed to create {path}"
  | notWritten path => s!"failed to write {path}"
  | broken message => message

structure ReadStats where
  decoded : Nat := 0
  failures : Nat := 0
  -- Files that describe modules and packages, and those about the archive.
  skipped : Nat := 0
deriving DecidableEq, Repr

structure RootSnapshots where
  root : RootSpec
  classes : List ApiClass
  stats : ReadStats

namespace Reading

def lastPiece (name : String) : String :=
  ((Disk.pieces name).getLast?).getD name

def isIgnored (name : String) : Bool :=
  ["module-info.class", "package-info.class"].contains (lastPiece name) ||
    "META-INF/".toList.isPrefixOf name.toList

def endsWith (ending name : String) : Bool :=
  ending.toList.isSuffixOf name.toList

-- A name that is nothing but the ending has none.
def isClassFile (place : Place) : Bool :=
  match place.getLast? with
  | none => false
  | some name => endsWith ".class" name && name ≠ ".class"

-- Backslashes are taken for separators.
def relativeName (place : Place) : String :=
  let name := String.intercalate "/" place
  String.ofList (name.toList.map fun c => if c = '\\' then '/' else c)

def files (disk : Disk) (place : Place) : List (String × List UInt8) :=
  let found := (disk.filesBelow place).filter fun file => isClassFile file.1
  found.map fun file => (relativeName file.1, file.2)

def entry (path : String) (bytes : List UInt8) (index : Nat) (entry : Archive.Entry) :
    Except RunError (Option (String × List UInt8)) :=
  if !entry.isReadable bytes then .error (.unreadableEntry index path)
  else if !entry.isFile || !endsWith ".class" entry.name then .ok none
  else
    match entry.contents bytes with
    | .ok stored => .ok (some (entry.name, stored))
    | .error _ => .error (.corruptEntry entry.name path)

-- Entries in order; the first that cannot be read is an error.
def entriesFrom (path : String) (bytes : List UInt8) :
    Nat → List Archive.Entry → Except RunError (List (String × List UInt8))
  | _, [] => .ok []
  | index, first :: rest => do
    let found ← entry path bytes index first
    let others ← entriesFrom path bytes (index + 1) rest
    pure (found.toList ++ others)

def entries (path : String) (bytes : List UInt8) :
    Except RunError (List (String × List UInt8)) :=
  match Archive.entries? bytes with
  | none => .error (.notArchive path)
  | some entries => entriesFrom path bytes 0 entries

-- What a root may have under the names of classes.
def candidates (disk : Disk) (path : String) : Except RunError (List (String × List UInt8)) :=
  match disk.place? path with
  | none => .error (.missingRoot path)
  | some place =>
    match disk.contents? place with
    | some bytes => entries path bytes
    | none => .ok (files disk place)

-- One more file; the classes stand in reverse.
def accept (version : Version) (found : List ApiClass × ReadStats) (file : String × List UInt8) :
    List ApiClass × ReadStats :=
  let (classes, stats) := found
  if isIgnored file.1 then (classes, { stats with skipped := stats.skipped + 1 })
  else
    match ApiClass.ofBytes file.2 version with
    | .ok snapshot => (snapshot :: classes, { stats with decoded := stats.decoded + 1 })
    | .error _ => (classes, { stats with failures := stats.failures + 1 })

end Reading

-- The snapshots under a root: the class files of a directory in the order of their names, or of a
-- jar in its own order.
def RootSpec.read (disk : Disk) (root : RootSpec) : Except RunError RootSnapshots := do
  let files ← Reading.candidates disk root.path
  let (classes, stats) := files.foldl (Reading.accept (.single root.version)) ([], {})
  pure ⟨root, classes.reverse, stats⟩

end ApiUnion
