import ApiUnion.Merge.Classes
import ApiUnion.Merge.Tally

-- Catalogs: merged classes by name, in the order in which they first arrived, and the tally of the
-- merges behind them.

namespace ApiUnion

structure Catalog where
  options : MergeOptions
  classes : Table ApiClass
  tally : Tally

-- What became of a snapshot.
inductive Outcome
  | installed | merged | duplicate | rejected | skipped
deriving DecidableEq, Repr

def Outcome.name : Outcome → String
  | installed => "Installed"
  | merged => "Merged"
  | duplicate => "Duplicate"
  | rejected => "Rejected"
  | skipped => "Skipped"

namespace Catalog

def empty (options : MergeOptions) : Catalog :=
  ⟨options, .empty, {}⟩

def get? (catalog : Catalog) (name : String) : Option ApiClass :=
  catalog.classes.get? name

def put (catalog : Catalog) (entry : ApiClass) (events : List Event) : Catalog :=
  { catalog with
    classes := catalog.classes.insert entry.name entry
    tally := catalog.tally.recordAll events }

-- Whether the options leave a snapshot out.
def skips (catalog : Catalog) (snapshot : ApiClass) : Bool :=
  catalog.options.skipPackagePrivateMembers && snapshot.isPackagePrivateMember

-- One more snapshot. It is merged into the class of its name, unless that was seen in its version
-- already.
def append (catalog : Catalog) (snapshot : ApiClass) : Catalog × Outcome :=
  if catalog.skips snapshot then (catalog, .skipped)
  else
    match catalog.get? snapshot.name with
    | none => (catalog.put snapshot [], .installed)
    | some existing =>
      if existing.version.contains snapshot.version then (catalog, .duplicate)
      else
        let merge := Merge.classes catalog.options existing snapshot
        match merge.value with
        | some merged => (catalog.put merged merge.events, .merged)
        | none => ({ catalog with tally := catalog.tally.recordAll merge.events }, .rejected)

def appendAll (catalog : Catalog) (snapshots : List ApiClass) : Catalog :=
  snapshots.foldl (fun catalog snapshot => (catalog.append snapshot).1) catalog

-- A version that repeats that of the class goes without saying.
def impliedVersion (ofClass : Version) (version : Option Version) : Option Version :=
  if version = some ofClass then none else version

def withImpliedVersions (entry : ApiClass) : ApiClass :=
  let implied := impliedVersion entry.version
  { entry with
    fields := entry.fields.map fun field => { field with version := implied field.version }
    methods := entry.methods.map <| MethodSlot.map fun method =>
      { method with version := implied method.version } }

-- The catalog with only those versions of members that differ from the version of their class.
def cleanUp (catalog : Catalog) : Catalog :=
  { catalog with classes := catalog.classes.map withImpliedVersions }

end Catalog

end ApiUnion
