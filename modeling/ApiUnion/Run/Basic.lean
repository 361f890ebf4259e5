import ApiUnion.Catalog.Sharded
import ApiUnion.Model.Emission
import ApiUnion.Run.Summary
import ApiUnion.Settings
import ApiUnion.Splitting.Renaming

-- Runs: the snapshots of all roots are merged into one catalog, which is written as class files.

namespace ApiUnion

structure Merged where
  catalog : Catalog
  roots : List (RootSpec × ReadStats)

namespace Merged

def failures (merged : Merged) : Nat :=
  merged.roots.foldl (fun failures root => failures + root.2.failures) 0

def summary (merged : Merged) : RunSummary where
  roots := merged.roots
  classes := merged.catalog.classes.size
  tally := merged.catalog.tally

end Merged

namespace Run

-- The roots in order; the first that cannot be read is an error.
def readRoots (disk : Disk) (roots : List RootSpec) : Except RunError (List RootSnapshots) :=
  roots.mapM (RootSpec.read disk)

-- Under names of their own, if they cannot be merged.
def grouped (order : QueueOrder) (snapshots : List ApiClass) : List ApiClass :=
  ((snapshots.foldl Splitter.add {}).groupAll order).renamed order

-- The snapshots of later roots merged into those of earlier ones.
def mergeRoots (order : QueueOrder) (settings : Settings) (roots : List RootSnapshots) : Merged :=
  let snapshots := roots.flatMap RootSnapshots.classes
  let snapshots := if settings.groupClasses then grouped order snapshots else snapshots
  let catalog := Catalog.mergeSharded settings.merge Catalog.hashShard settings.shards snapshots
  ⟨catalog.cleanUp, roots.map fun root => (root.root, root.stats)⟩

-- What was written stays written when a later class fails.
def writeAll (out : String) (options : EmitOptions) :
    Disk → Nat → List ApiClass → Disk × Except RunError Nat
  | disk, written, [] => (disk, .ok written)
  | disk, written, entry :: rest =>
    match entry.toBytes options with
    | .error .additionOverflow =>
      (disk, .error (.broken ClassFileError.additionOverflow.message))
    | .error _ => (disk, .error (.notEncoded entry.name))
    | .ok bytes =>
      let path := Disk.join out (entry.name ++ ".class")
      match disk.write path bytes with
      | .ok disk => writeAll out options disk (written + 1) rest
      | .error .noDirectory => (disk, .error (.noDirectory (Disk.parent path)))
      | .error .noFile => (disk, .error (.notWritten path))

-- Every class written to a file of its name, and the number of classes.
def write (disk : Disk) (out : String) (options : EmitOptions) (catalog : Catalog) :
    Disk × Except RunError Nat :=
  writeAll out options disk 0 catalog.classes.values

end Run

end ApiUnion
