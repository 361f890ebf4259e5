import ApiUnion.CommandLine.Basic

-- The program: the files that the arguments name are read, the run is computed, and what it prints
-- and leaves is put out.

namespace ApiUnion

-- The names on the way to a path, with dots taken out.
def wayTo (path : String) : Place :=
  (Disk.pieces path).foldl (fun place piece =>
    if piece = "" || piece = "." then place
    else if piece = ".." then place.dropLast
    else place ++ [piece]) []

-- A file or a directory with all that is below it.
partial def gather (disk : Disk) (path : String) : IO Disk := do
  let here := (← IO.currentDir) / path
  if ← here.isDir then
    let disk := { disk with made := disk.made ++ [wayTo here.toString] }
    (← here.readDir).toList.foldlM (fun disk entry => gather disk entry.path.toString) disk
  else if ← here.pathExists then
    pure (disk.put (wayTo here.toString) (← IO.FS.readBinFile here).toList)
  else pure disk

def pathOf (place : Place) : String :=
  "/" ++ String.intercalate "/" place

-- A file is only ever lengthened by nothing, so that the log is kept.
def leave (file : Place × List UInt8) : IO Unit := do
  let path := pathOf file.1
  if file.2.isEmpty then
    IO.FS.withFile path .append fun _ => pure ()
  else
    IO.FS.createDirAll (Disk.parent path)
    IO.FS.writeBinFile path ⟨file.2.toArray⟩

end ApiUnion

open ApiUnion in
def main (arguments : List String) : IO UInt32 := do
  let environment ← IO.getEnv "APISET_CONFIG"
  let disk ← (CommandLine.sources environment arguments).foldlM gather
    (.emptyAt (wayTo (← IO.currentDir).toString))
  let exit := CommandLine.execute .asNoted disk environment arguments
  for place in exit.disk.made do
    IO.FS.createDirAll (pathOf place)
  for file in exit.disk.files do
    if disk.contents? file.1 ≠ some file.2 then leave file
  IO.print exit.stdout
  IO.eprint exit.stderr
  pure exit.code
