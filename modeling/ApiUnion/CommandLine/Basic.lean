import ApiUnion.CommandLine.Help
import ApiUnion.Model.Listing
import ApiUnion.Run.Basic
import ApiUnion.Run.Discovery

-- The program as a function of its arguments, of the environment and of the files it sees. It ends
-- with an exit code, with what it prints and with the files it leaves.

namespace ApiUnion

structure Exit where
  code : UInt32
  stdout : String := ""
  stderr : String := ""
  disk : Disk

namespace CommandLine

def versionLine : String := "apiset 0.1.0\n"

def failure (disk : Disk) (message : String) : Exit :=
  { code := 2, stderr := message ++ "\n", disk }

-- A run that breaks off says why. Where it does is left out.
def brokenOff (disk : Disk) (message : String) : Exit :=
  { code := 101, stderr := message ++ "\n", disk }

def summaryText (json : Bool) (summary : RunSummary) : String :=
  if json then summary.json.pretty ++ "\n" else summary.text

def listings? (merged : Merged) (filter : Option String) : Option String := do
  let start := (filter.getD "").toList
  let classes := merged.catalog.classes.values.filter fun c => start.isPrefixOf c.name.toList
  let listings ← classes.mapM ApiClass.listing?
  pure (String.join (listings.map (· ++ "\n")))

-- The summary of what was written, with a last line unless it is in JSON.
def generated (merged : Merged) (out : String) (json : Bool) (written : Nat) : String :=
  summaryText json merged.summary ++
    if json then "" else s!"wrote {written} classes to {out}\n"

def generate (disk : Disk) (settings : Settings) (merged : Merged) (out : String) (json : Bool) :
    Exit :=
  match disk.makeDirectory? out with
  | none => failure disk (RunError.noDirectory out).message
  | some (disk, _) =>
    match Run.write disk out settings.emit merged.catalog with
    | (disk, .ok written) => { code := 0, stdout := generated merged out json written, disk }
    | (disk, .error (.broken message)) => brokenOff disk message
    | (disk, .error error) => failure disk error.message

def dump (disk : Disk) (merged : Merged) (filter : Option String) : Exit :=
  match listings? merged filter with
  | some text => { code := 0, stdout := text, disk }
  | none => brokenOff disk "index out of bounds: the len is 0 but the index is 0"

def finish (disk : Disk) (settings : Settings) (merged : Merged) : Command → Exit
  | .generate _ out json => generate disk settings merged out json
  | .stats _ json => { code := 0, stdout := summaryText json merged.summary, disk }
  | .dump _ filter => dump disk merged filter

def rootsIn : Command → List RootSpec
  | .generate roots _ _ => roots
  | .stats roots _ => roots
  | .dump roots _ => roots

def limitMessage (failures limit : Nat) : String :=
  s!"error: {failures} class files failed to decode (limit {limit})\n"

section

variable (order : QueueOrder)

-- Too many classes that cannot be decoded end the run before anything is written.
def runWith (disk : Disk) (settings : Settings) (command : Command) : Exit :=
  match Run.readRoots disk (rootsIn command) with
  | .error error => failure disk error.message
  | .ok roots =>
    let merged := Run.mergeRoots order settings roots
    if settings.exceeded merged.failures then
      { code := 1, stderr := limitMessage merged.failures settings.maxDecodeFailures, disk }
    else finish disk settings merged command

def run (disk : Disk) (environment config : Option String) (command : Command) : Exit :=
  match Settings.load disk config environment "." with
  | .error error => failure disk error.message
  | .ok (settings, _) =>
    let disk := (settings.log.file.map disk.touch).getD disk
    runWith order disk settings command

-- What the program does for some arguments.
def execute (disk : Disk) (environment : Option String) (arguments : List String) : Exit :=
  match parse arguments with
  | .error error => failure disk ("error: " ++ error.message)
  | .ok .version => { code := 0, stdout := versionLine, disk }
  | .ok (.help topic) => { code := 0, stdout := helpOn topic, disk }
  | .ok (.run config command) => run order disk environment config command

end

-- The paths that a run may read.
def sources (environment : Option String) (arguments : List String) : List String :=
  match parse arguments with
  | .ok (.run config command) =>
    let paths := config.toList ++ environment.toList ++ [Settings.usualName] ++
      (rootsIn command).map RootSpec.path
    paths.filter (!·.isEmpty)
  | _ => []

end CommandLine

end ApiUnion
