import ApiUnion.Run.Disk
import ApiUnion.Settings

-- Finding the settings of a run: a file that is named on the command line, else one that the
-- environment names, else one with the usual name in the directory of the run.

namespace ApiUnion

namespace Settings

def usualName : String := "apiset.toml"

-- Where the settings are, unless the command line says so.
def discover? (disk : Disk) (environment : Option String) (directory : String) : Option String :=
  match environment.filter (!·.isEmpty) with
  | some path => some (Disk.join directory path)
  | none =>
    let path := Disk.join directory usualName
    if disk.isFile path then some path else none

def ofPath (disk : Disk) (path : String) : Except SettingsError Settings :=
  match disk.read? path >>= fun bytes => String.fromUTF8? ⟨bytes.toArray⟩ with
  | none => .error (.unreadable path)
  | some text => ofText text

-- The settings, and the path of the file they are from.
def load (disk : Disk) (explicit environment : Option String) (directory : String) :
    Except SettingsError (Settings × Option String) :=
  match explicit.orElse fun _ => discover? disk environment directory with
  | none => .ok ({}, none)
  | some path => (ofPath disk path).map (·, some path)

end Settings

end ApiUnion
