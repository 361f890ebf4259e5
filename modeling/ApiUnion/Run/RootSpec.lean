import ApiUnion.Text.Blank

-- Roots: the version of an API, and the directory or jar that holds its classes.

namespace ApiUnion

structure RootSpec where
  version : String
  path : String
deriving DecidableEq, Repr

inductive RootSpecError
  | noSeparator (text : String)
  | invalidVersion (version : String)
  | noPath (version : String)
deriving DecidableEq, Repr

def RootSpecError.message : RootSpecError → String
  | noSeparator text => s!"expected <version>=<path>, got \x60{text}\x60"
  | invalidVersion version => s!"invalid version tag \x60{version}\x60"
  | noPath version => s!"missing path for version \x60{version}\x60"

namespace RootSpec

-- A version and a path around the first equals sign. The version is a tag, so it has no comma, and
-- blanks around it do not belong to it.
def ofText (text : String) : Except RootSpecError RootSpec :=
  let version := Text.trim (String.ofList (text.toList.takeWhile (· ≠ '=')))
  match text.toList.dropWhile (· ≠ '=') with
  | [] => .error (.noSeparator text)
  | _ :: path =>
    if version.isEmpty || version.toList.contains ',' then .error (.invalidVersion version)
    else if path.isEmpty then .error (.noPath version)
    else .ok ⟨version, String.ofList path⟩

def text (root : RootSpec) : String :=
  root.version ++ "=" ++ root.path

end RootSpec

end ApiUnion
