import ApiUnion.Model.Basic

-- Classes as they are listed: much like source code, with versions in front.

namespace ApiUnion

def Nullability.word : Nullability → String
  | notNull => "@NotNull "
  | nullable => "@Nullable "
  | unknown => ""

private def versionTag (version : Option Version) : String :=
  version.elim "" fun version => s!"[{version.label}] "

private def accessWords (access : Access) : String :=
  if access.text.isEmpty then "" else access.text ++ " "

private def signatureTag (signature : Option String) : String :=
  signature.elim "" fun signature => s!" <{signature}>"

private def listed (word : String) (names : List String) : String :=
  if names.isEmpty then "" else s!" {word} " ++ ", ".intercalate names

def ApiField.listing (field : ApiField) : String :=
  versionTag field.version ++ field.nullability.word ++ accessWords field.access ++
    s!"field {field.name}:{field.descriptor}" ++ signatureTag field.signature ++
    field.visibilities.text

def ApiMethod.listing (method : ApiMethod) : String :=
  versionTag method.version ++ method.nullability.word ++ accessWords method.access ++
    s!"method {method.name}{method.descriptor}" ++ signatureTag method.signature ++
    listed "throws" method.exceptions ++ method.visibilities.text ++ method.modalities.text

-- A group goes by its first variant. There is no listing of a group without one.
def MethodSlot.listing? : MethodSlot → Option (List String)
  | single method => some ["  " ++ method.listing]
  | group [] => none
  | group (first :: rest) =>
    some ([s!"  group {first.name}{first.descriptor} \x7b"] ++
      (first :: rest).map (fun method => "    " ++ method.listing) ++ ["  \x7d"])

-- Interfaces do not say what they extend.
def ApiClass.heading (entry : ApiClass) : String :=
  let superclass := if entry.access.isInterface then none else entry.superclass
  versionTag (some entry.version) ++ accessWords entry.access ++
    s!"{entry.access.classKind.text} {entry.name}" ++ signatureTag entry.signature ++
    superclass.elim "" (" extends " ++ ·) ++ listed "implements" entry.interfaces ++
    entry.visibilities.text ++ entry.modalities.text ++ " \x7b"

def ApiClass.listing? (entry : ApiClass) : Option String := do
  let methods ← entry.methods.values.mapM MethodSlot.listing?
  pure ("\n".intercalate ([entry.heading] ++
    entry.fields.values.map (fun field => "  " ++ field.listing) ++ methods.flatten ++ ["\x7d"]))

end ApiUnion
