import ApiUnion.Signature.Basic

-- Type variables of signatures. A signature declares its own, which other versions may name
-- otherwise; its canonical form numbers them. Variables that an enclosing class declares keep their
-- names.

namespace ApiUnion

-- What each variable is called instead.
abbrev Renaming := String → String

mutual

def GenericType.rename (names : Renaming) : GenericType → GenericType
  | .base type => .base type
  | .array component => .array (component.rename names)
  | .var name => .var (names name)
  | .classType segments => .classType (renameSegments names segments)

def Segment.rename (names : Renaming) : Segment → Segment
  | ⟨name, arguments⟩ => ⟨name, renameArguments names arguments⟩

def TypeArgument.rename (names : Renaming) : TypeArgument → TypeArgument
  | .any => .any
  | .bounded variance bound => .bounded variance (bound.rename names)

def renameSegments (names : Renaming) : List Segment → List Segment
  | [] => []
  | segment :: rest => segment.rename names :: renameSegments names rest

def renameArguments (names : Renaming) : List TypeArgument → List TypeArgument
  | [] => []
  | argument :: rest => argument.rename names :: renameArguments names rest

end

def ClassType.rename (names : Renaming) (type : ClassType) : ClassType :=
  renameSegments names type

def TypeParameter.rename (names : Renaming) (parameter : TypeParameter) : TypeParameter where
  name := names parameter.name
  classBound := parameter.classBound.map (GenericType.rename names)
  interfaceBounds := parameter.interfaceBounds.map (GenericType.rename names)

def MethodSignature.rename (names : Renaming) (signature : MethodSignature) : MethodSignature where
  typeParameters := signature.typeParameters.map (TypeParameter.rename names)
  parameters := signature.parameters.map (GenericType.rename names)
  result := signature.result.map (GenericType.rename names)
  throws := signature.throws.map (GenericType.rename names)

def ClassSignature.rename (names : Renaming) (signature : ClassSignature) : ClassSignature where
  typeParameters := signature.typeParameters.map (TypeParameter.rename names)
  superclass := signature.superclass.rename names
  interfaces := signature.interfaces.map (ClassType.rename names)

namespace Renaming

-- The last row for a name counts; names without a row stay.
def ofRows (rows : List (String × String)) : Renaming := fun name =>
  (rows.reverse.lookup name).getD name

def placeholder (index : Nat) : String :=
  s!"T{index}"

-- The placeholders of a list of names, one for each position.
def placeholders (names : List String) : List String :=
  (List.range names.length).map placeholder

def toPlaceholders (names : List String) : Renaming :=
  ofRows (names.zip (placeholders names))

-- Placeholders back to names. Where two signatures name the same position, the first of them
-- prevails.
def fromPlaceholders (first second : List String) : Renaming :=
  ofRows ((placeholders second).zip second ++ (placeholders first).zip first)

end Renaming

def ownNames (parameters : List TypeParameter) : List String :=
  parameters.map TypeParameter.name

def MethodSignature.ownNames (signature : MethodSignature) : List String :=
  ApiUnion.ownNames signature.typeParameters

def ClassSignature.ownNames (signature : ClassSignature) : List String :=
  ApiUnion.ownNames signature.typeParameters

def MethodSignature.canonical (signature : MethodSignature) : MethodSignature :=
  signature.rename (.toPlaceholders signature.ownNames)

def ClassSignature.canonical (signature : ClassSignature) : ClassSignature :=
  signature.rename (.toPlaceholders signature.ownNames)

end ApiUnion
