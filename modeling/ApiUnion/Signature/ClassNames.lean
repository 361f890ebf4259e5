import ApiUnion.Signature.Parser

-- Other names for the classes that descriptors and signatures mention. Texts that cannot be read
-- stay as they are.

namespace ApiUnion

def FieldType.renameClasses (names : String → String) : FieldType → FieldType
  | base type => base type
  | object name => object (names name)
  | array component => array (component.renameClasses names)

def MethodType.renameClasses (names : String → String) (type : MethodType) : MethodType where
  parameters := type.parameters.map (FieldType.renameClasses names)
  result := type.result.map (FieldType.renameClasses names)

-- The name of a nested class within its outer class, once both have other names: what the new name
-- of the nested class adds to that of the outer one, or else the old name.
def nestedName (newOuter newFull old : String) : String :=
  match (newOuter.toList ++ ['$']).isPrefixOf? newFull.toList with
  | some rest => String.ofList rest
  | none => old

mutual

def GenericType.renameClasses (names : String → String) : GenericType → GenericType
  | .base type => .base type
  | .array component => .array (component.renameClasses names)
  | .var name => .var name
  | .classType segments => .classType (renameOutermost names segments)

def TypeArgument.renameClasses (names : String → String) : TypeArgument → TypeArgument
  | .any => .any
  | .bounded variance bound => .bounded variance (bound.renameClasses names)

def renameOutermost (names : String → String) : List Segment → List Segment
  | [] => []
  | ⟨name, arguments⟩ :: rest =>
    ⟨names name, renameInArguments names arguments⟩ :: renameNested names name (names name) rest

-- Segments nested in a class, given its old and its new name.
def renameNested (names : String → String) (oldOuter newOuter : String) :
    List Segment → List Segment
  | [] => []
  | ⟨name, arguments⟩ :: rest =>
    let old := s!"{oldOuter}${name}"
    let new := nestedName newOuter (names old) name
    ⟨new, renameInArguments names arguments⟩ :: renameNested names old s!"{newOuter}${new}" rest

def renameInArguments (names : String → String) : List TypeArgument → List TypeArgument
  | [] => []
  | argument :: rest => argument.renameClasses names :: renameInArguments names rest

end

def ClassType.renameClasses (names : String → String) (type : ClassType) : ClassType :=
  renameOutermost names type

def TypeParameter.renameClasses (names : String → String) (parameter : TypeParameter) :
    TypeParameter where
  name := parameter.name
  classBound := parameter.classBound.map (GenericType.renameClasses names)
  interfaceBounds := parameter.interfaceBounds.map (GenericType.renameClasses names)

def MethodSignature.renameClasses (names : String → String) (signature : MethodSignature) :
    MethodSignature where
  typeParameters := signature.typeParameters.map (TypeParameter.renameClasses names)
  parameters := signature.parameters.map (GenericType.renameClasses names)
  result := signature.result.map (GenericType.renameClasses names)
  throws := signature.throws.map (GenericType.renameClasses names)

def ClassSignature.renameClasses (names : String → String) (signature : ClassSignature) :
    ClassSignature where
  typeParameters := signature.typeParameters.map (TypeParameter.renameClasses names)
  superclass := signature.superclass.renameClasses names
  interfaces := signature.interfaces.map (ClassType.renameClasses names)

def renameInFieldDescriptor (names : String → String) (text : String) : String :=
  (FieldType.ofText? text).elim text fun type => (type.renameClasses names).text

def renameInMethodDescriptor (names : String → String) (text : String) : String :=
  (MethodType.ofText? text).elim text fun type => (type.renameClasses names).text

def renameInFieldSignature (names : String → String) (text : String) : String :=
  (GenericType.ofChars? text.toList).elim text fun type => (type.renameClasses names).text

def renameInMethodSignature (names : String → String) (text : String) : String :=
  (MethodSignature.ofChars? text.toList).elim text fun signature =>
    (signature.renameClasses names).text

def renameInClassSignature (names : String → String) (text : String) : String :=
  (ClassSignature.ofChars? text.toList).elim text fun signature =>
    (signature.renameClasses names).text

end ApiUnion
