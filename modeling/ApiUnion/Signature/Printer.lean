import ApiUnion.Signature.Basic

-- Signatures as text.

namespace ApiUnion

def Variance.chars : Variance → List Char
  | exact => []
  | covariant => ['+']
  | contravariant => ['-']

mutual

def GenericType.chars : GenericType → List Char
  | .base type => [type.letter]
  | .array component => '[' :: component.chars
  | .var name => 'T' :: (name.toList ++ [';'])
  | .classType segments => 'L' :: (segmentChars segments ++ [';'])

def Segment.chars : Segment → List Char
  | ⟨name, []⟩ => name.toList
  | ⟨name, argument :: rest⟩ => name.toList ++ '<' :: (argumentChars (argument :: rest) ++ ['>'])

def TypeArgument.chars : TypeArgument → List Char
  | .any => ['*']
  | .bounded variance bound => variance.chars ++ bound.chars

-- Nested classes follow a dot.
def segmentChars : List Segment → List Char
  | [] => []
  | [segment] => segment.chars
  | segment :: rest => segment.chars ++ '.' :: segmentChars rest

def argumentChars : List TypeArgument → List Char
  | [] => []
  | argument :: rest => argument.chars ++ argumentChars rest

end

def ClassType.chars (type : ClassType) : List Char :=
  GenericType.chars (.classType type)

-- A missing class bound leaves two colons before the first interface bound.
def TypeParameter.chars (parameter : TypeParameter) : List Char :=
  parameter.name.toList ++ ':' :: ((parameter.classBound.map GenericType.chars).getD [] ++
    parameter.interfaceBounds.flatMap fun bound => ':' :: bound.chars)

def typeParameterChars : List TypeParameter → List Char
  | [] => []
  | parameters => '<' :: (parameters.flatMap TypeParameter.chars ++ ['>'])

def ClassSignature.chars (signature : ClassSignature) : List Char :=
  typeParameterChars signature.typeParameters ++ signature.superclass.chars ++
    signature.interfaces.flatMap ClassType.chars

def MethodSignature.chars (signature : MethodSignature) : List Char :=
  typeParameterChars signature.typeParameters ++
    '(' :: (signature.parameters.flatMap GenericType.chars ++
      ')' :: ((signature.result.map GenericType.chars).getD ['V'] ++
        signature.throws.flatMap fun type => '^' :: type.chars))

def GenericType.text (type : GenericType) : String :=
  String.ofList type.chars

def TypeArgument.text (argument : TypeArgument) : String :=
  String.ofList argument.chars

def ClassSignature.text (signature : ClassSignature) : String :=
  String.ofList signature.chars

def MethodSignature.text (signature : MethodSignature) : String :=
  String.ofList signature.chars

end ApiUnion
