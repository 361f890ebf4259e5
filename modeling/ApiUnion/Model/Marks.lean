import ApiUnion.Model.Basic

-- The annotations that carry meaning of their own: nullability, the metadata of a Kotlin compiler,
-- and the version metadata that emitted classes record.

namespace ApiUnion.Marks

def existsIn : String := "Lapiset/annotations/ExistsIn;"
def alternativeVisibility : String := "Lapiset/annotations/AlternativeVisibility;"
def alternativeModality : String := "Lapiset/annotations/AlternativeModality;"
def mangledName : String := "Lapiset/annotations/MangledName;"
def visibilityType : String := "Lapiset/annotations/Visibility;"
def modalityType : String := "Lapiset/annotations/Modality;"
def nullable : String := "Lorg/jetbrains/annotations/Nullable;"
def notNull : String := "Lorg/jetbrains/annotations/NotNull;"
def kotlinMetadata : String := "Lkotlin/Metadata;"

-- Version metadata is not part of what a class declares.
def isVersionMetadata (mark : AnnotationValue) : Bool :=
  [existsIn, alternativeVisibility, alternativeModality, mangledName].contains mark.type

def isKotlinMetadata (mark : AnnotationValue) : Bool :=
  mark.type = kotlinMetadata

def nullability? (mark : AnnotationValue) : Option Nullability :=
  if mark.type = notNull then some .notNull
  else if mark.type = nullable then some .nullable
  else none

-- The annotation that says so, if it can be said.
def ofNullability : Nullability → List AnnotationValue
  | .notNull => [{ type := notNull, elements := [] }]
  | .nullable => [{ type := nullable, elements := [] }]
  | .unknown => []

private def textValue (text : String) : ElementValue :=
  .constant (.string text)

-- A version without a literal is not recorded.
def ofVersion (version : Option Version) : List AnnotationValue :=
  match version.bind Version.literal? with
  | some literal => [{ type := existsIn, elements := [("version", textValue literal)] }]
  | none => []

-- A table of alternatives as two arrays of one length, versions and values. Rows without a literal
-- are left out.
def ofAlternatives {α : Type} [Facet α] (type element : String) (value : α → ElementValue)
    (table : Alternatives α) : List AnnotationValue :=
  if table.isEmpty then []
  else
    let rows := table.rows.filterMap fun row =>
      row.2.literal?.map fun literal => (textValue literal, value row.1)
    [{ type
       elements :=
         [("version", .array (rows.map Prod.fst)), (element, .array (rows.map Prod.snd))] }]

def versionMetadata (version : Option Version) (visibilities : Alternatives Visibility)
    (modalities : Alternatives Modality) : List AnnotationValue :=
  ofVersion version ++
  ofAlternatives alternativeVisibility "visibility"
    (fun v => .enumConstant visibilityType v.constantName) visibilities ++
  ofAlternatives alternativeModality "modality"
    (fun m => .enumConstant modalityType m.constantName) modalities

-- A method of a group is emitted under a name of its own.
def ofMangledName (name : String) : AnnotationValue :=
  { type := mangledName, elements := [("original", textValue name)] }

-- The text of an element, if it is there and is a text.
def text? (mark : AnnotationValue) (element : String) : Option String :=
  match mark.element? element with
  | some (.constant (.string text)) => some text
  | _ => none

end ApiUnion.Marks
