import ApiUnion.Catalog.Availability
import ApiUnion.Model.Emission
import ApiUnion.Proofs.Catalog.Emittable
import ApiUnion.Proofs.Literals
import ApiUnion.Proofs.Version

-- What an index of emitted classes tells of a class: its versions as they are read from their
-- literals.

namespace ApiUnion

open Emission Marks

theorem AnnotationValue.type_asRead (mark : AnnotationValue) : mark.asRead.type = mark.type := by
  obtain ⟨type, elements, className⟩ := mark
  rfl

namespace Marks

-- The first annotation of a type.
def first? (type : String) (marks : List AnnotationValue) : Option AnnotationValue :=
  marks.find? fun mark => mark.type = type

theorem first?_append (type : String) (xs ys : List AnnotationValue) :
    first? type (xs ++ ys) = (first? type xs).or (first? type ys) :=
  List.find?_append

theorem first?_map_asRead (type : String) (marks : List AnnotationValue) :
    first? type (marks.map AnnotationValue.asRead) =
      (first? type marks).map AnnotationValue.asRead := by
  unfold first?
  rw [List.find?_map]
  refine congrArg (Option.map _) (congrArg (List.find? · marks) (funext fun mark => ?_))
  rw [Function.comp_apply, AnnotationValue.type_asRead]

theorem first?_eq_none {type : String} {marks : List AnnotationValue}
    (h : ∀ mark ∈ marks, mark.type ≠ type) : first? type marks = none := by
  rw [first?, List.find?_eq_none]
  simpa using h

theorem first?_of_unversioned {type : String} {marks : List AnnotationValue}
    (htype : type ∈ [existsIn, alternativeVisibility, alternativeModality, mangledName])
    (h : ∀ mark ∈ marks, isVersionMetadata mark = false) : first? type marks = none := by
  refine first?_eq_none fun mark hmark heq => ?_
  have hnot := h mark hmark
  rw [isVersionMetadata, heq, List.contains_iff_mem.mpr htype] at hnot
  cases hnot

theorem first?_ofNullability {type : String}
    (htype : type ∈ [existsIn, alternativeVisibility, alternativeModality, mangledName])
    (nullability : Nullability) : first? type (ofNullability nullability) = none := by
  refine first?_of_unversioned htype fun mark hmark => ?_
  cases nullability with
  | notNull | nullable =>
      obtain rfl := List.mem_singleton.mp hmark
      decide
  | unknown => cases hmark

theorem first?_ofAlternatives {α : Type} [Facet α] {wanted type : String} (h : wanted ≠ type)
    (element : String) (value : α → ElementValue) (table : Alternatives α) :
    first? wanted (ofAlternatives type element value table) = none := by
  refine first?_eq_none fun mark hmark => ?_
  unfold ofAlternatives at hmark
  split at hmark
  · cases hmark
  · obtain rfl := List.mem_singleton.mp hmark
    exact Ne.symm h

-- Only the version itself is looked up under its type.
theorem first?_existsIn_versionMetadata (version : Option Version)
    (visibilities : Alternatives Visibility) (modalities : Alternatives Modality) :
    first? existsIn (versionMetadata version visibilities modalities) =
      first? existsIn (ofVersion version) := by
  rw [versionMetadata, first?_append, first?_append, first?_ofAlternatives (by decide),
    first?_ofAlternatives (by decide), Option.or_none, Option.or_none]

theorem first?_mangledName_versionMetadata (version : Option Version)
    (visibilities : Alternatives Visibility) (modalities : Alternatives Modality) :
    first? mangledName (versionMetadata version visibilities modalities) = none := by
  have hversion : first? mangledName (ofVersion version) = none := by
    unfold ofVersion
    split
    · rfl
    · rfl
  rw [versionMetadata, first?_append, first?_append, first?_ofAlternatives (by decide),
    first?_ofAlternatives (by decide), hversion]
  rfl

end Marks

namespace VersionIndex

-- The version is found again if it was written.
theorem markedVersion?_map_asRead {marks : List AnnotationValue} {version : Option Version}
    (h : first? existsIn marks = first? existsIn (ofVersion version)) :
    markedVersion? (marks.map AnnotationValue.asRead) = version.bind Version.reread? := by
  have hfound : markedVersion? (marks.map AnnotationValue.asRead) =
      ((first? existsIn marks).map AnnotationValue.asRead).bind fun mark =>
        (text? mark "version").bind fun literal => some (.ofLiteral literal) := by
    rw [← first?_map_asRead]
    rfl
  rw [hfound, h, ofVersion]
  unfold Version.reread?
  cases version with
  | none => rfl
  | some version =>
      rw [Option.bind_some, Option.bind_some]
      cases version.literal? with
      | none => rfl
      | some literal => rfl

theorem mangledFrom?_map_asRead {marks : List AnnotationValue} {name : Option String}
    (h : first? mangledName marks = name.map ofMangledName) :
    mangledFrom? (marks.map AnnotationValue.asRead) = name := by
  have hfound : mangledFrom? (marks.map AnnotationValue.asRead) =
      ((first? mangledName marks).map AnnotationValue.asRead).bind fun mark =>
        text? mark "original" := by
    rw [← first?_map_asRead]
    rfl
  rw [hfound, h]
  cases name <;> rfl

theorem first?_eq_none_of_unversioned (type : String) {annotations : Annotations}
    (htype : type ∈ [existsIn, alternativeVisibility, alternativeModality, mangledName])
    (h : annotations.Unversioned) :
    first? type annotations.visible = none ∧ first? type annotations.invisible = none := by
  obtain ⟨hvisible, hinvisible⟩ := List.forall_mem_append.mp h
  exact ⟨first?_of_unversioned htype hvisible, first?_of_unversioned htype hinvisible⟩

theorem memberVersion_fieldMember (ofClass : Version) {field : ApiField}
    (h : field.annotations.Unversioned) :
    memberVersion ofClass (fieldMember field).asReadField =
      (field.version.bind Version.reread?).getD ofClass := by
  obtain ⟨hvisible, hinvisible⟩ := first?_eq_none_of_unversioned existsIn (by simp) h
  have hmarks : first? existsIn (fieldMember field).annotations =
      first? existsIn (ofVersion field.version) := by
    simp only [Member.annotations, fieldMember, first?_append, hvisible, hinvisible,
      first?_ofNullability, first?_existsIn_versionMetadata, List.mem_cons, true_or,
      Option.none_or, Option.or_none]
  have hread : (fieldMember field).asReadField.annotations =
      (fieldMember field).annotations.map AnnotationValue.asRead :=
    List.map_append.symm
  rw [memberVersion, hread, markedVersion?_map_asRead hmarks]

variable (options : EmitOptions) (variant : Option Nat) {method : ApiMethod}

theorem annotations_methodMember (method : ApiMethod) :
    (methodMember options method variant).asReadMethod.annotations =
      (methodMember options method variant).annotations.map AnnotationValue.asRead :=
  List.map_append.symm

theorem memberVersion_methodMember (ofClass : Version) (h : method.annotations.Unversioned) :
    memberVersion ofClass (methodMember options method variant).asReadMethod =
      (method.version.bind Version.reread?).getD ofClass := by
  obtain ⟨hvisible, hinvisible⟩ := first?_eq_none_of_unversioned existsIn (by simp) h
  have hmangled : first? existsIn (variant.map fun _ => ofMangledName method.name).toList = none := by
    cases variant <;> rfl
  have hmarks : first? existsIn (methodMember options method variant).annotations =
      first? existsIn (ofVersion method.version) := by
    simp only [Member.annotations, methodMember, first?_append, hvisible, hinvisible, hmangled,
      first?_ofNullability, first?_existsIn_versionMetadata, List.mem_cons, true_or,
      Option.none_or, Option.or_none]
  rw [memberVersion, annotations_methodMember, markedVersion?_map_asRead hmarks]

-- A variant of a group is known by the name that it had.
theorem unmangledName_methodMember (h : method.annotations.Unversioned) :
    unmangledName (methodMember options method variant).asReadMethod = method.name := by
  obtain ⟨hvisible, hinvisible⟩ := first?_eq_none_of_unversioned mangledName (by simp) h
  have hmangled : first? mangledName (variant.map fun _ => ofMangledName method.name).toList =
      (variant.map fun _ => method.name).map ofMangledName := by
    cases variant <;> rfl
  have hmarks : first? mangledName (methodMember options method variant).annotations =
      (variant.map fun _ => method.name).map ofMangledName := by
    simp only [Member.annotations, methodMember, first?_append, hvisible, hinvisible, hmangled,
      first?_ofNullability, first?_mangledName_versionMetadata, List.mem_cons, true_or, or_true,
      Option.none_or, Option.or_none]
  rw [unmangledName, annotations_methodMember, mangledFrom?_map_asRead hmarks]
  cases variant <;> rfl

theorem markedVersion?_toClassFile {allowed : Version → Prop} {entry : ApiClass}
    (h : entry.Emittable allowed) :
    markedVersion? (entry.toClassFile options).asRead.annotations = entry.version.reread? := by
  obtain ⟨hvisible, hinvisible⟩ := first?_eq_none_of_unversioned existsIn (by simp) h.annotations
  have hmetadata : first? existsIn entry.metadata.toList = none :=
    first?_of_unversioned (by simp) fun mark hmark =>
      h.metadata mark (Option.mem_toList.mp hmark)
  have hmarks : first? existsIn (entry.toClassFile options).annotations =
      first? existsIn (ofVersion (some entry.version)) := by
    simp only [ClassFile.annotations, ApiClass.toClassFile, first?_append, hmetadata, hvisible,
      hinvisible, first?_existsIn_versionMetadata, Option.none_or, Option.or_none]
  have hread : (entry.toClassFile options).asRead.annotations =
      (entry.toClassFile options).annotations.map AnnotationValue.asRead :=
    List.map_append.symm
  rw [hread, markedVersion?_map_asRead hmarks]
  rfl

end VersionIndex

end ApiUnion
