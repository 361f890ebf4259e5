import ApiUnion.Proofs.Signature.ClassNames

-- Nested classes under other names. A class type names a class segment by segment, and its segments
-- are renamed one by one, where the name of the class as a whole is renamed at once. Both come to
-- the same as long as the classes around it keep their names.

namespace ApiUnion

open Signature

mutual

-- All class types in a type, outside in, from left to right.
def GenericType.classTypes : GenericType → List ClassType
  | .base _ | .var _ => []
  | .array component => component.classTypes
  | .classType segments => segments :: segmentsClassTypes segments

def TypeArgument.classTypes : TypeArgument → List ClassType
  | .any => []
  | .bounded _ bound => bound.classTypes

def segmentsClassTypes : List Segment → List ClassType
  | [] => []
  | ⟨_, arguments⟩ :: rest => argumentsClassTypes arguments ++ segmentsClassTypes rest

def argumentsClassTypes : List TypeArgument → List ClassType
  | [] => []
  | argument :: rest => argument.classTypes ++ argumentsClassTypes rest

end

def TypeParameter.classTypes (parameter : TypeParameter) : List ClassType :=
  parameter.bounds.flatMap GenericType.classTypes

def MethodSignature.classTypes (signature : MethodSignature) : List ClassType :=
  signature.typeParameters.flatMap TypeParameter.classTypes ++
    (signature.parameters ++ signature.result.toList ++ signature.throws).flatMap
      GenericType.classTypes

def ClassSignature.classTypes (signature : ClassSignature) : List ClassType :=
  signature.typeParameters.flatMap TypeParameter.classTypes ++
    (signature.superclass :: signature.interfaces).flatMap fun type =>
      GenericType.classTypes (.classType type)

section Renaming

variable (names : String → String)

mutual

theorem GenericType.classTypes_renameClasses : ∀ type : GenericType,
    (type.renameClasses names).classTypes = type.classTypes.map (ClassType.renameClasses names)
  | .base _ => rfl
  | .array component => component.classTypes_renameClasses
  | .var _ => rfl
  | .classType segments => congrArg (List.cons _) (classTypes_renameOutermost segments)

theorem TypeArgument.classTypes_renameClasses : ∀ argument : TypeArgument,
    (argument.renameClasses names).classTypes =
      argument.classTypes.map (ClassType.renameClasses names)
  | .any => rfl
  | .bounded _ bound => bound.classTypes_renameClasses

theorem classTypes_renameOutermost : ∀ segments : List Segment,
    segmentsClassTypes (renameOutermost names segments) =
      (segmentsClassTypes segments).map (ClassType.renameClasses names)
  | [] => rfl
  | ⟨name, arguments⟩ :: rest => by
      rw [renameOutermost, segmentsClassTypes, segmentsClassTypes, List.map_append,
        classTypes_renameInArguments arguments, classTypes_renameNested name (names name) rest]

theorem classTypes_renameNested (oldOuter newOuter : String) : ∀ segments : List Segment,
    segmentsClassTypes (renameNested names oldOuter newOuter segments) =
      (segmentsClassTypes segments).map (ClassType.renameClasses names)
  | [] => rfl
  | ⟨name, arguments⟩ :: rest => by
      rw [renameNested, segmentsClassTypes, segmentsClassTypes, List.map_append,
        classTypes_renameInArguments arguments, classTypes_renameNested _ _ rest]

theorem classTypes_renameInArguments : ∀ arguments : List TypeArgument,
    argumentsClassTypes (renameInArguments names arguments) =
      (argumentsClassTypes arguments).map (ClassType.renameClasses names)
  | [] => rfl
  | argument :: rest => by
      rw [renameInArguments, argumentsClassTypes, argumentsClassTypes, List.map_append,
        argument.classTypes_renameClasses, classTypes_renameInArguments rest]

end

theorem TypeParameter.classTypes_renameClasses (parameter : TypeParameter) :
    (parameter.renameClasses names).classTypes =
      parameter.classTypes.map (ClassType.renameClasses names) := by
  simp only [classTypes, bounds_renameClasses, List.flatMap_map, List.map_flatMap,
    GenericType.classTypes_renameClasses]

theorem MethodSignature.classTypes_renameClasses (signature : MethodSignature) :
    (signature.renameClasses names).classTypes =
      signature.classTypes.map (ClassType.renameClasses names) := by
  simp only [classTypes, renameClasses, Option.toList_map, List.flatMap_append, List.flatMap_map,
    List.map_append, List.map_flatMap, TypeParameter.classTypes_renameClasses,
    GenericType.classTypes_renameClasses]

theorem ClassSignature.classTypes_renameClasses (signature : ClassSignature) :
    (signature.renameClasses names).classTypes =
      signature.classTypes.map (ClassType.renameClasses names) := by
  have htype (type : ClassType) :
      GenericType.classTypes (.classType (type.renameClasses names)) =
        (GenericType.classTypes (.classType type)).map (ClassType.renameClasses names) :=
    GenericType.classTypes_renameClasses names (.classType type)
  simp only [classTypes, renameClasses, List.flatMap_cons, List.flatMap_map, List.map_append,
    List.map_flatMap, TypeParameter.classTypes_renameClasses, htype]

end Renaming

mutual

-- The class types in a legible type name something.
theorem GenericType.ne_nil_of_mem_classTypes : ∀ type : GenericType, type.Legible →
    ∀ found ∈ type.classTypes, found ≠ []
  | .base _, _ => by simp [GenericType.classTypes]
  | .array component, hlegible => component.ne_nil_of_mem_classTypes hlegible
  | .var _, _ => by simp [GenericType.classTypes]
  | .classType segments, hlegible => List.forall_mem_cons.mpr
      ⟨hlegible.1, ne_nil_of_mem_segmentsClassTypes segments hlegible.2⟩

theorem TypeArgument.ne_nil_of_mem_classTypes : ∀ argument : TypeArgument, argument.Legible →
    ∀ found ∈ argument.classTypes, found ≠ []
  | .any, _ => by simp [TypeArgument.classTypes]
  | .bounded _ bound, hlegible => bound.ne_nil_of_mem_classTypes hlegible.2

theorem ne_nil_of_mem_segmentsClassTypes : ∀ segments : List Segment, LegibleSegments segments →
    ∀ found ∈ segmentsClassTypes segments, found ≠ []
  | [], _ => by simp [segmentsClassTypes]
  | ⟨_, arguments⟩ :: rest, hlegible => List.forall_mem_append.mpr
      ⟨ne_nil_of_mem_argumentsClassTypes arguments hlegible.1.2,
        ne_nil_of_mem_segmentsClassTypes rest hlegible.2⟩

theorem ne_nil_of_mem_argumentsClassTypes : ∀ arguments : List TypeArgument,
    LegibleArguments arguments → ∀ found ∈ argumentsClassTypes arguments, found ≠ []
  | [], _ => by simp [argumentsClassTypes]
  | argument :: rest, hlegible => List.forall_mem_append.mpr
      ⟨argument.ne_nil_of_mem_classTypes hlegible.1,
        ne_nil_of_mem_argumentsClassTypes rest hlegible.2⟩

end

theorem TypeParameter.Legible.ne_nil_of_mem_classTypes {parameter : TypeParameter}
    (h : parameter.Legible) : ∀ found ∈ parameter.classTypes, found ≠ [] := by
  intro found hfound
  obtain ⟨bound, hbound, hmem⟩ := List.mem_flatMap.mp hfound
  exact bound.ne_nil_of_mem_classTypes (h.bounds bound hbound).2 found hmem

theorem ClassSignature.Legible.ne_nil_of_mem_classTypes {signature : ClassSignature}
    (h : signature.Legible) : ∀ found ∈ signature.classTypes, found ≠ [] := by
  rw [classTypes, List.forall_mem_append]
  constructor
  · intro found hfound
    obtain ⟨parameter, hparameter, hmem⟩ := List.mem_flatMap.mp hfound
    exact (h.typeParameters parameter hparameter).ne_nil_of_mem_classTypes found hmem
  · intro found hfound
    obtain ⟨type, htype, hmem⟩ := List.mem_flatMap.mp hfound
    refine GenericType.ne_nil_of_mem_classTypes (.classType type) ?_ found hmem
    rcases List.mem_cons.mp htype with rfl | htype
    · exact h.superclass
    · exact h.interfaces type htype

theorem MethodSignature.Legible.ne_nil_of_mem_classTypes {signature : MethodSignature}
    (h : signature.Legible) : ∀ found ∈ signature.classTypes, found ≠ [] := by
  have htypes : ∀ type ∈ signature.parameters ++ signature.result.toList ++ signature.throws,
      type.Legible := by
    simp only [List.forall_mem_append, Option.mem_toList]
    exact ⟨⟨h.parameters, h.result⟩, fun type htype => (h.throws type htype).2⟩
  rw [classTypes, List.forall_mem_append]
  constructor
  · intro found hfound
    obtain ⟨parameter, hparameter, hmem⟩ := List.mem_flatMap.mp hfound
    exact (h.typeParameters parameter hparameter).ne_nil_of_mem_classTypes found hmem
  · intro found hfound
    obtain ⟨type, htype, hmem⟩ := List.mem_flatMap.mp hfound
    exact type.ne_nil_of_mem_classTypes (htypes type htype) found hmem

-- Whether all classes that a class is nested in keep their names.
def ClassType.KeepsOuters (names : String → String) (type : ClassType) : Prop :=
  ∀ outer ∈ outerNames (type.map Segment.name), names outer = outer

instance (names : String → String) (type : ClassType) : Decidable (type.KeepsOuters names) :=
  inferInstanceAs (Decidable (∀ outer ∈ outerNames (type.map Segment.name), names outer = outer))

section Numbering

variable {names : String → String} (hnames : NumbersNames names)

include hnames

-- Within a class that keeps its name, a nested class gets the one that it has as a whole.
theorem NumbersNames.nested_of_kept (outer name : String) :
    let inner := nestedName outer (names s!"{outer}${name}") name
    s!"{outer}${inner}" = names s!"{outer}${name}" := by
  intro inner
  obtain ⟨rest, hrest, -⟩ := hnames.exists_rest outer name
  have hprefix : (outer.toList ++ ['$']).isPrefixOf? (names s!"{outer}${name}").toList =
      some rest := List.isPrefixOf?_eq_some_iff_append_eq.mpr (by rw [hrest]; simp)
  have hinner : inner = String.ofList rest := by
    simp only [inner, nestedName, hprefix]
  rw [← String.toList_inj, toList_nested, hinner, String.toList_ofList, hrest]

-- Within one that got a number it does not, and so do the classes nested in it.
theorem NumbersNames.nested_of_renamed {old new : String} (houter : Numbered old new)
    (hne : new ≠ old) (name : String) :
    let inner := nestedName new (names s!"{old}${name}") name
    s!"{new}${inner}" ≠ names s!"{old}${name}" ∧ s!"{new}${inner}" ≠ s!"{old}${name}" := by
  intro inner
  have hprefix := hnames.isPrefixOf?_eq_none houter hne name
  constructor
  · intro hsame
    rw [← hsame, toList_nested, Option.eq_none_iff_forall_ne_some] at hprefix
    exact hprefix _ (List.isPrefixOf?_eq_some_iff_append_eq.mpr (List.append_assoc _ _ _))
  · intro hsame
    have hinner : inner = name := by
      simp only [inner, nestedName, hprefix]
    rw [hinner, ← String.toList_inj, toList_nested, toList_nested, List.append_cancel_right_eq,
      String.toList_inj] at hsame
    exact hne hsame

theorem internalName_renameNested_ne {old new : String} (houter : Numbered old new)
    (hne : new ≠ old) (segment : Segment) (rest : List Segment) :
    "$".intercalate (new :: (renameNested names old new (segment :: rest)).map Segment.name) ≠
      names ("$".intercalate (old :: (segment :: rest).map Segment.name)) := by
  induction rest generalizing old new segment with
  | nil =>
      obtain ⟨name, arguments⟩ := segment
      exact (hnames.nested_of_renamed houter hne name).1
  | cons next rest ih =>
      obtain ⟨name, arguments⟩ := segment
      exact ih (hnames.nested houter name).2 (hnames.nested_of_renamed houter hne name).2 next

theorem internalName_renameNested_iff (old : String) (segments : List Segment) :
    "$".intercalate (names old :: (renameNested names old (names old) segments).map
        Segment.name) = names ("$".intercalate (old :: segments.map Segment.name)) ↔
      ∀ outer ∈ outerNamesFrom old (segments.map Segment.name), names outer = outer := by
  induction segments generalizing old with
  | nil => exact iff_of_true rfl fun _ h => nomatch h
  | cons segment rest ih =>
      obtain ⟨name, arguments⟩ := segment
      rw [List.map_cons, outerNamesFrom, List.forall_mem_cons]
      by_cases hkept : names old = old
      · have hfull := hnames.nested_of_kept old name
        have hinner := ih s!"{old}${name}"
        rw [hkept, renameNested, hfull]
        refine (Eq.congr_left ?_).trans (hinner.trans (and_iff_right rfl).symm)
        exact congrArg (fun full => "$".intercalate (full :: _)) hfull
      · refine iff_of_false ?_ fun h => hkept h.1
        exact internalName_renameNested_ne hnames (hnames.numbered old) hkept ⟨name, arguments⟩ rest

-- Segment by segment, a class type comes to name what its name as a whole comes to if and only if
-- no class around it is renamed.
theorem ClassType.internalName_renameClasses_iff {type : ClassType} (h : type ≠ []) :
    (type.renameClasses names).internalName = names type.internalName ↔
      type.KeepsOuters names := by
  obtain ⟨⟨name, arguments⟩, rest, rfl⟩ := List.exists_cons_of_ne_nil h
  exact internalName_renameNested_iff hnames name rest

end Numbering

end ApiUnion
