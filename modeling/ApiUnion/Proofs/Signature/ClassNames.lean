import ApiUnion.Proofs.Descriptor
import ApiUnion.Proofs.Signature.Shape
import ApiUnion.Signature.ClassNames

-- Signatures with other names for classes. Under names that come of numbering the old ones they
-- stay legible, and types of one shape stay so if the classes that they are nested in are renamed
-- alike.

namespace ApiUnion

open Signature

-- Classes and variables are renamed independently of each other.
mutual

theorem GenericType.rename_renameClasses (variableNames : Renaming) (names : String → String) :
    ∀ type : GenericType, (type.renameClasses names).rename variableNames =
      (type.rename variableNames).renameClasses names
  | .base _ => rfl
  | .array component =>
      congrArg GenericType.array (component.rename_renameClasses variableNames names)
  | .var _ => rfl
  | .classType segments =>
      congrArg GenericType.classType (rename_renameOutermost variableNames names segments)

theorem TypeArgument.rename_renameClasses (variableNames : Renaming) (names : String → String) :
    ∀ argument : TypeArgument, (argument.renameClasses names).rename variableNames =
      (argument.rename variableNames).renameClasses names
  | .any => rfl
  | .bounded variance bound =>
      congrArg (TypeArgument.bounded variance) (bound.rename_renameClasses variableNames names)

theorem rename_renameOutermost (variableNames : Renaming) (names : String → String) :
    ∀ segments : List Segment, renameSegments variableNames (renameOutermost names segments) =
      renameOutermost names (renameSegments variableNames segments)
  | [] => rfl
  | ⟨name, arguments⟩ :: rest => by
      rw [renameOutermost, renameSegments, Segment.rename, renameSegments, Segment.rename,
        renameOutermost, rename_renameInArguments variableNames names arguments,
        rename_renameNested variableNames names name (names name) rest]

theorem rename_renameNested (variableNames : Renaming) (names : String → String)
    (oldOuter newOuter : String) : ∀ segments : List Segment,
      renameSegments variableNames (renameNested names oldOuter newOuter segments) =
        renameNested names oldOuter newOuter (renameSegments variableNames segments)
  | [] => rfl
  | ⟨name, arguments⟩ :: rest => by
      rw [renameNested, renameSegments, Segment.rename, renameSegments, Segment.rename,
        renameNested, rename_renameInArguments variableNames names arguments,
        rename_renameNested variableNames names _ _ rest]

theorem rename_renameInArguments (variableNames : Renaming) (names : String → String) :
    ∀ arguments : List TypeArgument,
      renameArguments variableNames (renameInArguments names arguments) =
        renameInArguments names (renameArguments variableNames arguments)
  | [] => rfl
  | argument :: rest => by
      rw [renameInArguments, renameArguments, renameArguments, renameInArguments,
        argument.rename_renameClasses variableNames names,
        rename_renameInArguments variableNames names rest]

end

theorem ClassType.rename_renameClasses (variableNames : Renaming) (names : String → String)
    (type : ClassType) : (type.renameClasses names).rename variableNames =
      (type.rename variableNames).renameClasses names :=
  rename_renameOutermost variableNames names type

theorem TypeParameter.rename_renameClasses (variableNames : Renaming) (names : String → String)
    (parameter : TypeParameter) : (parameter.renameClasses names).rename variableNames =
      (parameter.rename variableNames).renameClasses names := by
  simp only [TypeParameter.rename, TypeParameter.renameClasses, Option.map_map, List.map_map,
    Function.comp_def, GenericType.rename_renameClasses]

theorem ClassSignature.rename_renameClasses (variableNames : Renaming) (names : String → String)
    (signature : ClassSignature) : (signature.renameClasses names).rename variableNames =
      (signature.rename variableNames).renameClasses names := by
  simp only [ClassSignature.rename, ClassSignature.renameClasses, List.map_map, Function.comp_def,
    TypeParameter.rename_renameClasses, ClassType.rename_renameClasses]

theorem ClassSignature.ownNames_renameClasses (names : String → String)
    (signature : ClassSignature) :
    (signature.renameClasses names).ownNames = signature.ownNames := by
  simp only [ClassSignature.ownNames, ApiUnion.ownNames, ClassSignature.renameClasses,
    List.map_map, Function.comp_def, TypeParameter.renameClasses]

theorem ClassSignature.canonical_renameClasses (names : String → String)
    (signature : ClassSignature) :
    (signature.renameClasses names).canonical = signature.canonical.renameClasses names := by
  rw [canonical, ownNames_renameClasses, rename_renameClasses, canonical]

-- Each name either stays or gets a number.
def NumbersNames (names : String → String) : Prop :=
  ∀ name, names name = name ∨ ∃ index : Nat, names name = s!"{name}V{index}"

-- What becomes of a name of classes nested in one another once each is numbered: the number comes
-- last, or in front of a dollar sign.
def Numbered (old new : String) : Prop :=
  new = old ∨ ∃ front digits back, old.toList = front ++ back ∧
    new.toList = front ++ 'V' :: digits ++ back ∧ (back = [] ∨ back.head? = some '$')

theorem toList_nested (outer name : String) :
    (s!"{outer}${name}").toList = outer.toList ++ '$' :: name.toList := by
  have happend : s!"{outer}${name}" = outer ++ "$" ++ name := rfl
  rw [happend, String.toList_append, String.toList_append]
  simp

theorem toList_numbered (name : String) (index : Nat) :
    (s!"{name}V{index}").toList = name.toList ++ 'V' :: Nat.toDigits 10 index := by
  have happend : s!"{name}V{index}" = name ++ "V" ++ index.repr := rfl
  rw [happend, String.toList_append, String.toList_append, Nat.toList_repr]
  simp

theorem isIdentifier_numbered {name new : String} (h : IsIdentifier ['<', '.', ';'] name)
    (hnew : new = name ∨ ∃ index : Nat, new = s!"{name}V{index}") :
    IsIdentifier ['<', '.', ';'] new := by
  rcases hnew with rfl | ⟨index, rfl⟩
  · exact h
  · rw [IsIdentifier, toList_numbered]
    refine ⟨by simp, fun c hc => ?_⟩
    rcases List.mem_append.mp hc with hc | hc
    · exact h.2 c hc
    · rcases List.mem_cons.mp hc with rfl | hc
      · decide
      · intro hstop
        have hdigit := Nat.isDigit_of_mem_toDigits (by decide) (by decide) hc
        rw [List.mem_cons, List.mem_cons, List.mem_singleton] at hstop
        rcases hstop with rfl | rfl | rfl <;> cases hdigit

theorem GenericType.isReference_renameClasses {names : String → String} (type : GenericType)
    (h : type.IsReference) : (type.renameClasses names).IsReference := by
  cases type with
  | base type => exact h
  | array component | var name | classType segments => trivial

section Numbering

variable {names : String → String} (hnames : NumbersNames names)

include hnames

theorem NumbersNames.numbered (name : String) : Numbered name (names name) := by
  refine (hnames name).imp_right fun ⟨index, hindex⟩ => ?_
  refine ⟨name.toList, Nat.toDigits 10 index, [], by simp, ?_, .inl rfl⟩
  rw [hindex, toList_numbered, List.append_nil]

-- The name that a nested class gets goes on from the old one of its outer class.
theorem NumbersNames.exists_rest (outer name : String) :
    ∃ rest, (names s!"{outer}${name}").toList = outer.toList ++ '$' :: rest ∧
      (rest = name.toList ∨ ∃ index, rest = name.toList ++ 'V' :: Nat.toDigits 10 index) := by
  rcases hnames s!"{outer}${name}" with h | ⟨index, h⟩
  · exact ⟨_, by rw [h, toList_nested], .inl rfl⟩
  · exact ⟨_, by rw [h, toList_numbered, toList_nested, List.append_assoc, List.cons_append],
      .inr ⟨index, rfl⟩⟩

-- So it does not start with the new one of an outer class that got a number.
theorem NumbersNames.isPrefixOf?_eq_none {oldOuter newOuter : String}
    (houter : Numbered oldOuter newOuter) (hne : newOuter ≠ oldOuter) (name : String) :
    (newOuter.toList ++ ['$']).isPrefixOf? (names s!"{oldOuter}${name}").toList = none := by
  obtain ⟨front, digits, back, hold, hnew, hback⟩ := houter.resolve_left hne
  obtain ⟨rest, hrest, -⟩ := hnames.exists_rest oldOuter name
  rw [Option.eq_none_iff_forall_ne_some]
  intro found hfound
  have happend := List.isPrefixOf?_eq_some_iff_append_eq.mp hfound
  rw [hrest, hold, hnew] at happend
  -- After what both have in common, one goes on with the number and the other with a dollar.
  simp only [List.append_assoc, List.cons_append, List.append_cancel_left_eq] at happend
  rcases hback with rfl | hback
  · simp at happend
  · obtain ⟨tail, rfl⟩ := List.head?_eq_some_iff.mp hback
    simp at happend

-- A nested class keeps its name where its outer class got a number, as its own new name does not
-- start with that of the outer class then.
theorem NumbersNames.nested {oldOuter newOuter : String} (houter : Numbered oldOuter newOuter)
    (name : String) :
    let new := nestedName newOuter (names s!"{oldOuter}${name}") name
    (new = name ∨ ∃ index : Nat, new = s!"{name}V{index}") ∧
      Numbered s!"{oldOuter}${name}" s!"{newOuter}${new}" := by
  intro new
  by_cases hkept : newOuter = oldOuter
  · subst hkept
    obtain ⟨rest, hrest, hcases⟩ := hnames.exists_rest newOuter name
    have hprefix : (newOuter.toList ++ ['$']).isPrefixOf?
        (names s!"{newOuter}${name}").toList = some rest :=
      List.isPrefixOf?_eq_some_iff_append_eq.mpr (by rw [hrest]; simp)
    have hnew : new = String.ofList rest := by
      simp only [new, nestedName, hprefix]
    rcases hcases with rfl | ⟨index, rfl⟩
    · rw [String.ofList_toList] at hnew
      exact ⟨.inl hnew, .inl (by rw [hnew])⟩
    · have hname : new = s!"{name}V{index}" := by
        rw [hnew, ← String.toList_inj, String.toList_ofList, toList_numbered]
      refine ⟨.inr ⟨index, hname⟩, .inr ⟨newOuter.toList ++ '$' :: name.toList,
        Nat.toDigits 10 index, [], by rw [toList_nested, List.append_nil], ?_, .inl rfl⟩⟩
      rw [toList_nested, hname, toList_numbered]
      simp
  · have hsame : new = name := by
      simp only [new, nestedName, hnames.isPrefixOf?_eq_none houter hkept name]
    obtain ⟨front, digits, back, hold, hnew, hback⟩ := houter.resolve_left hkept
    refine ⟨.inl hsame, .inr ⟨front, digits, back ++ '$' :: name.toList, ?_, ?_, ?_⟩⟩
    · rw [toList_nested, hold, List.append_assoc]
    · rw [toList_nested, hsame, hnew]
      simp
    · rcases hback with rfl | hback
      · exact .inr rfl
      · exact .inr (by rw [List.head?_append, hback]; rfl)

end Numbering

mutual

theorem GenericType.legible_renameClasses {names : String → String} (hnames : NumbersNames names) :
    ∀ type : GenericType, type.Legible → (type.renameClasses names).Legible
  | .base _, _ => trivial
  | .array component, hlegible => component.legible_renameClasses hnames hlegible
  | .var _, hlegible => hlegible
  | .classType segments, hlegible =>
      ⟨by
        obtain ⟨⟨name, arguments⟩, rest, rfl⟩ := List.exists_cons_of_ne_nil hlegible.1
        exact List.cons_ne_nil _ _, legible_renameOutermost hnames segments hlegible.2⟩

theorem TypeArgument.legible_renameClasses {names : String → String}
    (hnames : NumbersNames names) :
    ∀ argument : TypeArgument, argument.Legible → (argument.renameClasses names).Legible
  | .any, _ => trivial
  | .bounded _ bound, hlegible =>
      ⟨bound.isReference_renameClasses hlegible.1, bound.legible_renameClasses hnames hlegible.2⟩

theorem legible_renameOutermost {names : String → String} (hnames : NumbersNames names) :
    ∀ segments : List Segment, LegibleSegments segments →
      LegibleSegments (renameOutermost names segments)
  | [], _ => trivial
  | ⟨name, arguments⟩ :: rest, hlegible =>
      ⟨⟨isIdentifier_numbered hlegible.1.1 (hnames name),
          legible_renameInArguments hnames arguments hlegible.1.2⟩,
        legible_renameNested hnames name (names name) (hnames.numbered name) rest hlegible.2⟩

theorem legible_renameNested {names : String → String} (hnames : NumbersNames names)
    (oldOuter newOuter : String) (houter : Numbered oldOuter newOuter) :
    ∀ segments : List Segment, LegibleSegments segments →
      LegibleSegments (renameNested names oldOuter newOuter segments)
  | [], _ => trivial
  | ⟨name, arguments⟩ :: rest, hlegible => by
      obtain ⟨hnew, hnext⟩ := hnames.nested houter name
      exact ⟨⟨isIdentifier_numbered hlegible.1.1 hnew,
          legible_renameInArguments hnames arguments hlegible.1.2⟩,
        legible_renameNested hnames _ _ hnext rest hlegible.2⟩

theorem legible_renameInArguments {names : String → String} (hnames : NumbersNames names) :
    ∀ arguments : List TypeArgument, LegibleArguments arguments →
      LegibleArguments (renameInArguments names arguments)
  | [], _ => trivial
  | argument :: rest, hlegible =>
      ⟨argument.legible_renameClasses hnames hlegible.1,
        legible_renameInArguments hnames rest hlegible.2⟩

end

theorem TypeParameter.bounds_renameClasses (names : String → String) (parameter : TypeParameter) :
    (parameter.renameClasses names).bounds =
      parameter.bounds.map (GenericType.renameClasses names) := by
  obtain ⟨name, classBound, interfaceBounds⟩ := parameter
  cases classBound <;> simp [TypeParameter.bounds, TypeParameter.renameClasses]

theorem TypeParameter.Legible.renameClasses {names : String → String} (hnames : NumbersNames names)
    {parameter : TypeParameter} (h : parameter.Legible) :
    (parameter.renameClasses names).Legible where
  name := h.name
  opening := h.opening
  bounded := by
    rw [bounds_renameClasses, Ne, List.map_eq_nil_iff]
    exact h.bounded
  bounds := by
    rw [bounds_renameClasses, List.forall_mem_map]
    exact fun bound hbound => ⟨bound.isReference_renameClasses (h.bounds bound hbound).1,
      bound.legible_renameClasses hnames (h.bounds bound hbound).2⟩

theorem ClassSignature.Legible.renameClasses {names : String → String}
    (hnames : NumbersNames names) {signature : ClassSignature} (h : signature.Legible) :
    (signature.renameClasses names).Legible where
  typeParameters := List.forall_mem_map.mpr fun parameter hparameter =>
    (h.typeParameters parameter hparameter).renameClasses hnames
  superclass := GenericType.legible_renameClasses hnames _ h.superclass
  interfaces := List.forall_mem_map.mpr fun type htype =>
    GenericType.legible_renameClasses hnames _ (h.interfaces type htype)

theorem length_renameInArguments (names : String → String) (arguments : List TypeArgument) :
    (renameInArguments names arguments).length = arguments.length := by
  induction arguments with
  | nil => rfl
  | cons argument rest ih => rw [renameInArguments, List.length_cons, List.length_cons, ih]

theorem renameInArguments_replicate (names : String → String) (count : Nat) :
    renameInArguments names (.replicate count .any) = .replicate count .any := by
  induction count with
  | zero => rfl
  | succ count ih =>
      rw [List.replicate_succ, renameInArguments, TypeArgument.renameClasses, ih]

theorem shape_renameNested (names : String → String) (oldOuter newOuter : String)
    (segments : List Segment) :
    ClassType.shape (renameNested names oldOuter newOuter segments) =
      renameNested names oldOuter newOuter (ClassType.shape segments) := by
  induction segments generalizing oldOuter newOuter with
  | nil => rfl
  | cons segment rest ih =>
      obtain ⟨name, arguments⟩ := segment
      simp only [renameNested, ClassType.shape, List.map_cons, Segment.bare,
        length_renameInArguments, renameInArguments_replicate, List.cons.injEq, true_and]
      exact ih _ _

theorem ClassType.shape_renameClasses (names : String → String) (type : ClassType) :
    ClassType.shape (type.renameClasses names) = type.shape.renameClasses names := by
  cases type with
  | nil => rfl
  | cons segment rest =>
      obtain ⟨name, arguments⟩ := segment
      simp only [renameClasses, renameOutermost, ClassType.shape, List.map_cons, Segment.bare,
        length_renameInArguments, renameInArguments_replicate, List.cons.injEq, true_and]
      exact shape_renameNested names name (names name) rest

-- The classes around a nested class, given the outermost one and the names of those inside.
def outerNamesFrom (outer : String) : List String → List String
  | [] => []
  | name :: rest => outer :: outerNamesFrom s!"{outer}${name}" rest

def outerNames : List String → List String
  | [] => []
  | name :: rest => outerNamesFrom name rest

theorem renameNested_congr {names others : String → String} (oldOuter newOuter : String)
    (segments : List Segment)
    (houter : ∀ name ∈ outerNamesFrom oldOuter (segments.map Segment.name),
      names name = others name)
    (hfull : names ("$".intercalate (oldOuter :: segments.map Segment.name)) =
      others ("$".intercalate (oldOuter :: segments.map Segment.name))) :
    renameNested names oldOuter newOuter (ClassType.shape segments) =
      renameNested others oldOuter newOuter (ClassType.shape segments) := by
  induction segments generalizing oldOuter newOuter with
  | nil => rfl
  | cons segment rest ih =>
      obtain ⟨name, arguments⟩ := segment
      have hinner : ∀ inner ∈ outerNamesFrom s!"{oldOuter}${name}" (rest.map Segment.name),
          names inner = others inner :=
        fun inner hinner => houter inner (List.mem_cons_of_mem _ hinner)
      have hname : names s!"{oldOuter}${name}" = others s!"{oldOuter}${name}" := by
        cases rest with
        | nil => exact hfull
        | cons next rest => exact hinner _ List.mem_cons_self
      simp only [ClassType.shape, List.map_cons, Segment.bare, renameNested,
        renameInArguments_replicate, hname, List.cons.injEq, true_and]
      exact ih _ _ hinner hfull

theorem ClassType.renameClasses_congr {names others : String → String} (type : ClassType)
    (houter : ∀ name ∈ outerNames (type.map Segment.name), names name = others name)
    (hfull : names type.internalName = others type.internalName) :
    type.shape.renameClasses names = type.shape.renameClasses others := by
  cases type with
  | nil => rfl
  | cons segment rest =>
      obtain ⟨name, arguments⟩ := segment
      have hname : names name = others name := by
        cases rest with
        | nil => exact hfull
        | cons next rest => exact houter _ List.mem_cons_self
      simp only [ClassType.shape, List.map_cons, Segment.bare, renameClasses, renameOutermost,
        renameInArguments_replicate, hname, List.cons.injEq, true_and]
      exact renameNested_congr name (others name) rest houter hfull

theorem FieldType.renameClasses_congr {names others : String → String} : ∀ type : FieldType,
    (∀ name ∈ type.elementName?, names name = others name) →
      type.renameClasses names = type.renameClasses others
  | base _, _ => rfl
  | object name, h => congrArg object (h name rfl)
  | array component, h => congrArg array (component.renameClasses_congr h)

theorem renameInMethodDescriptor_congr {names others : String → String} (text : String)
    (h : ∀ type ∈ MethodType.ofText? text, ∀ name ∈ type.classNames, names name = others name) :
    renameInMethodDescriptor names text = renameInMethodDescriptor others text := by
  unfold renameInMethodDescriptor
  cases hread : MethodType.ofText? text with
  | none => rfl
  | some type =>
      have hrename : ∀ part ∈ type.parameters ++ type.result.toList,
          part.renameClasses names = part.renameClasses others := fun part hpart =>
        part.renameClasses_congr fun name hname =>
          h type hread name (List.mem_filterMap.mpr ⟨part, hpart, hname⟩)
      rw [List.forall_mem_append] at hrename
      have hsame : type.renameClasses names = type.renameClasses others := by
        rw [MethodType.renameClasses, MethodType.renameClasses, List.map_congr_left hrename.1,
          Option.map_congr fun part hpart => hrename.2 part (Option.mem_toList.mpr hpart)]
      exact congrArg MethodType.text hsame

end ApiUnion
