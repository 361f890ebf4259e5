import ApiUnion.Proofs.Descriptor
import ApiUnion.Proofs.Model.Erasure
import ApiUnion.Proofs.Signature.Nesting
import ApiUnion.Proofs.Splitting.Rejoining

-- Signatures and erased names of renamed snapshots. They are renamed apart from each other and mean
-- the same classes as long as no class around a nested one is split.

namespace ApiUnion

-- The class type that a type is, or that an array is of.
def GenericType.elementType? : GenericType → Option ClassType
  | .base _ | .var _ => none
  | .array component => component.elementType?
  | .classType segments => some segments

section Numbering

variable {names : String → String} (hnames : NumbersNames names)

include hnames

theorem MethodSignature.Legible.renameClasses {signature : MethodSignature}
    (h : signature.Legible) : (signature.renameClasses names).Legible where
  typeParameters := List.forall_mem_map.mpr fun parameter hparameter =>
    (h.typeParameters parameter hparameter).renameClasses hnames
  parameters := List.forall_mem_map.mpr fun type htype =>
    type.legible_renameClasses hnames (h.parameters type htype)
  result type htype := by
    obtain ⟨old, hold, rfl⟩ := Option.mem_map.mp htype
    exact old.legible_renameClasses hnames (h.result old hold)
  throws := List.forall_mem_map.mpr fun type htype =>
    ⟨type.isReference_renameClasses (h.throws type htype).1,
      type.legible_renameClasses hnames (h.throws type htype).2⟩

theorem ofText_renameInMethodSignature {text : String} {signature : MethodSignature}
    (h : MethodSignature.ofText text = .ok signature) :
    MethodSignature.ofText (renameInMethodSignature names text) =
      .ok (signature.renameClasses names) := by
  obtain ⟨hlegible, htext⟩ := (MethodSignature.ofText_eq_ok_iff _ _).mp h
  have hread : MethodSignature.ofChars? text.toList = some signature :=
    (MethodSignature.ofChars?_eq_some_iff _ _).mpr ⟨hlegible, (eq_ofList_iff _ _).mpr htext⟩
  refine (MethodSignature.ofText_eq_ok_iff _ _).mpr ⟨hlegible.renameClasses hnames, ?_⟩
  rw [renameInMethodSignature, hread, Option.elim_some]

theorem ofText_renameInFieldSignature {text : String} {type : GenericType}
    (h : GenericType.ofText text = .ok type) :
    GenericType.ofText (renameInFieldSignature names text) = .ok (type.renameClasses names) := by
  obtain ⟨⟨href, hlegible⟩, htext⟩ := (GenericType.ofText_eq_ok_iff _ _).mp h
  have hread : GenericType.ofChars? text.toList = some type :=
    (GenericType.ofChars?_eq_some_iff _ _).mpr ⟨⟨href, hlegible⟩, (eq_ofList_iff _ _).mpr htext⟩
  refine (GenericType.ofText_eq_ok_iff _ _).mpr ⟨⟨type.isReference_renameClasses href,
    type.legible_renameClasses hnames hlegible⟩, ?_⟩
  rw [renameInFieldSignature, hread, Option.elim_some]

theorem FieldType.Legible.renameClasses {type : FieldType} (h : type.Legible) :
    (type.renameClasses names).Legible := by
  induction type with
  | base type => exact h
  | object name =>
      rcases hnames name with hkept | ⟨index, hindex⟩
      · rwa [FieldType.renameClasses, hkept]
      · rw [FieldType.renameClasses, hindex, FieldType.Legible, toList_numbered]
        refine ⟨by simp, fun hmem => ?_⟩
        rcases List.mem_append.mp hmem with hmem | hmem
        · exact h.2 hmem
        · have hdigit := Nat.isDigit_of_mem_toDigits (by decide) (by decide)
            (List.mem_of_ne_of_mem (by decide) hmem)
          cases hdigit
  | array component ih => exact ih h

theorem ofText?_renameInFieldDescriptor {text : String} {type : FieldType}
    (h : FieldType.ofText? text = some type) :
    FieldType.ofText? (renameInFieldDescriptor names text) = some (type.renameClasses names) := by
  have hlegible := ((FieldType.ofText?_eq_some_iff _ _).mp h).1
  refine (FieldType.ofText?_eq_some_iff _ _).mpr ⟨hlegible.renameClasses hnames, ?_⟩
  rw [renameInFieldDescriptor, h, Option.elim_some]

theorem ofText?_renameInMethodDescriptor {text : String} {type : MethodType}
    (h : MethodType.ofText? text = some type) :
    MethodType.ofText? (renameInMethodDescriptor names text) =
      some (type.renameClasses names) := by
  have hlegible := ((MethodType.ofText?_eq_some_iff _ _).mp h).1
  refine (MethodType.ofText?_eq_some_iff _ _).mpr ⟨⟨?_, fun result hresult => ?_⟩, ?_⟩
  · exact List.forall_mem_map.mpr fun type htype =>
      (hlegible.parameters type htype).renameClasses hnames
  · obtain ⟨old, hold, rfl⟩ := Option.mem_map.mp hresult
    exact (hlegible.result old hold).renameClasses hnames
  · rw [renameInMethodDescriptor, h, Option.elim_some]

theorem GenericType.ErasesTo.renameClasses_iff {type : GenericType} {erased : FieldType}
    (h : type.ErasesTo erased) (hlegible : type.Legible) :
    (type.renameClasses names).ErasesTo (erased.renameClasses names) ↔
      ∀ found ∈ type.elementType?, found.KeepsOuters names := by
  induction h with
  | base type => exact iff_of_true (.base type) fun _ h => by cases h
  | array h ih =>
      refine Iff.trans ⟨fun hrenamed => ?_, fun hrenamed => .array hrenamed⟩ (ih hlegible)
      cases hrenamed with
      | array h => exact h
  | var name erased => exact iff_of_true (.var name _) fun _ h => by cases h
  | classType segments =>
      have hname := ClassType.internalName_renameClasses_iff hnames hlegible.1
      refine (GenericType.erasesTo_object_iff _ _).trans (hname.trans ?_)
      exact ⟨fun hkept _ hfound => Option.some.inj hfound ▸ hkept, fun h => h _ rfl⟩

theorem erasesTo_renameClasses_iff {types : List GenericType} {erased : List FieldType}
    (h : List.Forall₂ GenericType.ErasesTo types erased)
    (hlegible : ∀ type ∈ types, type.Legible) :
    List.Forall₂ GenericType.ErasesTo (types.map (GenericType.renameClasses names))
        (erased.map (FieldType.renameClasses names)) ↔
      ∀ type ∈ types, ∀ found ∈ type.elementType?, found.KeepsOuters names := by
  induction h with
  | nil => simp
  | cons hfirst _ ih =>
      obtain ⟨hlegible, hrest⟩ := List.forall_mem_cons.mp hlegible
      rw [List.map_cons, List.map_cons, List.forall₂_cons, List.forall_mem_cons,
        hfirst.renameClasses_iff hnames hlegible, ih hrest]

namespace Splitting

theorem drawnBy_renameClass_iff {entry : ApiClass} {signature : ClassSignature}
    (h : entry.DrawnBy signature) :
    (renameClass names entry).DrawnBy (signature.renameClasses names) ↔
      ∀ type ∈ signature.superclass :: signature.interfaces, type.KeepsOuters names := by
  obtain ⟨⟨text, htext, hread⟩, hsuperclass, hinterfaces⟩ := h
  have hlegible := ((ClassSignature.ofText_eq_ok_iff _ _).mp hread).1
  have hsuper := ClassType.internalName_renameClasses_iff hnames hlegible.superclass.1
  have hnamed : (∀ type ∈ signature.interfaces, type.KeepsOuters names) ↔
      (renameClass names entry).interfaces = (signature.renameClasses names).interfaceNames := by
    have hlists : (renameClass names entry).interfaces =
        signature.interfaces.map fun type => names type.internalName := by
      rw [renameClass, hinterfaces, ClassSignature.interfaceNames, List.map_map]
      rfl
    rw [hlists, ClassSignature.interfaceNames, ClassSignature.renameClasses, List.map_map,
      List.map_inj_left]
    refine forall₂_congr fun type htype => ?_
    rw [← ClassType.internalName_renameClasses_iff hnames (hlegible.interfaces type htype).1]
    exact eq_comm
  rw [List.forall_mem_cons, ← hsuper, hnamed]
  constructor
  · rintro ⟨-, hrenamed, hlisted⟩
    rw [renameClass, hsuperclass] at hrenamed
    exact ⟨(Option.some.inj hrenamed).symm, hlisted⟩
  · rintro ⟨hrenamed, hlisted⟩
    refine ⟨⟨_, ?_, ofText_renameInClassSignature hnames hread⟩, ?_, hlisted⟩
    · rw [renameClass, htext, Option.map_some]
    · rw [renameClass, hsuperclass, ClassSignature.renameClasses, hrenamed, Option.map_some]

theorem drawnBy_renameField_iff {field : ApiField} {type : GenericType} (h : field.DrawnBy type) :
    (renameField names field).DrawnBy (type.renameClasses names) ↔
      ∀ found ∈ type.elementType?, found.KeepsOuters names := by
  obtain ⟨⟨text, htext, hread⟩, erased, herased, herases⟩ := h
  have hlegible := ((GenericType.ofText_eq_ok_iff _ _).mp hread).1.2
  have hdescriptor := ofText?_renameInFieldDescriptor hnames herased
  rw [← herases.renameClasses_iff hnames hlegible]
  constructor
  · rintro ⟨-, renamed, hrenamed, hresult⟩
    obtain rfl := Option.some.inj (hrenamed.symm.trans hdescriptor)
    exact hresult
  · intro hresult
    refine ⟨⟨_, ?_, ofText_renameInFieldSignature hnames hread⟩, _, hdescriptor, hresult⟩
    rw [renameField, htext, Option.map_some]

theorem drawnBy_renameMethod_iff {method : ApiMethod} {signature : MethodSignature}
    (h : method.DrawnBy signature) :
    (renameMethod names method).DrawnBy (signature.renameClasses names) ↔
      ∀ type ∈ signature.parameters ++ signature.result.toList,
        ∀ found ∈ type.elementType?, found.KeepsOuters names := by
  obtain ⟨⟨text, htext, hread⟩, erased, herased, hparameters, hresult⟩ := h
  have hlegible := ((MethodSignature.ofText_eq_ok_iff _ _).mp hread).1
  have hdescriptor := ofText?_renameInMethodDescriptor hnames herased
  have hresults : ∀ type ∈ signature.result.toList, type.Legible :=
    fun type htype => hlegible.result type (Option.mem_toList.mp htype)
  rw [List.forall_mem_append, ← erasesTo_renameClasses_iff hnames hparameters hlegible.parameters,
    ← erasesTo_renameClasses_iff hnames hresult hresults, ← Option.toList_map, ← Option.toList_map]
  constructor
  · rintro ⟨-, renamed, hrenamed, hrest⟩
    obtain rfl := Option.some.inj (hrenamed.symm.trans hdescriptor)
    exact hrest
  · intro hrest
    refine ⟨⟨_, ?_, ofText_renameInMethodSignature hnames hread⟩, _, hdescriptor, hrest⟩
    rw [renameMethod, htext, Option.map_some]

end Splitting

end Numbering

-- The class types of two signatures of which the second has other names for classes: each is
-- renamed, and like its name as a whole if and only if the classes around it keep their names.
structure RenamesTypes (names : String → String) (types renamed : List ClassType) : Prop where
  each : renamed = types.map (ClassType.renameClasses names)
  alike : ∀ type ∈ types, (type.renameClasses names).internalName = names type.internalName ↔
    type.KeepsOuters names

theorem renamesTypes {names : String → String} (hnames : NumbersNames names)
    {types renamed : List ClassType} (htypes : ∀ type ∈ types, type ≠ [])
    (hrenamed : renamed = types.map (ClassType.renameClasses names)) :
    RenamesTypes names types renamed :=
  ⟨hrenamed, fun type htype => ClassType.internalName_renameClasses_iff hnames (htypes type htype)⟩

namespace Splitter

open Splitting

-- What signatures say of classes and what names and descriptors say of them: after renaming they
-- agree on a class if and only if no class that it is nested in gets another name.
theorem agree_renamed (groups : Groups) :
    (∀ version, let names := groups.nameIn version
      (∀ text signature, ClassSignature.ofText text = .ok signature → ∃ renamed,
        ClassSignature.ofText (renameInClassSignature names text) = .ok renamed ∧
          RenamesTypes names signature.classTypes renamed.classTypes) ∧
      (∀ text signature, MethodSignature.ofText text = .ok signature → ∃ renamed,
        MethodSignature.ofText (renameInMethodSignature names text) = .ok renamed ∧
          RenamesTypes names signature.classTypes renamed.classTypes) ∧
      ∀ text type, GenericType.ofText text = .ok type → ∃ renamed,
        GenericType.ofText (renameInFieldSignature names text) = .ok renamed ∧
          RenamesTypes names type.classTypes renamed.classTypes) ∧
    ∀ snapshot : ApiClass, let names := groups.nameIn snapshot.version
      (∀ signature, snapshot.DrawnBy signature →
        ((renameOne groups snapshot).DrawnBy (signature.renameClasses names) ↔
          ∀ type ∈ signature.superclass :: signature.interfaces, type.KeepsOuters names)) ∧
      (∀ field ∈ snapshot.fields.values, ∀ type, field.DrawnBy type →
        ((renameField names field).DrawnBy (type.renameClasses names) ↔
          ∀ found ∈ type.elementType?, found.KeepsOuters names)) ∧
      ∀ method ∈ snapshot.allMethods, ∀ signature, method.DrawnBy signature →
        ((renameMethod names method).DrawnBy (signature.renameClasses names) ↔
          ∀ type ∈ signature.parameters ++ signature.result.toList,
            ∀ found ∈ type.elementType?, found.KeepsOuters names) := by
  refine ⟨fun version => ?_, fun snapshot => ?_⟩
  · have hnames := groups.numbersNames_nameIn version
    refine ⟨fun text signature hread => ?_, fun text signature hread => ?_,
      fun text type hread => ?_⟩
    · have hlegible := ((ClassSignature.ofText_eq_ok_iff _ _).mp hread).1
      exact ⟨_, ofText_renameInClassSignature hnames hread,
        renamesTypes hnames hlegible.ne_nil_of_mem_classTypes
          (signature.classTypes_renameClasses _)⟩
    · have hlegible := ((MethodSignature.ofText_eq_ok_iff _ _).mp hread).1
      exact ⟨_, ofText_renameInMethodSignature hnames hread,
        renamesTypes hnames hlegible.ne_nil_of_mem_classTypes
          (signature.classTypes_renameClasses _)⟩
    · have hlegible := ((GenericType.ofText_eq_ok_iff _ _).mp hread).1.2
      exact ⟨_, ofText_renameInFieldSignature hnames hread,
        renamesTypes hnames (type.ne_nil_of_mem_classTypes hlegible)
          (type.classTypes_renameClasses _)⟩
  · have hnames := groups.numbersNames_nameIn snapshot.version
    exact ⟨fun _ h => drawnBy_renameClass_iff hnames h,
      fun _ _ _ h => drawnBy_renameField_iff hnames h,
      fun _ _ _ h => drawnBy_renameMethod_iff hnames h⟩

-- A class nested in another.
def inner : ClassType :=
  [⟨"p/A", []⟩, ⟨"B", []⟩]

-- A class that has to do with the nested class in every way, in a version in which that is a class.
-- In another one it is an interface.
def involved : ApiClass :=
  { seenIn "1" "p/S" 0x0001 (some "Lp/A.B;") none with
    superclass := some "p/A$B"
    fields := .ofRows [("xLp/A$B;",
      { access := ⟨1⟩, name := "x", descriptor := "Lp/A$B;", signature := some "Lp/A.B;" })]
    methods := .ofRows [("m(Lp/A$B;)V", .single
      { access := ⟨1⟩, name := "m", descriptor := "(Lp/A$B;)V", signature := some "(Lp/A.B;)V" })] }

theorem drawnBy_involved : involved.DrawnBy ⟨[], inner, []⟩ :=
  ⟨⟨"Lp/A.B;", rfl, by decide +kernel⟩, by decide +kernel, rfl⟩

theorem erasesTo_inner : (GenericType.classType inner).ErasesTo (.object "p/A$B") :=
  (GenericType.erasesTo_object_iff _ _).mpr (by decide +kernel)

theorem agree_renamed_inner :
    let groups := (grouped .asNoted [seenIn "1" "p/A$B" 0x0001 none none,
      seenIn "2" "p/A$B" 0x0601 none none, involved]).groups
    let names := groups.nameIn (.single "1")
    (inner.renameClasses names).internalName = "p/A$BV0" ∧
      (∃ renamed, MethodSignature.ofText (renameInMethodSignature names "(Lp/A.B;)V") =
        .ok renamed ∧ RenamesTypes names [inner] renamed.classTypes) ∧
      (∃ renamed, GenericType.ofText (renameInFieldSignature names "Lp/A.B;") = .ok renamed ∧
        RenamesTypes names [inner] renamed.classTypes) ∧
      (renameOne groups involved).DrawnBy (ClassSignature.renameClasses names ⟨[], inner, []⟩) ∧
      (∀ field ∈ involved.fields.values,
        (renameField names field).DrawnBy (.classType (inner.renameClasses names))) ∧
      ∀ method ∈ involved.allMethods, (renameMethod names method).DrawnBy
        ⟨[], [.classType (inner.renameClasses names)], none, []⟩ := by
  intro groups names
  obtain ⟨htexts, hsnapshots⟩ := agree_renamed groups
  obtain ⟨hclassText, hmethodText, hfieldText⟩ := htexts (.single "1")
  obtain ⟨hclass, hfields, hmethods⟩ := hsnapshots involved
  have hkept : inner.KeepsOuters names := by decide +kernel
  have hall : ∀ found ∈ some inner, found.KeepsOuters names :=
    fun found hfound => Option.some.inj hfound ▸ hkept
  refine ⟨?_, ?_, ?_, ?_, fun field hfield => ?_, fun method hmethod => ?_⟩
  · obtain ⟨_, _, hrenamed⟩ := hclassText "Lp/A.B;" ⟨[], inner, []⟩ (by decide +kernel)
    exact ((hrenamed.alike inner List.mem_cons_self).mpr hkept).trans (by decide +kernel)
  · exact hmethodText "(Lp/A.B;)V" ⟨[], [.classType inner], none, []⟩ (by decide +kernel)
  · exact hfieldText "Lp/A.B;" (.classType inner) (by decide +kernel)
  · exact (hclass _ drawnBy_involved).mpr (List.forall_mem_singleton.mpr hkept)
  · refine (hfields field hfield (.classType inner) ?_).mpr hall
    obtain rfl := List.mem_singleton.mp hfield
    exact ⟨⟨_, rfl, by decide +kernel⟩, _, by decide +kernel, erasesTo_inner⟩
  · refine (hmethods method hmethod ⟨[], [.classType inner], none, []⟩ ?_).mpr
      (List.forall_mem_singleton.mpr hall)
    obtain rfl := List.mem_singleton.mp hmethod
    exact ⟨⟨_, rfl, by decide +kernel⟩, ⟨[.object "p/A$B"], none⟩, by decide +kernel,
      .cons erasesTo_inner .nil, .nil⟩

-- If the outer class is split and the nested one is not, the signature comes to name a class that
-- is not there.
theorem not_agree_renamed :
    ¬ ∃ order : QueueOrder, ∀ (snapshots : List ApiClass) (version : Version) (text : String)
      (signature : ClassSignature), ClassSignature.ofText text = .ok signature →
      ∀ type ∈ signature.classTypes,
        (type.renameClasses ((grouped order snapshots).groups.nameIn version)).internalName =
          (grouped order snapshots).groups.nameIn version type.internalName := by
  rintro ⟨order, h⟩
  have hname := h
    [seenIn "1" "p/A" 0x0001 none none, seenIn "2" "p/A" 0x0601 none none, involved] (.single "1")
    "Lp/A.B;" ⟨[], inner, []⟩ (by decide +kernel) inner List.mem_cons_self
  rw [grouped_of_isOrderless order .asNoted (by decide +kernel)] at hname
  exact absurd hname (by decide +kernel)

end Splitter

end ApiUnion
