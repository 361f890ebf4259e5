import ApiUnion.Proofs.Merge.Fitting
import ApiUnion.Proofs.Signature.ClassNames
import ApiUnion.Proofs.Splitting.Dividing
import ApiUnion.Splitting.Renaming

-- Snapshots that can be merged fit each other under the names of their groups, unless names are
-- ambiguous: types are compared by the names of their classes as wholes and methods by their
-- descriptors as they stand, while new names are given to each class that a type or descriptor
-- names.

namespace ApiUnion

namespace Splitting

-- Asked with some names noted already, the answer is yes.
def Holds (request : Noting Bool) : Prop :=
  ∃ names, (request names).1 = true

namespace Holds

@[simp] theorem pure_iff {answer : Bool} : Holds (pure answer) ↔ answer = true :=
  ⟨fun ⟨_, h⟩ => h, fun h => ⟨[], h⟩⟩

theorem ite {condition : Prop} [Decidable condition] {request : Noting Bool}
    (h : Holds (if condition then request else pure false)) : condition ∧ Holds request := by
  split at h
  · exact ⟨‹_›, h⟩
  · simp at h

theorem ite_not {condition : Prop} [Decidable condition] {request : Noting Bool}
    (h : Holds (if condition then pure false else request)) : ¬condition ∧ Holds request := by
  split at h
  · simp at h
  · exact ⟨‹_›, h⟩

theorem bind_ite {first second : Noting Bool}
    (h : Holds (do if ← first then second else pure false)) : Holds first ∧ Holds second := by
  obtain ⟨names, h⟩ := h
  have hsplit : ((if (first names).1 then second else pure false) (first names).2).1 = true := h
  cases hfirst : (first names).1 with
  | true =>
      rw [hfirst, if_pos rfl] at hsplit
      exact ⟨⟨names, hfirst⟩, _, hsplit⟩
  | false =>
      rw [hfirst] at hsplit
      cases hsplit

theorem allM {α : Type} {request : α → Noting Bool} {items : List α}
    (h : Holds (items.allM request)) : ∀ item ∈ items, Holds (request item) := by
  induction items with
  | nil => exact fun item hitem => absurd hitem List.not_mem_nil
  | cons item items ih =>
      obtain ⟨names, h⟩ := h
      rw [allM_cons] at h
      split at h
      · rename_i hitem
        exact List.forall_mem_cons.mpr ⟨⟨names, hitem⟩, ih ⟨_, h⟩⟩
      · cases h

theorem forall₂_sameEach {α : Type} {same : α → α → Noting Bool} {R : α → α → Prop}
    {as bs : List α} (h : Holds (sameEach same as bs))
    (hsame : ∀ a ∈ as, ∀ b ∈ bs, Holds (same a b) → R a b) : List.Forall₂ R as bs := by
  induction as generalizing bs with
  | nil =>
      cases bs with
      | nil => exact .nil
      | cons b bs => simp [sameEach] at h
  | cons a as ih =>
      cases bs with
      | nil => simp [sameEach] at h
      | cons b bs =>
          simp only [sameEach] at h
          obtain ⟨hfirst, hrest⟩ := h.ite_not.2.bind_ite
          exact .cons (hsame a List.mem_cons_self b List.mem_cons_self hfirst)
            (ih hrest fun a ha b hb =>
              hsame a (List.mem_cons_of_mem _ ha) b (List.mem_cons_of_mem _ hb))

end Holds

variable {groups : Groups} {left right : Version}

theorem nameIn_of_sameClass {a b : String}
    (h : Holds (sameClass ⟨groups, left, right⟩ a b)) :
    a = b ∧ groups.nameIn left a = groups.nameIn right b := by
  unfold sameClass at h
  split at h
  · rename_i hab
    subst hab
    obtain ⟨names, h⟩ := h
    have hresolve : groups.resolve? a left = groups.resolve? a right := of_decide_eq_true h
    refine ⟨rfl, ?_⟩
    unfold Groups.nameIn
    rw [hresolve]
  · simp at h

theorem shape_of_sameSegments {xs ys : List Segment} (hlength : xs.length = ys.length)
    (h : Holds (sameSegments ⟨groups, left, right⟩ xs ys))
    (hnames : xs.map Segment.name = ys.map Segment.name) :
    ClassType.shape xs = ClassType.shape ys := by
  induction xs generalizing ys with
  | nil =>
      obtain rfl := List.length_eq_zero_iff.mp hlength.symm
      rfl
  | cons x xs ih =>
      cases ys with
      | nil => cases hlength
      | cons y ys =>
          obtain ⟨name, arguments⟩ := x
          obtain ⟨other, others⟩ := y
          simp only [sameSegments] at h
          obtain ⟨hsegment, hrest⟩ := h.bind_ite
          simp only [sameSegment] at hsegment
          rw [List.map_cons, List.map_cons, List.cons.injEq] at hnames
          have hbare : Segment.bare ⟨name, arguments⟩ = Segment.bare ⟨other, others⟩ := by
            rw [Segment.bare, Segment.bare, hnames.1, hsegment.ite.1]
          exact List.cons_eq_cons.mpr ⟨hbare, ih (Nat.succ.inj hlength) hrest hnames.2⟩

end Splitting

-- The class at the bottom of an array, or the type itself, by the names of its segments.
def GenericType.elementNames? : GenericType → Option (List String)
  | .classType segments => some (segments.map Segment.name)
  | .array component => component.elementNames?
  | .base _ | .var _ => none

-- If both types are of one class with as many segments, the segments are the same, and the classes
-- around it come under the same names.
def GenericType.NestedAlike (names others : String → String) (a b : GenericType) : Prop :=
  ∀ xs ∈ a.elementNames?, ∀ ys ∈ b.elementNames?, xs.length = ys.length →
    "$".intercalate xs = "$".intercalate ys →
      xs = ys ∧ ∀ outer ∈ outerNames xs, names outer = others outer

instance (names others : String → String) (a b : GenericType) :
    Decidable (a.NestedAlike names others b) :=
  inferInstanceAs (Decidable (∀ xs ∈ a.elementNames?, ∀ ys ∈ b.elementNames?, _ → _ → _))

namespace Splitting

theorem shape_of_sameClassType {a b : ClassType}
    (h : Holds (sameClassType ⟨groups, left, right⟩ a b))
    (hnested : (GenericType.classType a).NestedAlike (groups.nameIn left) (groups.nameIn right)
      (.classType b)) :
    ClassType.shape (a.renameClasses (groups.nameIn left)) =
      ClassType.shape (b.renameClasses (groups.nameIn right)) := by
  simp only [sameClassType, sameType] at h
  obtain ⟨hlength, h⟩ := h.ite_not
  obtain ⟨hclass, hsegments⟩ := h.bind_ite
  obtain ⟨hname, halike⟩ := nameIn_of_sameClass hclass
  obtain ⟨hnames, houter⟩ := hnested _ rfl _ rfl (by simpa using hlength) hname
  have hshape := shape_of_sameSegments (not_not.mp hlength) hsegments hnames
  rw [ClassType.shape_renameClasses, ClassType.shape_renameClasses, ← hshape]
  refine ClassType.renameClasses_congr a houter ?_
  rw [halike, hname]

theorem shape_of_sameType : ∀ {a b : GenericType},
    Holds (sameType ⟨groups, left, right⟩ a b) →
    a.NestedAlike (groups.nameIn left) (groups.nameIn right) b →
    (a.renameClasses (groups.nameIn left)).shape = (b.renameClasses (groups.nameIn right)).shape
  | .classType a, .classType b, h, hnested =>
      congrArg GenericType.classType (shape_of_sameClassType h hnested)
  | .array a, .array b, h, hnested => by
      simp only [sameType] at h
      exact congrArg GenericType.array (shape_of_sameType h hnested)
  | .base a, .base b, h, _ => by
      simp only [sameType, Holds.pure_iff, decide_eq_true_eq] at h
      rw [h]
      rfl
  | .var a, .var b, h, _ => by
      simp only [sameType, Holds.pure_iff, decide_eq_true_eq] at h
      rw [h]
      rfl
  | .classType _, .array _, h, _ | .classType _, .base _, h, _ | .classType _, .var _, h, _
  | .array _, .classType _, h, _ | .array _, .base _, h, _ | .array _, .var _, h, _
  | .base _, .classType _, h, _ | .base _, .array _, h, _ | .base _, .var _, h, _
  | .var _, .classType _, h, _ | .var _, .array _, h, _ | .var _, .base _, h, _ => by
      simp [sameType] at h

theorem shapes_of_sameTypes {as bs : List GenericType}
    (h : Holds (sameTypes ⟨groups, left, right⟩ as bs))
    (hnested : ∀ a ∈ as, ∀ b ∈ bs,
      a.NestedAlike (groups.nameIn left) (groups.nameIn right) b) :
    (as.map (GenericType.renameClasses (groups.nameIn left))).map GenericType.shape =
      (bs.map (GenericType.renameClasses (groups.nameIn right))).map GenericType.shape := by
  rw [sameTypes_eq] at h
  rw [List.map_map, List.map_map, map_eq_map_iff_forall₂]
  exact h.forall₂_sameEach fun a ha b hb hab => shape_of_sameType hab (hnested a ha b hb)

theorem shape_of_sameParameter {a b : TypeParameter}
    (h : Holds (sameParameter ⟨groups, left, right⟩ a b))
    (hnested : ∀ first ∈ a.bounds, ∀ second ∈ b.bounds,
      first.NestedAlike (groups.nameIn left) (groups.nameIn right) second) :
    (a.renameClasses (groups.nameIn left)).shape =
      (b.renameClasses (groups.nameIn right)).shape := by
  obtain ⟨hbound, hinterfaces⟩ := Holds.bind_ite h
  refine Prod.ext ?_ (shapes_of_sameTypes hinterfaces fun first hfirst second hsecond =>
    hnested first (List.mem_append_right _ hfirst) second (List.mem_append_right _ hsecond))
  obtain ⟨name, classBound, interfaceBounds⟩ := a
  obtain ⟨other, otherBound, otherBounds⟩ := b
  cases classBound with
  | none =>
      cases otherBound with
      | none => rfl
      | some second => simp [sameBound] at hbound
  | some first =>
      cases otherBound with
      | none => simp [sameBound] at hbound
      | some second =>
          exact congrArg some (shape_of_sameType hbound
            (hnested first List.mem_cons_self second List.mem_cons_self))

theorem shapes_of_sameParameters {as bs : List TypeParameter}
    (h : Holds (sameParameters ⟨groups, left, right⟩ as bs))
    (hnested : ∀ first ∈ as.flatMap TypeParameter.bounds,
      ∀ second ∈ bs.flatMap TypeParameter.bounds,
        first.NestedAlike (groups.nameIn left) (groups.nameIn right) second) :
    (as.map (TypeParameter.renameClasses (groups.nameIn left))).map TypeParameter.shape =
      (bs.map (TypeParameter.renameClasses (groups.nameIn right))).map TypeParameter.shape := by
  rw [sameParameters_eq] at h
  rw [List.map_map, List.map_map, map_eq_map_iff_forall₂]
  exact h.forall₂_sameEach fun a ha b hb hab => shape_of_sameParameter hab
    fun first hfirst second hsecond => hnested first (List.mem_flatMap.mpr ⟨a, ha, hfirst⟩) second
      (List.mem_flatMap.mpr ⟨b, hb, hsecond⟩)

end Splitting

-- The types of a class signature that it compares as wholes.
def ClassSignature.outline (signature : ClassSignature) : List GenericType :=
  (signature.superclass :: signature.interfaces).map .classType ++
    signature.typeParameters.flatMap TypeParameter.bounds

@[mk_iff]
structure ClassSignature.Unambiguous (names others : String → String) (x y : ClassSignature) :
    Prop where
  nested : ∀ a ∈ x.outline, ∀ b ∈ y.outline, a.NestedAlike names others b
  -- Interfaces that come under one name had one before.
  interfaces : ∀ i ∈ x.interfaces, ∀ j ∈ y.interfaces,
    (i.renameClasses names).internalName = (j.renameClasses others).internalName →
      i.internalName = j.internalName

instance (names others : String → String) (x y : ClassSignature) :
    Decidable (x.Unambiguous names others y) :=
  decidable_of_iff' _ (ClassSignature.unambiguous_iff names others x y)

theorem GenericType.elementNames?_rename (names : Renaming) : ∀ type : GenericType,
    (type.rename names).elementNames? = type.elementNames?
  | .classType segments => congrArg some (ClassType.names_rename names segments)
  | .array component => component.elementNames?_rename names
  | .base _ | .var _ => rfl

theorem ClassSignature.outline_rename (names : Renaming) (signature : ClassSignature) :
    (signature.rename names).outline = signature.outline.map (GenericType.rename names) := by
  simp only [outline, ClassSignature.rename, List.map_append, List.map_cons, List.map_map,
    List.flatMap_map, List.map_flatMap, TypeParameter.bounds_rename]
  rfl

theorem ClassSignature.Unambiguous.rename {names others : String → String} {x y : ClassSignature}
    (variableNames otherNames : Renaming) (h : x.Unambiguous names others y) :
    (x.rename variableNames).Unambiguous names others (y.rename otherNames) := by
  constructor
  · intro a ha b hb
    rw [outline_rename] at ha hb
    obtain ⟨first, hfirst, rfl⟩ := List.mem_map.mp ha
    obtain ⟨second, hsecond, rfl⟩ := List.mem_map.mp hb
    unfold GenericType.NestedAlike
    rw [GenericType.elementNames?_rename, GenericType.elementNames?_rename]
    exact h.nested first hfirst second hsecond
  · intro i hi j hj hname
    obtain ⟨first, hfirst, rfl⟩ := List.mem_map.mp hi
    obtain ⟨second, hsecond, rfl⟩ := List.mem_map.mp hj
    rw [ClassType.internalName_rename, ClassType.internalName_rename]
    refine h.interfaces first hfirst second hsecond ?_
    rwa [← ClassType.rename_renameClasses, ← ClassType.rename_renameClasses,
      ClassType.internalName_rename, ClassType.internalName_rename] at hname

theorem find?_eq_some_of_imp {α : Type} {p q : α → Bool} {items : List α} {found : α}
    (hfound : items.find? p = some found) (hq : q found = true)
    (himp : ∀ item ∈ items, q item = true → p item = true) : items.find? q = some found := by
  obtain ⟨hp, before, after, rfl, hbefore⟩ := List.find?_eq_some_iff_append.mp hfound
  refine List.find?_eq_some_iff_append.mpr ⟨hq, before, after, rfl, fun item hitem => ?_⟩
  have hnot := hbefore item hitem
  cases hitemq : q item with
  | false => rfl
  | true =>
      rw [himp item (List.mem_append_left _ hitem) hitemq] at hnot
      cases hnot

namespace Splitting

theorem shape_of_sameInterface {others : List ClassType} {i j : ClassType}
    (h : Holds (sameInterface ⟨groups, left, right⟩ others i))
    (hnested : ∀ other ∈ others, (GenericType.classType i).NestedAlike (groups.nameIn left)
      (groups.nameIn right) (.classType other))
    (hnames : ∀ other ∈ others, (i.renameClasses (groups.nameIn left)).internalName =
      (other.renameClasses (groups.nameIn right)).internalName →
        i.internalName = other.internalName)
    (hj : (others.map (ClassType.renameClasses (groups.nameIn right))).find? (fun other =>
      other.internalName = (i.renameClasses (groups.nameIn left)).internalName) = some j) :
    ClassType.shape (i.renameClasses (groups.nameIn left)) = j.shape := by
  rw [List.find?_map, Option.map_eq_some_iff] at hj
  obtain ⟨other, hother, rfl⟩ := hj
  have hmem := List.mem_of_find?_eq_some hother
  have hname : (other.renameClasses (groups.nameIn right)).internalName =
      (i.renameClasses (groups.nameIn left)).internalName := by
    simpa using List.find?_some hother
  unfold sameInterface at h
  split at h
  · rename_i first hfirst
    have hshape := shape_of_sameClassType h (hnested first (List.mem_of_find?_eq_some hfirst))
    -- The first interface with that name keeps it under the new names.
    have hsame : some first = some other := by
      rw [← hother]
      refine (find?_eq_some_of_imp hfirst ?_ fun item hitem hitemName => ?_).symm
      · simpa using (ClassType.internalName_of_shape hshape).symm
      · have hitemName := of_decide_eq_true hitemName
        exact decide_eq_true (hnames item hitem hitemName.symm).symm
    rwa [← Option.some.inj hsame]
  · rename_i hnone
    rw [List.find?_eq_none] at hnone
    exact absurd (decide_eq_true (hnames other hmem hname.symm).symm) (hnone other hmem)

theorem fits_of_sameCanonical {x y : ClassSignature}
    (h : Holds (sameCanonical ⟨groups, left, right⟩ x y))
    (hnames : x.Unambiguous (groups.nameIn left) (groups.nameIn right) y) :
    (x.renameClasses (groups.nameIn left)).Fits (y.renameClasses (groups.nameIn right)) := by
  obtain ⟨hparameters, h⟩ := Holds.bind_ite h
  obtain ⟨hsuperclass, hinterfaces⟩ := Holds.bind_ite h
  have hinterface : ∀ signature : ClassSignature, ∀ i ∈ signature.interfaces,
      GenericType.classType i ∈ signature.outline := fun signature i hi =>
    List.mem_append_left _ (List.mem_map_of_mem (List.mem_cons_of_mem _ hi))
  refine ⟨?_, ?_, ?_⟩
  · exact shapes_of_sameParameters hparameters fun first hfirst second hsecond =>
      hnames.nested first (List.mem_append_right _ hfirst) second (List.mem_append_right _ hsecond)
  · exact shape_of_sameClassType hsuperclass (hnames.nested _ (List.mem_append_left _
      List.mem_cons_self) _ (List.mem_append_left _ List.mem_cons_self))
  · intro i hi j hj
    obtain ⟨type, htype, rfl⟩ := List.mem_map.mp hi
    exact shape_of_sameInterface (hinterfaces.allM type htype)
      (fun other hother => hnames.nested _ (hinterface x type htype) _ (hinterface y other hother))
      (hnames.interfaces type htype) hj

end Splitting

end ApiUnion
