import Mathlib.Data.List.Nodup
import Mathlib.Data.List.Pairwise
import ApiUnion.Proofs.Merge.Fitting
import ApiUnion.Proofs.Splitting.Dividing

-- Comparing in the other direction gives the same answer.

namespace ApiUnion

namespace Splitting

-- Two questions with the same answer, whatever was noted before.
def Mirrored (one other : Noting Bool) : Prop :=
  ∀ names others : List String, (one names).1 = (other others).1

namespace Mirrored

theorem pure {a b : Bool} (h : a = b) : Mirrored (Pure.pure a) (Pure.pure b) := fun _ _ => h

theorem ite {condition other : Prop} [Decidable condition] [Decidable other]
    {yes no yes' no' : Noting Bool} (hcondition : condition ↔ other) (hyes : Mirrored yes yes')
    (hno : Mirrored no no') :
    Mirrored (if condition then yes else no) (if other then yes' else no') := by
  by_cases h : condition
  · rwa [if_pos h, if_pos (hcondition.mp h)]
  · rwa [if_neg h, if_neg (mt hcondition.mpr h)]

theorem bind_ite {one other yes no yes' no' : Noting Bool} (h : Mirrored one other)
    (hyes : Mirrored yes yes') (hno : Mirrored no no') :
    Mirrored (do if ← one then yes else no) (do if ← other then yes' else no') := by
  intro names others
  show ((if (one names).1 then yes else no) (one names).2).1 =
    ((if (other others).1 then yes' else no') (other others).2).1
  rw [h names others]
  by_cases hanswer : (other others).1 = true
  · rw [if_pos hanswer, if_pos hanswer]
    exact hyes _ _
  · rw [if_neg hanswer, if_neg hanswer]
    exact hno _ _

theorem sameEach {α : Type} {same reversed : α → α → Noting Bool}
    (h : ∀ x y, Mirrored (same x y) (reversed y x)) (a b : List α) :
    Mirrored (sameEach same a b) (sameEach reversed b a) := by
  induction a generalizing b with
  | nil =>
      cases b with
      | nil => exact pure rfl
      | cons y ys => exact pure rfl
  | cons x xs ih =>
      cases b with
      | nil => exact pure rfl
      | cons y ys =>
          simp only [Splitting.sameEach]
          exact ite ne_comm (pure rfl) ((h x y).bind_ite (ih ys) (pure rfl))

end Mirrored

variable (groups : Groups) (left right : Version)

theorem mirrored_sameClass (a b : String) :
    Mirrored (sameClass ⟨groups, left, right⟩ a b) (sameClass ⟨groups, right, left⟩ b a) := by
  unfold sameClass
  refine Mirrored.ite eq_comm ?_ (.pure rfl)
  intro names others
  exact decide_eq_decide.mpr eq_comm

-- One case for each pair of constructors, as in the comparison itself.
mutual

theorem mirrored_sameType : ∀ a b : GenericType,
    Mirrored (sameType ⟨groups, left, right⟩ a b) (sameType ⟨groups, right, left⟩ b a)
  | .classType a, .classType b => by
      simp only [sameType]
      refine Mirrored.ite ne_comm (.pure rfl) ?_
      exact (mirrored_sameClass groups left right _ _).bind_ite (mirrored_sameSegments a b)
        (.pure rfl)
  | .array a, .array b => by
      simp only [sameType]
      exact mirrored_sameType a b
  | .base a, .base b => by
      simp only [sameType]
      exact .pure (decide_eq_decide.mpr eq_comm)
  | .var a, .var b => by
      simp only [sameType]
      exact .pure (decide_eq_decide.mpr eq_comm)
  | .classType _, .array _ | .classType _, .base _ | .classType _, .var _ => by
      simp only [sameType]
      exact .pure rfl
  | .array _, .classType _ | .array _, .base _ | .array _, .var _ => by
      simp only [sameType]
      exact .pure rfl
  | .base _, .classType _ | .base _, .array _ | .base _, .var _ => by
      simp only [sameType]
      exact .pure rfl
  | .var _, .classType _ | .var _, .array _ | .var _, .base _ => by
      simp only [sameType]
      exact .pure rfl

theorem mirrored_sameSegment : ∀ a b : Segment,
    Mirrored (sameSegment ⟨groups, left, right⟩ a b) (sameSegment ⟨groups, right, left⟩ b a)
  | ⟨_, xs⟩, ⟨_, ys⟩ => by
      simp only [sameSegment]
      exact Mirrored.ite eq_comm (mirrored_sameArguments xs ys) (.pure rfl)

theorem mirrored_sameArgument : ∀ a b : TypeArgument,
    Mirrored (sameArgument ⟨groups, left, right⟩ a b) (sameArgument ⟨groups, right, left⟩ b a)
  | .any, .any => by
      simp only [sameArgument]
      exact .pure rfl
  | .bounded v a, .bounded w b => by
      simp only [sameArgument]
      exact Mirrored.ite eq_comm (mirrored_sameType a b) (.pure rfl)
  | .any, .bounded _ _ | .bounded _ _, .any => by
      simp only [sameArgument]
      exact .pure rfl

theorem mirrored_sameSegments : ∀ a b : List Segment,
    Mirrored (sameSegments ⟨groups, left, right⟩ a b) (sameSegments ⟨groups, right, left⟩ b a)
  | x :: xs, y :: ys => by
      simp only [sameSegments]
      exact (mirrored_sameSegment x y).bind_ite (mirrored_sameSegments xs ys) (.pure rfl)
  | [], [] | [], _ :: _ | _ :: _, [] => by
      simp only [sameSegments]
      exact .pure rfl

theorem mirrored_sameArguments : ∀ a b : List TypeArgument,
    Mirrored (sameArguments ⟨groups, left, right⟩ a b) (sameArguments ⟨groups, right, left⟩ b a)
  | x :: xs, y :: ys => by
      simp only [sameArguments]
      exact (mirrored_sameArgument x y).bind_ite (mirrored_sameArguments xs ys) (.pure rfl)
  | [], [] | [], _ :: _ | _ :: _, [] => by
      simp only [sameArguments]
      exact .pure rfl

end

theorem mirrored_sameTypes (a b : List GenericType) :
    Mirrored (sameTypes ⟨groups, left, right⟩ a b) (sameTypes ⟨groups, right, left⟩ b a) := by
  rw [sameTypes_eq, sameTypes_eq]
  exact Mirrored.sameEach (mirrored_sameType groups left right) a b

theorem mirrored_sameBound (a b : Option GenericType) :
    Mirrored (sameBound ⟨groups, left, right⟩ a b) (sameBound ⟨groups, right, left⟩ b a) := by
  cases a with
  | none =>
      cases b with
      | none => exact .pure rfl
      | some b => exact .pure rfl
  | some a =>
      cases b with
      | none => exact .pure rfl
      | some b => exact mirrored_sameType groups left right a b

theorem mirrored_sameParameter (a b : TypeParameter) :
    Mirrored (sameParameter ⟨groups, left, right⟩ a b)
      (sameParameter ⟨groups, right, left⟩ b a) :=
  (mirrored_sameBound groups left right a.classBound b.classBound).bind_ite
    (mirrored_sameTypes groups left right a.interfaceBounds b.interfaceBounds) (.pure rfl)

theorem mirrored_sameParameters (a b : List TypeParameter) :
    Mirrored (sameParameters ⟨groups, left, right⟩ a b)
      (sameParameters ⟨groups, right, left⟩ b a) := by
  rw [sameParameters_eq, sameParameters_eq]
  exact Mirrored.sameEach (mirrored_sameParameter groups left right) a b

theorem mirrored_sameClassType (a b : ClassType) :
    Mirrored (sameClassType ⟨groups, left, right⟩ a b)
      (sameClassType ⟨groups, right, left⟩ b a) :=
  mirrored_sameType groups left right (.classType a) (.classType b)

-- Where no interface is named twice, the one that is found is the only one of its name.
theorem sameInterface_iff (context : Context) (others : List ClassType) (type : ClassType)
    (hothers : (others.map ClassType.internalName).Nodup) (names : List String) :
    (sameInterface context others type names).1 = true ↔
      ∀ other ∈ others, other.internalName = type.internalName →
        (sameClassType context type other names).1 = true := by
  unfold sameInterface
  cases hfind : others.find? fun other => other.internalName = type.internalName with
  | none =>
      rw [List.find?_eq_none] at hfind
      constructor
      · intro _ other hother hname
        exact absurd (decide_eq_true hname) (hfind other hother)
      · exact fun _ => rfl
  | some found =>
      have hname : found.internalName = type.internalName := by
        simpa using List.find?_some hfind
      constructor
      · intro hsame other hother hother'
        have heq : other = found := List.inj_on_of_nodup_map hothers hother
          (List.mem_of_find?_eq_some hfind) (hother'.trans hname.symm)
        rw [heq]
        exact hsame
      · exact fun hall => hall found (List.mem_of_find?_eq_some hfind) hname

theorem mirrored_interfaces (xs ys : List ClassType)
    (hxs : (xs.map ClassType.internalName).Nodup) (hys : (ys.map ClassType.internalName).Nodup) :
    Mirrored (xs.allM (sameInterface ⟨groups, left, right⟩ ys))
      (ys.allM (sameInterface ⟨groups, right, left⟩ xs)) := by
  intro names others
  rw [allM_answer groups (fun groups => sameInterface ⟨groups, left, right⟩ ys)
      (local_sameInterface left right ys) xs names,
    allM_answer groups (fun groups => sameInterface ⟨groups, right, left⟩ xs)
      (local_sameInterface right left xs) ys others, Bool.eq_iff_iff]
  simp only [List.all_eq_true, sameInterface_iff _ _ _ hxs, sameInterface_iff _ _ _ hys]
  constructor
  · intro h y hy x hx hname
    rw [mirrored_sameClassType groups right left y x [] []]
    exact h x hx y hy hname.symm
  · intro h x hx y hy hname
    rw [mirrored_sameClassType groups left right x y [] []]
    exact h y hy x hx hname.symm

theorem mirrored_sameCanonical (a b : ClassSignature) (ha : a.interfaceNames.Nodup)
    (hb : b.interfaceNames.Nodup) :
    Mirrored (sameCanonical ⟨groups, left, right⟩ a b)
      (sameCanonical ⟨groups, right, left⟩ b a) := by
  unfold sameCanonical
  refine (mirrored_sameParameters groups left right _ _).bind_ite ?_ (.pure rfl)
  refine (mirrored_sameClassType groups left right _ _).bind_ite ?_ (.pure rfl)
  exact mirrored_interfaces groups left right a.interfaces b.interfaces ha hb

theorem mirrored_sameSignature (a b : Option String)
    (ha : ∀ text ∈ a, ∀ signature ∈ ClassSignature.ofChars? text.toList,
      signature.interfaceNames.Nodup)
    (hb : ∀ text ∈ b, ∀ signature ∈ ClassSignature.ofChars? text.toList,
      signature.interfaceNames.Nodup) :
    Mirrored (sameSignature ⟨groups, left, right⟩ a b)
      (sameSignature ⟨groups, right, left⟩ b a) := by
  cases a with
  | none =>
      cases b with
      | none => exact .pure rfl
      | some b => exact .pure rfl
  | some a =>
      cases b with
      | none => exact .pure rfl
      | some b =>
          simp only [sameSignature]
          cases hx : ClassSignature.ofChars? a.toList with
          | none =>
              cases ClassSignature.ofChars? b.toList with
              | none => exact .pure (decide_eq_decide.mpr eq_comm)
              | some y => exact .pure (decide_eq_decide.mpr eq_comm)
          | some x =>
              cases hy : ClassSignature.ofChars? b.toList with
              | none => exact .pure (decide_eq_decide.mpr eq_comm)
              | some y =>
                  refine mirrored_sameCanonical groups left right x.canonical y.canonical ?_ ?_
                  · rw [ClassSignature.interfaceNames_canonical]
                    exact ha a rfl x hx
                  · rw [ClassSignature.interfaceNames_canonical]
                    exact hb b rfl y hy

theorem mirrored_sameOwner (a b : Option EnclosingMethod) :
    Mirrored (sameOwner ⟨groups, left, right⟩ a b) (sameOwner ⟨groups, right, left⟩ b a) := by
  cases a with
  | none =>
      cases b with
      | none => exact .pure rfl
      | some b => exact .pure rfl
  | some a =>
      cases b with
      | none => exact .pure rfl
      | some b =>
          simp only [sameOwner]
          refine Mirrored.ite ?_ (mirrored_sameClass groups left right _ _) (.pure rfl)
          rw [Bool.and_eq_true, Bool.and_eq_true]
          simp only [decide_eq_true_eq]
          exact and_congr eq_comm eq_comm

theorem mirrored_sameSuperclass (a b : Option String) :
    Mirrored (sameSuperclass ⟨groups, left, right⟩ a b)
      (sameSuperclass ⟨groups, right, left⟩ b a) := by
  cases a with
  | none =>
      cases b with
      | none => exact .pure rfl
      | some b => exact .pure rfl
  | some a =>
      cases b with
      | none => exact .pure rfl
      | some b => exact mirrored_sameClass groups left right a b

-- It does not matter which of two snapshots came first.
theorem mergeable?_comm (a b : ApiClass) (ha : a.NamesInterfacesOnce)
    (hb : b.NamesInterfacesOnce) : mergeable? groups a b = mergeable? groups b a := by
  have hmirrored : Mirrored (mergeable groups a b) (mergeable groups b a) := by
    unfold mergeable
    refine Mirrored.ite ne_comm (.pure rfl) ?_
    refine (mirrored_sameOwner groups _ _ _ _).bind_ite ?_ (.pure rfl)
    refine (mirrored_sameSuperclass groups _ _ _ _).bind_ite ?_ (.pure rfl)
    exact mirrored_sameSignature groups _ _ _ _ ha hb
  exact hmirrored [] []

-- Two snapshots that can be merged either way round, if neither names an interface twice.
def EitherWay (groups : Groups) (snapshots : List ApiClass) (i j : Nat) : Prop :=
  ∀ a b, snapshots[i]? = some a → snapshots[j]? = some b → a.NamesInterfacesOnce →
    b.NamesInterfacesOnce → mergeable? groups a b

instance (snapshots : List ApiClass) : Std.Symm (EitherWay groups snapshots) where
  symm i j h a b ha hb honce honce' := by
    rw [mergeable?_comm groups a b honce honce']
    exact h b a hb ha honce' honce

theorem eitherWay_of_groupMergeable (snapshots : List ApiClass) (group : Group)
    (hgroup : GroupMergeable groups snapshots group) :
    ∀ i ∈ group.members, ∀ j ∈ group.members, i ≠ j → EitherWay groups snapshots i j := by
  have hpairs : group.members.Pairwise (EitherWay groups snapshots) :=
    hgroup.imp fun h a b ha hb _ _ => h a b ha hb
  intro i hi j hj hne
  exact hpairs.forall hi hj hne

end Splitting

end ApiUnion
