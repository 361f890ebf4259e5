import Mathlib.Data.List.Forall2
import ApiUnion.Proofs.Signature.Loosening
import ApiUnion.Proofs.Signature.Variables

-- Joins of signatures: their parts are looser than those of what is joined, so that they stay
-- legible and mention no further variables, and joining does not depend on what variables are
-- called.

namespace ApiUnion

-- What is looser mentions no further variables.
mutual

theorem GenericType.Loosens.variables_subset : ∀ {a b : GenericType}, a.Loosens b →
    b.variables ⊆ a.variables
  | _, _, .base _ => List.Subset.refl _
  | _, _, .var _ => List.Subset.refl _
  | _, _, .array h => h.variables_subset
  | _, _, .classType h => h.variables_subset

theorem TypeArgument.Loosens.variables_subset : ∀ {p q : TypeArgument}, p.Loosens q →
    q.variables ⊆ p.variables
  | _, _, .any _ => List.nil_subset _
  | _, _, .object _ => List.nil_subset _
  | _, _, .exact _ h => h.variables_subset
  | _, _, .bounded _ h => h.variables_subset

theorem SegmentsLoosen.variables_subset : ∀ {xs ys : List Segment}, SegmentsLoosen xs ys →
    segmentsVariables ys ⊆ segmentsVariables xs
  | _, _, .nil => List.Subset.refl _
  | _, _, .cons _ h hrest =>
      List.append_subset.mpr ⟨List.subset_append_of_subset_left _ h.variables_subset,
        List.subset_append_of_subset_right _ hrest.variables_subset⟩

theorem ArgumentsLoosen.variables_subset : ∀ {ps qs : List TypeArgument}, ArgumentsLoosen ps qs →
    argumentsVariables qs ⊆ argumentsVariables ps
  | _, _, .nil => List.Subset.refl _
  | _, _, .cons h hrest =>
      List.append_subset.mpr ⟨List.subset_append_of_subset_left _ h.variables_subset,
        List.subset_append_of_subset_right _ hrest.variables_subset⟩

end

theorem SegmentsLoosen.ne_nil {xs ys : List Segment} (h : SegmentsLoosen xs ys) (hne : xs ≠ []) :
    ys ≠ [] := by
  cases h with
  | nil => exact hne
  | cons name h hrest => simp

theorem GenericType.legible_object : TypeArgument.Legible (.bounded .covariant .object) := by
  simp [TypeArgument.Legible, GenericType.object, GenericType.IsReference, GenericType.Legible,
    LegibleSegments, Segment.Legible, LegibleArguments, Signature.IsIdentifier]

theorem GenericType.Loosens.isReference {a b : GenericType} (h : a.Loosens b)
    (ha : a.IsReference) : b.IsReference := by
  cases h with
  | base type => exact ha
  | var name | array h | classType h => trivial

mutual

theorem GenericType.Loosens.legible : ∀ {a b : GenericType}, a.Loosens b → a.Legible → b.Legible
  | _, _, .base _, ha => ha
  | _, _, .var _, ha => ha
  | _, _, .array h, ha => h.legible ha
  | _, _, .classType h, ha => ⟨h.ne_nil ha.1, h.legible ha.2⟩

theorem TypeArgument.Loosens.legible : ∀ {p q : TypeArgument}, p.Loosens q → p.Legible → q.Legible
  | _, _, .any _, _ => trivial
  | _, _, .object _, _ => GenericType.legible_object
  | _, _, .exact _ h, hp => ⟨h.isReference hp.1, h.legible hp.2⟩
  | _, _, .bounded _ h, hp => ⟨h.isReference hp.1, h.legible hp.2⟩

theorem SegmentsLoosen.legible : ∀ {xs ys : List Segment}, SegmentsLoosen xs ys →
    LegibleSegments xs → LegibleSegments ys
  | _, _, .nil, _ => trivial
  | _, _, .cons _ h hrest, hxs => ⟨⟨hxs.1.1, h.legible hxs.1.2⟩, hrest.legible hxs.2⟩

theorem ArgumentsLoosen.legible : ∀ {ps qs : List TypeArgument}, ArgumentsLoosen ps qs →
    LegibleArguments ps → LegibleArguments qs
  | _, _, .nil, _ => trivial
  | _, _, .cons h hrest, hps => ⟨h.legible hps.1, hrest.legible hps.2⟩

end

-- A parameter with looser bounds.
structure TypeParameter.Loosens (a b : TypeParameter) : Prop where
  name : b.name = a.name
  bounds : List.Forall₂ GenericType.Loosens a.bounds b.bounds

theorem exists_of_forall₂ {α β : Type} {R : α → β → Prop} {xs : List α} {ys : List β}
    (h : List.Forall₂ R xs ys) : ∀ y ∈ ys, ∃ x ∈ xs, R x y := by
  induction h with
  | nil => simp
  | cons hxy _ ih =>
      rw [List.forall_mem_cons]
      refine ⟨⟨_, List.mem_cons_self, hxy⟩, fun y hy => ?_⟩
      obtain ⟨x, hx, hxy⟩ := ih y hy
      exact ⟨x, List.mem_cons_of_mem _ hx, hxy⟩

theorem TypeParameter.Loosens.legible {a b : TypeParameter} (h : a.Loosens b) (ha : a.Legible) :
    b.Legible where
  name := h.name ▸ ha.name
  opening := h.name ▸ ha.opening
  bounded hnil := ha.bounded (List.length_eq_zero_iff.mp (by rw [h.bounds.length_eq, hnil]; rfl))
  bounds bound hbound := by
    obtain ⟨looser, hmem, hle⟩ := exists_of_forall₂ h.bounds bound hbound
    exact ⟨hle.isReference (ha.bounds looser hmem).1, hle.legible (ha.bounds looser hmem).2⟩

theorem TypeParameter.Loosens.variables_subset {a b : TypeParameter} (h : a.Loosens b) :
    b.variables ⊆ a.variables := by
  intro v hv
  rcases List.mem_cons.mp hv with rfl | hv
  · rw [h.name]
    exact List.mem_cons_self
  · obtain ⟨bound, hbound, hv⟩ := List.mem_flatMap.mp hv
    obtain ⟨looser, hmem, hle⟩ := exists_of_forall₂ h.bounds bound hbound
    exact List.mem_cons_of_mem _ (List.mem_flatMap.mpr ⟨looser, hmem, hle.variables_subset hv⟩)

section Each

variable {α : Type} {join : α → α → Option α}

-- Lists of one length, of which those at the same position are joined.
def joinEach? (join : α → α → Option α) : List α → List α → Option (List α)
  | [], [] => some []
  | a :: as, b :: bs => do pure ((← join a b) :: (← joinEach? join as bs))
  | _, _ => none

-- Two lists and the list of their joins.
inductive JoinedEach (join : α → α → Option α) : List α → List α → List α → Prop
  | nil : JoinedEach join [] [] []
  | cons {a b c : α} {as bs cs : List α} : join a b = some c → JoinedEach join as bs cs →
      JoinedEach join (a :: as) (b :: bs) (c :: cs)

theorem joinedEach_of_joinEach? {as bs cs : List α} (h : joinEach? join as bs = some cs) :
    JoinedEach join as bs cs := by
  induction as generalizing bs cs with
  | nil =>
      cases bs with
      | nil =>
          obtain rfl := Option.some.inj h
          exact .nil
      | cons b bs => cases h
  | cons a as ih =>
      cases bs with
      | nil => cases h
      | cons b bs =>
          simp only [joinEach?, Option.bind_eq_bind, Option.bind_eq_some_iff, Option.pure_def,
            Option.some.injEq] at h
          obtain ⟨c, hc, cs, hcs, rfl⟩ := h
          exact .cons hc (ih hcs)

-- What ties a join to the first of the two.
theorem JoinedEach.forall₂ {R : α → α → Prop} {as bs cs : List α} (h : JoinedEach join as bs cs)
    (hjoin : ∀ a b c, join a b = some c → R a c) : List.Forall₂ R as cs := by
  induction h with
  | nil => exact .nil
  | cons hc _ ih => exact .cons (hjoin _ _ _ hc) ih

-- What ties the two together.
theorem JoinedEach.forall₂_sides {R : α → α → Prop} {as bs cs : List α}
    (h : JoinedEach join as bs cs) (hjoin : ∀ a b c, join a b = some c → R a b) :
    List.Forall₂ R as bs := by
  induction h with
  | nil => exact .nil
  | cons hc _ ih => exact .cons (hjoin _ _ _ hc) ih

theorem JoinedEach.length_eq {as bs cs : List α} (h : JoinedEach join as bs cs) :
    bs.length = as.length := by
  induction h with
  | nil => rfl
  | cons _ _ ih => exact congrArg (· + 1) ih

theorem isSome_joinEach? {as bs : List α}
    (h : List.Forall₂ (fun a b => (join a b).isSome) as bs) : (joinEach? join as bs).isSome := by
  induction h with
  | nil => rfl
  | cons hab _ ih =>
      obtain ⟨c, hc⟩ := Option.isSome_iff_exists.mp hab
      obtain ⟨cs, hcs⟩ := Option.isSome_iff_exists.mp ih
      rw [joinEach?, hc, hcs]
      rfl

theorem joinEach?_map {f : α → α} {as bs : List α}
    (h : ∀ a ∈ as, ∀ b ∈ bs, join (f a) (f b) = (join a b).map f) :
    joinEach? join (as.map f) (bs.map f) = (joinEach? join as bs).map (List.map f) := by
  induction as generalizing bs with
  | nil => cases bs <;> rfl
  | cons a as ih =>
      cases bs with
      | nil => rfl
      | cons b bs =>
          have hrest := ih fun a ha b hb =>
            h a (List.mem_cons_of_mem _ ha) b (List.mem_cons_of_mem _ hb)
          rw [List.map_cons, List.map_cons, joinEach?, joinEach?,
            h a List.mem_cons_self b List.mem_cons_self, hrest]
          cases join a b <;> cases joinEach? join as bs <;> rfl

end Each

theorem joinAll?_eq (as bs : List GenericType) :
    joinAll? as bs = joinEach? GenericType.join? as bs := by
  induction as generalizing bs with
  | nil => cases bs <;> rfl
  | cons a as ih =>
      cases bs with
      | nil => rfl
      | cons b bs => rw [joinAll?, joinEach?, ih]

theorem joinParameters?_eq (as bs : List TypeParameter) :
    joinParameters? as bs = joinEach? TypeParameter.join? as bs := by
  induction as generalizing bs with
  | nil => cases bs <;> rfl
  | cons a as ih =>
      cases bs with
      | nil => rfl
      | cons b bs => rw [joinParameters?, joinEach?, ih]

theorem loosens_joinAll? {as bs cs : List GenericType} (h : joinAll? as bs = some cs) :
    List.Forall₂ GenericType.Loosens as cs := by
  rw [joinAll?_eq] at h
  exact (joinedEach_of_joinEach? h).forall₂ GenericType.loosens_join?

theorem loosens_joinOption? {a b c : Option GenericType} (h : joinOption? a b = some c) :
    List.Forall₂ GenericType.Loosens a.toList c.toList := by
  cases a with
  | none =>
      cases b with
      | none =>
          obtain rfl := Option.some.inj h
          exact .nil
      | some b => cases h
  | some a =>
      cases b with
      | none => cases h
      | some b =>
          obtain ⟨join, hjoin, rfl⟩ := Option.map_eq_some_iff.mp h
          exact .cons (GenericType.loosens_join? a b join hjoin) .nil

theorem TypeParameter.loosens_join? {a b c : TypeParameter} (h : a.join? b = some c) :
    a.Loosens c := by
  simp only [TypeParameter.join?, Option.bind_eq_bind, Option.bind_eq_some_iff, Option.pure_def,
    Option.some.injEq] at h
  obtain ⟨classBound, hclass, interfaceBounds, hinterfaces, rfl⟩ := h
  exact ⟨rfl, List.rel_append (loosens_joinOption? hclass) (loosens_joinAll? hinterfaces)⟩

theorem loosens_joinParameters? {as bs cs : List TypeParameter}
    (h : joinParameters? as bs = some cs) :
    List.Forall₂ TypeParameter.Loosens as cs ∧ bs.length = as.length := by
  rw [joinParameters?_eq] at h
  have hjoined := joinedEach_of_joinEach? h
  exact ⟨hjoined.forall₂ fun _ _ _ hc => TypeParameter.loosens_join? hc, hjoined.length_eq⟩

theorem ownNames_of_loosens {as cs : List TypeParameter}
    (h : List.Forall₂ TypeParameter.Loosens as cs) : ownNames cs = ownNames as := by
  induction h with
  | nil => rfl
  | cons hac _ ih =>
      rw [ownNames, List.map_cons, hac.name]
      exact congrArg (List.cons _) ih

theorem loosens_joinInterfaces? {as bs cs : List ClassType} (h : joinInterfaces? as bs = some cs) :
    ∀ c ∈ cs, (∃ a ∈ as, SegmentsLoosen a c) ∨ c ∈ bs := by
  simp only [joinInterfaces?, Option.bind_eq_bind, Option.bind_eq_some_iff, Option.pure_def,
    Option.some.injEq] at h
  obtain ⟨shared, hshared, rfl⟩ := h
  rw [List.forall_mem_append]
  refine ⟨?_, fun c hc => .inr (List.mem_of_mem_filter hc)⟩
  induction as generalizing shared with
  | nil =>
      obtain rfl := Option.some.inj hshared
      simp
  | cons a as ih =>
      simp only [List.mapM_cons, Option.bind_eq_bind, Option.bind_eq_some_iff, Option.pure_def,
        Option.some.injEq] at hshared
      obtain ⟨c, hc, rest, hrest, rfl⟩ := hshared
      refine List.forall_mem_cons.mpr ⟨.inl ⟨a, List.mem_cons_self, ?_⟩, fun d hd => ?_⟩
      · unfold ClassType.joinNamesake? at hc
        split at hc
        · exact loosen_joinSegments? _ _ _ hc
        · obtain rfl := Option.some.inj hc
          exact SegmentsLoosen.refl a
      · exact (ih rest hrest d hd).imp_left fun ⟨a, ha, hle⟩ => ⟨a, List.mem_cons_of_mem _ ha, hle⟩

theorem MethodSignature.join?_eq_some {a b c : MethodSignature} (h : a.join? b = some c) :
    joinParameters? a.typeParameters b.typeParameters = some c.typeParameters ∧
      joinAll? a.parameters b.parameters = some c.parameters ∧
      joinOption? a.result b.result = some c.result ∧
      joinAll? a.throws b.throws = some c.throws := by
  simp only [MethodSignature.join?, Option.bind_eq_bind, Option.bind_eq_some_iff, Option.pure_def,
    Option.some.injEq] at h
  obtain ⟨result, hresult, typeParameters, htypeParameters, parameters, hparameters, throws,
    hthrows, rfl⟩ := h
  exact ⟨htypeParameters, hparameters, hresult, hthrows⟩

theorem ClassSignature.join?_eq_some {a b c : ClassSignature} (h : a.join? b = some c) :
    joinParameters? a.typeParameters b.typeParameters = some c.typeParameters ∧
      a.superclass.join? b.superclass = some c.superclass ∧
      joinInterfaces? a.interfaces b.interfaces = some c.interfaces := by
  simp only [ClassSignature.join?, Option.bind_eq_bind, Option.bind_eq_some_iff, Option.pure_def,
    Option.some.injEq] at h
  obtain ⟨typeParameters, htypeParameters, superclass, hsuperclass, interfaces, hinterfaces,
    rfl⟩ := h
  exact ⟨htypeParameters, hsuperclass, hinterfaces⟩

theorem MethodSignature.Legible.join? {a b c : MethodSignature} (ha : a.Legible)
    (h : a.join? b = some c) : c.Legible := by
  obtain ⟨htypeParameters, hparameters, hresult, hthrows⟩ := MethodSignature.join?_eq_some h
  refine ⟨fun parameter hmem => ?_, fun type hmem => ?_, fun type hmem => ?_, fun type hmem => ?_⟩
  · obtain ⟨looser, hlooser, hle⟩ :=
      exists_of_forall₂ (loosens_joinParameters? htypeParameters).1 parameter hmem
    exact hle.legible (ha.typeParameters looser hlooser)
  · obtain ⟨looser, hlooser, hle⟩ := exists_of_forall₂ (loosens_joinAll? hparameters) type hmem
    exact hle.legible (ha.parameters looser hlooser)
  · obtain ⟨looser, hlooser, hle⟩ :=
      exists_of_forall₂ (loosens_joinOption? hresult) type (Option.mem_toList.mpr hmem)
    exact hle.legible (ha.result looser (Option.mem_toList.mp hlooser))
  · obtain ⟨looser, hlooser, hle⟩ := exists_of_forall₂ (loosens_joinAll? hthrows) type hmem
    exact ⟨hle.isReference (ha.throws looser hlooser).1, hle.legible (ha.throws looser hlooser).2⟩

theorem ClassSignature.Legible.join? {a b c : ClassSignature} (ha : a.Legible) (hb : b.Legible)
    (h : a.join? b = some c) : c.Legible := by
  obtain ⟨htypeParameters, hsuperclass, hinterfaces⟩ := ClassSignature.join?_eq_some h
  refine ⟨fun parameter hmem => ?_, ?_, fun type hmem => ?_⟩
  · obtain ⟨looser, hlooser, hle⟩ :=
      exists_of_forall₂ (loosens_joinParameters? htypeParameters).1 parameter hmem
    exact hle.legible (ha.typeParameters looser hlooser)
  · exact (GenericType.Loosens.classType (loosen_joinSegments? _ _ _ hsuperclass)).legible
      ha.superclass
  · rcases loosens_joinInterfaces? hinterfaces type hmem with ⟨looser, hlooser, hle⟩ | hmem
    · exact (GenericType.Loosens.classType hle).legible (ha.interfaces looser hlooser)
    · exact hb.interfaces type hmem

theorem MethodSignature.variables_join? {a b c : MethodSignature} (h : a.join? b = some c) :
    c.variables ⊆ a.variables := by
  obtain ⟨htypeParameters, hparameters, hresult, hthrows⟩ := MethodSignature.join?_eq_some h
  have htypes : List.Forall₂ GenericType.Loosens (a.parameters ++ a.result.toList ++ a.throws)
      (c.parameters ++ c.result.toList ++ c.throws) :=
    List.rel_append (List.rel_append (loosens_joinAll? hparameters) (loosens_joinOption? hresult))
      (loosens_joinAll? hthrows)
  intro v hv
  rcases List.mem_append.mp hv with hv | hv <;> obtain ⟨part, hpart, hv⟩ := List.mem_flatMap.mp hv
  · obtain ⟨looser, hlooser, hle⟩ :=
      exists_of_forall₂ (loosens_joinParameters? htypeParameters).1 part hpart
    exact List.mem_append_left _ (List.mem_flatMap.mpr ⟨looser, hlooser, hle.variables_subset hv⟩)
  · obtain ⟨looser, hlooser, hle⟩ := exists_of_forall₂ htypes part hpart
    exact List.mem_append_right _ (List.mem_flatMap.mpr ⟨looser, hlooser, hle.variables_subset hv⟩)

-- Interfaces of the second come as they are.
theorem ClassSignature.variables_join? {a b c : ClassSignature} (h : a.join? b = some c) :
    ∀ v ∈ c.variables, v ∈ a.variables ∨ v ∈ b.variables := by
  obtain ⟨htypeParameters, hsuperclass, hinterfaces⟩ := ClassSignature.join?_eq_some h
  intro v hv
  rcases List.mem_append.mp hv with hv | hv <;> obtain ⟨part, hpart, hv⟩ := List.mem_flatMap.mp hv
  · obtain ⟨looser, hlooser, hle⟩ :=
      exists_of_forall₂ (loosens_joinParameters? htypeParameters).1 part hpart
    exact .inl (List.mem_append_left _
      (List.mem_flatMap.mpr ⟨looser, hlooser, hle.variables_subset hv⟩))
  · have hkept : (∃ looser ∈ a.superclass :: a.interfaces, SegmentsLoosen looser part) ∨
        part ∈ b.superclass :: b.interfaces := by
      rcases List.mem_cons.mp hpart with rfl | hpart
      · exact .inl ⟨_, List.mem_cons_self, loosen_joinSegments? _ _ _ hsuperclass⟩
      · exact (loosens_joinInterfaces? hinterfaces part hpart).imp
          (fun ⟨looser, hlooser, hle⟩ => ⟨looser, List.mem_cons_of_mem _ hlooser, hle⟩)
          (List.mem_cons_of_mem _)
    rcases hkept with ⟨looser, hlooser, hle⟩ | hmem
    · exact .inl (List.mem_append_right _
        (List.mem_flatMap.mpr ⟨looser, hlooser, hle.variables_subset hv⟩))
    · exact .inr (List.mem_append_right _ (List.mem_flatMap.mpr ⟨part, hmem, hv⟩))

theorem GenericType.isObject_rename (names : Renaming) (type : GenericType) :
    (type.rename names).isObject = type.isObject := by
  cases type with
  | base type | array component | var name => rfl
  | classType segments =>
      cases segments with
      | nil => rfl
      | cons segment rest =>
          obtain ⟨name, arguments⟩ := segment
          cases rest <;> cases arguments <;> rfl

theorem TypeArgument.joinBounds_rename (names : Renaming) (v w : Variance) (a b : GenericType)
    (join : Option GenericType) :
    TypeArgument.joinBounds v (a.rename names) w (b.rename names)
        (join.map (GenericType.rename names)) =
      (TypeArgument.joinBounds v a w b join).rename names := by
  cases join with
  | some c => cases v <;> cases w <;> rfl
  | none =>
      cases v <;> cases w <;>
        simp only [joinBounds, Option.map_none, Option.elim_none, GenericType.isObject_rename,
          TypeArgument.rename] <;>
        split <;> rfl

-- Joining commutes with renaming if no two variables get one name.
mutual

theorem GenericType.join?_rename {names : Renaming} {scope : Set String}
    (hinj : scope.InjOn names) : ∀ a b : GenericType, (∀ v ∈ a.variables, v ∈ scope) →
      (∀ v ∈ b.variables, v ∈ scope) →
      (a.rename names).join? (b.rename names) = (a.join? b).map (GenericType.rename names)
  | .base a, b, _, _ => by
      cases b with
      | base b => by_cases h : a = b <;> simp [GenericType.rename, GenericType.join?, h]
      | array _ | var _ | classType _ => simp [GenericType.rename, GenericType.join?]
  | .var a, b, ha, hb => by
      cases b with
      | var b =>
          have hiff : names a = names b ↔ a = b :=
            hinj.eq_iff (ha a (List.mem_singleton.mpr rfl)) (hb b (List.mem_singleton.mpr rfl))
          by_cases h : a = b
          · simp [GenericType.rename, GenericType.join?, h]
          · simp [GenericType.rename, GenericType.join?, h, mt hiff.mp h]
      | array _ | base _ | classType _ => simp [GenericType.rename, GenericType.join?]
  | .array a, b, ha, hb => by
      cases b with
      | array b =>
          simp only [GenericType.rename, GenericType.join?, GenericType.join?_rename hinj a b ha hb,
            Option.map_map]
          rfl
      | var _ | base _ | classType _ => simp [GenericType.rename, GenericType.join?]
  | .classType a, b, ha, hb => by
      cases b with
      | classType b =>
          simp only [GenericType.rename, GenericType.join?, joinSegments?_rename hinj a b ha hb,
            Option.map_map]
          rfl
      | var _ | base _ | array _ => simp [GenericType.rename, GenericType.join?]

theorem Segment.join?_rename {names : Renaming} {scope : Set String}
    (hinj : scope.InjOn names) : ∀ x y : Segment, (∀ v ∈ x.variables, v ∈ scope) →
      (∀ v ∈ y.variables, v ∈ scope) →
      (x.rename names).join? (y.rename names) = (x.join? y).map (Segment.rename names)
  | ⟨a, ps⟩, ⟨b, qs⟩, hx, hy => by
      by_cases h : a = b
      · simp only [Segment.rename, Segment.join?, if_pos h, joinArguments?_rename hinj ps qs hx hy,
          Option.map_map]
        rfl
      · simp only [Segment.rename, Segment.join?, if_neg h, Option.map_none]

theorem TypeArgument.join_rename {names : Renaming} {scope : Set String}
    (hinj : scope.InjOn names) : ∀ p q : TypeArgument, (∀ v ∈ p.variables, v ∈ scope) →
      (∀ v ∈ q.variables, v ∈ scope) →
      (p.rename names).join (q.rename names) = (p.join q).rename names
  | .any, q, _, _ => by cases q <;> simp [TypeArgument.rename, TypeArgument.join]
  | .bounded v a, q, hp, hq => by
      cases q with
      | any => simp [TypeArgument.rename, TypeArgument.join]
      | bounded w b =>
          simp only [TypeArgument.rename, TypeArgument.join,
            GenericType.join?_rename hinj a b hp hq, TypeArgument.joinBounds_rename]

theorem joinSegments?_rename {names : Renaming} {scope : Set String}
    (hinj : scope.InjOn names) : ∀ xs ys : List Segment,
      (∀ v ∈ segmentsVariables xs, v ∈ scope) → (∀ v ∈ segmentsVariables ys, v ∈ scope) →
      joinSegments? (renameSegments names xs) (renameSegments names ys) =
        (joinSegments? xs ys).map (renameSegments names)
  | [], ys, _, _ => by cases ys <;> simp [renameSegments, joinSegments?]
  | x :: xs, ys, hx, hy => by
      cases ys with
      | nil => simp [renameSegments, joinSegments?]
      | cons y ys =>
          rw [segmentsVariables, List.forall_mem_append] at hx hy
          simp only [renameSegments, joinSegments?, Segment.join?_rename hinj x y hx.1 hy.1,
            joinSegments?_rename hinj xs ys hx.2 hy.2]
          cases x.join? y <;> cases joinSegments? xs ys <;> rfl

theorem joinArguments?_rename {names : Renaming} {scope : Set String}
    (hinj : scope.InjOn names) : ∀ ps qs : List TypeArgument,
      (∀ v ∈ argumentsVariables ps, v ∈ scope) → (∀ v ∈ argumentsVariables qs, v ∈ scope) →
      joinArguments? (renameArguments names ps) (renameArguments names qs) =
        (joinArguments? ps qs).map (renameArguments names)
  | [], qs, _, _ => by cases qs <;> simp [renameArguments, joinArguments?]
  | p :: ps, qs, hp, hq => by
      cases qs with
      | nil => simp [renameArguments, joinArguments?]
      | cons q qs =>
          rw [argumentsVariables, List.forall_mem_append] at hp hq
          simp only [renameArguments, joinArguments?, TypeArgument.join_rename hinj p q hp.1 hq.1,
            joinArguments?_rename hinj ps qs hp.2 hq.2]
          cases joinArguments? ps qs <;> rfl

end

theorem joinAll?_rename {names : Renaming} {scope : Set String} (hinj : scope.InjOn names)
    (as bs : List GenericType) (ha : ∀ a ∈ as, ∀ v ∈ a.variables, v ∈ scope)
    (hb : ∀ b ∈ bs, ∀ v ∈ b.variables, v ∈ scope) :
    joinAll? (as.map (GenericType.rename names)) (bs.map (GenericType.rename names)) =
      (joinAll? as bs).map (List.map (GenericType.rename names)) := by
  rw [joinAll?_eq, joinAll?_eq]
  exact joinEach?_map fun a hmem b hmem' =>
    GenericType.join?_rename hinj a b (ha a hmem) (hb b hmem')

theorem joinOption?_rename {names : Renaming} {scope : Set String} (hinj : scope.InjOn names)
    (a b : Option GenericType) (ha : ∀ type ∈ a, ∀ v ∈ type.variables, v ∈ scope)
    (hb : ∀ type ∈ b, ∀ v ∈ type.variables, v ∈ scope) :
    joinOption? (a.map (GenericType.rename names)) (b.map (GenericType.rename names)) =
      (joinOption? a b).map (Option.map (GenericType.rename names)) := by
  cases a with
  | none => cases b <;> rfl
  | some a =>
      cases b with
      | none => rfl
      | some b =>
          simp only [Option.map_some, joinOption?,
            GenericType.join?_rename hinj a b (ha a rfl) (hb b rfl)]
          cases a.join? b <;> rfl

theorem TypeParameter.join?_rename {names : Renaming} {scope : Set String}
    (hinj : scope.InjOn names) (a b : TypeParameter) (ha : ∀ v ∈ a.variables, v ∈ scope)
    (hb : ∀ v ∈ b.variables, v ∈ scope) :
    (a.rename names).join? (b.rename names) = (a.join? b).map (TypeParameter.rename names) := by
  have hscope : ∀ parameter : TypeParameter, (∀ v ∈ parameter.variables, v ∈ scope) →
      (∀ type ∈ parameter.classBound, ∀ v ∈ type.variables, v ∈ scope) ∧
        ∀ type ∈ parameter.interfaceBounds, ∀ v ∈ type.variables, v ∈ scope := by
    intro parameter hparameter
    have hbounds : ∀ bound ∈ parameter.bounds, ∀ v ∈ bound.variables, v ∈ scope :=
      fun bound hbound v hv => hparameter v
        (List.mem_cons_of_mem _ (List.mem_flatMap.mpr ⟨bound, hbound, hv⟩))
    rw [TypeParameter.bounds, List.forall_mem_append] at hbounds
    exact ⟨fun bound hbound => hbounds.1 bound (Option.mem_toList.mpr hbound), hbounds.2⟩
  simp only [TypeParameter.join?, TypeParameter.rename,
    joinOption?_rename hinj _ _ (hscope a ha).1 (hscope b hb).1,
    joinAll?_rename hinj _ _ (hscope a ha).2 (hscope b hb).2]
  cases joinOption? a.classBound b.classBound <;>
    cases joinAll? a.interfaceBounds b.interfaceBounds <;> rfl

theorem joinParameters?_rename {names : Renaming} {scope : Set String} (hinj : scope.InjOn names)
    (as bs : List TypeParameter) (ha : ∀ a ∈ as, ∀ v ∈ a.variables, v ∈ scope)
    (hb : ∀ b ∈ bs, ∀ v ∈ b.variables, v ∈ scope) :
    joinParameters? (as.map (TypeParameter.rename names)) (bs.map (TypeParameter.rename names)) =
      (joinParameters? as bs).map (List.map (TypeParameter.rename names)) := by
  rw [joinParameters?_eq, joinParameters?_eq]
  exact joinEach?_map fun a hmem b hmem' =>
    TypeParameter.join?_rename hinj a b (ha a hmem) (hb b hmem')

theorem MethodSignature.join?_rename {names : Renaming} {scope : Set String}
    (hinj : scope.InjOn names) (a b : MethodSignature) (ha : ∀ v ∈ a.variables, v ∈ scope)
    (hb : ∀ v ∈ b.variables, v ∈ scope) :
    (a.rename names).join? (b.rename names) = (a.join? b).map (MethodSignature.rename names) := by
  simp only [MethodSignature.variables, List.flatMap_append, List.forall_mem_append,
    List.forall_mem_flatMap, Option.mem_toList] at ha hb
  simp only [MethodSignature.join?, MethodSignature.rename,
    joinOption?_rename hinj _ _ ha.2.1.2 hb.2.1.2, joinParameters?_rename hinj _ _ ha.1 hb.1,
    joinAll?_rename hinj _ _ ha.2.1.1 hb.2.1.1, joinAll?_rename hinj _ _ ha.2.2 hb.2.2]
  cases joinOption? a.result b.result <;>
    cases joinParameters? a.typeParameters b.typeParameters <;>
      cases joinAll? a.parameters b.parameters <;> cases joinAll? a.throws b.throws <;> rfl

theorem ClassType.joinNamesake?_rename {names : Renaming} {scope : Set String}
    (hinj : scope.InjOn names) (others : List ClassType) (type : ClassType)
    (hothers : ∀ other ∈ others, ∀ v ∈ segmentsVariables other, v ∈ scope)
    (htype : ∀ v ∈ segmentsVariables type, v ∈ scope) :
    joinNamesake? (others.map (ClassType.rename names)) (type.rename names) =
      (joinNamesake? others type).map (ClassType.rename names) := by
  simp only [joinNamesake?, List.find?_map, Function.comp_def, internalName_rename]
  cases hfind : others.find? fun other => decide (other.internalName = type.internalName) with
  | none => rfl
  | some other =>
      exact joinSegments?_rename hinj type other htype
        (hothers other (List.mem_of_find?_eq_some hfind))

theorem joinInterfaces?_rename {names : Renaming} {scope : Set String} (hinj : scope.InjOn names)
    (as bs : List ClassType) (ha : ∀ a ∈ as, ∀ v ∈ segmentsVariables a, v ∈ scope)
    (hb : ∀ b ∈ bs, ∀ v ∈ segmentsVariables b, v ∈ scope) :
    joinInterfaces? (as.map (ClassType.rename names)) (bs.map (ClassType.rename names)) =
      (joinInterfaces? as bs).map (List.map (ClassType.rename names)) := by
  have hshared : (as.map (ClassType.rename names)).mapM
      (ClassType.joinNamesake? (bs.map (ClassType.rename names))) =
        (as.mapM (ClassType.joinNamesake? bs)).map (List.map (ClassType.rename names)) := by
    induction as with
    | nil => rfl
    | cons a as ih =>
        obtain ⟨ha, has⟩ := List.forall_mem_cons.mp ha
        rw [List.map_cons, List.mapM_cons, List.mapM_cons,
          ClassType.joinNamesake?_rename hinj bs a hb ha, ih has]
        cases ClassType.joinNamesake? bs a <;>
          cases as.mapM (ClassType.joinNamesake? bs) <;> rfl
  simp only [joinInterfaces?, hshared, List.filter_map, List.any_map, Function.comp_def,
    ClassType.internalName_rename]
  cases as.mapM (ClassType.joinNamesake? bs) with
  | none => rfl
  | some shared => simp

theorem ClassSignature.join?_rename {names : Renaming} {scope : Set String}
    (hinj : scope.InjOn names) (a b : ClassSignature) (ha : ∀ v ∈ a.variables, v ∈ scope)
    (hb : ∀ v ∈ b.variables, v ∈ scope) :
    (a.rename names).join? (b.rename names) = (a.join? b).map (ClassSignature.rename names) := by
  simp only [ClassSignature.variables, List.flatMap_cons, List.forall_mem_append,
    List.forall_mem_flatMap] at ha hb
  have hsuperclass : (a.superclass.rename names).join? (b.superclass.rename names) =
      (a.superclass.join? b.superclass).map (ClassType.rename names) :=
    joinSegments?_rename hinj _ _ ha.2.1 hb.2.1
  simp only [ClassSignature.join?, ClassSignature.rename, hsuperclass,
    joinParameters?_rename hinj _ _ ha.1 hb.1, joinInterfaces?_rename hinj _ _ ha.2.2 hb.2.2]
  cases joinParameters? a.typeParameters b.typeParameters <;>
    cases a.superclass.join? b.superclass <;>
      cases joinInterfaces? a.interfaces b.interfaces <;> rfl

end ApiUnion
