import ApiUnion.Proofs.Signature.Binding

-- Shapes: types with all type arguments forgotten but their number. Types have a join exactly if
-- they have the same shape, which is then that of the join, so that it can be told from shapes
-- alone whether any number of signatures join one after another.

namespace ApiUnion

def Segment.bare (segment : Segment) : Segment :=
  ⟨segment.name, .replicate segment.arguments.length .any⟩

def ClassType.shape (type : ClassType) : ClassType :=
  type.map Segment.bare

def GenericType.shape : GenericType → GenericType
  | .base type => .base type
  | .array component => .array component.shape
  | .var name => .var name
  | .classType segments => .classType (ClassType.shape segments)

theorem ArgumentsLoosen.length_eq {ps qs : List TypeArgument} (h : ArgumentsLoosen ps qs) :
    ps.length = qs.length := by
  cases h with
  | nil => rfl
  | cons _ hrest => exact congrArg (· + 1) hrest.length_eq

theorem SegmentsLoosen.shape_eq {xs ys : List Segment} (h : SegmentsLoosen xs ys) :
    ClassType.shape xs = ClassType.shape ys := by
  cases h with
  | nil => rfl
  | cons name h hrest =>
      rw [ClassType.shape, List.map_cons, Segment.bare, h.length_eq]
      exact congrArg (List.cons _) hrest.shape_eq

theorem GenericType.Loosens.shape_eq {a b : GenericType} (h : a.Loosens b) :
    a.shape = b.shape := by
  cases h with
  | base type => rfl
  | var name => rfl
  | array h => exact congrArg GenericType.array h.shape_eq
  | classType h => exact congrArg GenericType.classType h.shape_eq

theorem ArgumentsLoosen.replicate (ps : List TypeArgument) :
    ArgumentsLoosen ps (.replicate ps.length .any) := by
  induction ps with
  | nil => exact .nil
  | cons p ps ih => exact .cons (.any p) ih

theorem SegmentsLoosen.shape (xs : List Segment) : SegmentsLoosen xs (ClassType.shape xs) := by
  induction xs with
  | nil => exact .nil
  | cons segment xs ih =>
      obtain ⟨name, arguments⟩ := segment
      exact .cons name (ArgumentsLoosen.replicate arguments) ih

theorem GenericType.Loosens.shape (a : GenericType) : a.Loosens a.shape := by
  cases a with
  | base type => exact .base type
  | array component => exact .array (GenericType.Loosens.shape component)
  | var name => exact .var name
  | classType segments => exact .classType (SegmentsLoosen.shape segments)

-- The shape lies above everything that has it.
theorem GenericType.isSome_join?_of_shape {a b : GenericType} (h : a.shape = b.shape) :
    (a.join? b).isSome := by
  obtain ⟨c, hc, -⟩ := GenericType.join?_of_loosens a b a.shape (.shape a) (h ▸ .shape b)
  rw [hc, Option.isSome_some]

theorem ClassType.isSome_join?_of_shape {a b : ClassType} (h : a.shape = b.shape) :
    (a.join? b).isSome := by
  have hjoin : ((GenericType.classType a).join? (.classType b)).isSome :=
    GenericType.isSome_join?_of_shape (congrArg GenericType.classType h)
  rwa [GenericType.join?, Option.isSome_map] at hjoin

theorem ClassType.internalName_shape (type : ClassType) :
    type.shape.internalName = type.internalName := by
  rw [internalName, internalName, shape, List.map_map]
  rfl

theorem ClassType.internalName_of_shape {a b : ClassType} (h : a.shape = b.shape) :
    a.internalName = b.internalName := by
  rw [← a.internalName_shape, h, b.internalName_shape]

-- The variables of a class type all stand in its arguments.
theorem ClassType.shape_rename (names : Renaming) (type : ClassType) :
    ClassType.shape (type.rename names) = type.shape := by
  have hlength : ∀ arguments : List TypeArgument,
      (renameArguments names arguments).length = arguments.length := by
    intro arguments
    induction arguments with
    | nil => rfl
    | cons argument rest ih => rw [renameArguments, List.length_cons, List.length_cons, ih]
  induction type with
  | nil => rfl
  | cons segment rest ih =>
      have hbare : (segment.rename names).bare = segment.bare := by
        obtain ⟨name, arguments⟩ := segment
        rw [Segment.rename, Segment.bare, Segment.bare, hlength]
      exact List.cons_eq_cons.mpr ⟨hbare, ih⟩

def ClassSignature.interfaceNames (signature : ClassSignature) : List String :=
  signature.interfaces.map ClassType.internalName

theorem ClassSignature.interfaceNames_canonical (signature : ClassSignature) :
    signature.canonical.interfaceNames = signature.interfaceNames := by
  simp only [interfaceNames, canonical, rename, List.map_map]
  exact List.map_congr_left fun type _ => type.internalName_rename _

def TypeParameter.shape (parameter : TypeParameter) : Option GenericType × List GenericType :=
  (parameter.classBound.map GenericType.shape, parameter.interfaceBounds.map GenericType.shape)

-- Whether the second can be joined to the first, and to all that comes of joining others to it.
-- Each interface meets the first one of its name.
structure ClassSignature.Fits (x y : ClassSignature) : Prop where
  typeParameters : x.typeParameters.map TypeParameter.shape =
    y.typeParameters.map TypeParameter.shape
  superclass : x.superclass.shape = y.superclass.shape
  interfaces : ∀ i ∈ x.interfaces, ∀ j,
    (y.interfaces.find? fun other => other.internalName = i.internalName) = some j →
      i.shape = j.shape

theorem map_eq_map_iff_forall₂ {α β : Type} {f g : α → β} {as bs : List α} :
    as.map f = bs.map g ↔ List.Forall₂ (fun a b => f a = g b) as bs := by
  rw [← List.forall₂_eq_eq_eq, List.forall₂_map_left_iff, List.forall₂_map_right_iff]

theorem isSome_joinAll?_of_shape {as bs : List GenericType}
    (h : as.map GenericType.shape = bs.map GenericType.shape) : (joinAll? as bs).isSome := by
  rw [joinAll?_eq]
  exact isSome_joinEach? ((map_eq_map_iff_forall₂.mp h).imp fun _ _ hab =>
    GenericType.isSome_join?_of_shape hab)

theorem isSome_joinOption?_of_shape {a b : Option GenericType}
    (h : a.map GenericType.shape = b.map GenericType.shape) : (joinOption? a b).isSome := by
  cases a with
  | none =>
      obtain rfl : b = none := by simpa using h.symm
      rfl
  | some a =>
      cases b with
      | none => simp at h
      | some b =>
          rw [Option.map_some, Option.map_some, Option.some.injEq] at h
          rw [joinOption?, Option.isSome_map]
          exact GenericType.isSome_join?_of_shape h

theorem TypeParameter.isSome_join?_of_shape {a b : TypeParameter} (h : a.shape = b.shape) :
    (a.join? b).isSome := by
  obtain ⟨hclass, hinterfaces⟩ := Prod.mk.inj h
  obtain ⟨c, hc⟩ := Option.isSome_iff_exists.mp (isSome_joinOption?_of_shape hclass)
  obtain ⟨cs, hcs⟩ := Option.isSome_iff_exists.mp (isSome_joinAll?_of_shape hinterfaces)
  simp [TypeParameter.join?, hc, hcs]

theorem isSome_joinParameters?_of_shape {as bs : List TypeParameter}
    (h : as.map TypeParameter.shape = bs.map TypeParameter.shape) :
    (joinParameters? as bs).isSome := by
  rw [joinParameters?_eq]
  exact isSome_joinEach? ((map_eq_map_iff_forall₂.mp h).imp fun _ _ hab =>
    TypeParameter.isSome_join?_of_shape hab)

theorem exists_mapM_eq_some {α β : Type} {f : α → Option β} {values : List α}
    (h : ∀ value ∈ values, (f value).isSome) : ∃ found, values.mapM f = some found := by
  induction values with
  | nil => exact ⟨[], rfl⟩
  | cons value rest ih =>
      obtain ⟨hvalue, hrest⟩ := List.forall_mem_cons.mp h
      obtain ⟨first, hfirst⟩ := Option.isSome_iff_exists.mp hvalue
      obtain ⟨others, hothers⟩ := ih hrest
      exact ⟨first :: others, by simp [List.mapM_cons, hfirst, hothers]⟩

theorem ClassSignature.Fits.isSome_join? {x y : ClassSignature} (h : x.Fits y) :
    (x.join? y).isSome := by
  obtain ⟨shared, hshared⟩ :
      ∃ shared, x.interfaces.mapM (ClassType.joinNamesake? y.interfaces) = some shared := by
    refine exists_mapM_eq_some fun i hi => ?_
    unfold ClassType.joinNamesake?
    split
    · rename_i other hother
      exact ClassType.isSome_join?_of_shape (h.interfaces i hi other hother)
    · rfl
  obtain ⟨typeParameters, hparameters⟩ :=
    Option.isSome_iff_exists.mp (isSome_joinParameters?_of_shape h.typeParameters)
  obtain ⟨superclass, hsuperclass⟩ :=
    Option.isSome_iff_exists.mp (ClassType.isSome_join?_of_shape h.superclass)
  simp [ClassSignature.join?, joinInterfaces?, hparameters, hsuperclass, hshared]

theorem map_shape_eq {as cs : List GenericType} (h : List.Forall₂ GenericType.Loosens as cs) :
    as.map GenericType.shape = cs.map GenericType.shape :=
  map_eq_map_iff_forall₂.mpr (h.imp fun _ _ hac => hac.shape_eq)

theorem TypeParameter.shape_join? {a b c : TypeParameter} (h : a.join? b = some c) :
    a.shape = c.shape := by
  simp only [TypeParameter.join?, Option.bind_eq_bind, Option.bind_eq_some_iff, Option.pure_def,
    Option.some.injEq] at h
  obtain ⟨classBound, hclass, interfaceBounds, hinterfaces, rfl⟩ := h
  have hbound := map_shape_eq (loosens_joinOption? hclass)
  refine Prod.ext ?_ (map_shape_eq (loosens_joinAll? hinterfaces))
  cases hfirst : a.classBound with
  | none =>
      cases classBound with
      | none => simp [shape, hfirst]
      | some bound => simp [hfirst] at hbound
  | some first =>
      cases classBound with
      | none => simp [hfirst] at hbound
      | some bound => simpa [shape, hfirst] using hbound

theorem map_shape_joinParameters? {as bs cs : List TypeParameter}
    (h : joinParameters? as bs = some cs) :
    as.map TypeParameter.shape = cs.map TypeParameter.shape := by
  rw [joinParameters?_eq] at h
  exact map_eq_map_iff_forall₂.mpr ((joinedEach_of_joinEach? h).forall₂ fun _ _ _ hc =>
    TypeParameter.shape_join? hc)

-- What fits both sides fits their join.
theorem ClassSignature.Fits.of_join {x y join other : ClassSignature} (hx : x.Fits other)
    (hy : y.Fits other) (h : x.join? y = some join) : join.Fits other := by
  obtain ⟨hparameters, hsuperclass, hinterfaces⟩ := ClassSignature.join?_eq_some h
  refine ⟨?_, ?_, fun i hi j hj => ?_⟩
  · rw [← map_shape_joinParameters? hparameters]
    exact hx.typeParameters
  · rw [← (loosen_joinSegments? _ _ _ hsuperclass).shape_eq]
    exact hx.superclass
  · rcases loosens_joinInterfaces? hinterfaces i hi with ⟨looser, hlooser, hle⟩ | hmem
    · have hshape : ClassType.shape looser = ClassType.shape i := hle.shape_eq
      rw [← ClassType.internalName_of_shape hshape] at hj
      rw [← hshape]
      exact hx.interfaces looser hlooser j hj
    · exact hy.interfaces i hmem j hj

-- Other variables in arguments make no difference.
theorem ClassSignature.fits_rename_iff {x other : ClassSignature} {names : Renaming}
    (hnames : ∀ parameter ∈ x.typeParameters, ∀ v ∈ parameter.variables, names v = v) :
    (x.rename names).Fits other ↔ x.Fits other := by
  have hparameters : (x.rename names).typeParameters = x.typeParameters :=
    (List.map_congr_left fun parameter hparameter =>
      (parameter.rename_congr (hnames parameter hparameter)).trans parameter.rename_id).trans
        (List.map_id _)
  have hsuperclass : ClassType.shape (x.rename names).superclass = x.superclass.shape :=
    ClassType.shape_rename names x.superclass
  have hinterfaces (type : ClassType) : (type.rename names).internalName = type.internalName ∧
      ClassType.shape (type.rename names) = type.shape :=
    ⟨type.internalName_rename names, type.shape_rename names⟩
  constructor
  · intro h
    refine ⟨hparameters ▸ h.typeParameters, hsuperclass ▸ h.superclass, fun type htype j hj => ?_⟩
    have hrenamed := h.interfaces (type.rename names) (List.mem_map_of_mem htype) j
    rw [(hinterfaces type).1, (hinterfaces type).2] at hrenamed
    exact hrenamed hj
  · intro h
    refine ⟨hparameters.symm ▸ h.typeParameters, hsuperclass.symm ▸ h.superclass,
      fun i hi j hj => ?_⟩
    obtain ⟨type, htype, rfl⟩ := List.mem_map.mp hi
    rw [(hinterfaces type).1] at hj
    rw [(hinterfaces type).2]
    exact h.interfaces type htype j hj

theorem GenericType.shape_eq_of_join? {a b c : GenericType} (h : a.join? b = some c) :
    a.shape = b.shape := by
  have hleft := (GenericType.loosens_join? a b c h).shape_eq
  rw [GenericType.join?_comm] at h
  exact hleft.trans (GenericType.loosens_join? b a c h).shape_eq.symm

theorem ClassType.shape_eq_of_join? {a b c : ClassType} (h : a.join? b = some c) :
    a.shape = b.shape := by
  have hleft := (loosen_joinSegments? a b c h).shape_eq
  rw [join?, joinSegments?_comm] at h
  exact hleft.trans (loosen_joinSegments? b a c h).shape_eq.symm

theorem map_shape_of_joinAll? {as bs cs : List GenericType} (h : joinAll? as bs = some cs) :
    as.map GenericType.shape = bs.map GenericType.shape := by
  rw [joinAll?_eq] at h
  exact map_eq_map_iff_forall₂.mpr ((joinedEach_of_joinEach? h).forall₂_sides fun _ _ _ hc =>
    GenericType.shape_eq_of_join? hc)

theorem map_shape_of_joinOption? {a b c : Option GenericType} (h : joinOption? a b = some c) :
    a.map GenericType.shape = b.map GenericType.shape := by
  cases a with
  | none =>
      cases b with
      | none => rfl
      | some b => cases h
  | some a =>
      cases b with
      | none => cases h
      | some b =>
          obtain ⟨join, hjoin, -⟩ := Option.map_eq_some_iff.mp h
          exact congrArg some (GenericType.shape_eq_of_join? hjoin)

theorem TypeParameter.shape_eq_of_join? {a b c : TypeParameter} (h : a.join? b = some c) :
    a.shape = b.shape := by
  simp only [TypeParameter.join?, Option.bind_eq_bind, Option.bind_eq_some_iff] at h
  obtain ⟨classBound, hclass, interfaceBounds, hinterfaces, -⟩ := h
  exact Prod.ext (map_shape_of_joinOption? hclass) (map_shape_of_joinAll? hinterfaces)

theorem map_shape_of_joinParameters? {as bs cs : List TypeParameter}
    (h : joinParameters? as bs = some cs) :
    as.map TypeParameter.shape = bs.map TypeParameter.shape := by
  rw [joinParameters?_eq] at h
  exact map_eq_map_iff_forall₂.mpr ((joinedEach_of_joinEach? h).forall₂_sides fun _ _ _ hc =>
    TypeParameter.shape_eq_of_join? hc)

theorem exists_of_mapM_eq_some {α β : Type} {f : α → Option β} {values : List α} {found : List β}
    (h : values.mapM f = some found) : ∀ value ∈ values, ∃ image ∈ found, f value = some image := by
  induction values generalizing found with
  | nil => simp
  | cons value rest ih =>
      simp only [List.mapM_cons, Option.bind_eq_bind, Option.bind_eq_some_iff, Option.pure_def,
        Option.some.injEq] at h
      obtain ⟨first, hfirst, others, hothers, rfl⟩ := h
      rw [List.forall_mem_cons]
      refine ⟨⟨first, List.mem_cons_self, hfirst⟩, fun other hother => ?_⟩
      obtain ⟨image, himage, hvalue⟩ := ih hothers other hother
      exact ⟨image, List.mem_cons_of_mem _ himage, hvalue⟩

-- Each interface of the first is in the join, as it is or joined with its namesake.
theorem exists_of_joinInterfaces? {as bs cs : List ClassType}
    (h : joinInterfaces? as bs = some cs) :
    ∀ a ∈ as, ∃ c ∈ cs, ClassType.joinNamesake? bs a = some c := by
  simp only [joinInterfaces?, Option.bind_eq_bind, Option.bind_eq_some_iff, Option.pure_def,
    Option.some.injEq] at h
  obtain ⟨shared, hshared, rfl⟩ := h
  intro a ha
  obtain ⟨c, hc, hjoined⟩ := exists_of_mapM_eq_some hshared a ha
  exact ⟨c, List.mem_append_left _ hc, hjoined⟩

theorem ClassType.shape_joinNamesake? {others : List ClassType} {a c : ClassType}
    (h : a.joinNamesake? others = some c) : a.shape = c.shape := by
  unfold joinNamesake? at h
  split at h
  · exact (loosen_joinSegments? _ _ _ h).shape_eq
  · rw [Option.some.inj h]

-- Only signatures that fit have a join.
theorem ClassSignature.fits_of_join? {x y join : ClassSignature} (h : x.join? y = some join) :
    x.Fits y := by
  obtain ⟨hparameters, hsuperclass, hinterfaces⟩ := ClassSignature.join?_eq_some h
  refine ⟨map_shape_of_joinParameters? hparameters, ClassType.shape_eq_of_join? hsuperclass,
    fun i hi j hj => ?_⟩
  obtain ⟨c, -, hc⟩ := exists_of_joinInterfaces? hinterfaces i hi
  rw [ClassType.joinNamesake?, hj] at hc
  exact ClassType.shape_eq_of_join? hc

-- What fits the join fits the first of what is joined.
theorem ClassSignature.Fits.of_fits_join {x y join other : ClassSignature}
    (h : x.join? y = some join) (hfits : join.Fits other) : x.Fits other := by
  obtain ⟨hparameters, hsuperclass, hinterfaces⟩ := ClassSignature.join?_eq_some h
  refine ⟨?_, ?_, fun i hi j hj => ?_⟩
  · rw [map_shape_joinParameters? hparameters]
    exact hfits.typeParameters
  · have hshape : ClassType.shape x.superclass = ClassType.shape join.superclass :=
      (loosen_joinSegments? _ _ _ hsuperclass).shape_eq
    rw [hshape]
    exact hfits.superclass
  · obtain ⟨c, hc, hjoined⟩ := exists_of_joinInterfaces? hinterfaces i hi
    have hshape := ClassType.shape_joinNamesake? hjoined
    rw [ClassType.internalName_of_shape hshape] at hj
    rw [hshape]
    exact hfits.interfaces c hc j hj

-- A signature that names no interface twice fits itself.
theorem ClassSignature.fits_self {x : ClassSignature} (h : x.interfaceNames.Nodup) : x.Fits x where
  typeParameters := rfl
  superclass := rfl
  interfaces i hi j hj := by
    have hname : j.internalName = i.internalName := by simpa using List.find?_some hj
    have hsame := List.inj_on_of_nodup_map h hi (List.mem_of_find?_eq_some hj) hname.symm
    rw [hsame]

end ApiUnion
