import ApiUnion.Proofs.Merge.Members
import ApiUnion.Proofs.Table

-- Merging what is merged already. A part that meets its like stays as it is, whatever is in it:
-- what cannot be read is not read, and what does not even agree with itself is kept and put on
-- record.

namespace ApiUnion

theorem Logged.foldlM_of_kept {α β : Type} {step : α → β → Logged α} {state : α} {items : List β}
    (h : ∀ item ∈ items, (step state item).value = state) :
    (items.foldlM step state).value = state := by
  induction items with
  | nil => rfl
  | cons item items ih =>
      rw [List.forall_mem_cons] at h
      rw [List.foldlM_cons, Logged.value_bind, h.1]
      exact ih h.2

-- The same member, seen in another version.
def ApiField.dated (version : Version) (field : ApiField) : ApiField :=
  { field with version := some version }

def ApiMethod.dated (version : Version) (method : ApiMethod) : ApiMethod :=
  { method with version := some version }

namespace Merge

theorem union_self (items : List String) : union items items = items := by
  have hkept : ∀ incoming : List String, (∀ item ∈ incoming, item ∈ items) →
      union items incoming = items := by
    intro incoming
    induction incoming with
    | nil => exact fun _ => rfl
    | cons item incoming ih =>
        intro h
        rw [List.forall_mem_cons] at h
        have hfound : items.contains item := List.contains_iff_mem.mpr h.1
        unfold union
        rw [List.foldl_cons, if_pos hfound]
        exact ih h.2
  exact hkept items fun _ h => h

-- An annotation that meets one of its type adds nothing, though it may be in conflict with it.
theorem value_attempt_checkMark (subject : String) (target : List AnnotationValue)
    (mark : AnnotationValue) (h : mark ∈ target) :
    (Logged.attempt .annotations subject target (checkMark target mark)).value = target := by
  have hfound : (target.find? fun existing => existing.type = mark.type).isSome :=
    List.find?_isSome.mpr ⟨mark, h, by simp⟩
  obtain ⟨existing, hexisting⟩ := Option.isSome_iff_exists.mp hfound
  unfold checkMark
  rw [hexisting]
  dsimp only
  split
  · rfl
  · rfl

theorem marks_self (subject : String) (list : List AnnotationValue) :
    (marks subject list list).value = list :=
  Logged.foldlM_of_kept fun mark hmark => value_attempt_checkMark subject list mark hmark

theorem annotations_self (subject : String) (both : Annotations) :
    (annotations subject both both).value = both := by
  have hvisible := marks_self subject both.visible
  have hinvisible := marks_self subject both.invisible
  simp only [annotations, Logged.value_bind, Logged.value_pure, hvisible, hinvisible]

theorem innerClasses_self (owner : String) (table : Table InnerRef) :
    (innerClasses owner table table).value = table := by
  refine Logged.foldlM_of_kept fun row hrow => ?_
  have hknown : table.get? row.1 = some row.2 := Table.get?_of_mem_rows hrow
  unfold checkInner
  rw [hknown]
  dsimp only
  rw [if_pos rfl]
  rfl

theorem weaken_self (nullability : Nullability) : nullability.weaken nullability = nullability :=
  if_pos (Nat.le_refl _)

theorem parameter_self (subject : String) (both : Parameter) :
    (parameter subject both both).value = both := by
  simp only [parameter, Logged.value_bind, Logged.value_pure, annotations_self, Option.or_self,
    UInt16.or_self, weaken_self]

theorem parametersFrom_self (subject : String) (index : Nat) (both : List Parameter) :
    (parametersFrom subject index both both).value = both := by
  induction both generalizing index with
  | nil => rfl
  | cons first rest ih =>
      simp only [parametersFrom, Logged.value_bind, Logged.value_pure, parameter_self, ih]

theorem widen_of_same {α : Type} [Facet α] [DecidableEq α] (current : Access → α)
    (update : Access → α → Access) (reconcile : α → α → α) (access : Access)
    (table : Alternatives α) (first second : Option Version) (hempty : table.isEmpty) :
    widen current update reconcile ⟨access, table, first⟩ ⟨access, table, second⟩ =
      (access, table) := by
  have hnone : Alternatives.combine? (FacetView.side ⟨access, table, first⟩ current)
      (FacetView.side ⟨access, table, second⟩ current) = none := by
    simp [Alternatives.combine?, FacetView.side, hempty]
  unfold widen
  rw [hnone]

theorem widenVisibility_of_same {access : Access} {table : Alternatives Visibility}
    {first second : Option Version} (hempty : table.isEmpty) :
    widenVisibility ⟨access, table, first⟩ ⟨access, table, second⟩ = (access, table) :=
  widen_of_same _ _ _ access table first second hempty

theorem widenModality_of_same {access : Access} {table : Alternatives Modality}
    {first second : Option Version} (hempty : table.isEmpty) :
    widenModality ⟨access, table, first⟩ ⟨access, table, second⟩ = (access, table) :=
  widen_of_same _ _ _ access table first second hempty

theorem checkField_dated (field : ApiField) (first second : Version) :
    checkField (field.dated first) (field.dated second) = .ok field.signature := by
  unfold checkField ApiField.dated
  rw [if_pos rfl]
  cases field.signature with
  | none => rfl
  | some text => exact if_pos rfl

theorem field_dated (owner : String) (both : ApiField) (first second : Version)
    (hempty : both.visibilities.isEmpty) :
    (field owner (both.dated first) (both.dated second)).value =
      both.dated (first.plus second) := by
  unfold field
  rw [checkField_dated]
  simp only [Logged.value_bind, applyField, ApiField.dated, widenVisibility_of_same hempty,
    annotations_self, Logged.value_pure, Option.or_self, weaken_self, Version.plus?_some]

theorem checkMethod_dated (options : MergeOptions) (method : ApiMethod) (first second : Version) :
    checkMethod options (method.dated first) (method.dated second) = .ok method.signature := by
  unfold checkMethod ApiMethod.dated
  rw [if_pos rfl]
  cases method.signature with
  | none => rfl
  | some text => exact if_pos rfl

theorem applyMethod_dated (subject : String) (both : ApiMethod) (first second : Version)
    (hvisibilities : both.visibilities.isEmpty) (hmodalities : both.modalities.isEmpty) :
    (applyMethod subject (both.dated first) (both.dated second) both.signature).value =
      both.dated (first.plus second) := by
  simp only [applyMethod, ApiMethod.dated, widenVisibility_of_same hvisibilities,
    widenModality_of_same hmodalities, Logged.value_bind, parametersFrom_self, annotations_self,
    Logged.value_pure, union_self, Option.or_self, weaken_self, Version.plus?_some]

theorem intoVariants_dated (options : MergeOptions) (owner : String) (both : ApiMethod)
    (first second : Version) (hvisibilities : both.visibilities.isEmpty)
    (hmodalities : both.modalities.isEmpty) :
    (intoVariants options owner (.single (both.dated first)) (both.dated second)).value =
      .single (both.dated (first.plus second)) := by
  have hmerged (subject : String) :=
    applyMethod_dated subject both first second hvisibilities hmodalities
  simp only [intoVariants, MethodSlot.toList, intoFirst, checkMethod_dated, Logged.value_bind,
    Logged.value_pure, hmerged]
  rfl

variable {α : Type} {step : Table α → String × α → Logged (Table α)}
  {merged : Option α → α → α}

-- Rows under names that are in use leave the names as they are.
theorem keys_foldlM_rows
    (hstep : ∀ table row,
      (step table row).value = table.insert row.1 (merged (table.get? row.1) row.2))
    (target : Table α) (rows : List (String × α)) (h : ∀ row ∈ rows, row.1 ∈ target.keys) :
    (rows.foldlM step target).value.keys = target.keys := by
  induction rows generalizing target with
  | nil => rfl
  | cons row rows ih =>
      rw [List.forall_mem_cons] at h
      have hrow : (step target row).value.keys = target.keys := by
        rw [hstep, Table.keys_insert, if_pos h.1]
      rw [List.foldlM_cons, Logged.value_bind, ih, hrow]
      rw [hrow]
      exact h.2

-- A table that meets another version of itself has each value merged in its place.
theorem foldlM_rows_map
    (hstep : ∀ table row,
      (step table row).value = table.insert row.1 (merged (table.get? row.1) row.2))
    (table : Table α) {before again after : α → α}
    (hmerged : ∀ value ∈ table.values, merged (some (before value)) (again value) = after value) :
    ((table.map again).rows.foldlM step (table.map before)).value = table.map after := by
  refine Table.ext_get? ?_ fun key => ?_
  · have hkeys : (table.map before).keys = (table.map again).keys := by
      rw [Table.keys_map, Table.keys_map]
    have hknown : ∀ row ∈ (table.map again).rows, row.1 ∈ (table.map before).keys :=
      fun row hrow => hkeys ▸ List.mem_map_of_mem hrow
    rw [keys_foldlM_rows hstep _ _ hknown, Table.keys_map, Table.keys_map]
  · rw [get?_foldlM_rows step merged hstep]
    simp only [Table.get?_map]
    cases hvalue : table.get? key with
    | none => rfl
    | some value => exact congrArg some (hmerged value (table.mem_values_of_get? key value hvalue))

end Merge

end ApiUnion
