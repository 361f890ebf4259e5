import ApiUnion.Catalog.Availability
import ApiUnion.Proofs.Merge.Classes
import ApiUnion.Proofs.Model.Slots
import ApiUnion.Proofs.Version

-- What becomes of fields and methods when a class is merged into another: members of one key come
-- together, and all others are kept.

namespace ApiUnion

def Event.isFailureIn (scope : Scope) : Event → Bool
  | .failed other _ => other = scope
  | .succeeded _ | .tolerated _ _ => false

theorem Logged.not_failure_foldlM {α β : Type} {scope : Scope} {step : α → β → Logged α}
    (h : ∀ state item, (step state item).events.any (Event.isFailureIn scope) = false)
    (items : List β) (state : α) :
    (items.foldlM step state).events.any (Event.isFailureIn scope) = false := by
  induction items generalizing state with
  | nil => rfl
  | cons item items ih =>
      rw [List.foldlM_cons, Logged.events_bind, List.any_append, h, ih, Bool.or_self]

theorem Logged.not_failure_attempt {α : Type} {scope other : Scope} (hne : scope ≠ other)
    (subject : String) (old : α) (result : Except Conflict α) :
    (Logged.attempt other subject old result).events.any (Event.isFailureIn scope) = false := by
  cases result with
  | ok value => rfl
  | error conflict => simpa [Logged.attempt, Event.ofResult, Event.isFailureIn] using Ne.symm hne

namespace Merge

-- Merging annotations records how annotations went, and nothing else.
theorem not_failure_marks (scope : Scope) (hscope : scope ≠ .annotations) (subject : String)
    (target incoming : List AnnotationValue) :
    (marks subject target incoming).events.any (Event.isFailureIn scope) = false :=
  Logged.not_failure_foldlM
    (fun target mark => Logged.not_failure_attempt hscope subject target (checkMark target mark))
    incoming target

theorem not_failure_annotations (scope : Scope) (hscope : scope ≠ .annotations)
    (subject : String) (target incoming : Annotations) :
    (annotations subject target incoming).events.any (Event.isFailureIn scope) = false := by
  simp only [annotations, Logged.events_bind, Logged.events_pure, List.append_nil, List.any_append,
    not_failure_marks scope hscope, Bool.or_self]

-- Whether merging a field is recorded as a failure.
def refusesField (owner : String) (target incoming : ApiField) : Bool :=
  (field owner target incoming).events.any (Event.isFailureIn .fields)

theorem refusesField_eq (owner : String) (target incoming : ApiField) :
    refusesField owner target incoming = !(checkField target incoming).isOk := by
  unfold refusesField field
  cases checkField target incoming with
  | ok signature =>
      have hquiet := not_failure_annotations .fields (by decide)
        s!"{owner}.{incoming.name}:{incoming.descriptor}" target.annotations incoming.annotations
      simp only [Logged.events_bind, Logged.record, List.any_append, applyField,
        Logged.events_pure, List.append_nil, hquiet]
      rfl
  | error conflict => rfl

-- A field that is refused stays as it is.
theorem field_of_refuses (owner : String) (target incoming : ApiField)
    (h : refusesField owner target incoming = true) :
    (field owner target incoming).value = target := by
  rw [refusesField_eq] at h
  unfold field
  cases hchecked : checkField target incoming with
  | ok signature => simp [hchecked, Except.isOk, Except.toBool] at h
  | error conflict => rfl

theorem field_of_not_refuses (owner : String) (target incoming : ApiField)
    (h : refusesField owner target incoming = false) :
    ∃ signature, checkField target incoming = .ok signature ∧
      (field owner target incoming).value =
        (applyField s!"{owner}.{incoming.name}:{incoming.descriptor}" target incoming
          signature).value := by
  rw [refusesField_eq] at h
  unfold field
  cases hchecked : checkField target incoming with
  | ok signature => exact ⟨signature, rfl, rfl⟩
  | error conflict => simp [hchecked, Except.isOk, Except.toBool] at h

-- The field of a merged class under a key, from the fields that both sides have there.
def mergedField (owner : String) : Option ApiField → ApiField → ApiField
  | none, incoming => incoming
  | some target, incoming => (field owner target incoming).value

theorem value_intoFields (owner : String) (target : Table ApiField) (row : String × ApiField) :
    (intoFields owner target row).value =
      target.insert row.1 (mergedField owner (target.get? row.1) row.2) := by
  unfold intoFields
  cases target.get? row.1 with
  | none => rfl
  | some existing => rfl

theorem get?_fields_applyClass (options : MergeOptions) (target incoming : ApiClass)
    (signature : Option String) (key : String) :
    (applyClass options target incoming signature).value.fields.get? key =
      match (incoming.fields.get? key).map (explicitField incoming.version) with
      | some field =>
        some (mergedField target.name
          ((target.fields.get? key).map (explicitField target.version)) field)
      | none => (target.fields.get? key).map (explicitField target.version) := by
  rw [fields_applyClass,
    get?_foldlM_rows (intoFields target.name) (mergedField target.name) (value_intoFields _)]
  simp only [withExplicitVersions, Table.get?_map]
  cases incoming.fields.get? key <;> rfl

-- How a field of a merged class comes from those that the two sides have under its key.
inductive FieldMerged (target incoming : ApiClass) (key : String) (after : Option ApiField) : Prop
  | kept (hadded : incoming.fields.get? key = none)
      (hafter : after = (target.fields.get? key).map (explicitField target.version))
  | new (added : ApiField) (hknown : target.fields.get? key = none)
      (hadded : incoming.fields.get? key = some added)
      (hafter : after = some (explicitField incoming.version added))
  | refused (known added : ApiField) (hknown : target.fields.get? key = some known)
      (hadded : incoming.fields.get? key = some added)
      (hrefuses : refusesField target.name (explicitField target.version known)
        (explicitField incoming.version added) = true)
      (hafter : after = some (explicitField target.version known))
  | absorbed (known added : ApiField) (subject : String) (signature : Option String)
      (hknown : target.fields.get? key = some known)
      (hadded : incoming.fields.get? key = some added)
      (hrefuses : refusesField target.name (explicitField target.version known)
        (explicitField incoming.version added) = false)
      (hafter : after = some (applyField subject (explicitField target.version known)
        (explicitField incoming.version added) signature).value)

theorem fieldMerged_applyClass (options : MergeOptions) (target incoming : ApiClass)
    (signature : Option String) (key : String) :
    FieldMerged target incoming key
      ((applyClass options target incoming signature).value.fields.get? key) := by
  rw [get?_fields_applyClass]
  cases hadded : incoming.fields.get? key with
  | none => exact .kept hadded rfl
  | some added =>
      cases hknown : target.fields.get? key with
      | none => exact .new added hknown hadded rfl
      | some known =>
          cases hrefuses : refusesField target.name (explicitField target.version known)
              (explicitField incoming.version added) with
          | true =>
              exact .refused known added hknown hadded hrefuses
                (congrArg some (field_of_refuses _ _ _ hrefuses))
          | false =>
              obtain ⟨signature, -, hmerged⟩ := field_of_not_refuses _ _ _ hrefuses
              exact .absorbed known added _ signature hknown hadded hrefuses
                (congrArg some hmerged)

theorem forall_fields_applyClass (good : String → ApiField → Prop) (options : MergeOptions)
    {target incoming : ApiClass} (signature : Option String)
    (happly : ∀ key subject target incoming signature, good key target → good key incoming →
      good key (applyField subject target incoming signature).value)
    (htarget : ∀ key field, target.fields.get? key = some field →
      good key (explicitField target.version field))
    (hincoming : ∀ key field, incoming.fields.get? key = some field →
      good key (explicitField incoming.version field)) :
    ∀ key field,
      (applyClass options target incoming signature).value.fields.get? key = some field →
        good key field := by
  intro key field hfield
  cases fieldMerged_applyClass options target incoming signature key with
  | kept hadded hafter =>
      obtain ⟨known, hknown, rfl⟩ := Option.map_eq_some_iff.mp (hafter.symm.trans hfield)
      exact htarget key known hknown
  | new added hknown hadded hafter =>
      obtain rfl := Option.some.inj (hafter.symm.trans hfield)
      exact hincoming key added hadded
  | refused known added hknown hadded hrefuses hafter =>
      obtain rfl := Option.some.inj (hafter.symm.trans hfield)
      exact htarget key known hknown
  | absorbed known added subject signature hknown hadded hrefuses hafter =>
      obtain rfl := Option.some.inj (hafter.symm.trans hfield)
      exact happly key subject _ _ signature (htarget key known hknown) (hincoming key added hadded)

-- A method goes into the first variant that accepts it, or becomes a variant of its own.
inductive Absorbed (options : MergeOptions) (variants : List ApiMethod) (incoming : ApiMethod)
    (after : List ApiMethod) : Prop
  | into (front : List ApiMethod) (target : ApiMethod) (back : List ApiMethod)
      (signature : Option String) (subject : String) (hvariants : variants = front ++ target :: back)
      (hrefused : ∀ other ∈ front, (checkMethod options other incoming).isOk = false)
      (hchecked : checkMethod options target incoming = .ok signature)
      (hafter : after = front ++ (applyMethod subject target incoming signature).value :: back)
  | beside (hrefused : ∀ other ∈ variants, (checkMethod options other incoming).isOk = false)
      (hafter : after = variants ++ [incoming])

theorem intoFirst_cases (options : MergeOptions) (subject : String) (incoming : ApiMethod)
    (variants : List ApiMethod) :
    (∃ merged, (intoFirst options subject incoming variants).value = some merged ∧
      merged.length = variants.length ∧ Absorbed options variants incoming merged) ∨
    ((intoFirst options subject incoming variants).value = none ∧
      ∀ other ∈ variants, (checkMethod options other incoming).isOk = false) := by
  induction variants with
  | nil => exact .inr ⟨rfl, by simp⟩
  | cons target rest ih =>
      rw [intoFirst, Logged.value_bind]
      cases hchecked : checkMethod options target incoming with
      | ok signature =>
          exact .inl ⟨_, rfl, rfl, .into [] target rest signature subject rfl
            (List.forall_mem_nil _) hchecked rfl⟩
      | error conflict =>
          have hhere : (checkMethod options target incoming).isOk = false := by
            rw [hchecked]
            rfl
          simp only [Logged.value_bind, Logged.value_pure]
          rcases ih with ⟨merged, hmerged, hlength, habsorbed⟩ | ⟨hnone, hrefused⟩
          · refine .inl ⟨target :: merged, by rw [hmerged]; rfl, congrArg (· + 1) hlength, ?_⟩
            cases habsorbed with
            | into front first back signature subject hvariants hfront hfirst hafter =>
                refine .into (target :: front) first back signature subject
                  (by rw [hvariants]; rfl) ?_ hfirst (by rw [hafter]; rfl)
                rw [List.forall_mem_cons]
                exact ⟨hhere, hfront⟩
            | beside hrefused hafter =>
                refine .beside ?_ (by rw [hafter]; rfl)
                rw [List.forall_mem_cons]
                exact ⟨hhere, hrefused⟩
          · refine .inr ⟨by rw [hnone]; rfl, ?_⟩
            rw [List.forall_mem_cons]
            exact ⟨hhere, hrefused⟩

-- A slot keeps its variants and takes the method into one of them, or it grows by the method.
theorem intoVariants_cases (options : MergeOptions) (owner : String) (slot : MethodSlot)
    (incoming : ApiMethod) :
    (∃ merged, (intoVariants options owner slot incoming).value = slot.refill merged ∧
      merged.length = slot.toList.length ∧ Absorbed options slot.toList incoming merged) ∨
    ((intoVariants options owner slot incoming).value = slot.push incoming ∧
      ∀ other ∈ slot.toList, (checkMethod options other incoming).isOk = false) := by
  unfold intoVariants
  rcases intoFirst_cases options s!"{owner}.{incoming.name}{incoming.descriptor}" incoming
    slot.toList with ⟨merged, hmerged, hlength, habsorbed⟩ | ⟨hnone, hrefused⟩
  · refine .inl ⟨merged, ?_, hlength, habsorbed⟩
    rw [Logged.value_bind, hmerged]
    rfl
  · refine .inr ⟨?_, hrefused⟩
    rw [Logged.value_bind, hnone]
    rfl

theorem absorbed_intoVariants (options : MergeOptions) (owner : String) (slot : MethodSlot)
    (incoming : ApiMethod) :
    Absorbed options slot.toList incoming
      (intoVariants options owner slot incoming).value.toList := by
  rcases intoVariants_cases options owner slot incoming with
    ⟨merged, hvalue, hlength, habsorbed⟩ | ⟨hvalue, hrefused⟩
  · rwa [hvalue, MethodSlot.toList_refill hlength]
  · rw [hvalue, MethodSlot.toList_push]
    exact .beside hrefused rfl

-- The variants of a merged class under a key, from the variants that both sides have there.
def mergedVariants (options : MergeOptions) (owner : String) :
    Option MethodSlot → MethodSlot → MethodSlot
  | none, incoming => incoming
  | some target, incoming => (incoming.toList.foldlM (intoVariants options owner) target).value

theorem value_intoMethods (options : MergeOptions) (owner : String) (target : Table MethodSlot)
    (row : String × MethodSlot) :
    (intoMethods options owner target row).value =
      target.insert row.1 (mergedVariants options owner (target.get? row.1) row.2) := by
  unfold intoMethods
  cases target.get? row.1 with
  | none => rfl
  | some existing => rfl

theorem get?_methods_applyClass (options : MergeOptions) (target incoming : ApiClass)
    (signature : Option String) (key : String) :
    (applyClass options target incoming signature).value.methods.get? key =
      match (incoming.methods.get? key).map (MethodSlot.map (explicitMethod incoming.version)) with
      | some slot =>
        some (mergedVariants options target.name
          ((target.methods.get? key).map (MethodSlot.map (explicitMethod target.version))) slot)
      | none => (target.methods.get? key).map (MethodSlot.map (explicitMethod target.version)) := by
  rw [methods_applyClass, get?_foldlM_rows (intoMethods options target.name)
    (mergedVariants options target.name) (value_intoMethods _ _)]
  simp only [withExplicitVersions, Table.get?_map]
  cases incoming.methods.get? key <;> rfl

-- What holds of the methods of both sides and is kept when two of them are merged holds of all
-- methods afterwards.

theorem forall_mem_absorbed {good : ApiMethod → Prop} {options : MergeOptions}
    (happly : ∀ subject target incoming signature, good target → good incoming →
      good (applyMethod subject target incoming signature).value)
    {variants after : List ApiMethod} {incoming : ApiMethod}
    (h : Absorbed options variants incoming after) (hvariants : ∀ method ∈ variants, good method)
    (hincoming : good incoming) : ∀ method ∈ after, good method := by
  cases h with
  | into front target back signature subject hsplit hrefused hchecked hafter =>
      subst hsplit hafter
      obtain ⟨hfront, hback⟩ := List.forall_mem_append.mp hvariants
      obtain ⟨htarget, hback⟩ := List.forall_mem_cons.mp hback
      exact List.forall_mem_append.mpr ⟨hfront, List.forall_mem_cons.mpr
        ⟨happly subject target incoming signature htarget hincoming, hback⟩⟩
  | beside hrefused hafter =>
      subst hafter
      exact List.forall_mem_append.mpr ⟨hvariants, by simpa using hincoming⟩

theorem forall_mem_foldlM_intoVariants {good : ApiMethod → Prop} (options : MergeOptions)
    (happly : ∀ subject target incoming signature, good target → good incoming →
      good (applyMethod subject target incoming signature).value)
    (owner : String) (incoming : List ApiMethod) (target : MethodSlot)
    (htarget : ∀ method ∈ target.toList, good method)
    (hincoming : ∀ method ∈ incoming, good method) :
    ∀ method ∈ (incoming.foldlM (intoVariants options owner) target).value.toList, good method := by
  induction incoming generalizing target with
  | nil => exact htarget
  | cons added incoming ih =>
      obtain ⟨hadded, hincoming⟩ := List.forall_mem_cons.mp hincoming
      have habsorbed := absorbed_intoVariants options owner target added
      exact ih _ (forall_mem_absorbed happly habsorbed htarget hadded) hincoming

theorem forall_methods_applyClass (good : String → ApiMethod → Prop) (options : MergeOptions)
    {target incoming : ApiClass} (signature : Option String)
    (happly : ∀ key subject target incoming signature, good key target → good key incoming →
      good key (applyMethod subject target incoming signature).value)
    (htarget : ∀ key slot, target.methods.get? key = some slot →
      ∀ method ∈ slot.toList, good key (explicitMethod target.version method))
    (hincoming : ∀ key slot, incoming.methods.get? key = some slot →
      ∀ method ∈ slot.toList, good key (explicitMethod incoming.version method)) :
    ∀ key slot,
      (applyClass options target incoming signature).value.methods.get? key = some slot →
        ∀ method ∈ slot.toList, good key method := by
  intro key slot hslot
  have hkept : ∀ slot, (target.methods.get? key).map
      (MethodSlot.map (explicitMethod target.version)) = some slot →
        ∀ method ∈ slot.toList, good key method := by
    intro slot hfound
    obtain ⟨original, horiginal, rfl⟩ := Option.map_eq_some_iff.mp hfound
    rw [MethodSlot.toList_map]
    exact List.forall_mem_map.mpr (htarget key original horiginal)
  rw [get?_methods_applyClass] at hslot
  cases hadded : incoming.methods.get? key with
  | none =>
      rw [hadded] at hslot
      exact hkept slot hslot
  | some added =>
      have hnew : ∀ method ∈ (added.map (explicitMethod incoming.version)).toList,
          good key method := by
        rw [MethodSlot.toList_map]
        exact List.forall_mem_map.mpr (hincoming key added hadded)
      rw [hadded] at hslot
      cases hslot
      cases hold : (target.methods.get? key).map
          (MethodSlot.map (explicitMethod target.version)) with
      | none => exact hnew
      | some old =>
          exact forall_mem_foldlM_intoVariants options (happly key) target.name _ old
            (hkept old hold) hnew

end Merge

end ApiUnion
