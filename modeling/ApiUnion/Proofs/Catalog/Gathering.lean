import ApiUnion.Proofs.Catalog.Alternation
import ApiUnion.Proofs.Merge.Gathering

-- What a class tells of all snapshots that were merged into it, in whatever order they came: the
-- names of its parts, and variants that all methods went into.

namespace ApiUnion

open Version Merge

-- Rows are put under their names one after another.
theorem mem_keys_foldlM_rows {α β : Type} {step : Table α → String × β → Logged (Table α)}
    (hstep : ∀ table row key, key ∈ (step table row).value.keys ↔ key ∈ table.keys ∨ key = row.1)
    (target : Table α) (incoming : Table β) (key : String) :
    key ∈ (incoming.rows.foldlM step target).value.keys ↔
      key ∈ target.keys ∨ key ∈ incoming.keys := by
  unfold Table.keys
  induction incoming.rows generalizing target with
  | nil => simp [Logged.value_pure]
  | cons row rows ih =>
      rw [List.foldlM_cons, Logged.value_bind, ih, List.map_cons, List.mem_cons, ← or_assoc]
      exact or_congr_left (hstep target row key)

namespace Merge

theorem mem_keys_intoFields (owner : String) (target : Table ApiField) (row : String × ApiField)
    (key : String) :
    key ∈ (intoFields owner target row).value.keys ↔ key ∈ target.keys ∨ key = row.1 := by
  rw [value_intoFields, Table.mem_keys_insert]

theorem mem_keys_intoMethods (options : MergeOptions) (owner : String) (target : Table MethodSlot)
    (row : String × MethodSlot) (key : String) :
    key ∈ (intoMethods options owner target row).value.keys ↔ key ∈ target.keys ∨ key = row.1 := by
  rw [value_intoMethods, Table.mem_keys_insert]

-- An inner class that is known already keeps what was said of it first.
theorem mem_keys_checkInner (owner : String) (target : Table InnerRef) (row : String × InnerRef)
    (key : String) :
    key ∈ (Logged.attempt .innerClasses s!"{owner}->{row.1}" target
        (checkInner target row.1 row.2)).value.keys ↔ key ∈ target.keys ∨ key = row.1 := by
  unfold checkInner
  cases hknown : target.get? row.1 with
  | none => exact target.mem_keys_insert row.1 row.2 key
  | some existing =>
      have hused : row.1 ∈ target.keys := by
        rw [target.mem_keys_iff, hknown]
        rfl
      have hkept : key ∈ target.keys ↔ key ∈ target.keys ∨ key = row.1 :=
        ⟨.inl, fun h => h.elim id fun heq => heq ▸ hused⟩
      dsimp only
      split
      · exact hkept
      · exact hkept

end Merge

namespace ApiClass

-- The variants with their versions written out.
def explicitVariants (entry : ApiClass) (name descriptor : String) : List ApiMethod :=
  (entry.variants name descriptor).map (explicitMethod entry.version)

-- A class made of all of a list of snapshots, in some order.
structure Gathered (snapshots : List ApiClass) (entry : ApiClass) : Prop where
  interfaces : ∀ name, name ∈ entry.interfaces ↔ ∃ snapshot ∈ snapshots, name ∈ snapshot.interfaces
  innerClasses : ∀ key, key ∈ entry.innerClasses.keys ↔
    ∃ snapshot ∈ snapshots, key ∈ snapshot.innerClasses.keys
  fields : ∀ key, key ∈ entry.fields.keys ↔ ∃ snapshot ∈ snapshots, key ∈ snapshot.fields.keys
  methods : ∀ key, key ∈ entry.methods.keys ↔ ∃ snapshot ∈ snapshots, key ∈ snapshot.methods.keys
  variants : ∀ name descriptor, Shared (snapshots.flatMap (·.explicitVariants name descriptor))
    (entry.explicitVariants name descriptor)

-- Members do not go by the version of the class.
structure Explicit (entry : ApiClass) : Prop where
  fields : ∀ name descriptor field, entry.field? name descriptor = some field →
    field.version.isSome
  methods : ∀ name descriptor, ∀ method ∈ entry.variants name descriptor, method.version.isSome

theorem Unwidened.unmerged {entry : ApiClass} (h : entry.Unwidened) (name descriptor : String) :
    ∀ method ∈ entry.explicitVariants name descriptor, method.Unmerged := by
  intro method hmethod
  obtain ⟨original, horiginal, rfl⟩ := List.mem_map.mp hmethod
  obtain ⟨hvisibilities, hmodalities⟩ := h.of_mem_variants name descriptor original horiginal
  exact ⟨rfl, hvisibilities, hmodalities⟩

theorem gathered_installed (snapshot : ApiClass) (hplain : snapshot.Unwidened) :
    snapshot.Gathered [snapshot] where
  interfaces := by simp
  innerClasses := by simp
  fields := by simp
  methods := by simp
  variants name descriptor := by
    simpa using Shared.unmerged (hplain.unmerged name descriptor)

end ApiClass

namespace Merge

theorem map_explicitMethod_of_isSome (version : Version) {methods : List ApiMethod}
    (h : ∀ method ∈ methods, method.version.isSome) :
    methods.map (explicitMethod version) = methods := by
  refine (List.map_congr_left fun method hmethod => ?_).trans (List.map_id methods)
  obtain ⟨known, hknown⟩ := Option.isSome_iff_exists.mp (h method hmethod)
  rw [explicitMethod, hknown]
  cases method
  cases hknown
  rfl

variable (options : MergeOptions) (target incoming : ApiClass) (signature : Option String)

theorem shared_applyClass (name descriptor : String) (methods : List ApiMethod)
    (hplain : incoming.Unwidened) (h : Shared methods (target.explicitVariants name descriptor)) :
    Shared (methods ++ incoming.explicitVariants name descriptor)
      ((applyClass options target incoming signature).value.variants name descriptor) := by
  have hincoming := hplain.unmerged name descriptor
  unfold ApiClass.explicitVariants ApiClass.variants ApiClass.method? at h hincoming ⊢
  rw [get?_methods_applyClass]
  cases hadded : incoming.methods.get? (memberKey name descriptor) with
  | none =>
      cases hknown : target.methods.get? (memberKey name descriptor) with
      | none => simpa [hknown] using h
      | some known => simpa [hknown] using h
  | some added =>
      rw [hadded, Option.elim_some, ← MethodSlot.toList_map] at hincoming
      rw [Option.elim_some, ← MethodSlot.toList_map]
      cases hknown : target.methods.get? (memberKey name descriptor) with
      | none =>
          rw [hknown] at h
          obtain rfl := h.eq_nil
          exact Shared.unmerged hincoming
      | some known =>
          rw [hknown, Option.elim_some, ← MethodSlot.toList_map] at h
          exact Shared.foldlM_intoVariants options target.name h hincoming

theorem gathered_applyClass (snapshots : List ApiClass) (hplain : incoming.Unwidened)
    (h : target.Gathered snapshots) :
    (applyClass options target incoming signature).value.Gathered (snapshots ++ [incoming]) := by
  refine ⟨fun name => ?_, fun key => ?_, fun key => ?_, fun key => ?_, fun name descriptor => ?_⟩
  · have hunion : (applyClass options target incoming signature).value.interfaces =
        union target.interfaces incoming.interfaces := rfl
    rw [hunion, mem_union, h.interfaces]
    simp [or_and_right, exists_or]
  · have hinner : (applyClass options target incoming signature).value.innerClasses =
        (innerClasses target.name target.innerClasses incoming.innerClasses).value := rfl
    rw [hinner, innerClasses, mem_keys_foldlM_rows (mem_keys_checkInner target.name),
      h.innerClasses]
    simp [or_and_right, exists_or]
  · rw [fields_applyClass, mem_keys_foldlM_rows (mem_keys_intoFields target.name)]
    simp [withExplicitVersions, h.fields, or_and_right, exists_or]
  · rw [methods_applyClass, mem_keys_foldlM_rows (mem_keys_intoMethods options target.name)]
    simp [withExplicitVersions, h.methods, or_and_right, exists_or]
  · have hshared := shared_applyClass options target incoming signature name descriptor _ hplain
      (h.variants name descriptor)
    rw [ApiClass.explicitVariants, map_explicitMethod_of_isSome _ hshared.explicit]
    simpa using hshared

theorem explicit_applyClass (snapshots : List ApiClass) (hplain : incoming.Unwidened)
    (h : target.Gathered snapshots) :
    (applyClass options target incoming signature).value.Explicit where
  fields name descriptor := by
    refine forall_fields_applyClass (fun _ field => field.version.isSome) options signature ?_ ?_ ?_
      (memberKey name descriptor)
    · intro key subject target incoming signature htarget hincoming
      have hversion : (applyField subject target incoming signature).value.version =
          plus? target.version incoming.version := rfl
      rw [hversion, isSome_plus?, htarget, Bool.true_or]
    · exact fun key field hfield => rfl
    · exact fun key field hfield => rfl
  methods name descriptor :=
    (shared_applyClass options target incoming signature name descriptor _ hplain
      (h.variants name descriptor)).explicit

end Merge

namespace Acceptance

-- The field that is taken in with a snapshot. One that is refused is not.
def field? (step : Acceptance) (name descriptor : String) : Option ApiField :=
  if step.refusesField name descriptor then none else step.snapshot.field? name descriptor

end Acceptance

theorem nullability_field_applyClass (options : MergeOptions) (target incoming : ApiClass)
    (signature : Option String) (name descriptor : String) :
    (((applyClass options target incoming signature).value.field? name descriptor).map
        ApiField.nullability) =
      Option.merge Nullability.weaken ((target.field? name descriptor).map ApiField.nullability)
        ((Acceptance.field? ⟨some target, incoming⟩ name descriptor).map ApiField.nullability) := by
  rw [Acceptance.field?, apply_ite (Option.map ApiField.nullability), Option.map_none]
  exact map_field?_applyClass options target incoming signature name descriptor
    (fun _ => ApiField.nullability) Nullability.weaken (fun _ _ _ => rfl) (fun _ _ _ _ _ => rfl)

end ApiUnion
