import ApiUnion.Proofs.Catalog.Sharding
import ApiUnion.Proofs.Merge.Mismatch
import ApiUnion.Proofs.Merge.Refusals

-- What an append changes is what its outcome says, and nothing else: all that can stop a merge is
-- checked before anything is merged, of the class as a whole and of each field.

namespace ApiUnion

namespace Catalog

-- All that a user of catalogs can come to have.
inductive Reachable : Catalog → Prop
  | empty (options : MergeOptions) : Reachable (empty options)
  | sharded (options : MergeOptions) (shardOf : String → Nat) (shards : Nat)
      (snapshots : List ApiClass) : Reachable (mergeSharded options shardOf shards snapshots)
  | append (catalog : Catalog) (snapshot : ApiClass) (hcatalog : Reachable catalog) :
      Reachable (catalog.append snapshot).1
  | cleanUp (catalog : Catalog) (hcatalog : Reachable catalog) : Reachable catalog.cleanUp

theorem keyed_mergeSharded (options : MergeOptions) (shardOf : String → Nat) (shards : Nat)
    (snapshots : List ApiClass) : (mergeSharded options shardOf shards snapshots).Keyed := by
  intro name entry hget
  rw [get?_mergeSharded] at hget
  exact keyed_appendAll options snapshots name entry hget

theorem Reachable.keyed {catalog : Catalog} (h : Reachable catalog) : catalog.Keyed := by
  induction h with
  | empty options => exact keyed_empty options
  | sharded options shardOf shards snapshots =>
      exact keyed_mergeSharded options shardOf shards snapshots
  | append catalog snapshot _ ih => exact keyed_append catalog snapshot ih
  | cleanUp catalog _ ih => exact keyed_cleanUp catalog ih

-- What a catalog comes to when a snapshot is merged into the class of its name.
structure Absorbs (before : Catalog) (existing snapshot : ApiClass) (after : Catalog) : Prop where
  options : after.options = before.options
  names : after.classes.keys = before.classes.keys
  others : ∀ name, name ≠ snapshot.name → after.get? name = before.get? name
  version : (after.get? snapshot.name).map ApiClass.version =
    some (existing.version.plus snapshot.version)
  -- A field that refuses the one under its key stays as it is, with its version written out.
  refused : ∀ row ∈ snapshot.fields.rows, ∀ field finding,
    existing.fields.get? row.1 = some field →
    Merge.refusal? existing.name existing.fields row = some finding →
    (after.get? snapshot.name).bind (fun merged => merged.fields.get? row.1) =
      some { field with version := some (field.version.getD existing.version) }
  recorded : after.tally.fields.failures = before.tally.fields.failures ++
    (snapshot.fields.rows.filterMap
      (Merge.refusal? existing.name existing.fields)).toArray
  -- But for the record of it, all goes on as if the refused fields had not been there.
  rest : before.append (Merge.fitting existing snapshot) =
    ({ after with tally := { after.tally with fields := { after.tally.fields with
        failures := before.tally.fields.failures } } }, .merged)

-- All that an append can do, by its outcome.
inductive Effect (before : Catalog) (snapshot : ApiClass) (after : Catalog) : Outcome → Prop
  | skipped (hskips : before.skips snapshot = true) (hafter : after = before) :
      Effect before snapshot after .skipped
  | duplicate (existing : ApiClass) (hexisting : before.get? snapshot.name = some existing)
      (hseen : existing.version.contains snapshot.version = true) (hafter : after = before) :
      Effect before snapshot after .duplicate
  | rejected (existing : ApiClass) (conflict : Conflict)
      (hexisting : before.get? snapshot.name = some existing)
      (hmismatch : Merge.Mismatch existing snapshot conflict.kind)
      (hafter : after = { before with tally := { before.tally with
        classes := { before.tally.classes with
          failures := before.tally.classes.failures.push (conflict.on snapshot.name) } } }) :
      Effect before snapshot after .rejected
  | installed (hnew : before.get? snapshot.name = none)
      (hrows : after.classes.rows = before.classes.rows ++ [(snapshot.name, snapshot)])
      (htally : after.tally = before.tally) (hoptions : after.options = before.options) :
      Effect before snapshot after .installed
  | merged (existing : ApiClass) (hexisting : before.get? snapshot.name = some existing)
      (hmatch : ∀ kind, ¬ Merge.Mismatch existing snapshot kind)
      (habsorbs : Absorbs before existing snapshot after) :
      Effect before snapshot after .merged

section Steps

variable {catalog : Catalog} {existing snapshot : ApiClass}

theorem append_of_ok {signature : Option String} (hskips : catalog.skips snapshot = false)
    (hexisting : catalog.get? snapshot.name = some existing)
    (hseen : existing.version.contains snapshot.version = false)
    (hchecked : Merge.checkClass existing snapshot = .ok signature) :
    catalog.append snapshot =
      (catalog.put (Merge.applyClass catalog.options existing snapshot signature).value
        (Merge.classes catalog.options existing snapshot).events, .merged) := by
  unfold append
  rw [hskips, hexisting]
  simp only [Bool.false_eq_true, if_false, hseen, Merge.value_classes, hchecked]
  rfl

theorem append_of_error {conflict : Conflict} (hskips : catalog.skips snapshot = false)
    (hexisting : catalog.get? snapshot.name = some existing)
    (hseen : existing.version.contains snapshot.version = false)
    (hchecked : Merge.checkClass existing snapshot = .error conflict) :
    catalog.append snapshot =
      ({ catalog with
        tally := catalog.tally.record (.failed .classes (conflict.on existing.name)) },
        .rejected) := by
  unfold append
  rw [hskips, hexisting]
  simp only [Bool.false_eq_true, if_false, hseen, Merge.classes, hchecked]
  rfl

theorem absorbs_append {signature : Option String} (hown : existing.name = snapshot.name)
    (hskips : catalog.skips snapshot = false)
    (hexisting : catalog.get? snapshot.name = some existing)
    (hseen : existing.version.contains snapshot.version = false)
    (hchecked : Merge.checkClass existing snapshot = .ok signature) :
    Absorbs catalog existing snapshot (catalog.append snapshot).1 := by
  have happend := append_of_ok hskips hexisting hseen hchecked
  have hname : (Merge.applyClass catalog.options existing snapshot signature).value.name =
      snapshot.name := (Merge.name_applyClass _ _ _ _).trans hown
  obtain ⟨-, hevents, hfailures⟩ := Merge.classes_fitting catalog.options existing snapshot
  have hsome : (Merge.classes catalog.options existing snapshot).value.isSome := by
    rw [Merge.value_classes, hchecked]
    rfl
  rw [happend]
  refine ⟨rfl, ?_, ?_, ?_, ?_, ?_, ?_⟩
  · have hused : snapshot.name ∈ catalog.classes.keys :=
      (catalog.classes.mem_keys_iff snapshot.name).mpr (by rw [← get?, hexisting]; rfl)
    simp only [put, hname]
    exact (catalog.classes.keys_insert _ _).trans (if_pos hused)
  · intro name hother
    rw [get?_put, hname, if_neg hother]
  · rw [get?_put, hname, if_pos rfl]
    rfl
  · intro row hrow field finding hfield hrefusal
    have hincoming := Table.get?_of_mem_rows hrow
    have hrefuses :=
      Merge.refusesField_of_refusal? hfield hrefusal existing.version snapshot.version
    rw [get?_put, hname, if_pos rfl, Option.bind_some, Merge.get?_fields_applyClass, hincoming,
      hfield]
    exact congrArg some (Merge.field_of_refuses _ _ _ hrefuses)
  · have hscope := Tally.scope_recordAll catalog.tally
      (Merge.classes catalog.options existing snapshot).events .fields
    simp only [put]
    rw [Tally.scope, Tally.scope] at hscope
    rw [hscope, ScopeTally.add, ScopeTally.ofEvents, hfailures hsome]
  · have hfitting : (Merge.applyClass catalog.options existing (Merge.fitting existing snapshot)
        signature).value = (Merge.applyClass catalog.options existing snapshot signature).value :=
      (Merge.applyClass_fitting catalog.options existing snapshot signature).1
    have hkept : catalog.append (Merge.fitting existing snapshot) = _ :=
      append_of_ok hskips hexisting hseen hchecked
    rw [hkept, hfitting, hevents, put, Tally.recordAll_filter]
    rfl

end Steps

theorem effect_append (catalog : Catalog) (snapshot : ApiClass) (h : Reachable catalog) :
    Effect catalog snapshot (catalog.append snapshot).1 (catalog.append snapshot).2 := by
  cases hskips : catalog.skips snapshot with
  | true =>
      have happend : catalog.append snapshot = (catalog, .skipped) := if_pos hskips
      rw [happend]
      exact .skipped hskips rfl
  | false =>
      cases hexisting : catalog.get? snapshot.name with
      | none =>
          have happend : catalog.append snapshot = (catalog.put snapshot [], .installed) := by
            unfold append
            rw [hskips, hexisting]
            rfl
          have hnew : snapshot.name ∉ catalog.classes.keys := by
            rw [Table.mem_keys_iff, ← get?, hexisting]
            simp
          rw [happend]
          exact .installed hexisting (catalog.classes.rows_insert_of_notMem _ _ hnew) rfl rfl
      | some existing =>
          have hown : existing.name = snapshot.name := h.keyed _ _ hexisting
          cases hseen : existing.version.contains snapshot.version with
          | true =>
              have happend : catalog.append snapshot = (catalog, .duplicate) := by
                unfold append
                rw [hskips, hexisting]
                exact if_pos hseen
              rw [happend]
              exact .duplicate existing hexisting hseen rfl
          | false =>
              cases hchecked : Merge.checkClass existing snapshot with
              | error conflict =>
                  rw [append_of_error hskips hexisting hseen hchecked, hown]
                  exact .rejected existing conflict hexisting
                    (Merge.mismatch_of_checkClass hchecked) rfl
              | ok signature =>
                  have habsorbs := absorbs_append hown hskips hexisting hseen hchecked
                  rw [append_of_ok hskips hexisting hseen hchecked] at habsorbs ⊢
                  exact .merged existing hexisting (Merge.not_mismatch_of_checkClass hchecked)
                    habsorbs

-- A class with one field, in one version.
def holding (access : UInt16) (tag : String) : ApiClass where
  name := "p/A"
  access := ⟨0x0001⟩
  superclass := some "p/S"
  version := .single tag
  fields := .ofRows [("xI", { access := ⟨access⟩, name := "x", descriptor := "I" })]

-- The field has become final. It is not merged, but its class is.
theorem effect_append_final :
    let catalog := ((empty {}).append (holding 0x0001 "1")).1
    let after := (catalog.append (holding 0x0011 "2")).1
    Reachable catalog ∧ Effect catalog (holding 0x0011 "2") after .merged ∧
      after.tally.fields.failed = 1 ∧
      (after.classVersion? "p/A", after.fieldVersion? "p/A" "x" "I") =
        (some ((Version.single "1").plus (.single "2")), some (.single "1")) := by
  intro catalog after
  have hreachable : Reachable catalog := .append _ _ (.empty {})
  have houtcome : (catalog.append (holding 0x0011 "2")).2 = .merged := by decide +kernel
  have heffect := effect_append catalog (holding 0x0011 "2") hreachable
  rw [houtcome] at heffect
  exact ⟨hreachable, heffect, by decide +kernel, by decide +kernel⟩

end Catalog

end ApiUnion
