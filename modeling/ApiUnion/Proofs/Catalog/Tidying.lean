import ApiUnion.Catalog.Availability
import ApiUnion.Proofs.Catalog.Admission
import ApiUnion.Proofs.Model.Slots
import ApiUnion.Proofs.Table

-- Cleaning up cannot be told from outside. It leaves versions of members to be understood, and
-- whatever reads a member writes them out again first: a merge does, and so does an answer. So a
-- catalog that was cleaned up goes on as it would have without.

namespace ApiUnion

namespace Catalog

section Classes

variable (ofClass : Version) (version : Option Version) (entry : ApiClass)

theorem getD_impliedVersion :
    (impliedVersion ofClass version).getD ofClass = version.getD ofClass := by
  by_cases h : version = some ofClass
  · simp [impliedVersion, h]
  · simp [impliedVersion, h]

theorem impliedVersion_impliedVersion :
    impliedVersion ofClass (impliedVersion ofClass version) = impliedVersion ofClass version := by
  by_cases h : version = some ofClass
  · simp [impliedVersion, h]
  · simp [impliedVersion, h]

theorem withImpliedVersions_withImpliedVersions :
    withImpliedVersions (withImpliedVersions entry) = withImpliedVersions entry := by
  simp [withImpliedVersions, Table.map, MethodSlot.map_map, Function.comp_def,
    impliedVersion_impliedVersion]

theorem explicitMethod_implied (method : ApiMethod) :
    Merge.explicitMethod ofClass { method with version := impliedVersion ofClass method.version } =
      Merge.explicitMethod ofClass method := by
  simp [Merge.explicitMethod, getD_impliedVersion]

-- What goes without saying is what a merge would write there.
theorem withExplicitVersions_withImpliedVersions :
    Merge.withExplicitVersions (withImpliedVersions entry) = Merge.withExplicitVersions entry := by
  simp [Merge.withExplicitVersions, withImpliedVersions, Merge.explicitField, Table.map,
    MethodSlot.map_map, Function.comp_def, explicitMethod_implied, getD_impliedVersion]

-- The check does not look at members, and all else reads them with their versions written out.
theorem classes_withImpliedVersions (options : MergeOptions) (snapshot : ApiClass) :
    Merge.classes options (withImpliedVersions entry) snapshot =
      Merge.classes options entry snapshot := by
  have happly (signature : Option String) :
      Merge.applyClass options (withImpliedVersions entry) snapshot signature =
        Merge.applyClass options entry snapshot signature := by
    unfold Merge.applyClass
    rw [withExplicitVersions_withImpliedVersions]
    rfl
  have hchecked : Merge.checkClass (withImpliedVersions entry) snapshot =
      Merge.checkClass entry snapshot := rfl
  unfold Merge.classes
  rw [hchecked]
  cases Merge.checkClass entry snapshot with
  | ok signature =>
      dsimp only
      rw [happly]
      rfl
  | error conflict => rfl

end Classes

section Answers

variable (catalog : Catalog)

theorem get?_cleanUp (name : String) :
    catalog.cleanUp.get? name = (catalog.get? name).map withImpliedVersions :=
  catalog.classes.get?_map withImpliedVersions name

theorem slotVersion?_implied (ofClass : Version) (slot : MethodSlot) :
    slotVersion? ofClass (slot.map fun method =>
        { method with version := impliedVersion ofClass method.version }) =
      slotVersion? ofClass slot := by
  simp only [slotVersion?, MethodSlot.toList_map, List.map_map, Function.comp_def,
    getD_impliedVersion]

theorem classVersion?_cleanUp (name : String) :
    catalog.cleanUp.classVersion? name = catalog.classVersion? name := by
  rw [classVersion?, get?_cleanUp, Option.map_map, classVersion?]
  rfl

theorem methodVersion?_cleanUp (owner name descriptor : String) :
    catalog.cleanUp.methodVersion? owner name descriptor =
      catalog.methodVersion? owner name descriptor := by
  unfold methodVersion?
  rw [get?_cleanUp]
  cases catalog.get? owner with
  | none => rfl
  | some entry =>
      have hmethod : (withImpliedVersions entry).method? name descriptor =
          (entry.method? name descriptor).map (MethodSlot.map fun method =>
            { method with version := impliedVersion entry.version method.version }) :=
        entry.methods.get?_map _ _
      simp only [Option.map_some, Option.bind_eq_bind, Option.bind_some, hmethod]
      cases entry.method? name descriptor with
      | none => rfl
      | some slot => exact slotVersion?_implied entry.version slot

theorem fieldVersion?_cleanUp (owner name descriptor : String) :
    catalog.cleanUp.fieldVersion? owner name descriptor =
      catalog.fieldVersion? owner name descriptor := by
  unfold fieldVersion?
  rw [get?_cleanUp]
  cases catalog.get? owner with
  | none => rfl
  | some entry =>
      have hfield : (withImpliedVersions entry).field? name descriptor =
          (entry.field? name descriptor).map fun field =>
            { field with version := impliedVersion entry.version field.version } :=
        entry.fields.get?_map _ _
      simp only [Option.map_some, Option.bind_eq_bind, Option.bind_some, hfield]
      cases entry.field? name descriptor with
      | none => rfl
      | some field => exact congrArg some (getD_impliedVersion entry.version field.version)

end Answers

section Steps

variable (catalog : Catalog)

theorem cleanUp_cleanUp : catalog.cleanUp.cleanUp = catalog.cleanUp := by
  simp [cleanUp, Table.map, Function.comp_def, withImpliedVersions_withImpliedVersions]

theorem classes_cleanUp_cleanUp : catalog.cleanUp.cleanUp.classes = catalog.cleanUp.classes :=
  congrArg Catalog.classes catalog.cleanUp_cleanUp

theorem cleanUp_put (entry : ApiClass) (events : List Event) :
    (catalog.cleanUp.put entry events).cleanUp = (catalog.put entry events).cleanUp := by
  have hclasses := catalog.classes_cleanUp_cleanUp
  simp only [put, cleanUp, Table.map_insert] at hclasses ⊢
  rw [hclasses]

theorem cleanUp_withTally (tally : Tally) :
    { catalog.cleanUp with tally := tally }.cleanUp = { catalog with tally := tally }.cleanUp := by
  have hclasses := catalog.classes_cleanUp_cleanUp
  simp only [cleanUp] at hclasses ⊢
  rw [hclasses]

theorem append_cleanUp (snapshot : ApiClass) :
    (catalog.cleanUp.append snapshot).2 = (catalog.append snapshot).2 ∧
      (catalog.cleanUp.append snapshot).1.cleanUp = (catalog.append snapshot).1.cleanUp := by
  have hskips : catalog.cleanUp.skips snapshot = catalog.skips snapshot := rfl
  have hoptions : catalog.cleanUp.options = catalog.options := rfl
  -- The classes differ in versions of members only, on which no case of an append depends.
  unfold append
  rw [get?_cleanUp, hskips, hoptions]
  by_cases hskipped : catalog.skips snapshot
  · rw [if_pos hskipped, if_pos hskipped]
    exact ⟨rfl, catalog.cleanUp_cleanUp⟩
  rw [if_neg hskipped, if_neg hskipped]
  cases catalog.get? snapshot.name with
  | none => exact ⟨rfl, catalog.cleanUp_put snapshot []⟩
  | some existing =>
      have hversion : (withImpliedVersions existing).version = existing.version := rfl
      simp only [Option.map_some, classes_withImpliedVersions, hversion]
      by_cases hseen : existing.version.contains snapshot.version
      · rw [if_pos hseen, if_pos hseen]
        exact ⟨rfl, catalog.cleanUp_cleanUp⟩
      rw [if_neg hseen, if_neg hseen]
      cases (Merge.classes catalog.options existing snapshot).value with
      | some merged => exact ⟨rfl, catalog.cleanUp_put merged _⟩
      | none => exact ⟨rfl, catalog.cleanUp_withTally _⟩

end Steps

-- What a user of a catalog can do to it.
inductive Operation
  | append (snapshot : ApiClass)
  | cleanUp
deriving DecidableEq

namespace Operation

def snapshot? : Operation → Option ApiClass
  | .append snapshot => some snapshot
  | .cleanUp => none

end Operation

def perform (catalog : Catalog) : Operation → Catalog
  | .append snapshot => (catalog.append snapshot).1
  | .cleanUp => catalog.cleanUp

-- What becomes of the snapshots among the operations, one after another.
def outcomesOf : Catalog → List Operation → List Outcome
  | _, [] => []
  | catalog, .append snapshot :: rest =>
    (catalog.append snapshot).2 :: outcomesOf (catalog.append snapshot).1 rest
  | catalog, .cleanUp :: rest => outcomesOf catalog.cleanUp rest

-- Two catalogs that clean up to the same stay so, and say the same of each snapshot, if one of them
-- is cleaned up on the way and the other is not.
theorem operations_congr {catalog other : Catalog} (h : catalog.cleanUp = other.cleanUp)
    (operations : List Operation) :
    outcomesOf catalog operations = other.outcomes (operations.filterMap Operation.snapshot?) ∧
      (operations.foldl perform catalog).cleanUp =
        (other.appendAll (operations.filterMap Operation.snapshot?)).cleanUp := by
  -- Both catalogs move on, and what they clean up to is the same after each operation.
  induction operations generalizing catalog other with
  | nil => exact ⟨rfl, h⟩
  | cons operation operations ih =>
      cases operation with
      | cleanUp => exact ih (catalog.cleanUp_cleanUp.trans h)
      | append snapshot =>
          obtain ⟨houtcome, hafter⟩ := catalog.append_cleanUp snapshot
          obtain ⟨houtcome', hafter'⟩ := other.append_cleanUp snapshot
          rw [h] at houtcome hafter
          obtain ⟨houtcomes, hcleanUp⟩ := ih (hafter.symm.trans hafter')
          have hnow : (catalog.append snapshot).2 = (other.append snapshot).2 :=
            houtcome.symm.trans houtcome'
          refine ⟨?_, hcleanUp⟩
          rw [outcomesOf, hnow, houtcomes]
          rfl

-- Cleaning up now and then changes neither what becomes of the snapshots nor what is reported of
-- their merges, nor what is left after cleaning up in the end, and no answer at any time.
theorem cleanUp_unobservable (catalog : Catalog) (operations : List Operation) :
    let snapshots := operations.filterMap Operation.snapshot?
    let tidied := operations.foldl perform catalog
    outcomesOf catalog operations = catalog.outcomes snapshots ∧
      tidied.tally = (catalog.appendAll snapshots).tally ∧
      tidied.cleanUp = (catalog.appendAll snapshots).cleanUp ∧
      ∀ asked : Catalog, (∀ name, asked.cleanUp.classVersion? name = asked.classVersion? name) ∧
        (∀ owner name descriptor, asked.cleanUp.methodVersion? owner name descriptor =
          asked.methodVersion? owner name descriptor) ∧
        ∀ owner name descriptor, asked.cleanUp.fieldVersion? owner name descriptor =
          asked.fieldVersion? owner name descriptor := by
  intro snapshots tidied
  have hsame : catalog.cleanUp = catalog.cleanUp := rfl
  obtain ⟨houtcomes, hcleanUp⟩ := operations_congr hsame operations
  have htally : tidied.cleanUp.tally = (catalog.appendAll snapshots).cleanUp.tally := by
    rw [hcleanUp]
  refine ⟨houtcomes, htally, hcleanUp, fun asked => ⟨?_, ?_, ?_⟩⟩
  · exact asked.classVersion?_cleanUp
  · exact asked.methodVersion?_cleanUp
  · exact asked.fieldVersion?_cleanUp

end Catalog

end ApiUnion
