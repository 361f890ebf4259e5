import ApiUnion.Proofs.Catalog.Sharding
import ApiUnion.Proofs.Signature.Unrenamed
import ApiUnion.Proofs.Splitting.Members
import ApiUnion.Proofs.Splitting.Rejoining

-- Where no class is split every class keeps its name. A snapshot is then read and written anew
-- without a change, if its members stand under their own keys, in slots of the size that writing
-- gives them.

namespace ApiUnion

-- Members are found under the keys that their names and descriptors make.
structure ApiClass.UnderOwnKeys (entry : ApiClass) : Prop where
  fields : ∀ row ∈ entry.fields.rows, row.2.key = row.1
  methods : ∀ row ∈ entry.methods.rows, ∀ method ∈ row.2.toList, method.key = row.1

instance (entry : ApiClass) : Decidable entry.UnderOwnKeys :=
  decidable_of_iff ((∀ row ∈ entry.fields.rows, row.2.key = row.1) ∧
    ∀ row ∈ entry.methods.rows, ∀ method ∈ row.2.toList, method.key = row.1)
    ⟨fun h => ⟨h.1, h.2⟩, fun h => ⟨h.fields, h.methods⟩⟩

namespace Splitting

theorem renameField_id (field : ApiField) : renameField id field = field := by
  have hsignature : renameInFieldSignature id = id := funext renameInFieldSignature_id
  simp only [renameField, renameInFieldDescriptor_id, hsignature, Option.map_id, id]

theorem renameMethod_id (method : ApiMethod) : renameMethod id method = method := by
  have hsignature : renameInMethodSignature id = id := funext renameInMethodSignature_id
  simp only [renameMethod, renameInMethodDescriptor_id, hsignature, Option.map_id, List.map_id, id]

theorem renameOwner_id (enclosing : EnclosingMethod) : renameOwner id enclosing = enclosing := by
  have hdescriptor : renameInMethodDescriptor id = id := funext renameInMethodDescriptor_id
  simp only [renameOwner, hdescriptor, Option.map_id, id]

theorem renameInner_id (row : String × InnerRef) : renameInner id row = row := by
  simp only [renameInner, Option.map_id, id]

theorem foldl_insertVariant_push (methods : Table MethodSlot) (key : String) (slot : MethodSlot)
    (more : List ApiMethod) (hmore : ∀ method ∈ more, method.key = key) :
    more.foldl insertVariant (methods.insert key slot) =
      methods.insert key (more.foldl MethodSlot.push slot) := by
  induction more generalizing slot with
  | nil => rfl
  | cons method more ih =>
      obtain ⟨rfl, hmore⟩ := List.forall_mem_cons.mp hmore
      have hget : (methods.insert method.key slot).get? method.key = some slot := by
        rw [Table.get?_insert, if_pos rfl]
      rw [List.foldl_cons, insertVariant_of_get? hget, Table.insert_insert, ih _ hmore,
        List.foldl_cons]

theorem foldl_insertVariant_toList (methods : Table MethodSlot) (key : String) {slot : MethodSlot}
    (hsized : slot.Sized) (hfresh : methods.get? key = none)
    (hkeys : ∀ method ∈ slot.toList, method.key = key) :
    slot.toList.foldl insertVariant methods = methods.insert key slot := by
  obtain ⟨first, more, hlist, hpush⟩ := hsized.exists_foldl_push
  rw [hlist] at hkeys ⊢
  obtain ⟨hfirst, hmore⟩ := List.forall_mem_cons.mp hkeys
  rw [List.foldl_cons, insertVariant_of_none (by rw [hfirst, hfresh]), hfirst,
    foldl_insertVariant_push methods key _ more hmore, hpush]

theorem foldl_insertVariant_allMethods {entry : ApiClass} (h : entry.UnderOwnKeys)
    (hsized : ∀ slot ∈ entry.methods.values, slot.Sized) :
    entry.allMethods.foldl insertVariant .empty = entry.methods := by
  have hfold : ∀ (rows : List (String × MethodSlot)) (done : Table MethodSlot),
      (∀ row ∈ rows, ∀ method ∈ row.2.toList, method.key = row.1) →
      (∀ row ∈ rows, row.2.Sized) →
      (rows.map Prod.fst).Nodup → (∀ row ∈ rows, done.get? row.1 = none) →
      (rows.flatMap fun row => row.2.toList).foldl insertVariant done =
        rows.foldl (fun table row => table.insert row.1 row.2) done := by
    intro rows
    induction rows with
    | nil => exact fun _ _ _ _ _ => rfl
    | cons row rows ih =>
        intro done hkeys hsized hdistinct hfresh
        rw [List.forall_mem_cons] at hkeys hsized hfresh
        rw [List.map_cons, List.nodup_cons] at hdistinct
        rw [List.flatMap_cons, List.foldl_append,
          foldl_insertVariant_toList done row.1 hsized.1 hfresh.1 hkeys.1, List.foldl_cons]
        refine ih _ hkeys.2 hsized.2 hdistinct.2 fun other hother => ?_
        have hne : other.1 ≠ row.1 := fun heq => hdistinct.1 (heq ▸ List.mem_map_of_mem hother)
        rw [Table.get?_insert, if_neg hne, hfresh.2 other hother]
  have hrows := hfold entry.methods.rows .empty h.methods
    (fun row hrow => hsized row.2 (List.mem_map_of_mem hrow)) entry.methods.distinct fun _ _ => rfl
  rw [ApiClass.allMethods, Table.values, List.flatMap_map, hrows]
  exact Table.ofRows_rows entry.methods

theorem renameClass_id {entry : ApiClass} (h : entry.UnderOwnKeys)
    (hsized : ∀ slot ∈ entry.methods.values, slot.Sized) : renameClass id entry = entry := by
  have howner : renameOwner id = id := funext renameOwner_id
  have hsignature : renameInClassSignature id = id := funext renameInClassSignature_id
  have hinner : renameInner id = id := funext renameInner_id
  have hmethod : renameMethod id = id := funext renameMethod_id
  have hfields : (entry.fields.values.map fun field => (field.key, field)) = entry.fields.rows := by
    have hrow : ∀ row ∈ entry.fields.rows,
        ((fun field : ApiField => (field.key, field)) ∘ Prod.snd) row = id row :=
      fun row hrow => Prod.ext (h.fields row hrow) rfl
    rw [Table.values, List.map_map, List.map_congr_left hrow, List.map_id]
  simp only [renameClass, howner, hsignature, hinner, hmethod, renameField_id, hfields, List.map_id,
    Option.map_id, id, Table.ofRows_rows, foldl_insertVariant_allMethods h hsized]

end Splitting

theorem Groups.nameIn_of_unsplit {groups : Groups} {name : String}
    (h : ∀ found, groups.get? name = some found → found.length ≤ 1) (version : Version) :
    groups.nameIn version name = name := by
  unfold nameIn
  split
  · rename_i first second rest hfound
    have hlength := h _ hfound
    simp at hlength
  · rfl

namespace Splitter

theorem keys_foldl_add (splitter : Splitter) (snapshots : List ApiClass) :
    ∀ seen : Table Unit, seen.keys = splitter.snapshots.keys →
      (snapshots.foldl add splitter).snapshots.keys =
        (snapshots.foldl (fun (seen : Table Unit) snapshot => seen.insert snapshot.name ())
          seen).keys := by
  induction snapshots generalizing splitter with
  | nil => exact fun seen hseen => hseen.symm
  | cons snapshot rest ih =>
      intro seen hseen
      refine ih (splitter.add snapshot) (seen.insert snapshot.name ()) ?_
      rw [add, Table.keys_insert, Table.keys_insert, hseen]

theorem keys_grouped (order : QueueOrder) (snapshots : List ApiClass) :
    (grouped order snapshots).snapshots.keys = Catalog.firstSeen snapshots := by
  rw [grouped, groupAll, snapshots_settle]
  exact keys_foldl_add {} snapshots .empty rfl

theorem snapshotsOf_grouped (order : QueueOrder) (snapshots : List ApiClass) (name : String) :
    (grouped order snapshots).snapshotsOf name =
      snapshots.filter fun snapshot => snapshot.name = name := by
  rw [grouped, groupAll, snapshotsOf, snapshots_settle]
  exact snapshotsOf_foldl_add {} snapshots name

theorem groups_foldl_add (splitter : Splitter) (snapshots : List ApiClass) :
    (snapshots.foldl add splitter).groups = splitter.groups := by
  induction snapshots generalizing splitter with
  | nil => rfl
  | cons snapshot rest ih => exact ih (splitter.add snapshot)

theorem computed_grouped (order : QueueOrder) (snapshots : List ApiClass) :
    (grouped order snapshots).Computed := by
  refine computed_settle order _ _ _ fun name found hfound => ?_
  rw [groups_foldl_add] at hfound
  cases hfound

-- All snapshots under their new names: class by class in the order of first arrival.
theorem renamed_grouped (order : QueueOrder) (snapshots : List ApiClass) :
    (grouped order snapshots).renamed order = (Catalog.firstSeen snapshots).flatMap fun name =>
      (snapshots.filter fun snapshot => snapshot.name = name).map
        (renameOne (grouped order snapshots).groups) := by
  rw [renamed_of_isSome _ order (isSome_groups_grouped order snapshots), ← keys_grouped order,
    Table.keys, List.flatMap_map]
  refine List.flatMap_congr fun row hrow => ?_
  rw [rows_grouped order snapshots row hrow]

-- Every class has one group.
def Unsplit (splitter : Splitter) : Prop :=
  ∀ name ∈ splitter.snapshots.keys, (splitter.groupsOf name).length = 1

instance (splitter : Splitter) : Decidable splitter.Unsplit :=
  inferInstanceAs (Decidable (∀ name ∈ splitter.snapshots.keys, _))

theorem nameIn_of_unsplit {order : QueueOrder} {snapshots : List ApiClass}
    (h : (grouped order snapshots).Unsplit) (version : Version) :
    (grouped order snapshots).groups.nameIn version = id := by
  refine funext fun name => Groups.nameIn_of_unsplit (fun found hfound => ?_) version
  by_cases hname : name ∈ (grouped order snapshots).snapshots.keys
  · have hone := h name hname
    rw [groupsOf, hfound, Option.getD_some] at hone
    exact hone.le
  · -- A name without snapshots has no groups, even if it was looked up.
    obtain ⟨groups, rfl⟩ := computed_grouped order snapshots name found hfound
    have hnone : (grouped order snapshots).snapshotsOf name = [] := by
      rw [Table.mem_keys_iff, Option.not_isSome_iff_eq_none] at hname
      rw [snapshotsOf, hname, Option.getD_none]
    rw [hnone]
    exact Nat.zero_le 1

theorem renamed_of_unsplit {order : QueueOrder} {snapshots : List ApiClass}
    (h : (grouped order snapshots).Unsplit)
    (hkeys : ∀ snapshot ∈ snapshots, snapshot.UnderOwnKeys)
    (hsized : ∀ snapshot ∈ snapshots, ∀ slot ∈ snapshot.methods.values, slot.Sized) :
    (grouped order snapshots).renamed order = (Catalog.firstSeen snapshots).flatMap fun name =>
      snapshots.filter fun snapshot => snapshot.name = name := by
  rw [renamed_grouped]
  refine List.flatMap_congr fun name _ => ?_
  have hsame : ∀ snapshot ∈ snapshots.filter fun snapshot => snapshot.name = name,
      renameOne (grouped order snapshots).groups snapshot = id snapshot := by
    intro snapshot hsnapshot
    rw [renameOne, nameIn_of_unsplit h]
    have hmem := List.mem_of_mem_filter hsnapshot
    exact Splitting.renameClass_id (hkeys snapshot hmem) (hsized snapshot hmem)
  rw [List.map_congr_left hsame, List.map_id]

end Splitter

end ApiUnion
