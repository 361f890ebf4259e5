import ApiUnion.Model.Listing
import ApiUnion.Proofs.Catalog.Effects
import ApiUnion.Proofs.Catalog.Emittable
import ApiUnion.Proofs.Splitting.Unsplit

-- Members under their own keys. Merging looks members up by key, listing names a group by its first
-- method, and emission tells the methods of one slot apart. All that goes by the keys of a class
-- being those of its members and by its slots having methods, which no merge, no cleaning up and no
-- renaming changes.

namespace ApiUnion

-- A slot as it stands under a key: with methods of that key, and more than one in a group.
structure MethodSlot.Filed (key : String) (slot : MethodSlot) : Prop where
  keys : ∀ method ∈ slot.toList, method.key = key
  sized : slot.Sized

structure ApiClass.Filed (entry : ApiClass) : Prop where
  fields : ∀ key field, entry.fields.get? key = some field → field.key = key
  methods : ∀ key slot, entry.methods.get? key = some slot → slot.Filed key

structure Catalog.Filed (catalog : Catalog) : Prop where
  names : ∀ name entry, catalog.get? name = some entry → entry.name = name
  classes : ∀ name entry, catalog.get? name = some entry → entry.Filed

theorem ApiClass.filed_iff (entry : ApiClass) :
    entry.Filed ↔ entry.UnderOwnKeys ∧ ∀ slot ∈ entry.methods.values, slot.Sized := by
  constructor
  · intro h
    have hslots : ∀ row ∈ entry.methods.rows, row.2.Filed row.1 :=
      fun row hrow => h.methods row.1 row.2 (Table.get?_of_mem_rows hrow)
    refine ⟨⟨fun row hrow => h.fields row.1 row.2 (Table.get?_of_mem_rows hrow),
      fun row hrow => (hslots row hrow).keys⟩, ?_⟩
    exact List.forall_mem_map.mpr fun row hrow => (hslots row hrow).sized
  · rintro ⟨hkeys, hsized⟩
    refine ⟨fun key field hfield => hkeys.fields (key, field) (Table.mem_rows_of_get? hfield),
      fun key slot hslot => ?_⟩
    have hrow := Table.mem_rows_of_get? hslot
    exact ⟨hkeys.methods (key, slot) hrow, hsized slot (List.mem_map_of_mem hrow)⟩

instance (entry : ApiClass) : Decidable entry.Filed :=
  decidable_of_iff _ entry.filed_iff.symm

namespace Merge

-- A variant that takes a method in stays where it is, and a method beside a variant makes a group.
theorem sized_intoVariants (options : MergeOptions) (owner : String) {slot : MethodSlot}
    (incoming : ApiMethod) (h : slot.Sized) :
    (intoVariants options owner slot incoming).value.Sized := by
  rcases intoVariants_cases options owner slot incoming with
    ⟨merged, hvalue, hlength, -⟩ | ⟨hvalue, -⟩
  · rw [hvalue]
    exact h.refill hlength
  · rw [hvalue]
    exact MethodSlot.sized_push h.nonempty incoming

theorem sized_foldlM_intoVariants (options : MergeOptions) (owner : String)
    (incoming : List ApiMethod) {slot : MethodSlot} (h : slot.Sized) :
    (incoming.foldlM (intoVariants options owner) slot).value.Sized := by
  induction incoming generalizing slot with
  | nil => exact h
  | cons method incoming ih => exact ih (sized_intoVariants options owner method h)

theorem sized_methods_applyClass (options : MergeOptions) {target incoming : ApiClass}
    (signature : Option String)
    (htarget : ∀ key slot, target.methods.get? key = some slot → slot.Sized)
    (hincoming : ∀ key slot, incoming.methods.get? key = some slot → slot.Sized) :
    ∀ key slot,
      (applyClass options target incoming signature).value.methods.get? key = some slot →
        slot.Sized := by
  intro key slot hslot
  rw [get?_methods_applyClass] at hslot
  cases hadded : incoming.methods.get? key with
  | none =>
      rw [hadded] at hslot
      obtain ⟨old, hold, rfl⟩ := Option.map_eq_some_iff.mp hslot
      exact (htarget key old hold).map
  | some added =>
      rw [hadded] at hslot
      cases hslot
      cases hold : target.methods.get? key with
      | none => exact (hincoming key added hadded).map
      | some old => exact sized_foldlM_intoVariants options target.name _ (htarget key old hold).map

theorem filed_applyClass (options : MergeOptions) {target incoming : ApiClass}
    (signature : Option String) (htarget : target.Filed) (hincoming : incoming.Filed) :
    (applyClass options target incoming signature).value.Filed := by
  constructor
  · -- A field that is absorbed leaves its key with the one that takes it in.
    apply forall_fields_applyClass fun key field => field.key = key
    · intro key subject target incoming signature htarget hincoming
      exact htarget
    · exact htarget.fields
    · exact hincoming.fields
  · -- So does a method that goes into a variant.
    have hkeys : ∀ key slot,
        (applyClass options target incoming signature).value.methods.get? key = some slot →
          ∀ method ∈ slot.toList, method.key = key := by
      apply forall_methods_applyClass fun key method => method.key = key
      · intro key subject target incoming signature htarget hincoming
        exact htarget
      · exact fun key slot hslot => (htarget.methods key slot hslot).keys
      · exact fun key slot hslot => (hincoming.methods key slot hslot).keys
    have hsized := sized_methods_applyClass options signature
      (fun key slot hslot => (htarget.methods key slot hslot).sized)
      (fun key slot hslot => (hincoming.methods key slot hslot).sized)
    exact fun key slot hslot => ⟨hkeys key slot hslot, hsized key slot hslot⟩

end Merge

namespace Catalog

theorem filed_withImpliedVersions {entry : ApiClass} (h : entry.Filed) :
    (withImpliedVersions entry).Filed := by
  constructor
  · intro key field hfield
    rw [withImpliedVersions, Table.get?_map] at hfield
    obtain ⟨original, horiginal, rfl⟩ := Option.map_eq_some_iff.mp hfield
    exact h.fields key original horiginal
  · intro key slot hslot
    rw [withImpliedVersions, Table.get?_map] at hslot
    obtain ⟨original, horiginal, rfl⟩ := Option.map_eq_some_iff.mp hslot
    refine ⟨?_, (h.methods key original horiginal).sized.map⟩
    rw [MethodSlot.toList_map]
    exact List.forall_mem_map.mpr (h.methods key original horiginal).keys

theorem filed_empty (options : MergeOptions) : (empty options).Filed where
  names := keyed_empty options
  classes name entry h := by simp [empty, get?] at h

theorem filed_put (catalog : Catalog) (entry : ApiClass) (events : List Event) (h : catalog.Filed)
    (hentry : entry.Filed) : (catalog.put entry events).Filed where
  names := keyed_put catalog entry events h.names
  classes name other hget := by
    rw [get?_put] at hget
    split at hget
    · rwa [← Option.some.inj hget]
    · exact h.classes name other hget

theorem filed_append (catalog : Catalog) (snapshot : ApiClass) (h : catalog.Filed)
    (hsnapshot : snapshot.Filed) : (catalog.append snapshot).1.Filed := by
  rcases catalog.append_cases snapshot with ⟨-, hclasses, -⟩ | ⟨-, happend⟩ |
    ⟨existing, signature, events, hexisting, -, happend⟩
  · constructor
    · exact keyed_append catalog snapshot h.names
    · intro name entry hget
      rw [get?, hclasses] at hget
      exact h.classes name entry hget
  · rw [happend]
    exact filed_put catalog snapshot [] h hsnapshot
  · rw [happend]
    have hmerged := Merge.filed_applyClass catalog.options signature
      (h.classes snapshot.name existing hexisting) hsnapshot
    exact filed_put catalog _ events h hmerged

theorem filed_appendAll (catalog : Catalog) (snapshots : List ApiClass) (h : catalog.Filed)
    (hsnapshots : ∀ snapshot ∈ snapshots, snapshot.Filed) :
    (catalog.appendAll snapshots).Filed := by
  induction snapshots generalizing catalog with
  | nil => exact h
  | cons snapshot snapshots ih =>
      obtain ⟨hsnapshot, hsnapshots⟩ := List.forall_mem_cons.mp hsnapshots
      exact ih (catalog.append snapshot).1 (filed_append catalog snapshot h hsnapshot) hsnapshots

theorem filed_mergeSharded (options : MergeOptions) (shardOf : String → Nat) (shards : Nat)
    (snapshots : List ApiClass) (h : ∀ snapshot ∈ snapshots, snapshot.Filed) :
    (mergeSharded options shardOf shards snapshots).Filed := by
  have hplain := filed_appendAll (empty options) snapshots (filed_empty options) h
  constructor
  · exact keyed_mergeSharded options shardOf shards snapshots
  · intro name entry hget
    rw [get?_mergeSharded] at hget
    exact hplain.classes name entry hget

theorem filed_cleanUp (catalog : Catalog) (h : catalog.Filed) : catalog.cleanUp.Filed := by
  constructor
  · exact keyed_cleanUp catalog h.names
  · intro name entry hget
    rw [get?, cleanUp, Table.get?_map] at hget
    obtain ⟨original, horiginal, rfl⟩ := Option.map_eq_some_iff.mp hget
    exact filed_withImpliedVersions (h.classes name original horiginal)

-- All that a user of catalogs can come to have from snapshots of some sort.
inductive ReachableFrom (good : ApiClass → Prop) : Catalog → Prop
  | empty (options : MergeOptions) : ReachableFrom good (empty options)
  | sharded (options : MergeOptions) (shardOf : String → Nat) (shards : Nat)
      (snapshots : List ApiClass) (hgood : ∀ snapshot ∈ snapshots, good snapshot) :
      ReachableFrom good (mergeSharded options shardOf shards snapshots)
  | append (catalog : Catalog) (snapshot : ApiClass) (hgood : good snapshot)
      (hcatalog : ReachableFrom good catalog) : ReachableFrom good (catalog.append snapshot).1
  | cleanUp (catalog : Catalog) (hcatalog : ReachableFrom good catalog) :
      ReachableFrom good catalog.cleanUp

theorem ReachableFrom.filed {catalog : Catalog} (h : ReachableFrom ApiClass.Filed catalog) :
    catalog.Filed := by
  induction h with
  | empty options => exact filed_empty options
  | sharded options shardOf shards snapshots hgood =>
      exact filed_mergeSharded options shardOf shards snapshots hgood
  | append catalog snapshot hgood _ ih => exact filed_append catalog snapshot ih hgood
  | cleanUp catalog _ ih => exact filed_cleanUp catalog ih

end Catalog

namespace Splitting

-- A method comes beside those of its key, or into a slot of its own there.
theorem filed_insertVariant {methods : Table MethodSlot} (method : ApiMethod)
    (h : ∀ key slot, methods.get? key = some slot → slot.Filed key) :
    ∀ key slot, (insertVariant methods method).get? key = some slot →
      slot.Filed key := by
  intro key slot hslot
  cases hold : methods.get? method.key with
  | none =>
      rw [insertVariant_of_none hold, Table.get?_insert] at hslot
      split at hslot
      · rename_i hkey
        cases hslot
        exact ⟨List.forall_mem_singleton.mpr hkey.symm, MethodSlot.sized_single method⟩
      · exact h key slot hslot
  | some old =>
      rw [insertVariant_of_get? hold, Table.get?_insert] at hslot
      split at hslot
      · rename_i hkey
        cases hslot
        subst hkey
        obtain ⟨hkeys, hsized⟩ := h method.key old hold
        refine ⟨?_, MethodSlot.sized_push hsized.nonempty method⟩
        rw [MethodSlot.toList_push]
        exact List.forall_mem_append.mpr ⟨hkeys, List.forall_mem_singleton.mpr rfl⟩
      · exact h key slot hslot

theorem filed_foldl_insertVariant {methods : Table MethodSlot} (more : List ApiMethod)
    (h : ∀ key slot, methods.get? key = some slot → slot.Filed key) :
    ∀ key slot, (more.foldl insertVariant methods).get? key = some slot →
      slot.Filed key := by
  induction more generalizing methods with
  | nil => exact h
  | cons method more ih => exact ih (filed_insertVariant method h)

-- Members are filed anew, so it does not matter how they were before.
theorem filed_renameClass (names : String → String) (snapshot : ApiClass) :
    (renameClass names snapshot).Filed := by
  constructor
  · intro key field hfield
    have hrow := Table.mem_of_mem_rows_ofRows (Table.mem_rows_of_get? hfield)
    obtain ⟨original, -, heq⟩ := List.mem_map.mp hrow
    cases heq
    rfl
  · apply filed_foldl_insertVariant
    intro key slot hslot
    cases hslot

end Splitting

theorem Splitter.filed_renamed (splitter : Splitter) (order : QueueOrder) :
    ∀ entry ∈ splitter.renamed order, entry.Filed := by
  intro entry hentry
  unfold renamed at hentry
  obtain ⟨snapshots, -, hentry⟩ := List.mem_flatMap.mp hentry
  obtain ⟨snapshot, -, rfl⟩ := List.mem_map.mp hentry
  exact Splitting.filed_renameClass _ snapshot

-- The lines of a slot from the key that it stands under and the methods that it has.
def listingUnder (key : String) : List ApiMethod → List String
  | [method] => ["  " ++ method.listing]
  | methods =>
    [s!"  group {key} \x7b"] ++ methods.map (fun method => "    " ++ method.listing) ++ ["  \x7d"]

theorem MethodSlot.Filed.listing?_eq {key : String} {slot : MethodSlot} (h : slot.Filed key) :
    slot.listing? = some (listingUnder key slot.toList) := by
  cases slot with
  | single method => rfl
  | group variants =>
      -- A group has a first method to be named by, and a second one.
      match variants, h.sized.group rfl with
      | first :: second :: rest, _ =>
          have hkey : first.name ++ first.descriptor = key := h.keys first List.mem_cons_self
          have hheading : s!"  group {first.name}{first.descriptor} \x7b" =
              s!"  group {key} \x7b" := by
            rw [← hkey]
            simp only [toString, String.append_assoc]
          rw [listing?, hheading]
          rfl

-- There is a listing, in which every slot goes by its key.
def ApiClass.ListedByKeys (entry : ApiClass) : Prop :=
  entry.listing? = some ("\n".intercalate ([entry.heading] ++
    entry.fields.values.map (fun field => "  " ++ field.listing) ++
    entry.methods.rows.flatMap (fun row => listingUnder row.1 row.2.toList) ++ ["\x7d"]))

theorem mapM_listing? {rows : List (String × MethodSlot)} (h : ∀ row ∈ rows, row.2.Filed row.1) :
    (rows.map Prod.snd).mapM MethodSlot.listing? =
      some (rows.map fun row => listingUnder row.1 row.2.toList) := by
  induction rows with
  | nil => rfl
  | cons row rows ih =>
      obtain ⟨hrow, hrows⟩ := List.forall_mem_cons.mp h
      rw [List.map_cons, List.mapM_cons, hrow.listing?_eq, ih hrows]
      rfl

theorem ApiClass.Filed.listedByKeys {entry : ApiClass} (h : entry.Filed) : entry.ListedByKeys := by
  have hslots := mapM_listing? fun row hrow =>
    h.methods row.1 row.2 (Table.get?_of_mem_rows hrow)
  rw [ListedByKeys, listing?, Table.values, hslots, List.flatMap_def]
  rfl

-- However a catalog was come by, and whatever names the classes of a splitter get.
theorem members_filed (catalog : Catalog) (splitter : Splitter) (order : QueueOrder)
    (h : catalog.ReachableFrom ApiClass.Filed) :
    catalog.Filed ∧ (∀ entry ∈ splitter.renamed order, entry.Filed) ∧
      ∀ entry, entry ∈ catalog.classes.values ∨ entry ∈ splitter.renamed order →
        entry.ListedByKeys := by
  have hcatalog := h.filed
  refine ⟨hcatalog, splitter.filed_renamed order, ?_⟩
  rintro entry (hentry | hentry)
  · obtain ⟨row, hrow, rfl⟩ := List.mem_map.mp hentry
    exact (hcatalog.classes row.1 row.2 (Table.get?_of_mem_rows hrow)).listedByKeys
  · exact (splitter.filed_renamed order entry hentry).listedByKeys

-- A class with one field and one method, which is static or is not.
def turning (tag : String) (access : UInt16) : ApiClass where
  name := "p/A"
  access := ⟨0x0001⟩
  superclass := none
  version := .single tag
  fields := .ofRows [("MAX" ++ "I", { access := ⟨0x0009⟩, name := "MAX", descriptor := "I" })]
  methods := .ofRows
    [("m" ++ "()V", .single { access := ⟨access⟩, name := "m", descriptor := "()V" })]

theorem members_filed_turning :
    let catalog := (((Catalog.empty {}).append (turning "1" 0x0001)).1.append
      (turning "2" 0x0009)).1.cleanUp
    let splitter := (Splitter.add {} (turning "1" 0x0001)).add (turning "2" 0x0009)
    catalog.Filed ∧ (∀ entry ∈ splitter.renamed .asNoted, entry.Filed) ∧
      ∃ entry ∈ catalog.classes.values, entry.ListedByKeys ∧
        entry.methods.rows.map (fun row => (row.1, row.2.isGroup, row.2.toList.length)) =
          [("m()V", true, 2)] := by
  intro catalog splitter
  have hfirst : (turning "1" 0x0001).Filed := by decide +kernel
  have hsecond : (turning "2" 0x0009).Filed := by decide +kernel
  have hreachable : catalog.ReachableFrom ApiClass.Filed := by
    apply Catalog.ReachableFrom.cleanUp
    apply Catalog.ReachableFrom.append _ _ hsecond
    apply Catalog.ReachableFrom.append _ _ hfirst
    exact Catalog.ReachableFrom.empty {}
  obtain ⟨hcatalog, hrenamed, hlisted⟩ := members_filed catalog splitter .asNoted hreachable
  have hgroup : ∃ entry ∈ catalog.classes.values,
      entry.methods.rows.map (fun row => (row.1, row.2.isGroup, row.2.toList.length)) =
        [("m()V", true, 2)] := by
    decide +kernel
  obtain ⟨entry, hentry, hrows⟩ := hgroup
  exact ⟨hcatalog, hrenamed, entry, hentry, hlisted entry (.inl hentry), hrows⟩

end ApiUnion
