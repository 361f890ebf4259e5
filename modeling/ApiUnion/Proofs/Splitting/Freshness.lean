import ApiUnion.Proofs.Splitting.Unsplit

-- The names that split classes get. Groups of one class are told apart by their numbers and groups
-- of two by what comes in front. Only a class that is not split can have the name of a group, since
-- it keeps the name it has, whatever that is.

namespace ApiUnion

namespace Splitting

instance (snapshots : List ApiClass) : Decidable (Apart snapshots) :=
  decidable_of_iff ((∀ snapshot ∈ snapshots, snapshot.version.tagList ≠ []) ∧
    snapshots.Pairwise fun a b => ∀ tag ∈ a.version.tagList, tag ∉ b.version.tagList)
    ⟨fun h => ⟨h.1, h.2⟩, fun h => ⟨h.tagged, h.disjoint⟩⟩

end Splitting

namespace Splitter

open Splitting

-- The position, among the groups of its class, of one that a snapshot is in.
def Placed (splitter : Splitter) (snapshot : ApiClass) (index : Nat) : Prop :=
  ∃ group ∈ (splitter.groupsOf snapshot.name)[index]?, ∃ i ∈ group.members,
    (splitter.snapshotsOf snapshot.name)[i]? = some snapshot

-- Snapshots of one class in one group.
def Together (splitter : Splitter) (a b : ApiClass) : Prop :=
  a.name = b.name ∧ ∃ index, splitter.Placed a index ∧ splitter.Placed b index

-- A class that is not split, under the name of a group of one that is.
def Shadows (splitter : Splitter) (kept split : ApiClass) : Prop :=
  (splitter.groupsOf kept.name).length ≤ 1 ∧ 1 < (splitter.groupsOf split.name).length ∧
    ∃ index, splitter.Placed split index ∧ kept.name = s!"{split.name}V{index}"

theorem Placed.index_lt {splitter : Splitter} {snapshot : ApiClass} {index : Nat}
    (h : splitter.Placed snapshot index) : index < (splitter.groupsOf snapshot.name).length := by
  obtain ⟨group, hgroup, -⟩ := h
  exact (List.getElem?_eq_some_iff.mp hgroup).1

section Order

variable (order : QueueOrder) {snapshots : List ApiClass} {a b : ApiClass}

theorem exists_groups_grouped (ha : a ∈ snapshots) :
    ∃ found, (grouped order snapshots).groups.get? a.name = some found ∧
      Divided ((grouped order snapshots).snapshotsOf a.name)
        ((grouped order snapshots).snapshotsOf a.name).length found ∧ Parted found := by
  have hname : a.name ∈ (grouped order snapshots).snapshots.keys := by
    rw [keys_grouped order, Catalog.mem_firstSeen]
    exact ⟨a, ha, rfl⟩
  obtain ⟨found, hfound⟩ :=
    Option.isSome_iff_exists.mp (isSome_groups_grouped order snapshots a.name hname)
  obtain ⟨groups, rfl⟩ := computed_grouped order snapshots a.name found hfound
  exact ⟨_, hfound, divided_divide groups _, parted_divide groups _⟩

theorem exists_placed (ha : a ∈ snapshots) : ∃ index, (grouped order snapshots).Placed a index := by
  obtain ⟨found, hfound, hdivided, -⟩ := exists_groups_grouped order ha
  have hmem : a ∈ (grouped order snapshots).snapshotsOf a.name := by
    rw [snapshotsOf_grouped]
    exact List.mem_filter.mpr ⟨ha, decide_eq_true rfl⟩
  obtain ⟨i, hi⟩ := List.mem_iff_getElem?.mp hmem
  obtain ⟨index, group, hgroup, hmember⟩ := hdivided.exists_index hi
  refine ⟨index, group, ?_, i, hmember, hi⟩
  rwa [groupsOf, hfound]

theorem resolve?_of_placed (ha : a ∈ snapshots)
    (hapart : Apart ((grouped order snapshots).snapshotsOf a.name)) {index : Nat}
    (h : (grouped order snapshots).Placed a index) :
    (grouped order snapshots).groups.resolve? a.name a.version = some index := by
  obtain ⟨found, hfound, hdivided, hparted⟩ := exists_groups_grouped order ha
  obtain ⟨group, hgroup, i, hmember, hi⟩ := h
  rw [groupsOf, hfound] at hgroup
  exact hapart.resolve? hdivided hparted hfound hi hgroup hmember

theorem placed_unique (ha : a ∈ snapshots)
    (hapart : Apart ((grouped order snapshots).snapshotsOf a.name)) {i j : Nat}
    (hi : (grouped order snapshots).Placed a i) (hj : (grouped order snapshots).Placed a j) :
    i = j :=
  Option.some.inj ((resolve?_of_placed order ha hapart hi).symm.trans
    (resolve?_of_placed order ha hapart hj))

theorem name_renameOne (ha : a ∈ snapshots)
    (hapart : Apart ((grouped order snapshots).snapshotsOf a.name)) {index : Nat}
    (h : (grouped order snapshots).Placed a index) :
    (renameOne (grouped order snapshots).groups a).name =
      if ((grouped order snapshots).groupsOf a.name).length ≤ 1 then a.name
      else s!"{a.name}V{index}" := by
  obtain ⟨found, hfound, hdivided, hparted⟩ := exists_groups_grouped order ha
  obtain ⟨group, hgroup, i, hmember, hi⟩ := h
  have hgroups : (grouped order snapshots).groupsOf a.name = found := by
    rw [groupsOf, hfound, Option.getD_some]
  rw [hgroups] at hgroup ⊢
  exact hapart.nameIn hdivided hparted hfound hi hgroup hmember

theorem name_eq_name_iff (ha : a ∈ snapshots) (hb : b ∈ snapshots)
    (hapartA : Apart ((grouped order snapshots).snapshotsOf a.name))
    (hapartB : Apart ((grouped order snapshots).snapshotsOf b.name)) :
    (renameOne (grouped order snapshots).groups a).name =
        (renameOne (grouped order snapshots).groups b).name ↔
      (grouped order snapshots).Together a b ∨ (grouped order snapshots).Shadows a b ∨
        (grouped order snapshots).Shadows b a := by
  obtain ⟨i, hi⟩ := exists_placed order ha
  obtain ⟨j, hj⟩ := exists_placed order hb
  have hi' := hi.index_lt
  have hj' := hj.index_lt
  rw [name_renameOne order ha hapartA hi, name_renameOne order hb hapartB hj]
  constructor
  · intro hname
    split at hname <;> split at hname
    · -- Neither class is split, so each has one group.
      rename_i hone hone'
      refine .inl ⟨hname, i, hi, ?_⟩
      have hij : i = j := by omega
      rwa [hij]
    · rename_i hone hmany
      exact .inr (.inl ⟨hone, by omega, j, hj, hname⟩)
    · rename_i hmany hone
      exact .inr (.inr ⟨hone, by omega, i, hi, hname.symm⟩)
    · obtain ⟨hclass, rfl⟩ := numbered_inj.mp hname
      exact .inl ⟨hclass, i, hi, hj⟩
  · rintro (⟨hclass, index, hindex, hindex'⟩ | ⟨hone, hmany, index, hindex, hname⟩ |
      ⟨hone, hmany, index, hindex, hname⟩)
    · obtain rfl := placed_unique order ha hapartA hi hindex
      obtain rfl := placed_unique order hb hapartB hj hindex'
      rw [hclass]
    · obtain rfl := placed_unique order hb hapartB hj hindex
      rw [if_pos hone, if_neg (by omega), hname]
    · obtain rfl := placed_unique order ha hapartA hi hindex
      rw [if_pos hone, if_neg (by omega), hname]

-- Snapshots need not be grouped before they are renamed.
theorem renamed_foldl_add (snapshots : List ApiClass) :
    (snapshots.foldl add {}).renamed order = (grouped order snapshots).renamed order := by
  rw [renamed_of_isSome _ order (isSome_groups_grouped order snapshots), renamed, groups_foldl_add]
  simp only [Table.values, List.flatMap_map]
  rfl

end Order

-- Snapshots come under one name if they are of one group, or if one is of a class that is called
-- like the group of the other. Each keeps its methods, and its fields unless two of them clash. The
-- groups may be those of any order of grouping.
theorem renamed_of_apart (order : QueueOrder) (snapshots : List ApiClass)
    (hapart : ∀ name ∈ Catalog.firstSeen snapshots,
      Apart (snapshots.filter fun snapshot => snapshot.name = name)) :
    (snapshots.foldl add {}).renamed order = (grouped order snapshots).renamed order ∧
      (grouped order snapshots).renamed order = (Catalog.firstSeen snapshots).flatMap (fun name =>
        (snapshots.filter fun snapshot => snapshot.name = name).map
          (renameOne (grouped order snapshots).groups)) ∧
      (∀ a ∈ snapshots, ∃! index, (grouped order snapshots).Placed a index) ∧
      (∀ a ∈ snapshots, ∀ b ∈ snapshots,
        ((renameOne (grouped order snapshots).groups a).name =
            (renameOne (grouped order snapshots).groups b).name ↔
          (grouped order snapshots).Together a b ∨ (grouped order snapshots).Shadows a b ∨
            (grouped order snapshots).Shadows b a)) ∧
      ∀ a ∈ snapshots,
        (renameOne (grouped order snapshots).groups a).allMethods.length = a.allMethods.length ∧
          ((∀ row ∈ a.fields.rows, row.2.key = row.1) →
            ((renameOne (grouped order snapshots).groups a).fields.size = a.fields.size ↔
              ∀ changed ∈ a.fields.values, ∀ kept ∈ a.fields.values,
                ¬ Clash ((grouped order snapshots).groups.nameIn a.version) changed kept)) := by
  have hclass (a : ApiClass) (ha : a ∈ snapshots) :
      Apart ((grouped order snapshots).snapshotsOf a.name) := by
    rw [snapshotsOf_grouped]
    exact hapart a.name ((Catalog.mem_firstSeen snapshots a.name).mpr ⟨a, ha, rfl⟩)
  refine ⟨renamed_foldl_add order snapshots, renamed_grouped order snapshots, fun a ha => ?_,
    fun a ha b hb => name_eq_name_iff order ha hb (hclass a ha) (hclass b hb), fun a ha => ⟨?_, ?_⟩⟩
  · obtain ⟨index, hindex⟩ := exists_placed order ha
    exact ⟨index, hindex, fun other hother => placed_unique order ha (hclass a ha) hother hindex⟩
  · have hmethods :=
      allMethods_renameClass ((grouped order snapshots).groups.nameIn a.version) a
    rw [renameOne, hmethods.length_eq, List.length_map]
  · exact size_fields_renameClass (Groups.numbersNames_nameIn _ _)

-- A class with a field and a method of another class.
def holding (version : Version) (name : String) (descriptors : List String) : ApiClass :=
  { seenIn "" name 0x0001 none none with
    version := version
    fields := .ofRows (descriptors.map fun descriptor =>
      (memberKey "x" descriptor, { access := ⟨0x0001⟩, name := "x", descriptor := descriptor }))
    methods := .ofRows [("m(Lp/A;)V", .single
      { access := ⟨0x0001⟩, name := "m", descriptor := "(Lp/A;)V" })] }

-- A class of two versions that is an interface in a third.
def departing : List ApiClass :=
  [{ seenIn "" "p/A" 0x0001 none none with version := .ofTags ["1", "2"] },
    holding (.ofTags ["1", "2"]) "p/B" ["Lp/A;", "[Lp/A;", "I"],
    { seenIn "" "p/A" 0x0601 none none with version := .ofTags ["3"] },
    holding (.ofTags ["3"]) "p/B" ["Lp/A;", "Lp/AV0;"]]

theorem renamed_of_apart_departing :
    ((grouped .asNoted departing).renamed .asNoted).map ApiClass.name =
        ["p/AV0", "p/AV1", "p/B", "p/B"] ∧
      (∀ a ∈ departing, ∀ b ∈ departing,
        ((renameOne (grouped .asNoted departing).groups a).name =
            (renameOne (grouped .asNoted departing).groups b).name ↔
          (grouped .asNoted departing).Together a b ∨ (grouped .asNoted departing).Shadows a b ∨
            (grouped .asNoted departing).Shadows b a)) ∧
      ∀ a ∈ departing,
        (renameOne (grouped .asNoted departing).groups a).allMethods.length = a.allMethods.length ∧
          (renameOne (grouped .asNoted departing).groups a).fields.size = a.fields.size := by
  obtain ⟨-, -, -, hnames, hmembers⟩ := renamed_of_apart .asNoted departing (by decide +kernel)
  have hkeys : ∀ a ∈ departing, ∀ row ∈ a.fields.rows, row.2.key = row.1 := by decide +kernel
  have hclash : ∀ a ∈ departing, ∀ changed ∈ a.fields.values, ∀ kept ∈ a.fields.values,
      ¬ Clash ((grouped .asNoted departing).groups.nameIn a.version) changed kept := by
    decide +kernel
  exact ⟨by decide +kernel, hnames, fun a ha =>
    ⟨(hmembers a ha).1, ((hmembers a ha).2 (hkeys a ha)).mpr (hclash a ha)⟩⟩

-- A class that has the name of a group of another one, and a third that holds both.
def shadowed : List ApiClass :=
  [seenIn "1" "p/A" 0x0001 none none, seenIn "2" "p/A" 0x0601 none none,
    seenIn "1" "p/AV0" 0x0001 none none, holding (.single "1") "p/B" ["Lp/A;", "Lp/AV0;"]]

-- Nothing keeps the names of groups apart from those that classes have already.
theorem not_fresh_shadowed :
    (¬ ∃ order : QueueOrder, ∀ snapshots : List ApiClass, (∀ name ∈ Catalog.firstSeen snapshots,
        Apart (snapshots.filter fun snapshot => snapshot.name = name)) →
      ∀ a ∈ snapshots, ∀ b ∈ snapshots,
        ((renameOne (grouped order snapshots).groups a).name =
            (renameOne (grouped order snapshots).groups b).name ↔
          (grouped order snapshots).Together a b)) ∧
      ¬ ∃ order : QueueOrder, ∀ snapshots : List ApiClass, (∀ name ∈ Catalog.firstSeen snapshots,
          Apart (snapshots.filter fun snapshot => snapshot.name = name)) →
        ∀ a ∈ snapshots, (∀ row ∈ a.fields.rows, row.2.key = row.1) →
          (renameOne (grouped order snapshots).groups a).fields.size = a.fields.size := by
  have hapart : ∀ name ∈ Catalog.firstSeen shadowed,
      Apart (shadowed.filter fun snapshot => snapshot.name = name) := by decide +kernel
  have hgrouped (order : QueueOrder) : grouped order shadowed = grouped .asNoted shadowed :=
    grouped_of_isOrderless order .asNoted (by decide +kernel)
  constructor
  · rintro ⟨order, h⟩
    have hiff := h shadowed hapart (seenIn "1" "p/A" 0x0001 none none) (by decide +kernel)
      (seenIn "1" "p/AV0" 0x0001 none none) (by decide +kernel)
    rw [hgrouped order] at hiff
    exact absurd (hiff.mp (by decide +kernel)).1 (by decide +kernel)
  · rintro ⟨order, h⟩
    have hsize := h shadowed hapart (holding (.single "1") "p/B" ["Lp/A;", "Lp/AV0;"])
      (by decide +kernel) (by decide +kernel)
    rw [hgrouped order] at hsize
    exact absurd hsize (by decide +kernel)

end Splitter

end ApiUnion
