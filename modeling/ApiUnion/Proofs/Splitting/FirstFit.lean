import ApiUnion.Proofs.Splitting.Freshness

-- A snapshot joins the first group that it can be merged with throughout. So every group is kept
-- out of the ones before it by its members, and the version of a snapshot leads back to its group.

namespace ApiUnion

def Group.versions (snapshots : List ApiClass) (group : Group) : List Version :=
  group.members.filterMap fun index => snapshots[index]?.map ApiClass.version

namespace Splitting

-- Each member of the second group can not be merged with some member of the first that came before.
def KeptOut (groups : Groups) (snapshots : List ApiClass) (first second : Group) : Prop :=
  ∀ j ∈ second.members, ∃ i ∈ first.members, i < j ∧
    ∃ a b, snapshots[i]? = some a ∧ snapshots[j]? = some b ∧ ¬ mergeable? groups a b

structure FirstFit (groups : Groups) (snapshots : List ApiClass) (found : List Group) : Prop where
  -- Taken together the members are all positions, each of them once.
  members : (found.flatMap Group.members).Perm (List.range snapshots.length)
  inhabited : ∀ group ∈ found, group.members ≠ []
  ascending : ∀ group ∈ found, group.members.Pairwise (· < ·)
  ordered : found.Pairwise fun a b => ∀ i ∈ a.members.head?, ∀ j ∈ b.members.head?, i < j
  version : ∀ group ∈ found, Version.join? (group.versions snapshots) = some group.version
  mergeable : ∀ group ∈ found, GroupMergeable groups snapshots group
  keptOut : found.Pairwise (KeptOut groups snapshots)

variable {groups : Groups} {snapshots : List ApiClass}

theorem versions_single {index : Nat} {snapshot : ApiClass}
    (hsnapshot : snapshots[index]? = some snapshot) (version : Version) :
    Group.versions snapshots ⟨[index], version⟩ = [snapshot.version] := by
  simp [Group.versions, hsnapshot]

theorem versions_add {group : Group} {index : Nat} {snapshot : ApiClass}
    (hsnapshot : snapshots[index]? = some snapshot) (version : Version) :
    (group.add index version).versions snapshots =
      group.versions snapshots ++ [snapshot.version] := by
  simp [Group.versions, Group.add, hsnapshot]

theorem join?_versions_divide (groups : Groups) (snapshots : List ApiClass) :
    ∀ group ∈ ((divide groups snapshots).run []).1,
      Version.join? (group.versions snapshots) = some group.version := by
  refine divide_induction
    (motive := fun _ found => ∀ group ∈ found,
      Version.join? (group.versions snapshots) = some group.version)
    (fun count found snapshot hsnapshot _ h => ?_)
    (fun count front group back snapshot hsnapshot _ _ h => ?_)
    (fun group hgroup => absurd hgroup List.not_mem_nil)
  · rw [List.forall_mem_append, List.forall_mem_singleton]
    exact ⟨h, by rw [versions_single hsnapshot, Version.join?_singleton]⟩
  · rw [List.forall_mem_append, List.forall_mem_cons] at h ⊢
    obtain ⟨hfront, hgroup, hback⟩ := h
    refine ⟨hfront, ?_, hback⟩
    rw [versions_add hsnapshot, Version.join?_append, hgroup, Version.join?_singleton,
      Version.plus?_some, Group.add]

theorem exists_refusal {group : Group} {snapshot : ApiClass}
    (h : ¬ Fits groups snapshots group snapshot) :
    ∃ i ∈ group.members, ∃ a, snapshots[i]? = some a ∧ ¬ mergeable? groups a snapshot := by
  by_contra hnone
  refine h fun i hi a ha => ?_
  by_contra hrefused
  exact hnone ⟨i, hi, a, ha, hrefused⟩

-- A snapshot that does not fit a group may be in a later one.
theorem keptOut_of_not_fits {count : Nat} {first : Group} {snapshot : ApiClass}
    (hfirst : Gathers snapshots count first) (hsnapshot : snapshots[count]? = some snapshot)
    (h : ¬ Fits groups snapshots first snapshot) (version : Version) :
    KeptOut groups snapshots first ⟨[count], version⟩ := by
  intro j hj
  obtain rfl := List.mem_singleton.mp hj
  obtain ⟨i, hi, a, ha, hrefused⟩ := exists_refusal h
  exact ⟨i, hi, hfirst.bounded i hi, a, snapshot, ha, hsnapshot, hrefused⟩

theorem KeptOut.add_left {first second : Group} (h : KeptOut groups snapshots first second)
    (index : Nat) (version : Version) :
    KeptOut groups snapshots (first.add index version) second := by
  intro j hj
  obtain ⟨i, hi, hrefused⟩ := h j hj
  exact ⟨i, List.mem_append_left _ hi, hrefused⟩

theorem KeptOut.add_right {count : Nat} {first second : Group} {version : Version}
    (h : KeptOut groups snapshots first second)
    (hcount : KeptOut groups snapshots first ⟨[count], version⟩) :
    KeptOut groups snapshots first (second.add count version) := by
  intro j hj
  rcases List.mem_append.mp hj with hj | hj
  · exact h j hj
  · exact hcount j hj

theorem keptOut_divide (groups : Groups) (snapshots : List ApiClass) :
    ((divide groups snapshots).run []).1.Pairwise (KeptOut groups snapshots) := by
  -- That positions are bounded comes along, for only earlier members can keep a snapshot out.
  suffices h : (∀ group ∈ ((divide groups snapshots).run []).1,
      Gathers snapshots snapshots.length group) ∧
      ((divide groups snapshots).run []).1.Pairwise (KeptOut groups snapshots) from h.2
  refine divide_induction
    (motive := fun count found => (∀ group ∈ found, Gathers snapshots count group) ∧
      found.Pairwise (KeptOut groups snapshots))
    (fun count found snapshot hsnapshot hnone h => ?_)
    (fun count front group back snapshot hsnapshot hfront _ h => ?_)
    ⟨fun group hgroup => absurd hgroup List.not_mem_nil, List.Pairwise.nil⟩
  · obtain ⟨hgathers, hkept⟩ := h
    refine ⟨gathers_append hgathers hsnapshot,
      List.pairwise_append.mpr ⟨hkept, List.pairwise_singleton _ _, fun first hfirst => ?_⟩⟩
    rw [List.forall_mem_singleton]
    exact keptOut_of_not_fits (hgathers first hfirst) hsnapshot (hnone first hfirst) _
  · obtain ⟨hgathers, hkept⟩ := h
    refine ⟨gathers_add hgathers hsnapshot, ?_⟩
    rw [List.pairwise_append, List.pairwise_cons] at hkept ⊢
    obtain ⟨hfronts, ⟨hgroup, hbacks⟩, hacross⟩ := hkept
    refine ⟨hfronts, ⟨fun other hother => (hgroup other hother).add_left _ _, hbacks⟩,
      fun first hfirst => ?_⟩
    have hfirstAcross := hacross first hfirst
    rw [List.forall_mem_cons] at hfirstAcross ⊢
    refine ⟨hfirstAcross.1.add_right ?_, hfirstAcross.2⟩
    exact keptOut_of_not_fits (hgathers first (List.mem_append_left _ hfirst)) hsnapshot
      (hfront first hfirst) _

theorem head_le_of_ascending {list : List Nat} (h : list.Pairwise (· < ·)) {first i : Nat}
    (hfirst : first ∈ list.head?) (hi : i ∈ list) : first ≤ i := by
  cases list with
  | nil => cases hi
  | cons head rest =>
      obtain rfl := Option.some.inj hfirst
      rcases List.mem_cons.mp hi with rfl | hi
      · exact Nat.le_refl _
      · exact Nat.le_of_lt (List.rel_of_pairwise_cons h hi)

theorem firstFit_divide (groups : Groups) (snapshots : List ApiClass) :
    FirstFit groups snapshots ((divide groups snapshots).run []).1 where
  members := perm_range_divide groups snapshots
  inhabited group hgroup hnil := by
    have hversion := join?_versions_divide groups snapshots group hgroup
    rw [Group.versions, hnil] at hversion
    cases hversion
  ascending group hgroup := (gathers_divide groups snapshots group hgroup).ordered
  ordered := by
    refine (keptOut_divide groups snapshots).imp_of_mem fun {a b} ha _ hkept i hi j hj => ?_
    -- The first of the later group came after some member of the earlier one.
    obtain ⟨earlier, hearlier, hlt, -⟩ := hkept j (List.mem_of_head? hj)
    have hascending := (gathers_divide groups snapshots a ha).ordered
    exact Nat.lt_of_le_of_lt (head_le_of_ascending hascending hi hearlier) hlt
  version := join?_versions_divide groups snapshots
  mergeable := groupMergeable_divide groups snapshots
  keptOut := keptOut_divide groups snapshots

theorem Divided.existsUnique_index {found : List Group}
    (h : Divided snapshots snapshots.length found) (hparted : Parted found) {i : Nat}
    (hi : i < snapshots.length) : ∃! index : Nat, ∃ group ∈ found[index]?, i ∈ group.members := by
  obtain ⟨index, group, hgroup, hmem⟩ := h.exists_index (List.getElem?_eq_getElem hi)
  refine ⟨index, ⟨group, hgroup, hmem⟩, ?_⟩
  rintro other ⟨second, hsecond, hother⟩
  obtain ⟨hlt, rfl⟩ := List.getElem?_eq_some_iff.mp hgroup
  obtain ⟨hlt', rfl⟩ := List.getElem?_eq_some_iff.mp hsecond
  have hdisjoint := List.pairwise_iff_getElem.mp hparted
  rcases Nat.lt_trichotomy index other with hearlier | heq | hlater
  · exact absurd hother (hdisjoint index other hlt hlt' hearlier hmem)
  · exact heq.symm
  · exact absurd hmem (hdisjoint other index hlt' hlt hlater hother)

end Splitting

namespace Splitter

open Splitting

-- Each snapshot is in one group, the first that it can be merged with throughout. Where versions
-- are apart, the class is then found in that group, whether it is looked up or renamed.
theorem computeGroups_firstFit (splitter : Splitter) (name : String) :
    FirstFit splitter.groups (splitter.snapshotsOf name) (splitter.computeGroups name).1 ∧
      (∀ i < (splitter.snapshotsOf name).length,
        ∃! index : Nat, ∃ group ∈ (splitter.computeGroups name).1[index]?, i ∈ group.members) ∧
      (Apart (splitter.snapshotsOf name) →
        ∀ (index : Nat), ∀ group ∈ (splitter.computeGroups name).1[index]?,
          ∀ i ∈ group.members, ∀ snapshot ∈ (splitter.snapshotsOf name)[i]?,
            let stored := splitter.setGroups name (splitter.computeGroups name).1
            stored.groups.resolve? name snapshot.version = some index ∧
              stored.groups.nameIn snapshot.version name =
                if (splitter.computeGroups name).1.length ≤ 1 then name
                else s!"{name}V{index}") := by
  have hdivided := divided_divide splitter.groups (splitter.snapshotsOf name)
  have hparted := parted_divide splitter.groups (splitter.snapshotsOf name)
  refine ⟨firstFit_divide splitter.groups (splitter.snapshotsOf name),
    fun i hi => hdivided.existsUnique_index hparted hi,
    fun hapart index group hgroup i hi snapshot hsnapshot => ?_⟩
  have hget : (splitter.setGroups name (splitter.computeGroups name).1).groups.get? name =
      some (splitter.computeGroups name).1 := by
    rw [setGroups, Table.get?_insert, if_pos rfl]
  exact ⟨hapart.resolve? hdivided hparted hget hsnapshot hgroup hi,
    hapart.nameIn hdivided hparted hget hsnapshot hgroup hi⟩

-- A class that is an interface for one version and then a class again.
def returning : Splitter :=
  [{ seenIn "" "p/A" 0x0001 none none with version := .ofTags ["1", "2"] },
    seenIn "3" "p/A" 0x0601 none none, seenIn "4" "p/A" 0x0001 none none].foldl add {}

theorem computeGroups_firstFit_returning :
    (returning.computeGroups "p/A").1 =
        [⟨[0, 2], .ofTags ["1", "2", "4"]⟩, ⟨[1], .single "3"⟩] ∧
      let stored := returning.setGroups "p/A" (returning.computeGroups "p/A").1
      stored.groups.resolve? "p/A" (.single "4") = some 0 ∧
        stored.groups.nameIn (.single "4") "p/A" = "p/AV0" := by
  have hgroups : (returning.computeGroups "p/A").1 =
      [⟨[0, 2], .ofTags ["1", "2", "4"]⟩, ⟨[1], .single "3"⟩] := by decide +kernel
  obtain ⟨-, -, hresolve⟩ := computeGroups_firstFit returning "p/A"
  obtain ⟨hindex, hname⟩ := hresolve (by decide +kernel) 0
    ⟨[0, 2], .ofTags ["1", "2", "4"]⟩ (by rw [hgroups]; rfl) 2 (by decide)
    (seenIn "4" "p/A" 0x0001 none none) rfl
  refine ⟨hgroups, hindex, hname.trans ?_⟩
  rw [hgroups]
  rfl

end Splitter

end ApiUnion
