import Mathlib.Data.List.Nodup
import ApiUnion.Proofs.Signature.ClassNames
import ApiUnion.Proofs.Splitting.Dividing
import ApiUnion.Proofs.Version
import ApiUnion.Splitting.Renaming

-- Groups divide the snapshots of a class among them, and the version of a snapshot leads back to
-- its group where each snapshot has a tag of its own.

namespace ApiUnion

namespace Version

theorem contains_single {version : Version} {tag : String} :
    version.contains (.single tag) ↔ ∀ set, version = .tags set → tag ∈ set.tags := by
  cases version with
  | universal => simp [contains]
  | tags set => simp [contains, single, ofTags, TagSet.subset_iff]

theorem contains_single_plus (a b : Version) (tag : String) :
    (a.plus b).contains (.single tag) ↔
      a.contains (.single tag) ∨ b.contains (.single tag) := by
  cases a <;> cases b <;> simp [plus, contains_single]

-- The tags of a version, which the universal version has none of.
def tagList : Version → List String
  | universal => []
  | tags set => set.tags

theorem tagList_single (tag : String) : (single tag).tagList = [tag] := rfl

theorem contains_single_iff_of_tagged {version : Version} (h : version.tagList ≠ [])
    {tag : String} : version.contains (.single tag) ↔ tag ∈ version.tagList := by
  cases version with
  | universal => exact absurd rfl h
  | tags set => simp [contains_single, tagList]

theorem contains_iff_of_tagged {bound version : Version} (h : version.tagList ≠ []) :
    bound.contains version ↔ ∀ tag ∈ version.tagList, bound.contains (.single tag) := by
  cases version with
  | universal => exact absurd rfl h
  | tags set =>
      cases bound with
      | universal => simp [contains]
      | tags other =>
          simp only [contains_single, tags.injEq, forall_eq']
          exact TagSet.subset_iff

end Version

-- Two lists that are the same around the last stop of each.
theorem append_stop_inj {α : Type} {stop : α} {xs ys front back : List α} (hys : stop ∉ ys)
    (hback : stop ∉ back) :
    xs ++ stop :: ys = front ++ stop :: back ↔ xs = front ∧ ys = back := by
  constructor
  · intro h
    rcases List.append_eq_append_iff.mp h with ⟨mid, rfl, hmid⟩ | ⟨mid, rfl, hmid⟩
    · cases mid with
      | nil =>
          rw [List.append_nil]
          exact ⟨rfl, (List.cons.inj hmid).2⟩
      | cons c mid =>
          refine absurd ?_ hys
          rw [(List.cons.inj hmid).2]
          exact List.mem_append_right _ List.mem_cons_self
    · cases mid with
      | nil =>
          rw [List.append_nil]
          exact ⟨rfl, (List.cons.inj hmid).2.symm⟩
      | cons c mid =>
          refine absurd ?_ hback
          rw [(List.cons.inj hmid).2]
          exact List.mem_append_right _ List.mem_cons_self
  · rintro ⟨rfl, rfl⟩
    rfl

theorem notMem_toDigits {c : Char} (hc : c.isDigit = false) (index : Nat) :
    c ∉ Nat.toDigits 10 index := by
  intro hmem
  rw [Nat.isDigit_of_mem_toDigits (by decide) (by decide) hmem] at hc
  cases hc

theorem numbered_inj {a b : String} {i j : Nat} :
    s!"{a}V{i}" = s!"{b}V{j}" ↔ a = b ∧ i = j := by
  rw [← String.toList_inj, toList_numbered, toList_numbered,
    append_stop_inj (notMem_toDigits rfl i) (notMem_toDigits rfl j), String.toList_inj,
    Renaming.toDigits_injective.eq_iff]

namespace Splitting

variable {snapshots : List ApiClass}

-- A group among the first snapshots, its members in order. The tags of its version are theirs.
structure Gathers (snapshots : List ApiClass) (count : Nat) (group : Group) : Prop where
  bounded : ∀ index ∈ group.members, index < count
  ordered : group.members.Pairwise (· < ·)
  version : ∀ tag, group.version.contains (.single tag) ↔
    ∃ index ∈ group.members, ∃ member, snapshots[index]? = some member ∧
      member.version.contains (.single tag)

structure Divided (snapshots : List ApiClass) (count : Nat) (found : List Group) : Prop where
  covered : ∀ index < count, ∃ group ∈ found, index ∈ group.members
  gathers : ∀ group ∈ found, Gathers snapshots count group

theorem Gathers.succ {count : Nat} {group : Group} (h : Gathers snapshots count group) :
    Gathers snapshots (count + 1) group :=
  ⟨fun index hindex => Nat.lt_succ_of_lt (h.bounded index hindex), h.ordered, h.version⟩

theorem gathers_single {count : Nat} {snapshot : ApiClass}
    (hsnapshot : snapshots[count]? = some snapshot) :
    Gathers snapshots (count + 1) ⟨[count], snapshot.version⟩ where
  bounded index hindex := by
    rw [List.mem_singleton.mp hindex]
    exact Nat.lt_succ_self count
  ordered := List.pairwise_singleton _ _
  version tag := by simp [hsnapshot]

theorem Gathers.add {count : Nat} {group : Group} {snapshot : ApiClass}
    (h : Gathers snapshots count group) (hsnapshot : snapshots[count]? = some snapshot) :
    Gathers snapshots (count + 1) (group.add count snapshot.version) where
  bounded index hindex := by
    rcases List.mem_append.mp hindex with hindex | hindex
    · exact Nat.lt_succ_of_lt (h.bounded index hindex)
    · rw [List.mem_singleton.mp hindex]
      exact Nat.lt_succ_self count
  ordered := by
    refine List.pairwise_append.mpr ⟨h.ordered, List.pairwise_singleton _ _, ?_⟩
    intro i hi j hj
    rw [List.mem_singleton.mp hj]
    exact h.bounded i hi
  version tag := by
    rw [Group.add, Version.contains_single_plus, h.version]
    simp [hsnapshot, or_and_right, exists_or]

theorem gathers_append {count : Nat} {found : List Group} {snapshot : ApiClass}
    (h : ∀ group ∈ found, Gathers snapshots count group)
    (hsnapshot : snapshots[count]? = some snapshot) :
    ∀ group ∈ found ++ [⟨[count], snapshot.version⟩], Gathers snapshots (count + 1) group := by
  rw [List.forall_mem_append, List.forall_mem_singleton]
  exact ⟨fun group hgroup => (h group hgroup).succ, gathers_single hsnapshot⟩

theorem gathers_add {count : Nat} {front back : List Group} {group : Group} {snapshot : ApiClass}
    (h : ∀ other ∈ front ++ group :: back, Gathers snapshots count other)
    (hsnapshot : snapshots[count]? = some snapshot) :
    ∀ other ∈ front ++ group.add count snapshot.version :: back,
      Gathers snapshots (count + 1) other := by
  rw [List.forall_mem_append, List.forall_mem_cons] at h ⊢
  obtain ⟨hfront, hgroup, hback⟩ := h
  exact ⟨fun other hother => (hfront other hother).succ, hgroup.add hsnapshot,
    fun other hother => (hback other hother).succ⟩

theorem gathers_divide (groups : Groups) (snapshots : List ApiClass) :
    ∀ group ∈ ((divide groups snapshots).run []).1,
      Gathers snapshots snapshots.length group :=
  divide_induction
    (motive := fun count found => ∀ group ∈ found, Gathers snapshots count group)
    (fun _ _ _ hsnapshot _ h => gathers_append h hsnapshot)
    (fun _ _ _ _ _ hsnapshot _ _ h => gathers_add h hsnapshot)
    (fun _ hgroup => absurd hgroup List.not_mem_nil)

-- Taken together the members are all positions, each of them once.
theorem perm_range_divide (groups : Groups) (snapshots : List ApiClass) :
    (((divide groups snapshots).run []).1.flatMap Group.members).Perm
      (List.range snapshots.length) := by
  refine divide_induction
    (motive := fun count found => (found.flatMap Group.members).Perm (List.range count))
    (fun count found snapshot _ _ h => ?_) (fun count front group back snapshot _ _ _ h => ?_)
    (List.Perm.refl [])
  · rw [List.flatMap_append, List.flatMap_singleton, List.range_succ]
    exact h.append_right [count]
  · rw [List.flatMap_append, List.flatMap_cons, Group.add, List.append_assoc, List.range_succ]
    refine List.Perm.trans ?_ (h.append_right [count])
    rw [List.flatMap_append, List.flatMap_cons, List.append_assoc, List.append_assoc]
    exact (List.perm_append_comm.append_left group.members).append_left _

theorem divided_divide (groups : Groups) (snapshots : List ApiClass) :
    Divided snapshots snapshots.length ((divide groups snapshots).run []).1 where
  covered _ hindex :=
    List.mem_flatMap.mp ((perm_range_divide groups snapshots).mem_iff.mpr
      (List.mem_range.mpr hindex))
  gathers := gathers_divide groups snapshots

theorem Divided.exists_index {found : List Group} (h : Divided snapshots snapshots.length found)
    {i : Nat} {a : ApiClass} (ha : snapshots[i]? = some a) :
    ∃ (index : Nat) (group : Group), found[index]? = some group ∧ i ∈ group.members := by
  obtain ⟨hi, -⟩ := List.getElem?_eq_some_iff.mp ha
  obtain ⟨group, hgroup, hmem⟩ := h.covered i hi
  obtain ⟨index, hindex⟩ := List.mem_iff_getElem?.mp hgroup
  exact ⟨index, group, hindex, hmem⟩

-- No snapshot is in two groups.
def Parted (found : List Group) : Prop :=
  found.Pairwise fun a b => a.members.Disjoint b.members

theorem parted_divide (groups : Groups) (snapshots : List ApiClass) :
    Parted ((divide groups snapshots).run []).1 :=
  (List.nodup_flatMap.mp ((perm_range_divide groups snapshots).nodup_iff.mpr
    List.nodup_range)).2

-- No version is without a tag, and no two have a tag in common.
structure Apart (snapshots : List ApiClass) : Prop where
  tagged : ∀ snapshot ∈ snapshots, snapshot.version.tagList ≠ []
  disjoint : snapshots.Pairwise fun a b => ∀ tag ∈ a.version.tagList, tag ∉ b.version.tagList

theorem Apart.index_eq (h : Apart snapshots) {i j : Nat} {a b : ApiClass}
    (ha : snapshots[i]? = some a) (hb : snapshots[j]? = some b) {tag : String}
    (hmem : tag ∈ a.version.tagList) (hother : tag ∈ b.version.tagList) : i = j := by
  obtain ⟨hi, rfl⟩ := List.getElem?_eq_some_iff.mp ha
  obtain ⟨hj, rfl⟩ := List.getElem?_eq_some_iff.mp hb
  have hdisjoint := List.pairwise_iff_getElem.mp h.disjoint
  rcases Nat.lt_trichotomy i j with hlt | heq | hlt
  · exact absurd hother (hdisjoint i j hi hj hlt tag hmem)
  · exact heq
  · exact absurd hmem (hdisjoint j i hj hi hlt tag hother)

theorem Apart.contains_iff (h : Apart snapshots) {group : Group}
    (hgroup : Gathers snapshots snapshots.length group) {i : Nat} {a : ApiClass}
    (ha : snapshots[i]? = some a) : group.version.contains a.version ↔ i ∈ group.members := by
  have htagged := h.tagged a (List.mem_of_getElem? ha)
  rw [Version.contains_iff_of_tagged htagged]
  constructor
  · intro hall
    obtain ⟨tag, htag⟩ := List.exists_mem_of_ne_nil _ htagged
    obtain ⟨j, hj, member, hmember, hcontains⟩ := (hgroup.version tag).mp (hall tag htag)
    have hother := h.tagged member (List.mem_of_getElem? hmember)
    rw [Version.contains_single_iff_of_tagged hother] at hcontains
    rwa [h.index_eq ha hmember htag hcontains]
  · intro hmem tag htag
    exact (hgroup.version tag).mpr
      ⟨i, hmem, a, ha, (Version.contains_single_iff_of_tagged htagged).mpr htag⟩

variable {groups : Groups} {found : List Group} {name : String}

-- The group that is looked up for the version of a snapshot is the one that it is in.
theorem Apart.resolve? (h : Apart snapshots) (hfound : Divided snapshots snapshots.length found)
    (hparted : Parted found) (hget : groups.get? name = some found) {i index : Nat} {a : ApiClass}
    {group : Group} (ha : snapshots[i]? = some a) (hgroup : found[index]? = some group)
    (hmem : i ∈ group.members) : groups.resolve? name a.version = some index := by
  obtain ⟨hlt, rfl⟩ := List.getElem?_eq_some_iff.mp hgroup
  have hcontains (group : Group) (hgroup : group ∈ found) :=
    h.contains_iff (hfound.gathers group hgroup) ha
  rw [Groups.resolve?, hget]
  refine List.findIdx?_eq_some_iff_getElem.mpr
    ⟨hlt, (hcontains _ (List.getElem_mem hlt)).mpr hmem, fun j hj hearlier => ?_⟩
  have hother := (hcontains _ (List.getElem_mem (Nat.lt_trans hj hlt))).mp hearlier
  exact List.pairwise_iff_getElem.mp hparted j index _ hlt hj hother hmem

theorem Apart.nameIn (h : Apart snapshots) (hfound : Divided snapshots snapshots.length found)
    (hparted : Parted found) (hget : groups.get? name = some found) {i index : Nat} {a : ApiClass}
    {group : Group} (ha : snapshots[i]? = some a) (hgroup : found[index]? = some group)
    (hmem : i ∈ group.members) :
    groups.nameIn a.version name =
      if found.length ≤ 1 then name else s!"{name}V{index}" := by
  have hindex := h.resolve? hfound hparted hget ha hgroup hmem
  unfold Groups.nameIn
  simp only [hget, hindex]
  match found with
  | [] | [_] => rfl
  | first :: second :: rest => rw [if_neg (by simp)]

-- No two snapshots share a tag.
structure Tagged (snapshots : List ApiClass) : Prop where
  single : ∀ snapshot ∈ snapshots, ∃ tag, snapshot.version = .single tag
  distinct : snapshots.Pairwise fun a b => a.version ≠ b.version

theorem Tagged.apart (h : Tagged snapshots) : Apart snapshots where
  tagged snapshot hsnapshot := by
    obtain ⟨tag, htag⟩ := h.single snapshot hsnapshot
    rw [htag, Version.tagList_single]
    exact List.cons_ne_nil _ _
  disjoint := h.distinct.imp_of_mem fun {a b} ha hb hne tag htag hother => by
    obtain ⟨first, hfirst⟩ := h.single a ha
    obtain ⟨second, hsecond⟩ := h.single b hb
    rw [hfirst, Version.tagList_single, List.mem_singleton] at htag
    rw [hsecond, Version.tagList_single, List.mem_singleton] at hother
    exact hne (by rw [hfirst, hsecond, ← htag, hother])

-- Snapshots that come under one name are of one group.
theorem Apart.exists_group (h : Apart snapshots)
    (hfound : Divided snapshots snapshots.length found) (hparted : Parted found)
    (hget : groups.get? name = some found) {i j : Nat} {a b : ApiClass}
    (ha : snapshots[i]? = some a) (hb : snapshots[j]? = some b)
    (hname : groups.nameIn a.version name = groups.nameIn b.version name) :
    ∃ group ∈ found, i ∈ group.members ∧ j ∈ group.members := by
  obtain ⟨index, group, hgroup, hi⟩ := hfound.exists_index ha
  obtain ⟨index', group', hgroup', hj⟩ := hfound.exists_index hb
  suffices hsame : index = index' by
    obtain rfl := hsame
    obtain rfl := Option.some.inj (hgroup.symm.trans hgroup')
    exact ⟨group, List.mem_of_getElem? hgroup, hi, hj⟩
  rw [h.nameIn hfound hparted hget ha hgroup hi,
    h.nameIn hfound hparted hget hb hgroup' hj] at hname
  split at hname
  · -- There is one group at most.
    obtain ⟨hlt, -⟩ := List.getElem?_eq_some_iff.mp hgroup
    obtain ⟨hlt', -⟩ := List.getElem?_eq_some_iff.mp hgroup'
    omega
  · exact (numbered_inj.mp hname).2

theorem Tagged.mergeable? (h : Tagged snapshots)
    (hfound : Divided snapshots snapshots.length found) (hparted : Parted found)
    (hget : groups.get? name = some found)
    (hmergeable : ∀ group ∈ found, GroupMergeable groups snapshots group) {i j : Nat}
    {a b : ApiClass} (ha : snapshots[i]? = some a) (hb : snapshots[j]? = some b) (hlt : i < j)
    (hname : groups.nameIn a.version name = groups.nameIn b.version name) :
    mergeable? groups a b := by
  obtain ⟨group, hgroup, hi, hj⟩ := h.apart.exists_group hfound hparted hget ha hb hname
  obtain ⟨p, hp, rfl⟩ := List.mem_iff_getElem.mp hi
  obtain ⟨q, hq, rfl⟩ := List.mem_iff_getElem.mp hj
  have hordered := List.pairwise_iff_getElem.mp (hfound.gathers group hgroup).ordered
  have hpq : p < q := by
    rcases Nat.lt_trichotomy p q with hlt | rfl | hgt
    · exact hlt
    · exact absurd hlt (Nat.lt_irrefl _)
    · exact absurd (hordered q p hq hp hgt) (Nat.lt_asymm hlt)
  exact List.pairwise_iff_getElem.mp (hmergeable group hgroup) p q hp hq hpq a b ha hb

end Splitting

end ApiUnion
