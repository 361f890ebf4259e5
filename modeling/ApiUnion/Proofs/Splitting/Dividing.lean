import ApiUnion.Proofs.Splitting.Noting

-- Snapshots join one group after the other. What every step of that keeps holds of the groups in
-- the end, and first of all that those of one group can be merged.

namespace ApiUnion

namespace Splitting

-- The answer alone, without what was noted.
def mergeable? (groups : Groups) (a b : ApiClass) : Bool :=
  ((mergeable groups a b).run []).1

-- Of any two members, the one that came first can be merged with the other.
def GroupMergeable (groups : Groups) (snapshots : List ApiClass) (group : Group) : Prop :=
  group.members.Pairwise fun i j => ∀ a b, snapshots[i]? = some a → snapshots[j]? = some b →
    mergeable? groups a b

theorem allM_cons {α : Type} (request : α → Noting Bool) (item : α) (items : List α)
    (names : List String) :
    (item :: items).allM request names =
      if (request item names).1 then items.allM request (request item names).2
      else (false, (request item names).2) := by
  simp only [List.allM, bind, StateT.bind]
  obtain ⟨answer, rest⟩ := request item names
  cases answer with
  | true => rfl
  | false => rfl

theorem allM_answer {α : Type} (groups : Groups) (request : Groups → α → Noting Bool)
    (h : ∀ item, Local fun groups => request groups item) (items : List α)
    (names : List String) :
    (items.allM (request groups) names).1 = items.all fun item => (request groups item []).1 := by
  induction items generalizing names with
  | nil => rfl
  | cons item items ih =>
      have hitem := (h item).answer groups names []
      rw [List.all_cons, ← hitem, allM_cons]
      cases (request groups item names).1 with
      | true =>
          rw [Bool.true_and, if_pos rfl]
          exact ih (request groups item names).2
      | false => rfl

-- The snapshot can be merged with each member of the group.
def Fits (groups : Groups) (snapshots : List ApiClass) (group : Group) (snapshot : ApiClass) :
    Prop :=
  ∀ index ∈ group.members, ∀ member, snapshots[index]? = some member →
    mergeable? groups member snapshot

theorem mergeableAt_iff (groups : Groups) (snapshots : List ApiClass) (snapshot : ApiClass)
    (index : Nat) :
    (mergeableAt groups snapshots snapshot index []).1 ↔
      ∀ member, snapshots[index]? = some member → mergeable? groups member snapshot := by
  unfold mergeableAt
  cases snapshots[index]? with
  | none => exact ⟨fun _ _ hmember => absurd hmember nofun, fun _ => rfl⟩
  | some member => exact ⟨fun h _ hmember => Option.some.inj hmember ▸ h, fun h => h member rfl⟩

theorem fits_iff (groups : Groups) (snapshots : List ApiClass) (group : Group)
    (snapshot : ApiClass) (names : List String) :
    (fits groups snapshots group snapshot names).1 ↔ Fits groups snapshots group snapshot := by
  have hanswer : (fits groups snapshots group snapshot names).1 =
      group.members.all fun index => (mergeableAt groups snapshots snapshot index []).1 :=
    allM_answer groups (fun groups index => mergeableAt groups snapshots snapshot index)
      (local_mergeableAt snapshots snapshot) group.members names
  rw [hanswer, List.all_eq_true]
  exact forall₂_congr fun index _ => mergeableAt_iff groups snapshots snapshot index

theorem place_cons (groups : Groups) (snapshots : List ApiClass) (index : Nat)
    (snapshot : ApiClass) (first : Group) (rest : List Group) (names : List String) :
    place groups snapshots index snapshot (first :: rest) names =
      if (fits groups snapshots first snapshot names).1 then
        (first.add index snapshot.version :: rest, (fits groups snapshots first snapshot names).2)
      else
        (first :: (place groups snapshots index snapshot rest
            (fits groups snapshots first snapshot names).2).1,
          (place groups snapshots index snapshot rest
            (fits groups snapshots first snapshot names).2).2) := by
  rw [place]
  show (if (fits groups snapshots first snapshot names).1 then _ else _ : Noting _) _ = _
  split <;> rfl

-- The snapshot fits no group and gets one of its own, or it joins the first that it fits.
theorem place_cases (groups : Groups) (snapshots : List ApiClass) (index : Nat)
    (snapshot : ApiClass) (found : List Group) (names : List String) :
    (∀ group ∈ found, ¬ Fits groups snapshots group snapshot) ∧
        (place groups snapshots index snapshot found names).1 =
          found ++ [⟨[index], snapshot.version⟩] ∨
      ∃ front group back, found = front ++ group :: back ∧
        (∀ other ∈ front, ¬ Fits groups snapshots other snapshot) ∧
        Fits groups snapshots group snapshot ∧
        (place groups snapshots index snapshot found names).1 =
          front ++ group.add index snapshot.version :: back := by
  induction found generalizing names with
  | nil => exact .inl ⟨fun group hgroup => absurd hgroup List.not_mem_nil, rfl⟩
  | cons first rest ih =>
      rw [place_cons]
      have hfirst := fits_iff groups snapshots first snapshot names
      split
      · rename_i hfits
        exact .inr ⟨[], first, rest, rfl, fun other hother => absurd hother List.not_mem_nil,
          hfirst.mp hfits, rfl⟩
      · rename_i hfits
        rw [hfirst] at hfits
        rcases ih (fits groups snapshots first snapshot names).2 with ⟨hrest, h⟩ |
          ⟨front, group, back, rfl, hfront, hgroup, h⟩
        · exact .inl ⟨List.forall_mem_cons.mpr ⟨hfits, hrest⟩, congrArg (List.cons first) h⟩
        · exact .inr ⟨first :: front, group, back, rfl,
            List.forall_mem_cons.mpr ⟨hfits, hfront⟩, hgroup, congrArg (List.cons first) h⟩

section Induction

variable {groups : Groups} {snapshots : List ApiClass} {motive : Nat → List Group → Prop}
  (hnew : ∀ count found snapshot, snapshots[count]? = some snapshot →
    (∀ group ∈ found, ¬ Fits groups snapshots group snapshot) → motive count found →
    motive (count + 1) (found ++ [⟨[count], snapshot.version⟩]))
  (hadd : ∀ count front group back snapshot, snapshots[count]? = some snapshot →
    (∀ other ∈ front, ¬ Fits groups snapshots other snapshot) →
    Fits groups snapshots group snapshot → motive count (front ++ group :: back) →
    motive (count + 1) (front ++ group.add count snapshot.version :: back))

include hnew hadd

theorem divideFrom_induction (count : Nat) (found : List Group) (rest : List ApiClass)
    (names : List String) (hrest : ∀ k, rest[k]? = snapshots[count + k]?)
    (h : motive count found) :
    motive (count + rest.length) (divideFrom groups snapshots count found rest names).1 := by
  induction rest generalizing count found names with
  | nil => exact h
  | cons snapshot rest ih =>
      have hsnapshot : snapshots[count]? = some snapshot := (hrest 0).symm
      rw [List.length_cons, Nat.add_comm rest.length 1, ← Nat.add_assoc]
      refine ih (count + 1) (place groups snapshots count snapshot found names).1
        (place groups snapshots count snapshot found names).2 (fun k => ?_) ?_
      · have hnext := hrest (k + 1)
        rw [List.getElem?_cons_succ] at hnext
        rw [hnext, Nat.add_right_comm, Nat.add_assoc]
      · rcases place_cases groups snapshots count snapshot found names with ⟨hnone, hplace⟩ |
          ⟨front, group, back, rfl, hfront, hgroup, hplace⟩
        · rw [hplace]
          exact hnew count found snapshot hsnapshot hnone h
        · rw [hplace]
          exact hadd count front group back snapshot hsnapshot hfront hgroup h

-- What holds of no groups, and stays so as the next snapshot gets a group of its own or joins the
-- first that it fits.
theorem divide_induction (hnil : motive 0 []) :
    motive snapshots.length ((divide groups snapshots).run []).1 := by
  have h := divideFrom_induction hnew hadd 0 [] snapshots [] (fun k => by rw [Nat.zero_add]) hnil
  rwa [Nat.zero_add] at h

end Induction

theorem GroupMergeable.add {groups : Groups} {snapshots : List ApiClass} {group : Group}
    {index : Nat} {snapshot : ApiClass} (h : GroupMergeable groups snapshots group)
    (hindex : snapshots[index]? = some snapshot) (hfits : Fits groups snapshots group snapshot) :
    GroupMergeable groups snapshots (group.add index snapshot.version) := by
  refine List.pairwise_append.mpr ⟨h, List.pairwise_singleton _ _, ?_⟩
  intro i hi j hj a b ha hb
  obtain rfl := List.mem_singleton.mp hj
  rw [hindex] at hb
  obtain rfl := Option.some.inj hb
  exact hfits i hi a ha

theorem groupMergeable_divide (groups : Groups) (snapshots : List ApiClass) :
    ∀ group ∈ ((divide groups snapshots).run []).1, GroupMergeable groups snapshots group := by
  refine divide_induction
    (motive := fun _ found => ∀ group ∈ found, GroupMergeable groups snapshots group)
    (fun count found snapshot _ _ h => ?_)
    (fun count front group back snapshot hindex _ hfits h => ?_)
    (fun group hgroup => absurd hgroup List.not_mem_nil)
  · rw [List.forall_mem_append, List.forall_mem_singleton]
    exact ⟨h, List.pairwise_singleton _ _⟩
  · rw [List.forall_mem_append, List.forall_mem_cons] at h ⊢
    exact ⟨h.1, h.2.1.add hindex hfits, h.2.2⟩

end Splitting

end ApiUnion
