import ApiUnion.Proofs.Splitting.Settling
import ApiUnion.Proofs.Table

-- What holds of groupings whether they settle or not: every class is grouped, and its groups are
-- those of a division of its snapshots.

namespace ApiUnion

namespace Splitter

section Induction

variable {motive : Splitter → Prop}
  (hnoted : ∀ splitter name targets, motive splitter →
    motive (splitter.noteDependents name targets))
  (hset : ∀ splitter name, motive splitter →
    motive (splitter.setGroups name (splitter.computeGroups name).1))

include hnoted hset

theorem regroup_induction (splitter : Splitter) (queue : List String) (h : motive splitter) :
    motive (splitter.regroup queue).1 := by
  induction queue generalizing splitter with
  | nil => exact h
  | cons name queue ih =>
      rw [regroup_cons]
      split
      · exact ih _ (hnoted splitter name _ h)
      · exact hset _ name (hnoted splitter name _ h)

-- What holds of a grouping stays so if noting a dependency and grouping a class keep it.
theorem settle_induction (order : QueueOrder) (splitter : Splitter) (budget : Nat)
    (queue : List String) (h : motive splitter) :
    motive (splitter.settle order budget queue).1 := by
  induction budget generalizing splitter queue with
  | zero =>
      have hregroup := regroup_induction hnoted hset splitter queue h
      cases hresult : splitter.regroup queue with
      | mk after change =>
          rw [hresult] at hregroup
          cases change with
          | none => rwa [settle_done order splitter after 0 queue hresult]
          | some change => rwa [settle_zero order splitter after change.1 queue change.2 hresult]
  | succ budget ih =>
      have hregroup := regroup_induction hnoted hset splitter queue h
      cases hresult : splitter.regroup queue with
      | mk after change =>
          rw [hresult] at hregroup
          cases change with
          | none => rwa [settle_done order splitter after (budget + 1) queue hresult]
          | some change =>
              rw [settle_succ order splitter after change.1 queue change.2 budget hresult]
              exact ih after _ hregroup

end Induction

section Order

variable (order : QueueOrder)

theorem snapshots_settle (splitter : Splitter) (budget : Nat) (queue : List String) :
    (splitter.settle order budget queue).1.snapshots = splitter.snapshots :=
  settle_induction (motive := fun after => after.snapshots = splitter.snapshots)
    (fun _ _ _ h => h) (fun _ _ h => h) order splitter budget queue rfl

-- Where a class has groups, these are a division of its snapshots, given some other grouping.
def Computed (splitter : Splitter) : Prop :=
  ∀ name found, splitter.groups.get? name = some found →
    ∃ groups, found = ((Splitting.divide groups (splitter.snapshotsOf name)).run []).1

theorem computed_settle (splitter : Splitter) (budget : Nat) (queue : List String)
    (h : splitter.Computed) : (splitter.settle order budget queue).1.Computed := by
  refine settle_induction (fun splitter name targets h => h) (fun splitter name h => ?_) order
    splitter budget queue h
  intro other found hfound
  rw [setGroups, Table.get?_insert] at hfound
  split at hfound
  · rename_i hother
    subst hother
    exact ⟨splitter.groups, (Option.some.inj hfound).symm⟩
  · exact h other found hfound

theorem isSome_groups_setGroups {splitter : Splitter} {name other : String} {groups : List Group}
    (h : (splitter.groups.get? other).isSome) :
    ((splitter.setGroups name groups).groups.get? other).isSome := by
  rw [setGroups, Table.get?_insert]
  split
  · rfl
  · exact h

theorem isSome_groups_settle {splitter : Splitter} {name : String} (budget : Nat)
    (queue : List String) (h : (splitter.groups.get? name).isSome) :
    ((splitter.settle order budget queue).1.groups.get? name).isSome :=
  settle_induction (motive := fun splitter => (splitter.groups.get? name).isSome)
    (fun _ _ _ h => h) (fun _ _ h => isSome_groups_setGroups h) order splitter budget queue h

-- A queue is worked off from the front, and every class that is taken off it has groups then.
theorem isSome_groups_regroup (splitter : Splitter) (queue : List String) :
    match splitter.regroup queue with
    | (after, none) => ∀ name ∈ queue, (after.groups.get? name).isSome
    | (after, some (name, rest)) => ∃ done, queue = done ++ name :: rest ∧
        ∀ other ∈ done ++ [name], (after.groups.get? other).isSome := by
  induction queue generalizing splitter with
  | nil => exact fun name hname => absurd hname List.not_mem_nil
  | cons name queue ih =>
      rw [regroup_cons]
      by_cases hsame : splitter.groups.get? name = some (splitter.computeGroups name).1
      · rw [if_pos hsame]
        have hknown : (splitter.groups.get? name).isSome := by
          rw [hsame]
          rfl
        have hkept := regroup_induction
          (motive := fun splitter => (splitter.groups.get? name).isSome)
          (fun _ _ _ h => h) (fun _ _ h => isSome_groups_setGroups h)
          (splitter.noteDependents name (splitter.computeGroups name).2) queue hknown
        have hrest := ih (splitter.noteDependents name (splitter.computeGroups name).2)
        cases hresult : (splitter.noteDependents name (splitter.computeGroups name).2).regroup
            queue with
        | mk after change =>
            rw [hresult] at hkept hrest
            cases change with
            | none => exact List.forall_mem_cons.mpr ⟨hkept, hrest⟩
            | some change =>
                obtain ⟨done, hqueue, hdone⟩ := hrest
                exact ⟨name :: done, congrArg (name :: ·) hqueue,
                  List.forall_mem_cons.mpr ⟨hkept, hdone⟩⟩
      · rw [if_neg hsame]
        refine ⟨[], rfl, List.forall_mem_singleton.mpr ?_⟩
        rw [setGroups, Table.get?_insert, if_pos rfl]
        rfl

theorem exists_enqueue_eq (queue names : List String) :
    ∃ more, enqueue queue names = queue ++ more := by
  induction names generalizing queue with
  | nil => exact ⟨[], (List.append_nil queue).symm⟩
  | cons name names ih =>
      unfold enqueue at ih ⊢
      rw [List.foldl_cons]
      split
      · exact ih queue
      · obtain ⟨more, hmore⟩ := ih (queue ++ [name])
        exact ⟨name :: more, by rw [hmore, List.append_assoc]; rfl⟩

-- Each change takes a class off the front, so a budget lasts for as many classes.
theorem isSome_groups_settle_front (splitter : Splitter) (budget : Nat) (front back : List String)
    (hbudget : front.length ≤ budget) :
    ∀ name ∈ front,
      ((splitter.settle order budget (front ++ back)).1.groups.get? name).isSome := by
  induction budget generalizing splitter front back with
  | zero =>
      intro name hname
      rw [List.length_eq_zero_iff.mp (Nat.le_zero.mp hbudget)] at hname
      cases hname
  | succ budget ih =>
      intro name hname
      have hregroup := splitter.isSome_groups_regroup (front ++ back)
      cases hresult : splitter.regroup (front ++ back) with
      | mk after change =>
          rw [hresult] at hregroup
          cases change with
          | none =>
              rw [settle_done order splitter after (budget + 1) _ hresult]
              exact hregroup name (List.mem_append_left back hname)
          | some change =>
              obtain ⟨done, hqueue, hdone⟩ := hregroup
              rw [settle_succ order splitter after change.1 _ change.2 budget hresult]
              obtain ⟨more, hmore⟩ := exists_enqueue_eq change.2
                (order.arrange budget (after.dependentsOf change.1))
              rcases List.append_eq_append_iff.mp hqueue with ⟨between, hdoneEq, hback⟩ |
                ⟨left, hfront, hrest⟩
              · -- All of the front was taken off already.
                refine isSome_groups_settle order budget _ (hdone name ?_)
                rw [hdoneEq, List.append_assoc]
                exact List.mem_append_left _ hname
              · cases left with
                | nil =>
                    refine isSome_groups_settle order budget _ (hdone name ?_)
                    rw [List.append_nil] at hfront
                    rw [← hfront]
                    exact List.mem_append_left _ hname
                | cons first left =>
                    rw [List.cons_append] at hrest
                    obtain ⟨rfl, hleft⟩ := List.cons.inj hrest
                    rw [hmore, hleft, List.append_assoc]
                    rw [hfront, List.length_append, List.length_cons] at hbudget
                    rw [hfront, List.append_cons] at hname
                    rcases List.mem_append.mp hname with htaken | hleftover
                    · exact isSome_groups_settle order budget _ (hdone name htaken)
                    · exact ih after left (back ++ more) (by omega) name hleftover

theorem isSome_groups_groupAll (splitter : Splitter) :
    ∀ name ∈ splitter.snapshots.keys,
      ((splitter.groupAll order).groups.get? name).isSome := by
  have hbudget : splitter.snapshots.keys.length ≤ splitter.budget := by
    have hsize : splitter.snapshots.keys.length = splitter.snapshots.size := List.length_map _
    unfold budget
    rw [hsize]
    calc splitter.snapshots.size ≤ max splitter.snapshots.size 1 := Nat.le_max_left _ _
      _ ≤ _ * max splitter.snapshots.size 1 := Nat.le_mul_of_pos_left _ (by omega)
  have hfront := isSome_groups_settle_front order splitter splitter.budget
    splitter.snapshots.keys [] hbudget
  rwa [List.append_nil] at hfront

end Order

end Splitter

end ApiUnion
