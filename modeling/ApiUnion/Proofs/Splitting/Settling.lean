import ApiUnion.Proofs.Splitting.Stability
import ApiUnion.Proofs.Splitting.Symmetry

-- Grouping until nothing changes. Whatever is queued in whichever order, a grouping that settles is
-- stable. There are classes that never settle.

namespace ApiUnion

namespace QueueOrder

variable (order : QueueOrder)

theorem mem_arrange (budget : Nat) (names : List String) (name : String) :
    name ∈ order.arrange budget names ↔ name ∈ names :=
  (order.perm budget names).mem_iff

theorem arrange_nil (budget : Nat) : order.arrange budget [] = [] :=
  List.perm_nil.mp (order.perm budget [])

theorem arrange_singleton (budget : Nat) (name : String) :
    order.arrange budget [name] = [name] :=
  List.perm_singleton.mp (order.perm budget [name])

theorem arrange_of_length_le_one (budget : Nat) {names : List String} (h : names.length ≤ 1) :
    order.arrange budget names = names := by
  match names, h with
  | [], _ => exact order.arrange_nil budget
  | [name], _ => exact order.arrange_singleton budget name

-- The same order of changes where there is more of a budget.
def above (more : Nat) : QueueOrder where
  arrange budget names := order.arrange (budget - more) names
  perm budget names := order.perm (budget - more) names

theorem arrange_above (more budget : Nat) (names : List String) :
    (order.above more).arrange (budget + more) names = order.arrange budget names :=
  congrArg (order.arrange · names) (Nat.add_sub_cancel budget more)

end QueueOrder

namespace Splitter

-- A whole settling, with those that depend on a changed class queued in any order.
inductive Settles : Splitter → List String → Splitter → Prop where
  | done (splitter final : Splitter) (queue : List String)
      (hregroup : splitter.regroup queue = (final, none)) : Settles splitter queue final
  | change (splitter after final : Splitter) (name : String) (queue rest next : List String)
      (hregroup : splitter.regroup queue = (after, some (name, rest)))
      (hnext : ∀ other, other ∈ next ↔ other ∈ rest ∨ other ∈ after.dependentsOf name)
      (hsettles : Settles after next final) : Settles splitter queue final

theorem snapshots_regroup (splitter : Splitter) (queue : List String) :
    (splitter.regroup queue).1.snapshots = splitter.snapshots := by
  induction queue generalizing splitter with
  | nil => rfl
  | cons name queue ih =>
      rw [regroup_cons]
      split
      · exact ih _
      · rfl

theorem snapshots_settles (splitter final : Splitter) (queue : List String)
    (h : splitter.Settles queue final) : final.snapshots = splitter.snapshots := by
  induction h with
  | done splitter final queue hregroup =>
      rw [← snapshots_regroup splitter queue, hregroup]
  | change splitter after final name queue rest next hregroup hnext hsettles ih =>
      rw [ih, ← snapshots_regroup splitter queue, hregroup]

theorem pending_settles (splitter final : Splitter) (queue : List String)
    (hsettles : splitter.Settles queue final) (hpending : splitter.Pending queue) :
    final.Pending [] := by
  induction hsettles with
  | done splitter final queue hregroup =>
      have hstep := splitter.pending_regroup queue hpending
      rw [hregroup] at hstep
      exact hstep
  | change splitter after final name queue rest next hregroup hnext hsettles ih =>
      have hstep := splitter.pending_regroup queue hpending
      rw [hregroup] at hstep
      refine ih fun other hother => ?_
      rcases hstep other hother with hqueued | hstable
      · rw [mem_enqueue] at hqueued
        exact .inl ((hnext other).mpr hqueued)
      · exact .inr hstable

-- Whichever order was taken, a settled grouping is stable.
theorem stable_settles (splitter final : Splitter)
    (h : splitter.Settles splitter.snapshots.keys final) :
    ∀ name ∈ splitter.snapshots.keys, final.Stable name := by
  intro name hname
  have hstart : splitter.Pending splitter.snapshots.keys := fun name hname => .inl hname
  rw [← snapshots_settles splitter final _ h] at hname
  rcases pending_settles splitter final _ h hstart name hname with hqueued | hstable
  · cases hqueued
  · exact hstable

section Order

variable (order : QueueOrder)

theorem settle_done (splitter after : Splitter) (budget : Nat) (queue : List String)
    (h : splitter.regroup queue = (after, none)) :
    splitter.settle order budget queue = (after, none) := by
  cases budget with
  | zero => rw [settle, h]
  | succ budget => rw [settle, h]

theorem settle_zero (splitter after : Splitter) (name : String) (queue rest : List String)
    (h : splitter.regroup queue = (after, some (name, rest))) :
    splitter.settle order 0 queue = (after, some name) := by
  rw [settle, h]

theorem settle_succ (splitter after : Splitter) (name : String) (queue rest : List String)
    (budget : Nat) (h : splitter.regroup queue = (after, some (name, rest))) :
    splitter.settle order (budget + 1) queue =
      after.settle order budget
        (enqueue rest (order.arrange budget (after.dependentsOf name))) := by
  rw [settle, h]
  rfl

-- What holds where nothing is left to change, and before a change if it holds after it.
theorem settled_induction {motive : Splitter → Nat → List String → Prop}
    (hdone : ∀ splitter after budget queue, splitter.regroup queue = (after, none) →
      motive splitter budget queue)
    (hchange : ∀ splitter after name queue rest budget,
      splitter.regroup queue = (after, some (name, rest)) →
        motive after budget
          (enqueue rest (order.arrange budget (after.dependentsOf name))) →
            motive splitter (budget + 1) queue)
    (splitter : Splitter) (budget : Nat) (queue : List String)
    (hsettled : (splitter.settle order budget queue).2 = none) :
    motive splitter budget queue := by
  induction budget generalizing splitter queue with
  | zero =>
      rcases hregroup : splitter.regroup queue with ⟨after, _ | ⟨name, rest⟩⟩
      · exact hdone splitter after 0 queue hregroup
      · rw [settle_zero order splitter after name queue rest hregroup] at hsettled
        cases hsettled
  | succ budget ih =>
      rcases hregroup : splitter.regroup queue with ⟨after, _ | ⟨name, rest⟩⟩
      · exact hdone splitter after (budget + 1) queue hregroup
      · rw [settle_succ order splitter after name queue rest budget hregroup] at hsettled
        exact hchange splitter after name queue rest budget hregroup (ih after _ hsettled)

-- A budget that was not spent leaves nothing in the queue.
theorem settles_settle (splitter : Splitter) (budget : Nat) (queue : List String)
    (hsettled : (splitter.settle order budget queue).2 = none) :
    splitter.Settles queue (splitter.settle order budget queue).1 := by
  refine settled_induction order
    (motive := fun splitter budget queue =>
      splitter.Settles queue (splitter.settle order budget queue).1)
    (fun splitter after budget queue hregroup => ?_)
    (fun splitter after name queue rest budget hregroup h => ?_) splitter budget queue hsettled
  · rw [settle_done order splitter after budget queue hregroup]
    exact .done splitter after queue hregroup
  · rw [settle_succ order splitter after name queue rest budget hregroup]
    refine .change splitter after _ name queue rest _ hregroup (fun other => ?_) h
    rw [mem_enqueue, order.mem_arrange]

-- More of a budget changes nothing once it was enough.
theorem settle_more (splitter : Splitter) (budget more : Nat) (queue : List String)
    (hsettled : (splitter.settle order budget queue).2 = none) :
    splitter.settle (order.above more) (budget + more) queue =
      splitter.settle order budget queue := by
  refine settled_induction order
    (motive := fun splitter budget queue =>
      splitter.settle (order.above more) (budget + more) queue =
        splitter.settle order budget queue)
    (fun splitter after budget queue hregroup => ?_)
    (fun splitter after name queue rest budget hregroup h => ?_) splitter budget queue hsettled
  · rw [settle_done _ splitter after _ queue hregroup,
      settle_done _ splitter after _ queue hregroup]
  · rw [Nat.add_right_comm, settle_succ _ splitter after name queue rest _ hregroup,
      settle_succ _ splitter after name queue rest _ hregroup, order.arrange_above, h]

end Order

-- There is but one order in which to queue what is queued, since no class that changes has more
-- than one that depends on it.
def isOrderless (splitter : Splitter) (budget : Nat) (queue : List String) : Bool :=
  match splitter.regroup queue with
  | (_, none) => true
  | (after, some (name, rest)) =>
    match budget with
    | 0 => true
    | budget + 1 =>
      decide ((after.dependentsOf name).length ≤ 1) &&
        after.isOrderless budget (enqueue rest (after.dependentsOf name))

theorem settle_of_isOrderless (order other : QueueOrder) (splitter : Splitter) (budget : Nat)
    (queue : List String) (h : splitter.isOrderless budget queue) :
    splitter.settle order budget queue = splitter.settle other budget queue := by
  induction budget generalizing splitter queue with
  | zero =>
      rcases hregroup : splitter.regroup queue with ⟨after, _ | ⟨name, rest⟩⟩
      · rw [settle_done _ splitter after _ queue hregroup,
          settle_done _ splitter after _ queue hregroup]
      · rw [settle_zero _ splitter after name queue rest hregroup,
          settle_zero _ splitter after name queue rest hregroup]
  | succ budget ih =>
      rcases hregroup : splitter.regroup queue with ⟨after, _ | ⟨name, rest⟩⟩
      · rw [settle_done _ splitter after _ queue hregroup,
          settle_done _ splitter after _ queue hregroup]
      · rw [isOrderless, hregroup, Bool.and_eq_true, decide_eq_true_eq] at h
        rw [settle_succ _ splitter after name queue rest _ hregroup,
          settle_succ _ splitter after name queue rest _ hregroup,
          order.arrange_of_length_le_one _ h.1, other.arrange_of_length_le_one _ h.1]
        exact ih after _ h.2

-- A grouping that settles is stable, and the members of its groups can be merged under it.
theorem groupAll_stable (splitter : Splitter) (order : QueueOrder)
    (hsettled : splitter.unsettled? order = none) :
    ∀ name ∈ splitter.snapshots.keys,
      (splitter.groupAll order).groups.get? name =
          some ((splitter.groupAll order).computeGroups name).1 ∧
      ∀ group ∈ (splitter.groupAll order).groupsOf name,
        Splitting.GroupMergeable (splitter.groupAll order).groups
          ((splitter.groupAll order).snapshotsOf name) group ∧
        ∀ i ∈ group.members, ∀ j ∈ group.members, i ≠ j →
          Splitting.EitherWay (splitter.groupAll order).groups
            ((splitter.groupAll order).snapshotsOf name) i j := by
  intro name hname
  have hsettles : splitter.Settles splitter.snapshots.keys (splitter.groupAll order) :=
    settles_settle order splitter splitter.budget _ hsettled
  have hgroups := (stable_settles splitter _ hsettles name hname).groups
  refine ⟨hgroups, fun group hgroup => ?_⟩
  rw [groupsOf, hgroups] at hgroup
  have hmergeable := Splitting.groupMergeable_divide _ _ group hgroup
  exact ⟨hmergeable, Splitting.eitherWay_of_groupMergeable _ _ group hmergeable⟩

-- A class that becomes an interface, and one that extends it.
def becoming : Splitter :=
  [{ name := "p/A", access := ⟨0x0001⟩, superclass := some "java/lang/Object",
      version := .single "1" },
    { name := "p/A", access := ⟨0x0601⟩, superclass := some "java/lang/Object",
      version := .single "2" },
    { name := "p/B", access := ⟨0x0001⟩, superclass := some "p/A",
      version := .single "1" },
    { name := "p/B", access := ⟨0x0001⟩, superclass := some "p/A",
      version := .single "2" }].foldl add {}

theorem groupAll_stable_becoming :
    ((becoming.groupAll .asNoted).groupsOf "p/B").map Group.members = [[0], [1]] ∧
      (becoming.groupAll .asNoted).groups.get? "p/B" =
        some ((becoming.groupAll .asNoted).computeGroups "p/B").1 :=
  ⟨by decide +kernel,
    (groupAll_stable becoming .asNoted (by decide +kernel) "p/B" (by decide +kernel)).1⟩

-- One version of a class that implements these interfaces, with type arguments.
def implementing (name : String) (interfaces : List String) (types tag : String) : ApiClass where
  name := name
  access := ⟨0x0001⟩
  superclass := some "java/lang/Object"
  interfaces := interfaces
  signature := some ("Ljava/lang/Object;" ++ types)
  version := .single tag

-- Naming an interface twice does matter. An interface is compared with the first one of its name,
-- so the second type of the later snapshot is compared with something only where that one comes
-- first.
def naming : Splitter :=
  [implementing "p/A" ["p/I"] "Lp/I<Lp/X;>;" "1",
    implementing "p/A" ["p/I", "p/I"] "Lp/I<Lp/X;>;Lp/I<Lp/Y;>;" "2"].foldl add {}

theorem groupAll_naming :
    naming.unsettled? .asNoted = none ∧
      ((naming.groupAll .asNoted).groupsOf "p/A").map Group.members = [[0, 1]] ∧
      ∃ a b, naming.snapshotsOf "p/A" = [a, b] ∧
        Splitting.mergeable? (naming.groupAll .asNoted).groups b a = false :=
  ⟨by decide +kernel, by decide +kernel, _, _, rfl, by decide +kernel⟩

theorem regroup_of_change (splitter : Splitter) (name : String) (queue : List String)
    (groups : List Group) (targets : List String)
    (hcompute : splitter.computeGroups name = (groups, targets))
    (hchange : splitter.groups.get? name ≠ some groups) :
    splitter.regroup (name :: queue) =
      ((splitter.noteDependents name targets).setGroups name groups, some (name, queue)) := by
  rw [regroup_cons, hcompute, if_neg hchange]

-- In both classes the first two versions and another two fit together only if the other class has
-- them in one group. The first and third version of `p/B` never fit together.
def swinging : Splitter :=
  [implementing "p/A" ["p/I"] "Lp/I<Lp/B;>;" "1",
    implementing "p/A" ["p/I"] "Lp/I<Lp/B;>;" "2",
    implementing "p/A" ["p/J"] "Lp/J<Lp/B;>;" "3",
    implementing "p/A" ["p/J"] "Lp/J<Lp/B;>;" "4",
    implementing "p/A" [] "" "5",
    implementing "p/B" ["p/K", "p/M"] "Lp/K<Lp/A;>;Lp/M<Lp/X;>;" "1",
    implementing "p/B" ["p/K", "p/L"] "Lp/K<Lp/A;>;Lp/L<Lp/A;>;" "2",
    implementing "p/B" ["p/M"] "Lp/M<Lp/Y;>;" "3",
    implementing "p/B" ["p/L"] "Lp/L<Lp/A;>;" "4"].foldl add {}

def swingGroups (groups : List (List Nat)) : List Group :=
  groups.map fun members => ⟨members, .ofTags (members.map fun index => toString (index + 1))⟩

theorem swingGroups_injective : Function.Injective swingGroups :=
  List.map_injective_iff.mpr fun _ _ h => congrArg Group.members h

def swingTargets (name : String) : List String :=
  if name = "p/A" then ["java/lang/Object", "p/I", "p/B", "p/J"]
  else ["java/lang/Object", "p/K", "p/A", "p/M", "p/L"]

-- The state in which the two classes have these groups and have looked each other up.
def swing (a b : List (List Nat)) : Splitter where
  snapshots := swinging.snapshots
  groups := (Table.empty.insert "p/A" (swingGroups a)).insert "p/B" (swingGroups b)
  dependents := (swingTargets "p/B").foldl (noteDependent "p/B")
    ((swingTargets "p/A").foldl (noteDependent "p/A") .empty)

theorem noteDependents_swing (a b : List (List Nat)) (name : String)
    (hname : name = "p/A" ∨ name = "p/B") :
    (swing a b).noteDependents name (swingTargets name) = swing a b := by
  have hdependents : (swingTargets name).foldl (noteDependent name) (swing [] []).dependents =
      (swing [] []).dependents := by
    rcases hname with rfl | rfl
    · decide +kernel
    · decide +kernel
  show { swing a b with
    dependents := (swingTargets name).foldl (noteDependent name) (swing [] []).dependents } = _
  rw [hdependents]
  rfl

theorem setGroups_swing_a (a b after : List (List Nat)) :
    (swing a b).setGroups "p/A" (swingGroups after) = swing after b := rfl

theorem setGroups_swing_b (a b after : List (List Nat)) :
    (swing a b).setGroups "p/B" (swingGroups after) = swing a after := rfl

theorem regroup_swing_a (a b after : List (List Nat))
    (hcompute : (swing a b).computeGroups "p/A" = (swingGroups after, swingTargets "p/A"))
    (hchange : a ≠ after) :
    (swing a b).regroup ["p/A"] = (swing after b, some ("p/A", [])) := by
  have hgroups : (swing a b).groups.get? "p/A" = some (swingGroups a) := rfl
  rw [regroup_of_change (swing a b) "p/A" [] _ _ hcompute
    (by rw [hgroups]; exact fun h => hchange (swingGroups_injective (Option.some.inj h))),
    noteDependents_swing a b "p/A" (.inl rfl), setGroups_swing_a]

theorem regroup_swing_b (a b after : List (List Nat))
    (hcompute : (swing a b).computeGroups "p/B" = (swingGroups after, swingTargets "p/B"))
    (hchange : b ≠ after) :
    (swing a b).regroup ["p/B"] = (swing a after, some ("p/B", [])) := by
  have hgroups : (swing a b).groups.get? "p/B" = some (swingGroups b) := rfl
  rw [regroup_of_change (swing a b) "p/B" [] _ _ hcompute
    (by rw [hgroups]; exact fun h => hchange (swingGroups_injective (Option.some.inj h))),
    noteDependents_swing a b "p/B" (.inr rfl), setGroups_swing_b]

theorem dependentsOf_swing (a b : List (List Nat)) :
    (swing a b).dependentsOf "p/A" = ["p/B"] ∧ (swing a b).dependentsOf "p/B" = ["p/A"] := by
  show (swing [] []).dependentsOf "p/A" = ["p/B"] ∧ (swing [] []).dependentsOf "p/B" = ["p/A"]
  decide +kernel

section Order

-- Each of the two classes has one dependent, so that all orders are the same.
variable (order : QueueOrder)

theorem settle_swing_a (a b after : List (List Nat)) (budget : Nat)
    (hcompute : (swing a b).computeGroups "p/A" = (swingGroups after, swingTargets "p/A"))
    (hchange : a ≠ after) :
    (swing a b).settle order (budget + 1) ["p/A"] =
      (swing after b).settle order budget ["p/B"] := by
  rw [settle_succ order _ _ _ _ _ budget (regroup_swing_a a b after hcompute hchange),
    (dependentsOf_swing after b).1, order.arrange_singleton]
  rfl

theorem settle_swing_b (a b after : List (List Nat)) (budget : Nat)
    (hcompute : (swing a b).computeGroups "p/B" = (swingGroups after, swingTargets "p/B"))
    (hchange : b ≠ after) :
    (swing a b).settle order (budget + 1) ["p/B"] =
      (swing a after).settle order budget ["p/A"] := by
  rw [settle_succ order _ _ _ _ _ budget (regroup_swing_b a b after hcompute hchange),
    (dependentsOf_swing a after).2, order.arrange_singleton]
  rfl

-- What each class makes of the groups of the other one, which leads from the first line to the
-- last and from there back to the first.
theorem computeGroups_swing :
    (swing [[0, 1, 2, 3, 4]] [[0, 1, 3], [2]]).computeGroups "p/A" =
        (swingGroups [[0, 1, 2, 4], [3]], swingTargets "p/A") ∧
      (swing [[0, 1, 2, 4], [3]] [[0, 1, 3], [2]]).computeGroups "p/B" =
        (swingGroups [[0, 1], [2, 3]], swingTargets "p/B") ∧
      (swing [[0, 1, 2, 4], [3]] [[0, 1], [2, 3]]).computeGroups "p/A" =
        (swingGroups [[0, 1, 2, 3, 4]], swingTargets "p/A") ∧
      (swing [[0, 1, 2, 3, 4]] [[0, 1], [2, 3]]).computeGroups "p/B" =
        (swingGroups [[0, 1, 3], [2]], swingTargets "p/B") := by
  decide +kernel

-- Four changes lead back to where they started.
theorem settle_swing_round (budget : Nat) :
    (swing [[0, 1, 2, 3, 4]] [[0, 1, 3], [2]]).settle order (budget + 4) ["p/A"] =
      (swing [[0, 1, 2, 3, 4]] [[0, 1, 3], [2]]).settle order budget ["p/A"] := by
  obtain ⟨hfirst, hsecond, hthird, hfourth⟩ := computeGroups_swing
  rw [settle_swing_a _ _ _ _ _ hfirst (by decide), settle_swing_b _ _ _ _ _ hsecond (by decide),
    settle_swing_a _ _ _ _ _ hthird (by decide), settle_swing_b _ _ _ _ _ hfourth (by decide)]

theorem settle_swing_rounds (rounds : Nat) :
    (swing [[0, 1, 2, 3, 4]] [[0, 1, 3], [2]]).settle order (4 * rounds) ["p/A"] =
      (swing [[0, 1, 2, 4], [3]] [[0, 1, 3], [2]], some "p/A") := by
  induction rounds with
  | zero =>
      exact settle_zero _ _ _ "p/A" _ []
        (regroup_swing_a _ _ _ computeGroups_swing.1 (by decide))
  | succ rounds ih => rw [Nat.mul_succ, settle_swing_round, ih]

-- The state after the first change.
def swingFirst : Splitter :=
  (swinging.noteDependents "p/A" (swingTargets "p/A")).setGroups "p/A"
    (swingGroups [[0, 1, 2, 3, 4]])

-- The first two changes lead into that round.
theorem settle_swinging (budget : Nat) :
    swinging.settle order (budget + 2) swinging.snapshots.keys =
      (swing [[0, 1, 2, 3, 4]] [[0, 1, 3], [2]]).settle order budget ["p/A"] := by
  have hkeys : swinging.snapshots.keys = ["p/A", "p/B"] := rfl
  have hgroupsA : swinging.computeGroups "p/A" =
      (swingGroups [[0, 1, 2, 3, 4]], swingTargets "p/A") := by decide +kernel
  have hfirst := regroup_of_change swinging "p/A" ["p/B"] _ _ hgroupsA (by decide +kernel)
  have hdependents : swingFirst.dependentsOf "p/A" = [] := by decide +kernel
  have hgroupsB : swingFirst.computeGroups "p/B" =
      (swingGroups [[0, 1, 3], [2]], swingTargets "p/B") := by decide +kernel
  have hsecond := regroup_of_change swingFirst "p/B" [] _ _ hgroupsB (by decide +kernel)
  have hswing : (swingFirst.noteDependents "p/B" (swingTargets "p/B")).setGroups "p/B"
      (swingGroups [[0, 1, 3], [2]]) = swing [[0, 1, 2, 3, 4]] [[0, 1, 3], [2]] := rfl
  rw [hkeys, settle_succ order swinging swingFirst "p/A" _ ["p/B"] _ hfirst, hdependents,
    order.arrange_nil, enqueue, List.foldl_nil,
    settle_succ order swingFirst _ "p/B" _ [] _ hsecond, hswing, (dependentsOf_swing _ _).2,
    order.arrange_singleton]
  rfl

-- No budget would be enough for these two classes.
theorem unsettled_swinging (budget : Nat) :
    (swinging.settle order budget swinging.snapshots.keys).2 ≠ none := by
  intro hsettled
  have hmore := settle_more order swinging budget (3 * budget + 2) _ hsettled
  have hbudget : budget + (3 * budget + 2) = 4 * budget + 2 := by omega
  rw [hbudget, settle_swinging, settle_swing_rounds] at hmore
  rw [← hmore] at hsettled
  cases hsettled

theorem groupAll_swinging :
    swinging.groupAll order = swing [[0, 1, 2, 4], [3]] [[0, 1, 3], [2]] ∧
      swinging.unsettled? order = some "p/A" := by
  have hbudget : swinging.budget = 4 * 4 + 2 := rfl
  rw [unsettled?, groupAll, hbudget, settle_swinging, settle_swing_rounds]
  exact ⟨rfl, rfl⟩

end Order

-- What they are left with is not stable, and the second and fourth version of `p/B` share a group
-- though the types that they refer to do not.
theorem groupAll_swinging_unstable :
    "p/B" ∈ swinging.snapshots.keys ∧ ∀ order : QueueOrder,
      (swinging.groupAll order).groups.get? "p/B" ≠
          some ((swinging.groupAll order).computeGroups "p/B").1 ∧
        ∃ group ∈ (swinging.groupAll order).groupsOf "p/B",
          ¬ Splitting.GroupMergeable (swinging.groupAll order).groups
            ((swinging.groupAll order).snapshotsOf "p/B") group := by
  refine ⟨by decide +kernel, fun order => ?_⟩
  rw [(groupAll_swinging order).1]
  constructor
  · rw [computeGroups_swing.2.1]
    exact fun h => absurd (swingGroups_injective (Option.some.inj h)) (by decide)
  · refine ⟨⟨[0, 1, 3], .ofTags ["1", "2", "4"]⟩, by decide +kernel, fun h => ?_⟩
    have hmergeable := List.pairwise_iff_getElem.mp h 1 2 (by decide) (by decide) (by decide)
      _ _ rfl rfl
    revert hmergeable
    decide +kernel

end Splitter

end ApiUnion
