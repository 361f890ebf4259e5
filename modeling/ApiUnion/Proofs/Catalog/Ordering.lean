import Mathlib.Data.List.Induction
import Mathlib.Data.List.Pairwise
import ApiUnion.Proofs.Catalog.Sharding

-- The order of classes. A run keeps them in the order in which they were installed, merging in
-- shards in the order in which they were first seen, be it in a snapshot that is left out. The two
-- differ exactly if a class whose first snapshots are left out is overtaken by another.

namespace ApiUnion

-- The names of such rows, where each name has one row at most.
theorem Table.keys_ofRows_filterMap {α : Type} {names : List String} (h : names.Nodup)
    (value : String → Option α) :
    (ofRows (names.filterMap fun name => (value name).map (name, ·))).keys =
      names.filter fun name => (value name).isSome := by
  have hkeys : (names.filterMap fun name => (value name).map (name, ·)).map Prod.fst =
      names.filter fun name => (value name).isSome := by
    clear h
    induction names with
    | nil => rfl
    | cons name names ih => cases hvalue : value name <;> simp [hvalue, ih]
  have hrows := ofRows_rows ⟨_, hkeys ▸ h.filter _⟩
  rw [hrows]
  exact hkeys

namespace Catalog

-- The snapshots that the options do not leave out.
def admitted (options : MergeOptions) (snapshots : List ApiClass) : List ApiClass :=
  snapshots.filter fun snapshot => !(empty options).skips snapshot

theorem admitted_concat (options : MergeOptions) (snapshots : List ApiClass)
    (snapshot : ApiClass) :
    admitted options (snapshots ++ [snapshot]) =
      admitted options snapshots ++ if (empty options).skips snapshot then [] else [snapshot] := by
  rw [admitted, List.filter_append]
  by_cases hskips : (empty options).skips snapshot <;> simp [hskips, admitted]

theorem firstSeen_concat (snapshots : List ApiClass) (snapshot : ApiClass) :
    firstSeen (snapshots ++ [snapshot]) =
      if snapshot.name ∈ firstSeen snapshots then firstSeen snapshots
      else firstSeen snapshots ++ [snapshot.name] := by
  unfold firstSeen
  rw [List.foldl_append]
  exact Table.keys_insert _ _ _

-- A name comes before those whose first snapshots come after its own.
theorem pairwise_firstSeen (snapshots : List ApiClass) :
    (firstSeen snapshots).Pairwise fun a b =>
      (snapshots.map ApiClass.name).idxOf a < (snapshots.map ApiClass.name).idxOf b := by
  induction snapshots using List.reverseRecOn with
  | nil => exact .nil
  | append_singleton snapshots snapshot ih =>
      have hseen {name : String} (hname : name ∈ firstSeen snapshots) :
          name ∈ snapshots.map ApiClass.name :=
        List.mem_map.mpr ((mem_firstSeen snapshots name).mp hname)
      have hold : (firstSeen snapshots).Pairwise fun a b =>
          ((snapshots ++ [snapshot]).map ApiClass.name).idxOf a <
            ((snapshots ++ [snapshot]).map ApiClass.name).idxOf b := by
        refine ih.imp_of_mem fun ha hb hlt => ?_
        rwa [List.map_append, List.idxOf_append_of_mem (hseen ha),
          List.idxOf_append_of_mem (hseen hb)]
      rw [firstSeen_concat]
      split
      · exact hold
      · rename_i hnew
        refine List.pairwise_append.mpr ⟨hold, List.pairwise_singleton _ _, ?_⟩
        intro name hname other hother
        obtain rfl := List.mem_singleton.mp hother
        have hfresh : snapshot.name ∉ snapshots.map ApiClass.name :=
          fun hmem => hnew ((mem_firstSeen snapshots snapshot.name).mpr (List.mem_map.mp hmem))
        rw [List.map_append, List.idxOf_append_of_mem (hseen hname),
          List.idxOf_append_of_notMem hfresh]
        exact Nat.lt_add_right _ (List.idxOf_lt_length_iff.mpr (hseen hname))

theorem keys_append (catalog : Catalog) (snapshot : ApiClass) (hkeyed : catalog.Keyed) :
    (catalog.append snapshot).1.classes.keys =
      if catalog.skips snapshot then catalog.classes.keys
      else if snapshot.name ∈ catalog.classes.keys then catalog.classes.keys
      else catalog.classes.keys ++ [snapshot.name] := by
  unfold append
  split
  · rfl
  · cases hknown : catalog.get? snapshot.name with
    | none => exact catalog.classes.keys_insert _ _
    | some existing =>
        have hused : snapshot.name ∈ catalog.classes.keys :=
          (catalog.classes.mem_keys_iff _).mpr (Option.isSome_of_eq_some hknown)
        have hown : existing.name = snapshot.name := hkeyed _ _ hknown
        rw [if_pos hused]
        by_cases hseen : existing.version.contains snapshot.version
        · simp [hseen]
        · simp only [hseen, Bool.false_eq_true, if_false, Merge.value_classes]
          cases Merge.checkClass existing snapshot with
          | error conflict => rfl
          | ok signature =>
              refine (catalog.classes.keys_insert _ _).trans (if_pos ?_)
              rwa [Merge.name_applyClass, hown]

-- Each class is installed by its first snapshot that is admitted.
theorem keys_appendAll (options : MergeOptions) (snapshots : List ApiClass) :
    ((empty options).appendAll snapshots).classes.keys =
      firstSeen (admitted options snapshots) := by
  induction snapshots using List.reverseRecOn with
  | nil => rfl
  | append_singleton snapshots snapshot ih =>
      have hkeyed := keyed_appendAll options snapshots
      have hoptions := options_appendAll (empty options) snapshots
      have hskips : ((empty options).appendAll snapshots).skips snapshot =
          (empty options).skips snapshot := by
        rw [skips, hoptions, skips]
      have hlast : (empty options).appendAll (snapshots ++ [snapshot]) =
          (((empty options).appendAll snapshots).append snapshot).1 :=
        List.foldl_append
      rw [hlast, keys_append _ _ hkeyed, hskips, ih, admitted_concat]
      split
      · rw [List.append_nil]
      · rw [firstSeen_concat]

theorem keys_mergeSharded (options : MergeOptions) (shardOf : String → Nat) (shards : Nat)
    (snapshots : List ApiClass) (hshards : ¬shards ≤ 1) :
    (mergeSharded options shardOf shards snapshots).classes.keys =
      (firstSeen snapshots).filter (· ∈ firstSeen (admitted options snapshots)) := by
  have hfound := findSome?_shards options (shardOf · % shards) shards snapshots
    fun name => Nat.mod_lt _ (by omega)
  unfold mergeSharded
  rw [if_neg hshards]
  refine (Table.keys_ofRows_filterMap (nodup_firstSeen snapshots) _).trans ?_
  refine List.filter_congr fun name _ => ?_
  rw [hfound, ← keys_appendAll, Bool.eq_iff_iff, decide_eq_true_iff, Table.mem_keys_iff, get?]

-- Two lists of the same names, each in an order of its own.
theorem eq_iff_of_pairwise_lt {names others : List String} {first second : String → Nat}
    (hnames : names.Pairwise fun a b => first a < first b)
    (hothers : others.Pairwise fun a b => second a < second b)
    (hmem : ∀ name, name ∈ names ↔ name ∈ others) :
    names = others ↔ ∀ a ∈ names, ∀ b ∈ names, first a < first b → ¬second b < second a := by
  constructor
  · rintro rfl a ha b hb hlt
    let Agree (a b : String) : Prop :=
      (first a < first b ∧ second a < second b) ∨ (first b < first a ∧ second b < second a)
    have hsymm : Std.Symm Agree := ⟨fun _ _ => Or.symm⟩
    have hagree : names.Pairwise Agree := (hnames.and hothers).imp Or.inl
    have hne : a ≠ b := fun heq => Nat.ne_of_lt hlt (congrArg first heq)
    rcases hagree.forall ha hb hne with ⟨-, h⟩ | ⟨h, -⟩ <;> omega
  · intro h
    have hapart : others.Pairwise fun a b => second a ≠ second b := hothers.imp Nat.ne_of_lt
    have hsymm : Std.Symm fun a b => second a ≠ second b := ⟨fun _ _ => Ne.symm⟩
    have hsorted : names.Pairwise fun a b => second a < second b := by
      refine hnames.imp_of_mem fun {a b} ha hb hlt => ?_
      have hne : a ≠ b := fun heq => Nat.ne_of_lt hlt (congrArg first heq)
      exact Nat.lt_of_le_of_ne (Nat.le_of_not_lt (h a ha b hb hlt))
        (hapart.forall ((hmem a).mp ha) ((hmem b).mp hb) hne)
    have hperm : names.Perm others := by
      refine (List.perm_ext_iff_of_nodup ?_ ?_).mpr hmem
      · exact hnames.imp fun hlt heq => Nat.ne_of_lt hlt (congrArg first heq)
      · exact hothers.imp fun hlt heq => Nat.ne_of_lt hlt (congrArg second heq)
    exact hperm.eq_of_pairwise (fun a b _ _ hab hba => absurd hab (Nat.lt_asymm hba)) hsorted
      hothers

-- Among all snapshots the class `early` is there before `late`, and among those admitted after it.
structure Overtakes (options : MergeOptions) (snapshots : List ApiClass) (late early : String) :
    Prop where
  mem : early ∈ (admitted options snapshots).map ApiClass.name
  seen : (snapshots.map ApiClass.name).idxOf early < (snapshots.map ApiClass.name).idxOf late
  taken : ((admitted options snapshots).map ApiClass.name).idxOf late <
    ((admitted options snapshots).map ApiClass.name).idxOf early

theorem classes_mergeSharded_eq_iff (options : MergeOptions) (shardOf : String → Nat)
    (shards : Nat) (snapshots : List ApiClass) :
    (mergeSharded options shardOf shards snapshots).classes =
        ((empty options).appendAll snapshots).classes ↔
      shards ≤ 1 ∨ ∀ early late, ¬Overtakes options snapshots late early := by
  by_cases hshards : shards ≤ 1
  · rw [mergeSharded, if_pos hshards]
    exact iff_of_true rfl (.inl hshards)
  have hkeys : (mergeSharded options shardOf shards snapshots).classes =
      ((empty options).appendAll snapshots).classes ↔
      (firstSeen snapshots).filter (· ∈ firstSeen (admitted options snapshots)) =
        firstSeen (admitted options snapshots) := by
    rw [← keys_mergeSharded options shardOf shards snapshots hshards, ← keys_appendAll]
    exact ⟨congrArg Table.keys, fun h =>
      Table.ext_get? h (get?_mergeSharded options shardOf shards snapshots)⟩
  have hmem (name : String) :
      name ∈ (firstSeen snapshots).filter (· ∈ firstSeen (admitted options snapshots)) ↔
        name ∈ firstSeen (admitted options snapshots) := by
    rw [List.mem_filter, decide_eq_true_iff, and_iff_right_iff_imp, mem_firstSeen, mem_firstSeen]
    exact fun ⟨snapshot, hsnapshot, hname⟩ => ⟨snapshot, List.mem_of_mem_filter hsnapshot, hname⟩
  have hkept (name : String) := (hmem name).trans
    ((mem_firstSeen (admitted options snapshots) name).trans List.mem_map.symm)
  rw [hkeys, eq_iff_of_pairwise_lt ((pairwise_firstSeen snapshots).filter _)
    (pairwise_firstSeen (admitted options snapshots)) hmem, or_iff_right hshards]
  constructor
  · intro h early late ⟨hearly, hseen, htaken⟩
    have hlate := List.idxOf_lt_length_iff.mp
      (Nat.lt_trans htaken (List.idxOf_lt_length_iff.mpr hearly))
    exact h early ((hkept early).mpr hearly) late ((hkept late).mpr hlate) hseen htaken
  · exact fun h early hearly late _ hseen htaken =>
      h early late ⟨(hkept early).mp hearly, hseen, htaken⟩

-- A local class that its package keeps to itself in the first version, and one beside it.
def emerging : List ApiClass :=
  let seen (name : String) (access : UInt16) (owner : Option String) (tag : String) : ApiClass :=
    { name, access := ⟨access⟩, superclass := none
      enclosing := owner.map fun owner => ⟨owner, none, none⟩, version := .single tag }
  [seen "p/A$B" 0x0000 "p/A" "1", seen "p/C" 0x0001 none "1", seen "p/A$B" 0x0001 "p/A" "2"]

theorem keys_mergeSharded_emerging :
    (mergeSharded {} (fun _ => 0) 2 emerging).classes.keys = ["p/A$B", "p/C"] ∧
      ((empty {}).appendAll emerging).classes.keys = ["p/C", "p/A$B"] := by
  rw [keys_mergeSharded _ _ _ _ (by decide), keys_appendAll]
  decide +kernel

end Catalog

end ApiUnion
