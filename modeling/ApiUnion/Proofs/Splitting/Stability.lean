import ApiUnion.Proofs.Splitting.Dividing
import ApiUnion.Splitting.Splitter

-- When a class is stable, and what grouping another class does to that. Only those that looked the
-- class up can come to be unstable, and these are queued.

namespace ApiUnion

namespace Splitter

def dependentsOf (splitter : Splitter) (target : String) : List String :=
  (splitter.dependents.get? target).getD []

-- Grouping the class again would change nothing, and whatever could make it change is known.
structure Stable (splitter : Splitter) (name : String) : Prop where
  groups : splitter.groups.get? name = some (splitter.computeGroups name).1
  dependents : ∀ target ∈ (splitter.computeGroups name).2, name ∈ splitter.dependentsOf target

-- Every class that is not stable waits in the queue.
def Pending (splitter : Splitter) (queue : List String) : Prop :=
  ∀ name ∈ splitter.snapshots.keys, name ∈ queue ∨ splitter.Stable name

-- The groups of a class are the same under a grouping that agrees on all that was looked up.
theorem computeGroups_congr (splitter other : Splitter) (name : String)
    (hsnapshots : other.snapshots = splitter.snapshots)
    (hgroups : ∀ target ∈ (splitter.computeGroups name).2,
      other.groups.get? target = splitter.groups.get? target) :
    other.computeGroups name = splitter.computeGroups name := by
  have hdivide := (Splitting.local_divide (splitter.snapshotsOf name)).agrees splitter.groups
    other.groups [] fun target htarget => hgroups target (List.mem_reverse.mpr htarget)
  have hsame : other.snapshotsOf name = splitter.snapshotsOf name := by
    rw [snapshotsOf, hsnapshots, snapshotsOf]
  have hrun : (Splitting.divide other.groups (splitter.snapshotsOf name)).run [] =
      (Splitting.divide splitter.groups (splitter.snapshotsOf name)).run [] := hdivide
  rw [computeGroups, hsame, hrun, computeGroups]

theorem mem_noteDependent (name other target : String) (dependents : Table (List String))
    (key : String) :
    other ∈ ((noteDependent name dependents target).get? key).getD [] ↔
      other ∈ (dependents.get? key).getD [] ∨ (other = name ∧ key = target) := by
  simp only [noteDependent]
  by_cases hkey : key = target
  · subst hkey
    split
    · rename_i hknown
      rw [List.contains_iff_mem] at hknown
      constructor
      · exact .inl
      · rintro (h | ⟨rfl, -⟩)
        · exact h
        · exact hknown
    · simp
  · split
    · simp [hkey]
    · simp [hkey]

theorem mem_dependentsOf_noteDependents (splitter : Splitter) (name other : String)
    (targets : List String) (key : String) :
    other ∈ (splitter.noteDependents name targets).dependentsOf key ↔
      other ∈ splitter.dependentsOf key ∨ (other = name ∧ key ∈ targets) := by
  unfold dependentsOf noteDependents
  simp only
  generalize splitter.dependents = dependents
  induction targets generalizing dependents with
  | nil => simp
  | cons target targets ih =>
      rw [List.foldl_cons, ih, mem_noteDependent, List.mem_cons]
      constructor
      · rintro ((h | ⟨hname, hkey⟩) | ⟨hname, hkey⟩)
        · exact .inl h
        · exact .inr ⟨hname, .inl hkey⟩
        · exact .inr ⟨hname, .inr hkey⟩
      · rintro (h | ⟨hname, hkey | hkey⟩)
        · exact .inl (.inl h)
        · exact .inl (.inr ⟨hname, hkey⟩)
        · exact .inr ⟨hname, hkey⟩

theorem mem_enqueue (queue names : List String) (name : String) :
    name ∈ enqueue queue names ↔ name ∈ queue ∨ name ∈ names := by
  unfold enqueue
  induction names generalizing queue with
  | nil => simp
  | cons first names ih =>
      rw [List.foldl_cons, ih]
      split
      · rename_i hknown
        rw [List.contains_iff_mem] at hknown
        constructor
        · rintro (h | h)
          · exact .inl h
          · exact .inr (by simp [h])
        · rintro (h | h)
          · exact .inl h
          · rcases List.mem_cons.mp h with rfl | h
            · exact .inl hknown
            · exact .inr h
      · rw [List.mem_append, List.mem_singleton, List.mem_cons, or_assoc]

theorem stable_noteDependents (splitter : Splitter) (name other : String) (targets : List String)
    (h : splitter.Stable other) : (splitter.noteDependents name targets).Stable other where
  groups := h.groups
  dependents target htarget :=
    (mem_dependentsOf_noteDependents splitter name other targets target).mpr
      (.inl (h.dependents target htarget))

-- A change of one class leaves those stable that never looked it up.
theorem stable_setGroups (splitter : Splitter) (name other : String) (groups : List Group)
    (hother : splitter.Stable other) (hne : other ≠ name)
    (hapart : name ∉ (splitter.computeGroups other).2) :
    (splitter.setGroups name groups).Stable other := by
  have hget : ∀ target, target ≠ name →
      (splitter.setGroups name groups).groups.get? target = splitter.groups.get? target := by
    intro target htarget
    simp [setGroups, htarget]
  have hsame := computeGroups_congr splitter (splitter.setGroups name groups) other rfl
    fun target htarget => hget target fun heq => hapart (heq ▸ htarget)
  constructor
  · rw [hget other hne, hsame]
    exact hother.groups
  · rw [hsame]
    exact hother.dependents

-- The changed class itself is stable unless it looked itself up.
theorem stable_setGroups_self (splitter : Splitter) (name : String)
    (hdependents : ∀ target ∈ (splitter.computeGroups name).2, name ∈ splitter.dependentsOf target)
    (hapart : name ∉ (splitter.computeGroups name).2) :
    (splitter.setGroups name (splitter.computeGroups name).1).Stable name := by
  have hsame := computeGroups_congr splitter
    (splitter.setGroups name (splitter.computeGroups name).1) name rfl fun target htarget => by
      have hne : target ≠ name := fun heq => hapart (heq ▸ htarget)
      simp [setGroups, hne]
  constructor
  · rw [hsame]
    simp [setGroups]
  · rw [hsame]
    exact hdependents

-- What taking one class off the queue does.
theorem regroup_cons (splitter : Splitter) (name : String) (queue : List String) :
    let noted := splitter.noteDependents name (splitter.computeGroups name).2
    splitter.regroup (name :: queue) =
      if splitter.groups.get? name = some (splitter.computeGroups name).1 then noted.regroup queue
      else (noted.setGroups name (splitter.computeGroups name).1, some (name, queue)) := rfl

-- Up to the first change the queue gets shorter, and then it gets those that looked the class up.
theorem pending_regroup (splitter : Splitter) (queue : List String)
    (h : splitter.Pending queue) :
    match splitter.regroup queue with
    | (after, none) => after.Pending []
    | (after, some (name, rest)) => after.Pending (enqueue rest (after.dependentsOf name)) := by
  induction queue generalizing splitter with
  | nil => exact h
  | cons name queue ih =>
      have hself : ∀ target ∈ (splitter.computeGroups name).2,
          name ∈ (splitter.noteDependents name (splitter.computeGroups name).2).dependentsOf
            target := fun target htarget =>
        (mem_dependentsOf_noteDependents splitter name name _ target).mpr (.inr ⟨rfl, htarget⟩)
      have hrest : ∀ other ∈ splitter.snapshots.keys, other = name ∨ other ∈ queue ∨
          (splitter.noteDependents name (splitter.computeGroups name).2).Stable other := by
        intro other hother
        rcases h other hother with hqueued | hstable
        · rcases List.mem_cons.mp hqueued with rfl | hqueued
          · exact .inl rfl
          · exact .inr (.inl hqueued)
        · exact .inr (.inr (stable_noteDependents splitter name other _ hstable))
      rw [regroup_cons]
      by_cases hsame : splitter.groups.get? name = some (splitter.computeGroups name).1
      · rw [if_pos hsame]
        refine ih _ fun other hother => ?_
        rcases hrest other hother with rfl | hqueued | hstable
        · exact .inr ⟨hsame, hself⟩
        · exact .inl hqueued
        · exact .inr hstable
      · rw [if_neg hsame]
        intro other hother
        rw [mem_enqueue]
        by_cases hdependent : other ∈
            (splitter.noteDependents name (splitter.computeGroups name).2).dependentsOf name
        · exact .inl (.inr hdependent)
        · by_cases hname : other = name
          · subst hname
            refine .inr (stable_setGroups_self _ other hself ?_)
            exact fun hlooked => hdependent (hself other hlooked)
          · rcases hrest other hother with heq | hqueued | hstable
            · exact absurd heq hname
            · exact .inl (.inl hqueued)
            · refine .inr (stable_setGroups _ name other _ hstable hname ?_)
              exact fun hlooked => hdependent (hstable.dependents name hlooked)

end Splitter

end ApiUnion
