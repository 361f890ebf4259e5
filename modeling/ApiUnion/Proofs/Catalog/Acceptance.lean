import ApiUnion.Catalog.Basic
import ApiUnion.Proofs.Merge.Classes

-- What one snapshot does to a catalog: it is installed, merged or turned away.

namespace ApiUnion

-- A snapshot that a catalog took in, and what the catalog had of the class before.
structure Acceptance where
  before : Option ApiClass
  snapshot : ApiClass

namespace Catalog

-- Whether appending the snapshot installs or merges it, for the class of that name.
def acceptance? (name : String) (catalog : Catalog) (snapshot : ApiClass) : Option Acceptance :=
  if snapshot.name ≠ name then none
  else
    match (catalog.append snapshot).2 with
    | .installed | .merged => some ⟨catalog.get? name, snapshot⟩
    | .duplicate | .rejected | .skipped => none

-- All that a run takes in for a class, in order.
def acceptances (name : String) : Catalog → List ApiClass → List Acceptance
  | _, [] => []
  | catalog, snapshot :: rest =>
    (acceptance? name catalog snapshot).toList ++
      acceptances name (catalog.append snapshot).1 rest

-- Every class stands under its own name.
def Keyed (catalog : Catalog) : Prop :=
  ∀ name entry, catalog.get? name = some entry → entry.name = name

theorem get?_put (catalog : Catalog) (entry : ApiClass) (events : List Event) (name : String) :
    (catalog.put entry events).get? name =
      if name = entry.name then some entry else catalog.get? name :=
  catalog.classes.get?_insert entry.name name entry

theorem keyed_empty (options : MergeOptions) : Keyed (empty options) := by
  intro name entry h
  simp [empty, get?] at h

theorem keyed_put (catalog : Catalog) (entry : ApiClass) (events : List Event)
    (h : catalog.Keyed) : (catalog.put entry events).Keyed := by
  intro name other hget
  rw [get?_put] at hget
  split at hget
  · rename_i hname
    obtain rfl := Option.some.inj hget
    exact hname.symm
  · exact h name other hget

theorem append_cases (catalog : Catalog) (snapshot : ApiClass) :
    (((catalog.append snapshot).2 = .duplicate ∨ (catalog.append snapshot).2 = .rejected ∨
        (catalog.append snapshot).2 = .skipped) ∧
      (catalog.append snapshot).1.classes = catalog.classes ∧
      (catalog.append snapshot).1.options = catalog.options) ∨
    (catalog.get? snapshot.name = none ∧
      catalog.append snapshot = (catalog.put snapshot [], .installed)) ∨
    ∃ existing signature events, catalog.get? snapshot.name = some existing ∧
      Merge.checkClass existing snapshot = .ok signature ∧
      catalog.append snapshot =
        (catalog.put (Merge.applyClass catalog.options existing snapshot signature).value events,
          .merged) := by
  unfold append
  by_cases hskips : catalog.skips snapshot
  · rw [if_pos hskips]
    exact .inl ⟨.inr (.inr rfl), rfl, rfl⟩
  rw [if_neg hskips]
  cases hget : catalog.get? snapshot.name with
  | none => exact .inr (.inl ⟨rfl, rfl⟩)
  | some existing =>
      by_cases hseen : existing.version.contains snapshot.version
      · simp [hseen]
      simp only [hseen, Merge.value_classes]
      cases hchecked : Merge.checkClass existing snapshot with
      | error conflict => exact .inl ⟨.inr (.inl rfl), rfl, rfl⟩
      | ok signature => exact .inr (.inr ⟨existing, signature, _, rfl, hchecked, rfl⟩)

-- Everything that appending a snapshot can do to the class of one name.
inductive Appended (name : String) (catalog : Catalog) (snapshot : ApiClass) (after : Catalog) :
    Prop
  | kept (haccepted : acceptance? name catalog snapshot = none)
      (hget : after.get? name = catalog.get? name)
  | installed (haccepted : acceptance? name catalog snapshot = some ⟨none, snapshot⟩)
      (hbefore : catalog.get? name = none) (hget : after.get? name = some snapshot)
  | merged (existing : ApiClass) (signature : Option String)
      (haccepted : acceptance? name catalog snapshot = some ⟨some existing, snapshot⟩)
      (hbefore : catalog.get? name = some existing)
      (hchecked : Merge.checkClass existing snapshot = .ok signature)
      (hget : after.get? name =
        some (Merge.applyClass catalog.options existing snapshot signature).value)

theorem acceptance?_of_ne (name : String) (catalog : Catalog) (snapshot : ApiClass)
    (h : snapshot.name ≠ name) : acceptance? name catalog snapshot = none := by
  unfold acceptance?
  rw [if_pos h]

theorem appended_append (name : String) (catalog : Catalog) (snapshot : ApiClass)
    (hkeyed : catalog.Keyed) : Appended name catalog snapshot (catalog.append snapshot).1 := by
  rcases catalog.append_cases snapshot with ⟨houtcome, hclasses, -⟩ | ⟨hbefore, happend⟩ |
    ⟨existing, signature, events, hbefore, hchecked, happend⟩
  · refine .kept ?_ (by rw [get?, hclasses, get?])
    unfold acceptance?
    rcases houtcome with h | h | h <;> simp [h]
  · by_cases hname : snapshot.name = name
    · subst hname
      refine .installed ?_ hbefore ?_
      · simp [acceptance?, happend, hbefore]
      · rw [happend, get?_put, if_pos rfl]
    · refine .kept (acceptance?_of_ne name catalog snapshot hname) ?_
      rw [happend, get?_put, if_neg (Ne.symm hname)]
  · have hown : existing.name = snapshot.name := hkeyed _ _ hbefore
    by_cases hname : snapshot.name = name
    · subst hname
      refine .merged existing signature ?_ hbefore hchecked ?_
      · simp [acceptance?, happend, hbefore]
      · rw [happend, get?_put, if_pos (by rw [Merge.name_applyClass, hown])]
    · refine .kept (acceptance?_of_ne name catalog snapshot hname) ?_
      rw [happend, get?_put, if_neg (by rw [Merge.name_applyClass, hown]; exact Ne.symm hname)]

theorem keyed_append (catalog : Catalog) (snapshot : ApiClass) (h : catalog.Keyed) :
    (catalog.append snapshot).1.Keyed := by
  rcases catalog.append_cases snapshot with ⟨-, hclasses, -⟩ | ⟨-, happend⟩ |
    ⟨existing, signature, events, -, -, happend⟩
  · intro name entry hget
    rw [get?, hclasses] at hget
    exact h name entry hget
  · rw [happend]
    exact keyed_put catalog snapshot [] h
  · rw [happend]
    exact keyed_put catalog _ events h

theorem keyed_appendAll (options : MergeOptions) (snapshots : List ApiClass) :
    ((empty options).appendAll snapshots).Keyed := by
  unfold appendAll
  generalize hstart : empty options = catalog
  have hkeyed : catalog.Keyed := hstart ▸ keyed_empty options
  clear hstart
  induction snapshots generalizing catalog with
  | nil => exact hkeyed
  | cons snapshot snapshots ih => exact ih _ (keyed_append catalog snapshot hkeyed)

theorem keyed_cleanUp (catalog : Catalog) (h : catalog.Keyed) : catalog.cleanUp.Keyed := by
  intro name entry hget
  rw [get?, cleanUp, Table.get?_map] at hget
  obtain ⟨original, horiginal, rfl⟩ := Option.map_eq_some_iff.mp hget
  exact h name original horiginal

theorem options_append (catalog : Catalog) (snapshot : ApiClass) :
    (catalog.append snapshot).1.options = catalog.options := by
  rcases catalog.append_cases snapshot with ⟨-, -, hoptions⟩ | ⟨-, happend⟩ |
    ⟨existing, signature, events, -, -, happend⟩
  · exact hoptions
  · rw [happend]
    rfl
  · rw [happend]
    rfl

theorem options_appendAll (catalog : Catalog) (snapshots : List ApiClass) :
    (catalog.appendAll snapshots).options = catalog.options := by
  induction snapshots generalizing catalog with
  | nil => rfl
  | cons snapshot snapshots ih => exact (ih _).trans (options_append catalog snapshot)

-- What holds of a class and of all that was taken in for it holds after every run, if it holds of
-- the first snapshot alone and a merge keeps it.
theorem run_induction {motive : Option ApiClass → List Acceptance → Prop} (name : String)
    (options : MergeOptions) (snapshots : List ApiClass) (hnone : motive none [])
    (hinstalled : ∀ snapshot ∈ snapshots, motive (some snapshot) [⟨none, snapshot⟩])
    (hmerged : ∀ existing taken, ∀ snapshot ∈ snapshots, ∀ signature,
      motive (some existing) taken → Merge.checkClass existing snapshot = .ok signature →
        motive (some (Merge.applyClass options existing snapshot signature).value)
          (taken ++ [⟨some existing, snapshot⟩])) :
    motive (((empty options).appendAll snapshots).get? name)
      (acceptances name (empty options) snapshots) := by
  -- The run goes on from a catalog that has taken in some snapshots already.
  suffices hrun : ∀ (rest : List ApiClass) (catalog : Catalog) (taken : List Acceptance),
      (∀ snapshot ∈ rest, snapshot ∈ snapshots) → catalog.Keyed → catalog.options = options →
      (catalog.get? name = none → taken = []) → motive (catalog.get? name) taken →
      motive ((catalog.appendAll rest).get? name) (taken ++ acceptances name catalog rest) by
    exact hrun snapshots (empty options) [] (fun _ h => h) (keyed_empty options) rfl
      (fun _ => rfl) hnone
  intro rest
  induction rest with
  | nil =>
      intro catalog taken _ _ _ _ hmotive
      simpa [acceptances, appendAll] using hmotive
  | cons snapshot rest ih =>
      intro catalog taken hfrom hkeyed hoptions htaken hmotive
      have hsnapshot := hfrom snapshot (by simp)
      have hnext := ih (catalog.append snapshot).1
        (taken ++ (acceptance? name catalog snapshot).toList)
        (fun other hother => hfrom other (by simp [hother])) (keyed_append catalog snapshot hkeyed)
        ((options_append catalog snapshot).trans hoptions)
      show motive (((catalog.append snapshot).1.appendAll rest).get? name)
        (taken ++ ((acceptance? name catalog snapshot).toList ++ _))
      rw [← List.append_assoc]
      cases appended_append name catalog snapshot hkeyed with
      | kept haccepted hget =>
          rw [haccepted, Option.toList_none, List.append_nil] at hnext ⊢
          rw [hget] at hnext
          exact hnext htaken hmotive
      | installed haccepted hbefore hget =>
          rw [htaken hbefore, haccepted] at hnext ⊢
          rw [hget] at hnext
          exact hnext (fun h => by cases h) (hinstalled snapshot hsnapshot)
      | merged existing signature haccepted hbefore hchecked hget =>
          rw [hbefore] at hmotive
          rw [haccepted] at hnext ⊢
          rw [hget, hoptions] at hnext
          exact hnext (fun h => by cases h)
            (hmerged existing taken snapshot hsnapshot signature hmotive hchecked)

end Catalog

end ApiUnion
