import ApiUnion.Proofs.Catalog.Acceptance
import ApiUnion.Proofs.Merge.Fitting

-- Runs in which no snapshot is rejected: those in which each fits all earlier ones of its class.

namespace ApiUnion

namespace Catalog

-- What becomes of the snapshots of a run, one after another.
def outcomes : Catalog → List ApiClass → List Outcome
  | _, [] => []
  | catalog, snapshot :: rest =>
    (catalog.append snapshot).2 :: outcomes (catalog.append snapshot).1 rest

theorem exists_of_mem_outcomes {catalog : Catalog} {snapshots : List ApiClass} {outcome : Outcome}
    (h : outcome ∈ catalog.outcomes snapshots) :
    ∃ before snapshot after, snapshots = before ++ snapshot :: after ∧
      ((catalog.appendAll before).append snapshot).2 = outcome := by
  induction snapshots generalizing catalog with
  | nil => cases h
  | cons snapshot rest ih =>
      rcases List.mem_cons.mp h with rfl | h
      · exact ⟨[], snapshot, rest, rfl, rfl⟩
      · obtain ⟨before, found, after, rfl, houtcome⟩ := ih h
        exact ⟨snapshot :: before, found, after, rfl, houtcome⟩

theorem mem_acceptances {name : String} {catalog : Catalog} {snapshots : List ApiClass}
    {step : Acceptance} (h : step ∈ acceptances name catalog snapshots) :
    step.snapshot ∈ snapshots ∧ step.snapshot.name = name := by
  induction snapshots generalizing catalog with
  | nil => cases h
  | cons snapshot rest ih =>
      rcases List.mem_append.mp h with h | h
      · have haccepted := Option.mem_toList.mp h
        unfold acceptance? at haccepted
        split at haccepted
        · cases haccepted
        · rename_i hname
          have hsnapshot : step.snapshot = snapshot := by
            split at haccepted
            all_goals cases haccepted
            all_goals rfl
          rw [hsnapshot]
          exact ⟨List.mem_cons_self, not_not.mp hname⟩
      · exact (ih h).imp_left (List.mem_cons_of_mem _)

theorem checkClass_of_rejected {catalog : Catalog} {snapshot : ApiClass}
    (h : (catalog.append snapshot).2 = .rejected) :
    ∃ existing, catalog.get? snapshot.name = some existing ∧
      ∀ signature, Merge.checkClass existing snapshot ≠ .ok signature := by
  unfold append at h
  split at h
  · cases h
  · split at h
    · cases h
    · rename_i existing hexisting
      refine ⟨existing, hexisting, fun signature hchecked => ?_⟩
      simp only [Merge.value_classes, hchecked] at h
      split at h
      · cases h
      · cases h

-- A class is as sound as what it took in, and whatever fits all of that fits the class.
theorem fits_run (options : MergeOptions) (snapshots : List ApiClass) (name : String)
    (hsound : ∀ snapshot ∈ snapshots, snapshot.Sound) :
    ∀ entry ∈ ((empty options).appendAll snapshots).get? name, entry.Sound ∧
      ∀ other, (∀ step ∈ acceptances name (empty options) snapshots, step.snapshot.Fits other) →
        entry.Fits other := by
  refine run_induction (motive := fun found taken => ∀ entry : ApiClass, entry ∈ found →
    entry.Sound ∧ ∀ other, (∀ step ∈ taken, step.snapshot.Fits other) → entry.Fits other)
    name options snapshots ?_ ?_ ?_
  · intro entry hentry
    cases hentry
  · intro snapshot hsnapshot entry hentry
    obtain rfl := Option.some.inj hentry
    exact ⟨hsound _ hsnapshot, fun other hall => hall _ (List.mem_singleton.mpr rfl)⟩
  · intro existing taken snapshot hsnapshot signature ih hchecked entry hentry
    obtain rfl := Option.some.inj hentry
    obtain ⟨hexisting, hfits⟩ := ih existing rfl
    obtain ⟨hmerged, hmergedFits⟩ :=
      Merge.fits_applyClass options hexisting (hsound snapshot hsnapshot) hchecked
    refine ⟨hmerged, fun other hall => ?_⟩
    rw [List.forall_mem_append] at hall
    exact hmergedFits other (hfits other hall.1) (hall.2 _ (List.mem_singleton.mpr rfl))

theorem rejected_notMem_outcomes (options : MergeOptions) (snapshots : List ApiClass)
    (hsound : ∀ snapshot ∈ snapshots, snapshot.Sound)
    (hfits : snapshots.Pairwise fun a b => a.name = b.name → a.Fits b) :
    Outcome.rejected ∉ (empty options).outcomes snapshots := by
  intro hmem
  obtain ⟨before, snapshot, after, rfl, hrejected⟩ := exists_of_mem_outcomes hmem
  obtain ⟨existing, hexisting, hchecked⟩ := checkClass_of_rejected hrejected
  obtain ⟨-, -, hearlier⟩ := List.pairwise_append.mp hfits
  have hsnapshot := hsound snapshot (by simp)
  obtain ⟨hsound, hrun⟩ := fits_run options before snapshot.name
    (fun other hother => hsound other (List.mem_append_left _ hother)) existing hexisting
  obtain ⟨signature, hok⟩ := Merge.checkClass_of_fits hsound hsnapshot
    (hrun snapshot fun step hstep => by
      obtain ⟨hmem, hname⟩ := mem_acceptances hstep
      exact hearlier _ hmem snapshot List.mem_cons_self hname)
  exact hchecked signature hok

end Catalog

end ApiUnion
