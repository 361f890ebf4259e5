import ApiUnion.Proofs.Catalog.Admission
import ApiUnion.Proofs.Catalog.Effects
import ApiUnion.Proofs.Merge.Balance

-- The books of a run. Every class and every member that is taken in is in the catalog or accounted
-- for in its tally, once.

namespace ApiUnion

namespace Catalog

-- The snapshots of a run, each with what became of it.
def history (catalog : Catalog) (snapshots : List ApiClass) : List (ApiClass × Outcome) :=
  snapshots.zip (catalog.outcomes snapshots)

theorem history_cons (catalog : Catalog) (snapshot : ApiClass) (rest : List ApiClass) :
    catalog.history (snapshot :: rest) =
      [(snapshot, (catalog.append snapshot).2)] ++ (catalog.append snapshot).1.history rest :=
  rfl

-- Those that came out in one of some ways.
def cameOut (ways : List Outcome) (history : List (ApiClass × Outcome)) : List ApiClass :=
  (history.filter fun row => row.2 ∈ ways).map Prod.fst

theorem cameOut_append (ways : List Outcome) (earlier later : List (ApiClass × Outcome)) :
    cameOut ways (earlier ++ later) = cameOut ways earlier ++ cameOut ways later := by
  simp [cameOut]

theorem cameOut_singleton (ways : List Outcome) (snapshot : ApiClass) (outcome : Outcome) :
    cameOut ways [(snapshot, outcome)] = if outcome ∈ ways then [snapshot] else [] := by
  by_cases h : outcome ∈ ways <;> simp [cameOut, h]

-- What is in a catalog together with its tally, against what went into it.
structure Balances (before : Catalog) (history : List (ApiClass × Outcome)) (after : Catalog) :
    Prop where
  classes : after.classes.size = before.classes.size + (cameOut [.installed] history).length
  merged : after.tally.classes.successes =
    before.tally.classes.successes + (cameOut [.merged] history).length
  rejected : after.tally.classes.failed =
    before.tally.classes.failed + (cameOut [.rejected] history).length
  fields : after.classes.total (fun entry => entry.fields.size) + after.tally.fields.total =
    before.classes.total (fun entry => entry.fields.size) + before.tally.fields.total +
      ((cameOut [.installed, .merged] history).map fun snapshot => snapshot.fields.size).sum
  methods : after.classes.total (fun entry => entry.allMethods.length) +
      after.tally.methods.successes =
    before.classes.total (fun entry => entry.allMethods.length) + before.tally.methods.successes +
      ((cameOut [.installed, .merged] history).map fun snapshot => snapshot.allMethods.length).sum
  innerClasses : after.tally.innerClasses.total = before.tally.innerClasses.total +
    ((cameOut [.merged] history).map fun snapshot => snapshot.innerClasses.size).sum

namespace Balances

variable {first next last : Catalog} {earlier later : List (ApiClass × Outcome)}

theorem refl (catalog : Catalog) : Balances catalog [] catalog := by
  constructor <;> rfl

theorem trans (hfirst : Balances first earlier next) (hnext : Balances next later last) :
    Balances first (earlier ++ later) last := by
  obtain ⟨hclasses, hmerged, hrejected, hfields, hmethods, hinner⟩ := hfirst
  obtain ⟨hclasses', hmerged', hrejected', hfields', hmethods', hinner'⟩ := hnext
  constructor
  all_goals
    rw [cameOut_append]
    simp only [List.length_append, List.map_append, List.sum_append]
    omega

end Balances

theorem balances_unchanged (catalog : Catalog) (snapshot : ApiClass) {outcome : Outcome}
    (h : outcome = .skipped ∨ outcome = .duplicate) :
    Balances catalog [(snapshot, outcome)] catalog := by
  rcases h with rfl | rfl
  · constructor <;> rfl
  · constructor <;> rfl

section Steps

variable {catalog : Catalog} {existing snapshot : ApiClass}

theorem balances_installed (hnew : catalog.get? snapshot.name = none) :
    Balances catalog [(snapshot, .installed)] (catalog.put snapshot []) := by
  have htotal := fun weight => Table.total_insert_of_none hnew weight snapshot
  have hsize : (catalog.put snapshot []).classes.size = catalog.classes.size + 1 := by
    rw [← Table.total_one, ← Table.total_one]
    exact htotal fun _ => 1
  have hfields := htotal fun entry => entry.fields.size
  have hmethods := htotal fun entry => entry.allMethods.length
  refine ⟨hsize, rfl, rfl, ?_, ?_, rfl⟩
  · simp only [cameOut_singleton, put, Tally.recordAll, List.foldl_nil, hfields]
    exact Nat.add_right_comm _ _ _
  · simp only [cameOut_singleton, put, Tally.recordAll, List.foldl_nil, hmethods]
    exact Nat.add_right_comm _ _ _

theorem balances_rejected (catalog : Catalog) (snapshot : ApiClass) (finding : Finding) :
    Balances catalog [(snapshot, .rejected)]
      { catalog with tally := catalog.tally.record (.failed .classes finding) } := by
  refine ⟨rfl, rfl, ?_, rfl, rfl, rfl⟩
  exact Array.size_push finding

theorem balances_merged {signature : Option String} (hown : existing.name = snapshot.name)
    (hexisting : catalog.get? snapshot.name = some existing)
    (hchecked : Merge.checkClass existing snapshot = .ok signature) :
    Balances catalog [(snapshot, .merged)]
      (catalog.put (Merge.applyClass catalog.options existing snapshot signature).value
        (Merge.classes catalog.options existing snapshot).events) := by
  have hname : (Merge.applyClass catalog.options existing snapshot signature).value.name =
      snapshot.name := (Merge.name_applyClass _ _ _ _).trans hown
  have hkept := fun weight => Table.total_insert_of_some hexisting weight
    (Merge.applyClass catalog.options existing snapshot signature).value
  rw [← hname] at hkept
  have htotal (scope : Scope) := (Tally.total_recordAll catalog.tally _ scope).trans
    (congrArg _ (Merge.attempts_classes_of_ok catalog.options hchecked scope))
  have hsuccesses (scope : Scope) := (Tally.successes_recordAll catalog.tally _ scope).trans
    (congrArg _ (Merge.successes_classes_of_ok catalog.options hchecked scope))
  -- The parts of a merge leave the figures of classes alone.
  have hparts := Merge.recordsIn_applyClass catalog.options existing snapshot signature
  have hattempts := hparts.countP_eq_zero (fun _ => Event.scope_of_isAttemptIn)
    (by decide : Scope.classes ∉ _)
  have hsuccess := hparts.countP_eq_zero (fun _ => Event.scope_of_isSuccessIn)
    (by decide : Scope.classes ∉ _)
  have hclasses := htotal .classes
  have hmerged := hsuccesses .classes
  rw [hattempts, if_pos rfl] at hclasses
  rw [hsuccess, if_pos rfl] at hmerged
  constructor
  case classes =>
    have hsize := hkept fun _ => 1
    rw [Table.total_one, Table.total_one] at hsize
    exact Nat.add_right_cancel hsize
  case merged => exact hmerged
  case rejected =>
    simp only [ScopeTally.total] at hclasses
    show ScopeTally.failed ((catalog.tally.recordAll _).scope .classes) =
      (catalog.tally.scope .classes).failed
    omega
  case fields =>
    have hentry := hkept fun entry => entry.fields.size
    have hlog := htotal .fields
    have hbalance := Merge.balance_fields catalog.options existing snapshot signature
    simp only [Tally.scope, reduceCtorEq, if_false, Nat.add_zero, put, cameOut_singleton,
      List.mem_cons, List.not_mem_nil, or_false, or_true, if_true, List.map_cons, List.map_nil,
      List.sum_cons, List.sum_nil] at hlog ⊢
    omega
  case methods =>
    have hentry := hkept fun entry => entry.allMethods.length
    have hlog := hsuccesses .methods
    have hbalance := Merge.balance_methods catalog.options existing snapshot signature
    simp only [Tally.scope, reduceCtorEq, if_false, Nat.add_zero, put, cameOut_singleton,
      List.mem_cons, List.not_mem_nil, or_false, or_true, if_true, List.map_cons, List.map_nil,
      List.sum_cons, List.sum_nil] at hlog ⊢
    omega
  case innerClasses =>
    have hlog := htotal .innerClasses
    rw [Merge.attempts_innerClasses_applyClass] at hlog
    exact hlog

end Steps

-- One step of a run keeps the books.
theorem balances_append (catalog : Catalog) (snapshot : ApiClass) (hkeyed : catalog.Keyed) :
    Balances catalog [(snapshot, (catalog.append snapshot).2)] (catalog.append snapshot).1 := by
  cases hskips : catalog.skips snapshot with
  | true =>
      have happend : catalog.append snapshot = (catalog, .skipped) := if_pos hskips
      rw [happend]
      exact balances_unchanged catalog snapshot (.inl rfl)
  | false =>
      cases hexisting : catalog.get? snapshot.name with
      | none =>
          have happend : catalog.append snapshot = (catalog.put snapshot [], .installed) := by
            unfold append
            rw [hskips, hexisting]
            rfl
          rw [happend]
          exact balances_installed hexisting
      | some existing =>
          cases hseen : existing.version.contains snapshot.version with
          | true =>
              have happend : catalog.append snapshot = (catalog, .duplicate) := by
                unfold append
                rw [hskips, hexisting]
                exact if_pos hseen
              rw [happend]
              exact balances_unchanged catalog snapshot (.inr rfl)
          | false =>
              cases hchecked : Merge.checkClass existing snapshot with
              | error conflict =>
                  rw [append_of_error hskips hexisting hseen hchecked]
                  exact balances_rejected catalog snapshot _
              | ok signature =>
                  rw [append_of_ok hskips hexisting hseen hchecked]
                  exact balances_merged (hkeyed _ _ hexisting) hexisting hchecked

theorem balances_appendAll (catalog : Catalog) (snapshots : List ApiClass)
    (hkeyed : catalog.Keyed) :
    Balances catalog (catalog.history snapshots) (catalog.appendAll snapshots) := by
  induction snapshots generalizing catalog with
  | nil => exact .refl catalog
  | cons snapshot rest ih =>
      rw [history_cons]
      exact (balances_append catalog snapshot hkeyed).trans
        (ih _ (keyed_append catalog snapshot hkeyed))

-- The report of a run: what was taken in is there, or the report says what became of it.
theorem report_appendAll (options : MergeOptions) (snapshots : List ApiClass) :
    let catalog := (empty options).appendAll snapshots
    let history := (empty options).history snapshots
    let accepted := cameOut [.installed, .merged] history
    catalog.classes.size = (cameOut [.installed] history).length ∧
      catalog.tally.classes.successes = (cameOut [.merged] history).length ∧
      catalog.tally.classes.failed = (cameOut [.rejected] history).length ∧
      catalog.classes.total (fun entry => entry.fields.size) + catalog.tally.fields.total =
        (accepted.map fun snapshot => snapshot.fields.size).sum ∧
      catalog.classes.total (fun entry => entry.allMethods.length) +
          catalog.tally.methods.successes =
        (accepted.map fun snapshot => snapshot.allMethods.length).sum ∧
      catalog.tally.innerClasses.total =
        ((cameOut [.merged] history).map fun snapshot => snapshot.innerClasses.size).sum ∧
      ∀ scope, (catalog.tally.scope scope).total =
          (catalog.tally.scope scope).successes + (catalog.tally.scope scope).failed ∧
        ((catalog.tally.scope scope).byCategory.map Prod.snd).sum =
          (catalog.tally.scope scope).failures.size +
            (catalog.tally.scope scope).warnings.size := by
  intro catalog history accepted
  obtain ⟨hclasses, hmerged, hrejected, hfields, hmethods, hinner⟩ :=
    balances_appendAll (empty options) snapshots (keyed_empty options)
  refine ⟨hclasses.trans (Nat.zero_add _), hmerged.trans (Nat.zero_add _),
    hrejected.trans (Nat.zero_add _), hfields.trans (Nat.zero_add _),
    hmethods.trans (Nat.zero_add _), hinner.trans (Nat.zero_add _), fun scope => ⟨rfl, ?_⟩⟩
  exact ScopeTally.sum_byCategory _

end Catalog

end ApiUnion
