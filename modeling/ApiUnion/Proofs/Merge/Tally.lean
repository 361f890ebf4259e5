import Mathlib.Data.List.Perm.Basic
import ApiUnion.Merge.Tally

-- A tally is a view of the events recorded in it: each figure of a scope is counted or collected
-- from the events of that scope. So two runs that record the same events, in whatever order, have
-- the same figures.

namespace ApiUnion

namespace Event

def failure? (scope : Scope) : Event → Option Finding
  | .failed other finding => if other = scope then some finding else none
  | .succeeded _ | .tolerated _ _ => none

def warning? (scope : Scope) : Event → Option Finding
  | .tolerated other finding => if other = scope then some finding else none
  | .succeeded _ | .failed _ _ => none

end Event

namespace ScopeTally

-- What a list of events amounts to in a scope.
def ofEvents (scope : Scope) (events : List Event) : ScopeTally where
  successes := events.count (.succeeded scope)
  failures := (events.filterMap (Event.failure? scope)).toArray
  warnings := (events.filterMap (Event.warning? scope)).toArray

theorem add_ofEvents_nil (tally : ScopeTally) (scope : Scope) :
    tally.add (ofEvents scope []) = tally := by
  simp [add, ofEvents]

theorem add_assoc (a b c : ScopeTally) : (a.add b).add c = a.add (b.add c) := by
  simp [add, Nat.add_assoc, Array.append_assoc]

theorem ofEvents_append (scope : Scope) (xs ys : List Event) :
    ofEvents scope (xs ++ ys) = (ofEvents scope xs).add (ofEvents scope ys) := by
  simp [add, ofEvents]

-- The figures that are reported of a scope, the order of its findings aside.
structure SameFigures (a b : ScopeTally) : Prop where
  successes : a.successes = b.successes
  failed : a.failed = b.failed
  byCategory : a.byCategory = b.byCategory
  failures : a.failures.toList.Perm b.failures.toList
  warnings : a.warnings.toList.Perm b.warnings.toList

theorem SameFigures.of_perm {a b : ScopeTally} (hsuccesses : a.successes = b.successes)
    (hfailures : a.failures.toList.Perm b.failures.toList)
    (hwarnings : a.warnings.toList.Perm b.warnings.toList) : SameFigures a b where
  successes := hsuccesses
  failed := hfailures.length_eq
  byCategory := by
    have hfindings : a.findings.Perm b.findings := hfailures.append hwarnings
    unfold ScopeTally.byCategory
    simp only [hfindings.countP_eq]
  failures := hfailures
  warnings := hwarnings

end ScopeTally

namespace Tally

theorem ext_scope {a b : Tally} (h : ∀ scope, a.scope scope = b.scope scope) : a = b := by
  have hclasses := h .classes
  have hfields := h .fields
  have hmethods := h .methods
  have hannotations := h .annotations
  have hinnerClasses := h .innerClasses
  cases a
  cases b
  simp_all [scope]

@[simp] theorem scope_empty (scope : Scope) : ({} : Tally).scope scope = {} := by
  cases scope <;> rfl

@[simp] theorem scope_modify (tally : Tally) (f : ScopeTally → ScopeTally) (changed scope : Scope) :
    (tally.modify f changed).scope scope =
      if changed = scope then f (tally.scope scope) else tally.scope scope := by
  cases changed <;> cases scope <;> rfl

@[simp] theorem scope_add (a b : Tally) (scope : Scope) :
    (a.add b).scope scope = (a.scope scope).add (b.scope scope) := by
  cases scope <;> rfl

theorem scope_record (tally : Tally) (event : Event) (scope : Scope) :
    (tally.record event).scope scope =
      (tally.scope scope).add (ScopeTally.ofEvents scope [event]) := by
  simp only [ScopeTally.ofEvents, ScopeTally.add]
  cases event with
  | succeeded other =>
      rw [record, scope_modify]
      by_cases h : other = scope
      · simp [h, Event.failure?, Event.warning?, List.filterMap_cons]
      · simp [h, Event.failure?, Event.warning?, List.filterMap_cons]
  | failed other finding | tolerated other finding =>
      rw [record, scope_modify]
      by_cases h : other = scope
      · simp [h, Event.failure?, Event.warning?, List.filterMap_cons]
      · simp [h, Event.failure?, Event.warning?, List.filterMap_cons]

theorem scope_recordAll (tally : Tally) (events : List Event) (scope : Scope) :
    (tally.recordAll events).scope scope =
      (tally.scope scope).add (ScopeTally.ofEvents scope events) := by
  induction events generalizing tally with
  | nil => rw [ScopeTally.add_ofEvents_nil, recordAll, List.foldl_nil]
  | cons event events ih =>
      have hstep : tally.recordAll (event :: events) = (tally.record event).recordAll events := rfl
      rw [hstep, ih, scope_record, ScopeTally.add_assoc, ← ScopeTally.ofEvents_append]
      rfl

theorem recordAll_append (tally : Tally) (xs ys : List Event) :
    tally.recordAll (xs ++ ys) = (tally.recordAll xs).recordAll ys :=
  List.foldl_append

-- Adding a tally that was kept apart is the same as recording its events.
theorem add_recordAll (tally : Tally) (events : List Event) :
    tally.add (({} : Tally).recordAll events) = tally.recordAll events := by
  refine ext_scope fun scope => ?_
  rw [scope_add, scope_recordAll, scope_recordAll, scope_empty]
  simp [ScopeTally.add]

theorem sameFigures_recordAll (tally : Tally) {xs ys : List Event} (h : xs.Perm ys)
    (scope : Scope) :
    ((tally.recordAll xs).scope scope).SameFigures ((tally.recordAll ys).scope scope) := by
  rw [scope_recordAll, scope_recordAll]
  refine ScopeTally.SameFigures.of_perm ?_ ?_ ?_
  · simp [ScopeTally.add, ScopeTally.ofEvents, h.count_eq]
  · simpa [ScopeTally.add, ScopeTally.ofEvents] using (h.filterMap _).append_left _
  · simpa [ScopeTally.add, ScopeTally.ofEvents] using (h.filterMap _).append_left _

end Tally

end ApiUnion
