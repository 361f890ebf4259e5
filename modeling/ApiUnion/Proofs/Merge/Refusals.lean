import ApiUnion.Proofs.Merge.Members
import ApiUnion.Proofs.Merge.Tally
import ApiUnion.Proofs.Table

-- Fields that are refused. Merging a class with such fields is merging it without them, but for the
-- record of each refusal.

namespace ApiUnion

namespace Merge

-- What is put on record of a row if there is a field under its key already, and that refuses it.
def refusal? (owner : String) (target : Table ApiField) (row : String × ApiField) :
    Option Finding :=
  match target.get? row.1 with
  | none => none
  | some existing =>
    match checkField existing row.2 with
    | .ok _ => none
    | .error conflict => some (conflict.on s!"{owner}.{row.2.name}:{row.2.descriptor}")

-- The snapshot without the fields that the class refuses.
def fitting (existing snapshot : ApiClass) : ApiClass :=
  { snapshot with
    fields := snapshot.fields.filter fun row =>
      (refusal? existing.name existing.fields row).isNone }

-- The versions of fields do not matter for it.
theorem refusal?_explicitField (owner : String) (target : Table ApiField) (ofTarget ofRow : Version)
    (row : String × ApiField) :
    refusal? owner (target.map (explicitField ofTarget)) (row.1, explicitField ofRow row.2) =
      refusal? owner target row := by
  simp only [refusal?, Table.get?_map]
  cases target.get? row.1 with
  | none => rfl
  | some existing => rfl

theorem fields_withExplicitVersions_fitting (existing snapshot : ApiClass) :
    (withExplicitVersions (fitting existing snapshot)).fields =
      (withExplicitVersions snapshot).fields.filter fun row =>
        (refusal? existing.name (withExplicitVersions existing).fields row).isNone := by
  refine Table.ext_rows ?_
  simp only [withExplicitVersions, fitting, Table.filter, Table.map, List.filter_map]
  congr 1
  refine List.filter_congr fun row _ => ?_
  exact congrArg Option.isNone
    (refusal?_explicitField existing.name existing.fields existing.version snapshot.version
      row).symm

theorem intoFields_of_refusal? {owner : String} {target : Table ApiField} {row : String × ApiField}
    {finding : Finding} (h : refusal? owner target row = some finding) :
    intoFields owner target row = ⟨target, [.failed .fields finding]⟩ := by
  unfold refusal? at h
  cases hexisting : target.get? row.1 with
  | none => simp [hexisting] at h
  | some existing =>
      rw [hexisting] at h
      dsimp only at h
      cases hchecked : checkField existing row.2 with
      | ok signature => simp [hchecked] at h
      | error conflict =>
          rw [hchecked] at h
          obtain rfl := Option.some.inj h
          have hkept : intoFields owner target row = ⟨target.insert row.1 existing,
              [.failed .fields (conflict.on s!"{owner}.{row.2.name}:{row.2.descriptor}")]⟩ := by
            simp only [intoFields, hexisting, field, hchecked]
            rfl
          rw [hkept, Table.insert_of_get? hexisting]

theorem not_failure_intoFields {owner : String} {target : Table ApiField}
    {row : String × ApiField} (h : refusal? owner target row = none) :
    (intoFields owner target row).events.any (Event.isFailureIn .fields) = false := by
  unfold refusal? at h
  unfold intoFields
  cases hexisting : target.get? row.1 with
  | none => rfl
  | some existing =>
      rw [hexisting] at h
      have haccepted : refusesField owner existing row.2 = false := by
        rw [refusesField_eq]
        cases hchecked : checkField existing row.2 with
        | ok signature => rfl
        | error conflict => simp [hchecked] at h
      rw [Logged.events_bind, Logged.events_pure, List.append_nil]
      exact haccepted

theorem refusesField_of_refusal? {owner : String} {target : Table ApiField}
    {row : String × ApiField} {existing : ApiField} {finding : Finding}
    (hexisting : target.get? row.1 = some existing)
    (h : refusal? owner target row = some finding) (ofTarget ofRow : Version) :
    refusesField owner (explicitField ofTarget existing) (explicitField ofRow row.2) = true := by
  have hsame : checkField (explicitField ofTarget existing) (explicitField ofRow row.2) =
      checkField existing row.2 := rfl
  unfold refusal? at h
  rw [hexisting] at h
  rw [refusesField_eq, hsame]
  cases hchecked : checkField existing row.2 with
  | ok signature => simp [hchecked] at h
  | error conflict => rfl

-- Rows of other keys neither see nor change what becomes of a row.
theorem refusal?_intoFields {owner : String} {target : Table ApiField}
    {row other : String × ApiField} (hne : other.1 ≠ row.1) :
    refusal? owner (intoFields owner target row).value other = refusal? owner target other := by
  unfold refusal?
  rw [value_intoFields, Table.get?_insert, if_neg hne]

-- Failures in a scope, taken out of a list of events.
theorem filter_of_not_failure {scope : Scope} {events : List Event}
    (h : events.any (Event.isFailureIn scope) = false) :
    events.filter (fun event => !event.isFailureIn scope) = events ∧
      events.filterMap (Event.failure? scope) = [] := by
  rw [List.any_eq_false] at h
  refine ⟨List.filter_eq_self.mpr fun event hevent => by simpa using h event hevent, ?_⟩
  refine List.filterMap_eq_nil_iff.mpr fun event hevent => ?_
  have hevent := h event hevent
  cases event with
  | succeeded other => rfl
  | failed other finding => exact if_neg (by simpa [Event.isFailureIn] using hevent)
  | tolerated other finding => rfl

theorem foldlM_intoFields (owner : String) (target : Table ApiField)
    (rows : List (String × ApiField)) (hdistinct : (rows.map Prod.fst).Nodup) :
    let all := rows.foldlM (intoFields owner) target
    let kept := (rows.filter fun row => (refusal? owner target row).isNone).foldlM
      (intoFields owner) target
    kept.value = all.value ∧
      kept.events = all.events.filter (fun event => !event.isFailureIn .fields) ∧
      all.events.filterMap (Event.failure? .fields) = rows.filterMap (refusal? owner target) := by
  induction rows generalizing target with
  | nil => exact ⟨rfl, rfl, rfl⟩
  | cons row rows ih =>
      rw [List.map_cons, List.nodup_cons] at hdistinct
      have hlater : ∀ other ∈ rows,
          refusal? owner (intoFields owner target row).value other = refusal? owner target other :=
        fun other hother =>
          refusal?_intoFields fun heq => hdistinct.1 (heq ▸ List.mem_map_of_mem hother)
      obtain ⟨hvalue, hevents, hfailures⟩ := ih (intoFields owner target row).value hdistinct.2
      rw [List.filter_congr fun other hother => congrArg Option.isNone (hlater other hother)]
        at hvalue hevents
      rw [List.filterMap_congr hlater] at hfailures
      intro all kept
      have hall : all = (intoFields owner target row >>= fun next =>
        rows.foldlM (intoFields owner) next) := rfl
      rw [hall, Logged.value_bind, Logged.events_bind, List.filter_append, List.filterMap_append,
        hfailures, ← hevents, ← hvalue, List.filterMap_cons]
      cases hrefusal : refusal? owner target row with
      | some finding =>
          have hkept : kept = (rows.filter fun row => (refusal? owner target row).isNone).foldlM
              (intoFields owner) target := by
            simp [kept, hrefusal]
          rw [hkept, intoFields_of_refusal? hrefusal]
          exact ⟨rfl, rfl, rfl⟩
      | none =>
          have hkept : kept = (intoFields owner target row >>= fun next =>
              (rows.filter fun row => (refusal? owner target row).isNone).foldlM
                (intoFields owner) next) := by
            simp [kept, hrefusal]
          obtain ⟨hsame, hnone⟩ := filter_of_not_failure (not_failure_intoFields hrefusal)
          rw [hkept, hsame, hnone]
          exact ⟨rfl, rfl, rfl⟩

theorem not_failure_innerClasses (scope : Scope) (hscope : scope ≠ .innerClasses) (owner : String)
    (target incoming : Table InnerRef) :
    (innerClasses owner target incoming).events.any (Event.isFailureIn scope) = false :=
  Logged.not_failure_foldlM (fun target (row : String × InnerRef) =>
    Logged.not_failure_attempt hscope s!"{owner}->{row.1}" target (checkInner target row.1 row.2))
    incoming.rows target

theorem not_failure_parametersFrom (subject : String) (index : Nat)
    (targets incomings : List Parameter) :
    (parametersFrom subject index targets incomings).events.any (Event.isFailureIn .fields) =
      false := by
  induction targets generalizing index incomings with
  | nil => cases incomings <;> rfl
  | cons target targets ih =>
      cases incomings with
      | nil => rfl
      | cons incoming incomings =>
          simp only [parametersFrom, parameter, Logged.events_bind, Logged.events_pure,
            List.append_nil, List.any_append, ih, Bool.or_false]
          exact not_failure_annotations .fields (by decide) _ _ _

theorem not_failure_intoFirst (options : MergeOptions) (subject : String) (incoming : ApiMethod)
    (variants : List ApiMethod) :
    (intoFirst options subject incoming variants).events.any (Event.isFailureIn .fields) =
      false := by
  induction variants with
  | nil => rfl
  | cons target rest ih =>
      rw [intoFirst, Logged.events_bind]
      cases checkMethod options target incoming with
      | ok signature =>
          simp only [applyMethod, Logged.events_bind, Logged.events_pure, List.append_nil,
            List.any_append, not_failure_parametersFrom,
            not_failure_annotations .fields (by decide)]
          rfl
      | error conflict =>
          simp only [Logged.events_bind, Logged.events_pure, List.append_nil, List.any_append, ih]
          rfl

theorem not_failure_intoMethods (options : MergeOptions) (owner : String) (target : Table MethodSlot)
    (row : String × MethodSlot) :
    (intoMethods options owner target row).events.any (Event.isFailureIn .fields) = false := by
  unfold intoMethods
  cases target.get? row.1 with
  | none => rfl
  | some existing =>
      rw [Logged.events_bind, Logged.events_pure, List.append_nil]
      refine Logged.not_failure_foldlM (fun slot method => ?_) row.2.toList existing
      have hquiet := not_failure_intoFirst options
        s!"{owner}.{method.name}{method.descriptor}" method slot.toList
      unfold intoVariants
      rw [Logged.events_bind]
      cases (intoFirst options s!"{owner}.{method.name}{method.descriptor}" method
          slot.toList).value with
      | none => simpa using hquiet
      | some merged =>
          cases merged with
          | nil => simpa using hquiet
          | cons first rest => simpa using hquiet

theorem events_applyClass (options : MergeOptions) (target incoming : ApiClass)
    (signature : Option String) :
    (applyClass options target incoming signature).events =
      (annotations target.name target.annotations incoming.annotations).events ++
        ((innerClasses target.name target.innerClasses incoming.innerClasses).events ++
          (((withExplicitVersions incoming).fields.rows.foldlM (intoFields target.name)
              (withExplicitVersions target).fields).events ++
            ((withExplicitVersions incoming).methods.rows.foldlM (intoMethods options target.name)
              (withExplicitVersions target).methods).events)) := by
  simp only [applyClass, Logged.events_bind, Logged.events_pure, List.append_nil]
  rfl

-- The class that is merged, and the log without the refusals, are those of the merge of what fits.
theorem applyClass_fitting (options : MergeOptions) (target incoming : ApiClass)
    (signature : Option String) :
    let all := applyClass options target incoming signature
    let kept := applyClass options target (fitting target incoming) signature
    kept.value = all.value ∧
      kept.events = all.events.filter (fun event => !event.isFailureIn .fields) ∧
      all.events.filterMap (Event.failure? .fields) =
        incoming.fields.rows.filterMap (refusal? target.name target.fields) := by
  intro all kept
  have hrows : (withExplicitVersions (fitting target incoming)).fields.rows =
      (withExplicitVersions incoming).fields.rows.filter fun row =>
        (refusal? target.name (withExplicitVersions target).fields row).isNone :=
    congrArg Table.rows (fields_withExplicitVersions_fitting target incoming)
  obtain ⟨hvalue, hevents, hfailures⟩ := foldlM_intoFields target.name
    (withExplicitVersions target).fields (withExplicitVersions incoming).fields.rows
    (withExplicitVersions incoming).fields.distinct
  rw [← hrows] at hvalue hevents
  -- Only the fold over the fields tells the two merges apart.
  have hrest := filter_of_not_failure (Logged.not_failure_foldlM (not_failure_intoMethods options
    target.name) (withExplicitVersions incoming).methods.rows (withExplicitVersions target).methods)
  have hannotations := filter_of_not_failure (not_failure_annotations .fields (by decide)
    target.name target.annotations incoming.annotations)
  have hinner := filter_of_not_failure (not_failure_innerClasses .fields (by decide)
    target.name target.innerClasses incoming.innerClasses)
  refine ⟨?_, ?_, ?_⟩
  · have hfields (fields : Table ApiField) (h : fields = kept.value.fields) :
        kept.value = { all.value with fields := fields } := by
      rw [h]
      rfl
    exact hfields all.value.fields hvalue.symm
  · rw [events_applyClass, events_applyClass]
    simp only [List.filter_append, hannotations.1, hinner.1, hrest.1, ← hevents]
    rfl
  · have hsame : (withExplicitVersions incoming).fields.rows.filterMap
        (refusal? target.name (withExplicitVersions target).fields) =
          incoming.fields.rows.filterMap (refusal? target.name target.fields) := by
      simp only [withExplicitVersions, Table.rows_map, List.filterMap_map]
      exact List.filterMap_congr fun row _ => refusal?_explicitField _ _ _ _ row
    rw [events_applyClass]
    simp only [List.filterMap_append, hannotations.2, hinner.2, hrest.2, hfailures, hsame,
      List.nil_append, List.append_nil]

-- The same of the whole merge, which comes to nothing if the classes do not match.
theorem classes_fitting (options : MergeOptions) (target incoming : ApiClass) :
    let all := classes options target incoming
    let kept := classes options target (fitting target incoming)
    kept.value = all.value ∧
      kept.events = all.events.filter (fun event => !event.isFailureIn .fields) ∧
      (all.value.isSome → all.events.filterMap (Event.failure? .fields) =
        incoming.fields.rows.filterMap (refusal? target.name target.fields)) := by
  intro all kept
  -- Whether the classes match does not depend on their fields.
  have hkept : kept = (do
      let checked := checkClass target incoming
      Logged.record (.ofResult .classes target.name checked)
      match checked with
      | .ok signature =>
        (originMismatch target incoming).forM Logged.record
        some <$> applyClass options target (fitting target incoming) signature
      | .error _ => pure none) := rfl
  rw [hkept]
  simp only [all, classes]
  cases checkClass target incoming with
  | error conflict => exact ⟨rfl, rfl, fun h => absurd h (by simp)⟩
  | ok signature =>
      obtain ⟨hvalue, hevents, hfailures⟩ := applyClass_fitting options target incoming signature
      have hbefore : (Event.succeeded .classes ::
          ((originMismatch target incoming).forM Logged.record).events).any
            (Event.isFailureIn .fields) = false := by
        unfold originMismatch
        split
        · rfl
        · rfl
      obtain ⟨hsame, hnone⟩ := filter_of_not_failure hbefore
      have hlog (merged : Logged ApiClass) : (do
          Logged.record (.ofResult .classes target.name (Except.ok signature))
          (originMismatch target incoming).forM Logged.record
          some <$> merged : Logged (Option ApiClass)).events =
            (Event.succeeded .classes ::
              ((originMismatch target incoming).forM Logged.record).events) ++ merged.events := by
        have hmap : (some <$> merged).events = merged.events := List.append_nil merged.events
        rw [Logged.events_bind, Logged.events_bind, hmap]
        rfl
      refine ⟨congrArg some hvalue, ?_, fun _ => ?_⟩
      · rw [hlog, hlog, hevents, List.filter_append, hsame]
      · rw [hlog, List.filterMap_append, hnone, hfailures, List.nil_append]

end Merge

theorem Event.filterMap_warning?_filter (events : List Event) (scope other : Scope) :
    (events.filter fun event => !event.isFailureIn scope).filterMap (Event.warning? other) =
      events.filterMap (Event.warning? other) := by
  rw [List.filterMap_filter]
  refine List.filterMap_congr fun event _ => ?_
  cases event with
  | succeeded _ => rfl
  | failed _ _ => exact ite_self none
  | tolerated _ _ => rfl

theorem Event.filterMap_failure?_filter (events : List Event) (scope other : Scope) :
    (events.filter fun event => !event.isFailureIn scope).filterMap (Event.failure? other) =
      if scope = other then [] else events.filterMap (Event.failure? other) := by
  rw [List.filterMap_filter]
  split
  · rename_i hsame
    subst hsame
    refine List.filterMap_eq_nil_iff.mpr fun event _ => ?_
    cases event with
    | succeeded _ => rfl
    | failed found finding => by_cases h : found = scope <;> simp [isFailureIn, failure?, h]
    | tolerated _ _ => rfl
  · rename_i hother
    refine List.filterMap_congr fun event _ => ?_
    cases event with
    | succeeded _ => rfl
    | failed found finding =>
        by_cases h : found = scope
        · subst h
          simp [isFailureIn, failure?, hother]
        · simp [isFailureIn, h]
    | tolerated _ _ => rfl

-- A tally of the events that are no failures in a scope is the tally of all, with the failures that
-- the scope had before.
theorem Tally.recordAll_filter (tally : Tally) (events : List Event) (scope : Scope) :
    tally.recordAll (events.filter fun event => !event.isFailureIn scope) =
      (tally.recordAll events).modify
        (fun figures => { figures with failures := (tally.scope scope).failures }) scope := by
  refine ext_scope fun other => ?_
  rw [scope_modify, scope_recordAll, scope_recordAll]
  have hsuccesses : (events.filter fun event => !event.isFailureIn scope).count (.succeeded other) =
      events.count (.succeeded other) := List.count_filter rfl
  simp only [ScopeTally.ofEvents, hsuccesses, Event.filterMap_warning?_filter,
    Event.filterMap_failure?_filter]
  by_cases h : scope = other
  · subst h
    simp [ScopeTally.add]
  · simp [h]

end ApiUnion
