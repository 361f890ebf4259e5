import ApiUnion.Proofs.Merge.Refusals
import ApiUnion.Proofs.Merge.Tally
import ApiUnion.Proofs.Table

-- Merges keep books. Whatever comes in is kept beside what was there or goes into it, and what goes
-- into something is on record once, so that sizes and records add up.

namespace ApiUnion

namespace Event

def scope : Event → Scope
  | succeeded scope => scope
  | failed scope _ => scope
  | tolerated scope _ => scope

-- An attempt that was made, however it went.
def isAttemptIn (scope : Scope) : Event → Bool
  | succeeded other => other = scope
  | failed other _ => other = scope
  | tolerated _ _ => false

def isSuccessIn (scope : Scope) : Event → Bool
  | succeeded other => other = scope
  | failed _ _ | tolerated _ _ => false

theorem scope_of_isAttemptIn {scope : Scope} {event : Event} (h : event.isAttemptIn scope) :
    event.scope = scope := by
  cases event with
  | succeeded other | failed other finding => exact of_decide_eq_true h
  | tolerated other finding => cases h

theorem scope_of_isSuccessIn {scope : Scope} {event : Event} (h : event.isSuccessIn scope) :
    event.scope = scope := by
  cases event with
  | succeeded other => exact of_decide_eq_true h
  | failed other finding | tolerated other finding => cases h

theorem scope_ofResult {α : Type} (scope : Scope) (subject : String)
    (result : Except Conflict α) : (ofResult scope subject result).scope = scope := by
  cases result <;> rfl

-- The record of an attempt is one attempt.
theorem countP_attempt_ofResult {α : Type} (scope : Scope) (subject : String)
    (result : Except Conflict α) :
    [ofResult scope subject result].countP (isAttemptIn scope) = 1 := by
  cases result <;> simp [ofResult, isAttemptIn]

end Event

namespace ScopeTally

theorem successes_ofEvents (scope : Scope) (events : List Event) :
    (ofEvents scope events).successes = events.countP (Event.isSuccessIn scope) := by
  refine List.countP_congr fun event _ => ?_
  cases event with
  | succeeded other => simp [Event.isSuccessIn]
  | failed other finding | tolerated other finding => simp [Event.isSuccessIn]

theorem total_ofEvents (scope : Scope) (events : List Event) :
    (ofEvents scope events).total = events.countP (Event.isAttemptIn scope) := by
  induction events with
  | nil => rfl
  | cons event events ih =>
      rw [total, failed, ofEvents, List.size_toArray] at ih ⊢
      rw [List.countP_cons, ← ih, List.count_cons]
      cases event with
      | succeeded other =>
          simp only [List.filterMap_cons, Event.failure?, Event.isAttemptIn, beq_iff_eq,
            Event.succeeded.injEq, decide_eq_true_eq]
          omega
      | failed other finding =>
          by_cases h : other = scope
          · simp only [Event.failure?, Event.isAttemptIn, h, List.filterMap_cons, if_true,
              List.length_cons, decide_true, beq_iff_eq, reduceCtorEq, if_false]
            omega
          · simp [Event.failure?, Event.isAttemptIn, h]
      | tolerated other finding =>
          simp [List.filterMap_cons, Event.failure?, Event.isAttemptIn]

theorem total_add (a b : ScopeTally) : (a.add b).total = a.total + b.total := by
  simp only [total, failed, add, Array.size_append]
  omega

theorem sum_filter_ne_zero (counts : List (ConflictKind × Nat)) :
    ((counts.filter fun row => row.2 ≠ 0).map Prod.snd).sum = (counts.map Prod.snd).sum := by
  induction counts with
  | nil => rfl
  | cons row counts ih =>
      by_cases h : row.2 = 0
      · rw [List.filter_cons_of_neg (by simpa using h), ih, List.map_cons, List.sum_cons, h,
          Nat.zero_add]
      · rw [List.filter_cons_of_pos (by simpa using h), List.map_cons, List.sum_cons, ih,
          List.map_cons, List.sum_cons]

-- Each finding falls into one category.
theorem sum_countP_kind (findings : List Finding) :
    (ConflictKind.all.map fun kind => findings.countP fun finding => finding.kind = kind).sum =
      findings.length := by
  induction findings with
  | nil => rfl
  | cons finding findings ih =>
      rw [List.length_cons, ← ih]
      simp only [List.countP_cons, ConflictKind.all, List.map_cons, List.map_nil, List.sum_cons,
        List.sum_nil]
      cases finding.kind <;> simp <;> omega

theorem sum_byCategory (tally : ScopeTally) :
    (tally.byCategory.map Prod.snd).sum = tally.failures.size + tally.warnings.size := by
  have hfindings : tally.findings.length = tally.failures.size + tally.warnings.size := by
    simp [findings]
  rw [← hfindings, ← sum_countP_kind tally.findings, byCategory, sum_filter_ne_zero, List.map_map]
  rfl

end ScopeTally

theorem Event.isAttemptIn_of_isSuccessIn {scope : Scope} {event : Event}
    (h : event.isSuccessIn scope) : event.isAttemptIn scope := by
  cases event with
  | succeeded other => exact h
  | failed other finding | tolerated other finding => cases h

theorem Tally.successes_recordAll (tally : Tally) (events : List Event) (scope : Scope) :
    ((tally.recordAll events).scope scope).successes =
      (tally.scope scope).successes + events.countP (Event.isSuccessIn scope) := by
  rw [scope_recordAll, ← ScopeTally.successes_ofEvents]
  rfl

theorem Tally.total_recordAll (tally : Tally) (events : List Event) (scope : Scope) :
    ((tally.recordAll events).scope scope).total =
      (tally.scope scope).total + events.countP (Event.isAttemptIn scope) := by
  rw [scope_recordAll, ScopeTally.total_add, ScopeTally.total_ofEvents]

namespace Logged

variable {α β : Type}

-- All that is on record belongs to some of these scopes.
def RecordsIn (scopes : List Scope) (logged : Logged α) : Prop :=
  ∀ event ∈ logged.events, event.scope ∈ scopes

namespace RecordsIn

variable {scopes : List Scope}

theorem pure (value : α) : RecordsIn scopes (Pure.pure value) := by
  intro event hevent
  cases hevent

theorem bind {x : Logged α} {f : α → Logged β} (hx : RecordsIn scopes x)
    (hf : RecordsIn scopes (f x.value)) : RecordsIn scopes (x >>= f) :=
  List.forall_mem_append.mpr ⟨hx, hf⟩

theorem record {event : Event} (h : event.scope ∈ scopes) : RecordsIn scopes (Logged.record event) :=
  List.forall_mem_singleton.mpr h

theorem attempt {scope : Scope} (h : scope ∈ scopes) (subject : String) (old : α)
    (result : Except Conflict α) : RecordsIn scopes (Logged.attempt scope subject old result) := by
  refine List.forall_mem_singleton.mpr ?_
  rwa [Event.scope_ofResult]

theorem foldlM {step : α → β → Logged α} (h : ∀ state item, RecordsIn scopes (step state item))
    (items : List β) (state : α) : RecordsIn scopes (items.foldlM step state) := by
  induction items generalizing state with
  | nil => exact pure state
  | cons item items ih => exact (h state item).bind (ih _)

theorem mono {others : List Scope} {x : Logged α} (hx : RecordsIn scopes x)
    (h : scopes ⊆ others) : RecordsIn others x :=
  fun event hevent => h (hx event hevent)

-- Records of other scopes do not count.
theorem countP_eq_zero {x : Logged α} (hx : RecordsIn scopes x) {scope : Scope}
    {counted : Event → Bool} (hcounted : ∀ event, counted event → event.scope = scope)
    (hscope : scope ∉ scopes) : x.events.countP counted = 0 := by
  refine List.countP_eq_zero.mpr fun event hevent h => hscope ?_
  rw [← hcounted event h]
  exact hx event hevent

end RecordsIn

-- If what a step does to the state and what it puts on record make up its item, what a whole run
-- does makes up all of them.
theorem balance_foldlM {step : α → β → Logged α} (size : α → Nat) (weight : β → Nat)
    (counted : Event → Bool)
    (h : ∀ state item, size (step state item).value + (step state item).events.countP counted =
      size state + weight item) (items : List β) (state : α) :
    size (items.foldlM step state).value + (items.foldlM step state).events.countP counted =
      size state + (items.map weight).sum := by
  induction items generalizing state with
  | nil => rfl
  | cons item items ih =>
      have hstep := h state item
      have hrest := ih (step state item).value
      rw [List.foldlM_cons, value_bind, events_bind, List.countP_append, List.map_cons,
        List.sum_cons]
      omega

end Logged

theorem ApiClass.length_allMethods (entry : ApiClass) :
    entry.allMethods.length = entry.methods.total fun slot => slot.toList.length :=
  List.length_flatMap

open Logged

namespace Merge

theorem recordsIn_marks (subject : String) (target incoming : List AnnotationValue) :
    RecordsIn [.annotations] (marks subject target incoming) :=
  RecordsIn.foldlM (fun target mark => RecordsIn.attempt (by simp) subject target
    (checkMark target mark)) incoming target

theorem recordsIn_annotations (subject : String) (target incoming : Annotations) :
    RecordsIn [.annotations] (annotations subject target incoming) :=
  (recordsIn_marks _ _ _).bind ((recordsIn_marks _ _ _).bind (RecordsIn.pure _))

theorem recordsIn_parametersFrom (subject : String) (index : Nat)
    (targets incomings : List Parameter) :
    RecordsIn [.annotations] (parametersFrom subject index targets incomings) := by
  induction targets generalizing index incomings with
  | nil =>
      cases incomings with
      | nil | cons incoming incomings => exact RecordsIn.pure _
  | cons target targets ih =>
      cases incomings with
      | nil => exact RecordsIn.pure _
      | cons incoming incomings =>
          have hparameter : RecordsIn [.annotations]
              (parameter s!"{subject}#{index}" target incoming) :=
            (recordsIn_annotations _ _ _).bind (RecordsIn.pure _)
          exact hparameter.bind ((ih _ _).bind (RecordsIn.pure _))

theorem recordsIn_applyField (subject : String) (target incoming : ApiField)
    (signature : Option String) :
    RecordsIn [.annotations] (applyField subject target incoming signature) :=
  (recordsIn_annotations _ _ _).bind (RecordsIn.pure _)

theorem recordsIn_field (owner : String) (target incoming : ApiField) :
    RecordsIn [.fields, .annotations] (field owner target incoming) := by
  unfold field
  refine RecordsIn.bind (RecordsIn.record (by simp [Event.scope_ofResult])) ?_
  cases checkField target incoming with
  | error conflict => exact RecordsIn.pure target
  | ok signature => exact (recordsIn_applyField _ _ _ _).mono (by simp)

theorem recordsIn_intoFields (owner : String) (target : Table ApiField)
    (row : String × ApiField) :
    RecordsIn [.fields, .annotations] (intoFields owner target row) := by
  unfold intoFields
  cases target.get? row.1 with
  | none => exact RecordsIn.pure _
  | some existing => exact (recordsIn_field _ _ _).bind (RecordsIn.pure _)

theorem attempts_field (owner : String) (target incoming : ApiField) :
    (field owner target incoming).events.countP (Event.isAttemptIn .fields) = 1 := by
  have hrecord := Event.countP_attempt_ofResult .fields
    s!"{owner}.{incoming.name}:{incoming.descriptor}" (checkField target incoming)
  unfold field
  rw [events_bind, List.countP_append, record, hrecord]
  cases checkField target incoming with
  | error conflict => rfl
  | ok signature =>
      have hquiet := (recordsIn_applyField s!"{owner}.{incoming.name}:{incoming.descriptor}" target
        incoming signature).countP_eq_zero (fun _ => Event.scope_of_isAttemptIn)
        (by decide : Scope.fields ∉ _)
      exact congrArg (1 + ·) hquiet

-- A field that is not there yet is kept, and one that meets another is an attempt.
theorem balance_intoFields (owner : String) (target : Table ApiField) (row : String × ApiField) :
    (intoFields owner target row).value.total (fun _ => 1) +
        (intoFields owner target row).events.countP (Event.isAttemptIn .fields) =
      target.total (fun _ => 1) + 1 := by
  unfold intoFields
  cases hknown : target.get? row.1 with
  | none => exact Table.total_insert_of_none hknown _ _
  | some existing =>
      have hattempt := attempts_field owner existing row.2
      have hsame := Table.total_insert_of_some hknown (fun _ => 1) (field owner existing row.2).value
      rw [value_bind, events_bind, events_pure, List.append_nil, hattempt]
      exact hsame

theorem recordsIn_applyMethod (subject : String) (target incoming : ApiMethod)
    (signature : Option String) :
    RecordsIn [.annotations] (applyMethod subject target incoming signature) :=
  (recordsIn_parametersFrom _ _ _ _).bind
    ((recordsIn_annotations _ _ _).bind (RecordsIn.pure _))

theorem recordsIn_intoFirst (options : MergeOptions) (subject : String) (incoming : ApiMethod)
    (variants : List ApiMethod) :
    RecordsIn [.methods, .annotations] (intoFirst options subject incoming variants) := by
  induction variants with
  | nil => exact RecordsIn.pure none
  | cons target rest ih =>
      refine RecordsIn.bind (RecordsIn.record (by simp [Event.scope_ofResult])) ?_
      cases checkMethod options target incoming with
      | ok signature =>
          exact RecordsIn.bind ((recordsIn_applyMethod _ _ _ _).mono (by simp))
            (RecordsIn.pure _)
      | error conflict => exact RecordsIn.bind ih (RecordsIn.pure _)

theorem recordsIn_intoVariants (options : MergeOptions) (owner : String) (slot : MethodSlot)
    (incoming : ApiMethod) :
    RecordsIn [.methods, .annotations] (intoVariants options owner slot incoming) := by
  refine (recordsIn_intoFirst _ _ _ _).bind ?_
  split
  · exact RecordsIn.pure _
  · exact RecordsIn.pure _

theorem recordsIn_intoMethods (options : MergeOptions) (owner : String) (target : Table MethodSlot)
    (row : String × MethodSlot) :
    RecordsIn [.methods, .annotations] (intoMethods options owner target row) := by
  unfold intoMethods
  cases target.get? row.1 with
  | none => exact RecordsIn.pure _
  | some existing =>
      exact (RecordsIn.foldlM (recordsIn_intoVariants options owner) row.2.toList existing).bind
        (RecordsIn.pure _)

-- A method goes into the first variant that accepts it, which is one success, or into none.
theorem balance_intoFirst (options : MergeOptions) (subject : String) (incoming : ApiMethod)
    (variants : List ApiMethod) :
    let merge := intoFirst options subject incoming variants
    (∃ merged, merge.value = some merged ∧ merged.length = variants.length ∧
        merge.events.countP (Event.isSuccessIn .methods) = 1) ∨
      merge.value = none ∧ merge.events.countP (Event.isSuccessIn .methods) = 0 := by
  induction variants with
  | nil => exact .inr ⟨rfl, rfl⟩
  | cons target rest ih =>
      simp only [intoFirst, value_bind, events_bind, List.countP_append]
      cases checkMethod options target incoming with
      | ok signature =>
          have hquiet := (recordsIn_applyMethod subject target incoming signature).countP_eq_zero
            (fun _ => Event.scope_of_isSuccessIn) (by decide : Scope.methods ∉ _)
          refine .inl ⟨_, rfl, rfl, ?_⟩
          simp only [events_bind, events_pure, List.append_nil, hquiet]
          rfl
      | error conflict =>
          have hrefused : (record (.ofResult .methods subject
              (.error conflict : Except Conflict (Option String)))).events.countP
                (Event.isSuccessIn .methods) = 0 := rfl
          simp only [value_bind, value_pure, events_bind, events_pure, List.append_nil, hrefused,
            Nat.zero_add]
          rcases ih with ⟨merged, hmerged, hlength, hcount⟩ | ⟨hnone, hcount⟩
          · exact .inl ⟨target :: merged, by rw [hmerged]; rfl, congrArg (· + 1) hlength, hcount⟩
          · exact .inr ⟨by rw [hnone]; rfl, hcount⟩

theorem balance_intoVariants (options : MergeOptions) (owner : String) (slot : MethodSlot)
    (incoming : ApiMethod) :
    (intoVariants options owner slot incoming).value.toList.length +
        (intoVariants options owner slot incoming).events.countP
          (Event.isSuccessIn .methods) =
      slot.toList.length + 1 := by
  unfold intoVariants
  rcases balance_intoFirst options s!"{owner}.{incoming.name}{incoming.descriptor}" incoming
    slot.toList with ⟨merged, hmerged, hlength, hcount⟩ | ⟨hnone, hcount⟩
  · have hrefill : (slot.refill merged).toList.length = slot.toList.length := by
      rw [MethodSlot.toList_refill hlength, hlength]
    rw [value_bind, events_bind, List.countP_append, hcount, hmerged]
    exact congrArg (· + 1) hrefill
  · rw [value_bind, events_bind, List.countP_append, hcount, hnone]
    simp

theorem balance_intoMethods (options : MergeOptions) (owner : String) (target : Table MethodSlot)
    (row : String × MethodSlot) :
    (intoMethods options owner target row).value.total (fun slot => slot.toList.length) +
        (intoMethods options owner target row).events.countP (Event.isSuccessIn .methods) =
      target.total (fun slot => slot.toList.length) + row.2.toList.length := by
  unfold intoMethods
  cases hknown : target.get? row.1 with
  | none => exact Table.total_insert_of_none hknown _ _
  | some existing =>
      have hfold := balance_foldlM (fun slot : MethodSlot => slot.toList.length)
        (fun _ => 1) (Event.isSuccessIn .methods) (balance_intoVariants options owner) row.2.toList
        existing
      have htotal := Table.total_insert_of_some hknown (fun slot => slot.toList.length)
        (row.2.toList.foldlM (intoVariants options owner) existing).value
      simp only [List.map_const', List.sum_replicate_nat, Nat.mul_one] at hfold
      rw [value_bind, events_bind, events_pure, List.append_nil, value_pure]
      omega

theorem recordsIn_innerClasses (owner : String) (target incoming : Table InnerRef) :
    RecordsIn [.innerClasses] (innerClasses owner target incoming) :=
  RecordsIn.foldlM (fun target (row : String × InnerRef) => RecordsIn.attempt (by simp)
    s!"{owner}->{row.1}" target (checkInner target row.1 row.2)) incoming.rows target

theorem attempts_innerClasses (owner : String) (target incoming : Table InnerRef) :
    (innerClasses owner target incoming).events.countP (Event.isAttemptIn .innerClasses) =
      incoming.size := by
  have hstep : ∀ (target : Table InnerRef) (row : String × InnerRef),
      0 + (attempt .innerClasses s!"{owner}->{row.1}" target
        (checkInner target row.1 row.2)).events.countP (Event.isAttemptIn .innerClasses) = 0 + 1 := by
    intro target row
    rw [attempt, Event.countP_attempt_ofResult]
  have hfold := balance_foldlM (fun _ => 0) (fun _ => 1) (Event.isAttemptIn .innerClasses) hstep
    incoming.rows target
  simpa [innerClasses, Table.size] using hfold

theorem total_fields_withExplicitVersions (entry : ApiClass) :
    (withExplicitVersions entry).fields.total (fun _ => 1) = entry.fields.size := by
  rw [withExplicitVersions, Table.total_map, Table.total_one]

theorem total_methods_withExplicitVersions (entry : ApiClass) :
    (withExplicitVersions entry).methods.total (fun slot => slot.toList.length) =
      entry.allMethods.length := by
  rw [withExplicitVersions, Table.total_map, ApiClass.length_allMethods]
  simp

section Classes

variable (options : MergeOptions) (target incoming : ApiClass) (signature : Option String)

theorem recordsIn_applyClass : RecordsIn [.fields, .methods, .annotations, .innerClasses]
    (applyClass options target incoming signature) := by
  refine RecordsIn.bind ((recordsIn_annotations _ _ _).mono (by simp)) ?_
  refine RecordsIn.bind ((recordsIn_innerClasses _ _ _).mono (by simp)) ?_
  refine RecordsIn.bind ((RecordsIn.foldlM (recordsIn_intoFields _) _ _).mono (by simp)) ?_
  refine RecordsIn.bind ((RecordsIn.foldlM (recordsIn_intoMethods options _) _ _).mono (by simp)) ?_
  exact RecordsIn.pure _

-- What is on record of a scope comes from the part of the merge that is about it.
theorem countP_applyClass {scope : Scope} {counted : Event → Bool}
    (hcounted : ∀ event, counted event → event.scope = scope) (hscope : scope ≠ .annotations) :
    (applyClass options target incoming signature).events.countP counted =
      (if scope = .innerClasses then (innerClasses target.name target.innerClasses
          incoming.innerClasses).events.countP counted else 0) +
        (if scope = .fields then ((withExplicitVersions incoming).fields.rows.foldlM
          (intoFields target.name) (withExplicitVersions target).fields).events.countP counted
        else 0) +
        if scope = .methods then ((withExplicitVersions incoming).methods.rows.foldlM
          (intoMethods options target.name) (withExplicitVersions target).methods).events.countP
            counted
        else 0 := by
  have hannotations := (recordsIn_annotations target.name target.annotations
    incoming.annotations).countP_eq_zero hcounted (by simpa using hscope)
  rw [events_applyClass, List.countP_append, List.countP_append, List.countP_append, hannotations,
    Nat.zero_add, Nat.add_assoc]
  congr 2
  · split
    · rfl
    · rename_i hother
      exact (recordsIn_innerClasses _ _ _).countP_eq_zero hcounted (by simpa using hother)
  · split
    · rfl
    · rename_i hother
      exact (RecordsIn.foldlM (recordsIn_intoFields _) _ _).countP_eq_zero hcounted
        (by simp [hother, hscope])
  · split
    · rfl
    · rename_i hother
      exact (RecordsIn.foldlM (recordsIn_intoMethods options _) _ _).countP_eq_zero hcounted
        (by simp [hother, hscope])

-- Each field of a snapshot is kept or meets one that is there.
theorem balance_fields :
    (applyClass options target incoming signature).value.fields.size +
        (applyClass options target incoming signature).events.countP (Event.isAttemptIn .fields) =
      target.fields.size + incoming.fields.size := by
  have hfold := balance_foldlM (fun table : Table ApiField => table.total fun _ => 1) (fun _ => 1)
    (Event.isAttemptIn .fields) (balance_intoFields target.name)
    (withExplicitVersions incoming).fields.rows (withExplicitVersions target).fields
  rw [Table.sum_map_rows fun _ => 1, total_fields_withExplicitVersions,
    total_fields_withExplicitVersions, Table.total_one] at hfold
  have hcount := countP_applyClass options target incoming signature
    (fun _ => Event.scope_of_isAttemptIn) (by decide : Scope.fields ≠ .annotations)
  simp only [reduceCtorEq, if_false, if_true, Nat.zero_add, Nat.add_zero] at hcount
  rw [fields_applyClass, hcount]
  exact hfold

-- Each method of a snapshot is kept or goes into a variant that is there.
theorem balance_methods :
    (applyClass options target incoming signature).value.allMethods.length +
        (applyClass options target incoming signature).events.countP
          (Event.isSuccessIn .methods) =
      target.allMethods.length + incoming.allMethods.length := by
  have hfold := balance_foldlM
    (fun table : Table MethodSlot => table.total fun slot => slot.toList.length)
    (fun row : String × MethodSlot => row.2.toList.length) (Event.isSuccessIn .methods)
    (balance_intoMethods options target.name) (withExplicitVersions incoming).methods.rows
    (withExplicitVersions target).methods
  rw [Table.sum_map_rows fun slot : MethodSlot => slot.toList.length,
    total_methods_withExplicitVersions, total_methods_withExplicitVersions] at hfold
  have hcount := countP_applyClass options target incoming signature
    (fun _ => Event.scope_of_isSuccessIn) (by decide : Scope.methods ≠ .annotations)
  simp only [reduceCtorEq, if_false, if_true, Nat.zero_add] at hcount
  rw [ApiClass.length_allMethods, methods_applyClass, hcount]
  exact hfold

-- Each inner class reference of a snapshot is an attempt.
theorem attempts_innerClasses_applyClass :
    (applyClass options target incoming signature).events.countP
      (Event.isAttemptIn .innerClasses) = incoming.innerClasses.size := by
  have hcount := countP_applyClass options target incoming signature
    (fun _ => Event.scope_of_isAttemptIn) (by decide : Scope.innerClasses ≠ .annotations)
  simp only [reduceCtorEq, if_false, if_true, Nat.add_zero] at hcount
  exact hcount.trans (attempts_innerClasses _ _ _)

end Classes

-- Where two versions match as wholes, the log opens with one success.
theorem events_classes_of_ok (options : MergeOptions) {target incoming : ApiClass}
    {signature : Option String} (hchecked : checkClass target incoming = .ok signature) :
    (classes options target incoming).events = .succeeded .classes ::
      (originMismatch target incoming ++
        (applyClass options target incoming signature).events) := by
  have horigin : ((originMismatch target incoming).forM Logged.record).events =
      originMismatch target incoming := by
    unfold originMismatch
    split
    · rfl
    · rfl
  have hmap : (some <$> applyClass options target incoming signature).events =
      (applyClass options target incoming signature).events := List.append_nil _
  unfold classes
  rw [hchecked, events_bind, events_bind, horigin, hmap]
  rfl

-- An origin that differs is put up with, which is neither a success nor a failure.
theorem countP_originMismatch (target incoming : ApiClass) {scope : Scope} {counted : Event → Bool}
    (hcounted : ∀ event, counted event → event.isAttemptIn scope) :
    (originMismatch target incoming).countP counted = 0 := by
  refine List.countP_eq_zero.mpr fun event hevent h => ?_
  have hattempt := hcounted event h
  unfold originMismatch at hevent
  split at hevent
  · cases hevent
  · obtain rfl := List.mem_singleton.mp hevent
    cases hattempt

section Matching

variable (options : MergeOptions) {target incoming : ApiClass} {signature : Option String}

theorem attempts_classes_of_ok (hchecked : checkClass target incoming = .ok signature)
    (scope : Scope) :
    (classes options target incoming).events.countP (Event.isAttemptIn scope) =
      (applyClass options target incoming signature).events.countP (Event.isAttemptIn scope) +
        if scope = .classes then 1 else 0 := by
  rw [events_classes_of_ok options hchecked, List.countP_cons, List.countP_append,
    countP_originMismatch target incoming fun _ h => h, Nat.zero_add]
  cases scope <;> rfl

theorem successes_classes_of_ok (hchecked : checkClass target incoming = .ok signature)
    (scope : Scope) :
    (classes options target incoming).events.countP (Event.isSuccessIn scope) =
      (applyClass options target incoming signature).events.countP (Event.isSuccessIn scope) +
        if scope = .classes then 1 else 0 := by
  rw [events_classes_of_ok options hchecked, List.countP_cons, List.countP_append,
    countP_originMismatch target incoming fun _ => Event.isAttemptIn_of_isSuccessIn, Nat.zero_add]
  cases scope <;> rfl

end Matching

end Merge

end ApiUnion
