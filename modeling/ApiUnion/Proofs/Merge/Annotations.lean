import ApiUnion.Merge.Annotations
import ApiUnion.Proofs.Annotations

-- What merging annotations keeps and what it puts on record. An annotation is compared with the
-- first one of its type that is in the list by then, and with no other. So it can be in conflict
-- although its like is in the list: if a NaN is in it, or if one of its type with another payload
-- comes first.

namespace ApiUnion

namespace Merge

-- The first annotation of that type in a list does not agree with it.
structure Clashes (present : List AnnotationValue) (mark existing : AnnotationValue) : Prop where
  first : (present.find? fun other => other.type = mark.type) = some existing
  differs : mark.hasNaN = true ∨ existing.unsigned ≠ mark.unsigned

theorem checkMark_eq_error_iff (present : List AnnotationValue) (mark : AnnotationValue)
    (conflict : Conflict) :
    checkMark present mark = .error conflict ↔
      ∃ existing, Clashes present mark existing ∧ payloadsDiffer existing = conflict := by
  unfold checkMark
  constructor
  · intro h
    split at h
    · cases h
    · next existing hfirst =>
        split at h
        · cases h
        · next hagrees =>
            rw [Bool.not_eq_true, AnnotationValue.agrees_eq_false_iff] at hagrees
            exact ⟨existing, ⟨hfirst, hagrees⟩, Except.error.inj h⟩
  · rintro ⟨existing, ⟨hfirst, hdiffers⟩, rfl⟩
    have hagrees := (AnnotationValue.agrees_eq_false_iff existing mark).mpr hdiffers
    simp only [hfirst, hagrees, Bool.false_eq_true, if_false]

variable (subject : String) (present : List AnnotationValue) (mark : AnnotationValue)

-- The list with one more annotation offered to it.
def withMark : List AnnotationValue :=
  (checkMark present mark).toOption.getD present

theorem prefix_withMark : present <+: withMark present mark := by
  unfold withMark checkMark
  split
  · exact List.prefix_append _ _
  · split <;> exact List.prefix_rfl

theorem exists_mem_withMark : ∃ standing ∈ withMark present mark, standing.type = mark.type := by
  unfold withMark checkMark
  split
  · exact ⟨mark, by simp [Except.toOption], rfl⟩
  · next existing hfirst =>
      have htype : existing.type = mark.type := by simpa using List.find?_some hfirst
      have hmem : existing ∈ present := List.mem_of_find?_eq_some hfirst
      split <;> exact ⟨existing, hmem, htype⟩

theorem value_marks_cons (rest : List AnnotationValue) :
    (marks subject present (mark :: rest)).value =
      (marks subject (withMark present mark) rest).value := rfl

theorem events_marks_cons (rest : List AnnotationValue) :
    (marks subject present (mark :: rest)).events =
      .ofResult .annotations subject (checkMark present mark) ::
        (marks subject (withMark present mark) rest).events := rfl

theorem prefix_marks (incoming : List AnnotationValue) :
    present <+: (marks subject present incoming).value := by
  induction incoming generalizing present with
  | nil => exact List.prefix_rfl
  | cons mark incoming ih => exact (prefix_withMark present mark).trans (ih _)

theorem exists_mem_marks {incoming : List AnnotationValue} (hmark : mark ∈ incoming) :
    ∃ standing ∈ (marks subject present incoming).value, standing.type = mark.type := by
  induction incoming generalizing present with
  | nil => cases hmark
  | cons head incoming ih =>
      rw [value_marks_cons]
      rcases List.mem_cons.mp hmark with rfl | hmark
      · -- What stands for it after its own step is still there at the end.
        obtain ⟨standing, hmem, htype⟩ := exists_mem_withMark present mark
        exact ⟨standing, (prefix_marks subject _ incoming).subset hmem, htype⟩
      · exact ih _ hmark

theorem length_events_marks (incoming : List AnnotationValue) :
    (marks subject present incoming).events.length = incoming.length := by
  induction incoming generalizing present with
  | nil => rfl
  | cons mark incoming ih => rw [events_marks_cons, List.length_cons, ih, List.length_cons]

-- The record of an annotation is that of its comparison with what was merged before it.
theorem getElem?_events_marks (before after : List AnnotationValue) :
    (marks subject present (before ++ mark :: after)).events[before.length]? =
      some (.ofResult .annotations subject
        (checkMark (marks subject present before).value mark)) := by
  induction before generalizing present with
  | nil => rfl
  | cons other before ih =>
      rw [List.cons_append, events_marks_cons, List.length_cons, List.getElem?_cons_succ, ih,
        value_marks_cons]

-- What stands in the list stays in front, each type that is offered is there in the end, and every
-- annotation offered leaves one record. It is that of a conflict if and only if the first
-- annotation of its type does not agree with it, whatever comes after that one.
theorem conflicts_marks (subject : String) (target incoming : List AnnotationValue) :
    target <+: (marks subject target incoming).value ∧
      (∀ mark ∈ incoming,
        ∃ standing ∈ (marks subject target incoming).value, standing.type = mark.type) ∧
      (marks subject target incoming).events.length = incoming.length ∧
      ∀ before mark after, incoming = before ++ mark :: after →
        ((∃ finding, finding.kind = .differentAnnotationsSameDescriptor ∧
          (marks subject target incoming).events[before.length]? =
            some (.failed .annotations finding)) ↔
          ∃ existing, Clashes (marks subject target before).value mark existing) := by
  refine ⟨prefix_marks subject target incoming,
    fun mark hmark => exists_mem_marks subject target mark hmark,
    length_events_marks subject target incoming, ?_⟩
  rintro before mark after rfl
  rw [getElem?_events_marks]
  constructor
  · rintro ⟨finding, -, hfailed⟩
    cases hchecked : checkMark (marks subject target before).value mark with
    | ok merged => rw [hchecked] at hfailed; cases hfailed
    | error conflict =>
        obtain ⟨existing, hclash, -⟩ := (checkMark_eq_error_iff _ _ _).mp hchecked
        exact ⟨existing, hclash⟩
  · rintro ⟨existing, hclash⟩
    have hchecked := (checkMark_eq_error_iff _ _ _).mpr ⟨existing, hclash, rfl⟩
    exact ⟨(payloadsDiffer existing).on subject, rfl, by rw [hchecked]; rfl⟩

-- An annotation with one constant.
def holding (value : Constant) : AnnotationValue :=
  { type := "Lp/S;", elements := [("v", .constant value)] }

theorem checkMark_holding (existing value : Constant) (rest : List AnnotationValue) :
    checkMark (holding existing :: rest) (holding value) =
      if existing.agrees value then .ok (holding existing :: rest)
      else .error (payloadsDiffer (holding existing)) := by
  have hagrees : (holding existing).agrees (holding value) = existing.agrees value := by
    simp [holding, AnnotationValue.agrees, agreeingElements, ElementValue.agrees]
  have hfirst : (holding existing :: rest).find? (fun other => other.type = (holding value).type) =
      some (holding existing) := rfl
  simp only [checkMark, hfirst, hagrees]

-- The negative zero passes for the positive one, and a NaN is in conflict with it.
theorem conflicts_marks_holding :
    [holding (.float 0x80000000), holding (.float 0x7FC00000)] =
        [holding (.float 0x80000000)] ++ holding (.float 0x7FC00000) :: [] ∧
      (marks "p/A" [holding (.float 0)] [holding (.float 0x80000000)]).value =
        [holding (.float 0)] ∧
      ∃ finding, finding.kind = .differentAnnotationsSameDescriptor ∧
        (marks "p/A" [holding (.float 0)]
          [holding (.float 0x80000000), holding (.float 0x7FC00000)]).events[1]? =
            some (.failed .annotations finding) := by
  have hzeros : (Constant.float 0).agrees (.float 0x80000000) = true := by decide
  have hvalue : (marks "p/A" [holding (.float 0)] [holding (.float 0x80000000)]).value =
      [holding (.float 0)] := by
    simp [marks, Logged.attempt, checkMark_holding, hzeros, Except.toOption]
  have hclash : Clashes (marks "p/A" [holding (.float 0)] [holding (.float 0x80000000)]).value
      (holding (.float 0x7FC00000)) (holding (.float 0)) := by
    rw [hvalue]
    exact ⟨rfl, .inl (by simp [holding, AnnotationValue.hasNaN, anyElementNaN,
      ElementValue.hasNaN, Constant.isNaN])⟩
  exact ⟨rfl, hvalue, ((conflicts_marks "p/A" [holding (.float 0)] _).2.2.2
    [holding (.float 0x80000000)] (holding (.float 0x7FC00000)) [] rfl).mpr ⟨_, hclash⟩⟩

-- Annotations that are in the list already, to the last bit, and are in conflict with it: one with
-- a NaN in it, and the second of two of one type.
theorem marks_of_likes :
    (marks "p/A" [holding (.float 0x7FC00000)] [holding (.float 0x7FC00000)]).events =
        [.failed .annotations ((payloadsDiffer (holding (.float 0x7FC00000))).on "p/A")] ∧
      (marks "p/A" [holding (.int 1), holding (.int 2)]
          [holding (.int 1), holding (.int 2)]).events =
        [.succeeded .annotations,
          .failed .annotations ((payloadsDiffer (holding (.int 1))).on "p/A")] := by
  have hnan : (Constant.float 0x7FC00000).agrees (.float 0x7FC00000) = false := by decide
  have hsame : (Constant.int 1).agrees (.int 1) = true := by decide
  have hother : (Constant.int 1).agrees (.int 2) = false := by decide
  simp [marks, Logged.attempt, checkMark_holding, hnan, hsame, hother, Except.toOption,
    Event.ofResult]

end Merge

end ApiUnion
