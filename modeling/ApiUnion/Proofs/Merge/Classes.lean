import ApiUnion.Merge.Classes

-- The parts of a merged class, each from the parts of the two classes.

namespace ApiUnion

namespace Merge

variable (options : MergeOptions) (target incoming : ApiClass) (signature : Option String)

-- What becomes of the parts of a merged class. Members are merged with the versions of their
-- classes written out on both sides.

theorem name_applyClass :
    (applyClass options target incoming signature).value.name = target.name := rfl

theorem fields_applyClass :
    (applyClass options target incoming signature).value.fields =
      ((withExplicitVersions incoming).fields.rows.foldlM (intoFields target.name)
        (withExplicitVersions target).fields).value := rfl

theorem methods_applyClass :
    (applyClass options target incoming signature).value.methods =
      ((withExplicitVersions incoming).methods.rows.foldlM (intoMethods options target.name)
        (withExplicitVersions target).methods).value := rfl

theorem value_classes :
    (classes options target incoming).value =
      (checkClass target incoming).toOption.map fun signature =>
        (applyClass options target incoming signature).value := by
  unfold classes
  cases checkClass target incoming with
  | ok signature => rfl
  | error conflict => rfl

end Merge

-- Rows are distinct, so each name meets the table as it was in the beginning.
theorem get?_foldlM_rows {α β : Type} (step : Table α → String × β → Logged (Table α))
    (merged : Option α → β → α)
    (hstep : ∀ table row,
      (step table row).value = table.insert row.1 (merged (table.get? row.1) row.2))
    (target : Table α) (incoming : Table β) (key : String) :
    (incoming.rows.foldlM step target).value.get? key =
      match incoming.get? key with
      | some item => some (merged (target.get? key) item)
      | none => target.get? key := by
  obtain ⟨rows, hdistinct⟩ := incoming
  simp only [Table.get?]
  induction rows generalizing target with
  | nil => rfl
  | cons row rows ih =>
      rw [List.map_cons, List.nodup_cons] at hdistinct
      rw [List.foldlM_cons, Logged.value_bind, ih _ hdistinct.2, Table.lookup_row]
      have hrow : (step target row).value.get? key =
          if key = row.1 then some (merged (target.get? row.1) row.2) else target.get? key := by
        rw [hstep, Table.get?_insert]
      simp only [Table.get?] at hrow
      by_cases hkey : key = row.1
      · subst hkey
        have hfresh : rows.lookup row.1 = none := by
          rw [List.lookup_eq_none_iff]
          intro other hother
          have hne : row.1 ≠ other.1 := by
            intro heq
            exact hdistinct.1 (heq ▸ List.mem_map_of_mem hother)
          simpa using hne
        rw [if_pos rfl] at hrow
        rw [if_pos rfl, hfresh, hrow]
      · rw [if_neg hkey] at hrow
        rw [if_neg hkey, hrow]

end ApiUnion
