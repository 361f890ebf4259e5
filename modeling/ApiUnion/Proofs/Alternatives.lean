import Mathlib.Data.List.Perm.Basic
import ApiUnion.Merge.Facets
import ApiUnion.Proofs.Version

-- Tables of alternatives. The version of a value is the join of the versions that it was seen in,
-- and a value has no row unless there are others.

namespace ApiUnion

open Version

namespace Alternatives

variable {α : Type} [Facet α] [DecidableEq α]

-- The versions in which a value was seen, joined.
def versionOf? (seen : List (α × Version)) (value : α) : Option Version :=
  join? ((seen.filter fun row => row.1 = value).map Prod.snd)

omit [Facet α] in
theorem versionOf?_append (xs ys : List (α × Version)) (value : α) :
    versionOf? (xs ++ ys) value = plus? (versionOf? xs value) (versionOf? ys value) := by
  simp only [versionOf?, List.filter_append, List.map_append, join?_append]

omit [Facet α] in
theorem versionOf?_cons (row : α × Version) (rows : List (α × Version)) (value : α) :
    versionOf? (row :: rows) value = plus? (versionOf? [row] value) (versionOf? rows value) :=
  versionOf?_append [row] rows value

omit [Facet α] in
theorem versionOf?_single_self (value : α) (version : Version) :
    versionOf? [(value, version)] value = some version := by
  simp [versionOf?]

omit [Facet α] in
theorem versionOf?_eq_none {seen : List (α × Version)} {value : α} :
    versionOf? seen value = none ↔ value ∉ seen.map Prod.fst := by
  rw [versionOf?, join?_eq_none, List.map_eq_nil_iff, List.filter_eq_nil_iff]
  constructor
  · intro h hmem
    obtain ⟨row, hrow, rfl⟩ := List.mem_map.mp hmem
    exact h row hrow (by simp)
  · intro h row hrow heq
    exact h (by simpa using ⟨row.2, (of_decide_eq_true heq) ▸ hrow⟩)

-- All values that were seen are the same.
omit [Facet α] in
theorem versionOf?_of_agree (seen : List (α × Version)) (value : α)
    (h : ∀ row ∈ seen, row.1 = value) (other : α) :
    versionOf? seen other = if other = value then join? (seen.map Prod.snd) else none := by
  split
  · rename_i heq
    subst heq
    rw [versionOf?, List.filter_eq_self.mpr fun row hrow => by simp [h row hrow]]
  · rename_i hne
    rw [versionOf?_eq_none]
    intro hmem
    obtain ⟨row, hrow, rfl⟩ := List.mem_map.mp hmem
    exact hne (h row hrow)

theorem versionOf?_place (value other : α) (version : Version) (rows : List (α × Version)) :
    versionOf? (place value version rows) other =
      plus? (versionOf? rows other) (versionOf? [(value, version)] other) := by
  induction rows with
  | nil => rw [place, show versionOf? ([] : List (α × Version)) other = none from rfl, none_plus?]
  | cons row rows ih =>
      obtain ⟨v, w⟩ := row
      rw [place]
      split
      · rw [versionOf?_cons, plus?_comm]
      · split
        · rename_i hrank
          obtain rfl := Facet.rank_injective hrank
          rw [versionOf?_cons, versionOf?_cons (value, w) rows]
          have hrow : versionOf? [(value, w.plus version)] other =
              plus? (versionOf? [(value, w)] other) (versionOf? [(value, version)] other) := by
            by_cases heq : value = other
            · simp [versionOf?, heq]
            · simp [versionOf?, heq]
          rw [hrow]
          ac_rfl
        · rw [versionOf?_cons, ih, versionOf?_cons (v, w) rows, plus?_assoc]

theorem versionOf?_insertAll (table : Alternatives α) (rows : List (α × Version)) (value : α) :
    versionOf? (table.insertAll rows).rows value =
      plus? (versionOf? table.rows value) (versionOf? rows value) := by
  induction rows generalizing table with
  | nil => exact (plus?_none _).symm
  | cons row rows ih =>
      have hstep := ih (table.insert row.1 row.2)
      rw [insert, versionOf?_place] at hstep
      rw [versionOf?_cons, ← plus?_assoc]
      exact hstep

theorem versionOf?_ofRows (rows : List (α × Version)) (value : α) :
    versionOf? (ofRows rows : Alternatives α).rows value = versionOf? rows value := by
  rw [ofRows, versionOf?_insertAll]
  exact none_plus? _

-- A table has one row for a value, so the row is what the versions join to.
theorem mem_rows_iff (table : Alternatives α) (value : α) (version : Version) :
    (value, version) ∈ table.rows ↔ versionOf? table.rows value = some version := by
  obtain ⟨rows, hsorted⟩ := table
  induction rows with
  | nil => simp [versionOf?]
  | cons row rows ih =>
      obtain ⟨hrow, hrows⟩ := List.pairwise_cons.mp hsorted
      have ih := ih hrows
      simp only at ih ⊢
      obtain ⟨v, w⟩ := row
      rw [versionOf?_cons, List.mem_cons, ih]
      by_cases heq : value = v
      · subst heq
        have hrest : versionOf? rows value = none := by
          rw [versionOf?_eq_none]
          intro hmem
          obtain ⟨other, hother, hvalue⟩ := List.mem_map.mp hmem
          have hlt := hrow other hother
          rw [hvalue] at hlt
          exact Nat.lt_irrefl _ hlt
        rw [hrest, versionOf?_single_self]
        simp [eq_comm]
      · have hfirst : versionOf? [(v, w)] value = none := by
          rw [versionOf?_eq_none]
          simpa using heq
        rw [hfirst, none_plus?]
        simp [heq]

theorem mem_values_iff (table : Alternatives α) (value : α) :
    value ∈ table.values ↔ versionOf? table.rows value ≠ none := by
  rw [ne_eq, versionOf?_eq_none, Decidable.not_not]
  rfl

-- What a table and the present value tell about all that was seen: nothing is written down as long
-- as all values agree, and from then on each value has the versions in which it was seen.
structure Exact (reconciled : List α → α → Prop) (seen : List (α × Version)) (current : α)
    (table : Alternatives α) : Prop where
  current : reconciled (seen.map Prod.fst) current
  isEmpty_iff : table.isEmpty ↔ ∀ a ∈ seen, ∀ b ∈ seen, a.1 = b.1
  mem_values_iff : ¬table.isEmpty → ∀ value, value ∈ table.values ↔ value ∈ seen.map Prod.fst
  mem_rows_iff : ¬table.isEmpty → ∀ value version,
    (value, version) ∈ table.rows ↔ versionOf? seen value = some version

-- How a way of reconciling two values reconciles any number of them.
structure Reconciles (reconcile : α → α → α) (reconciled : List α → α → Prop) : Prop where
  of_mem : ∀ values value, value ∈ values → (∀ other ∈ values, other = value) →
    reconciled values value
  mem : ∀ values value, reconciled values value → (∀ a ∈ values, ∀ b ∈ values, a = b) →
    value ∈ values
  congr : ∀ xs ys value, (∀ x, x ∈ xs ↔ x ∈ ys) → reconciled xs value → reconciled ys value
  foldl : ∀ first second rest,
    (first :: second :: rest).Pairwise (fun a b => Facet.rank a < Facet.rank b) →
    reconciled (first :: second :: rest) ((second :: rest).foldl reconcile first)

omit [DecidableEq α] in
theorem rows_side_of_isEmpty (side : Side α) (version : Version) (hempty : side.table.isEmpty)
    (hversion : side.version = some version) : side.rows = [(side.current, version)] := by
  unfold Side.rows
  rw [if_pos hempty, hversion]

theorem exact_single (reconcile : α → α → α) (reconciled : List α → α → Prop)
    (hlaws : Reconciles reconcile reconciled) (current : α) (version : Version)
    (table : Alternatives α) (hempty : table.isEmpty) :
    Exact reconciled [(current, version)] current table where
  current := hlaws.of_mem _ _ (by simp) (by simp)
  isEmpty_iff := by simp [hempty]
  mem_values_iff h := absurd hempty h
  mem_rows_iff h := absurd hempty h

-- As long as no table is started, the present value was seen, and no other.
theorem seen_of_isEmpty (reconcile : α → α → α) (reconciled : List α → α → Prop)
    (hlaws : Reconciles reconcile reconciled) (seen : List (α × Version)) (current : α)
    (table : Alternatives α) (hexact : Exact reconciled seen current table)
    (hempty : table.isEmpty) :
    (∃ row ∈ seen, row.1 = current) ∧ ∀ row ∈ seen, row.1 = current := by
  have hagree := hexact.isEmpty_iff.mp hempty
  have hmem := hlaws.mem _ _ hexact.current
    (by simpa using fun a v ha b w hb => hagree _ ha _ hb)
  obtain ⟨known, hknown, hvalue⟩ := List.mem_map.mp hmem
  exact ⟨⟨known, hknown, hvalue⟩,
    fun row hrow => (hagree row hrow known hknown).trans hvalue⟩

-- Either side's rows are what was seen on it, also when its table was never started.
theorem versionOf?_rows_side (reconcile : α → α → α) (reconciled : List α → α → Prop)
    (hlaws : Reconciles reconcile reconciled) (seen : List (α × Version)) (side : Side α)
    (hexact : Exact reconciled seen side.current side.table)
    (hversion : side.version = join? (seen.map Prod.snd)) (value : α) :
    versionOf? side.rows value = versionOf? seen value := by
  by_cases hempty : side.table.isEmpty
  · have hsame : ∀ row ∈ seen, row.1 = side.current :=
      (seen_of_isEmpty reconcile reconciled hlaws seen _ side.table hexact hempty).2
    rw [versionOf?_of_agree seen side.current hsame value, ← hversion, Side.rows, if_pos hempty]
    cases side.version with
    | none => simp [versionOf?]
    | some version =>
        by_cases heq : value = side.current
        · simp [versionOf?, heq]
        · simp [versionOf?, heq, Ne.symm heq]
  · rw [Side.rows, if_neg hempty]
    cases hseen : versionOf? seen value with
    | some version => exact (mem_rows_iff _ _ _).mp ((hexact.mem_rows_iff hempty _ _).mpr hseen)
    | none =>
        rw [versionOf?_eq_none] at hseen ⊢
        intro hmem
        exact hseen ((hexact.mem_values_iff hempty value).mp hmem)

omit [Facet α] in
theorem versionOf?_perm {seen other : List (α × Version)} (h : seen.Perm other) (value : α) :
    versionOf? seen value = versionOf? other value :=
  join?_perm ((h.filter _).map _)

omit [DecidableEq α] in
-- Rows are sorted by value, so a table is told by the rows that are in it.
theorem ext_mem_rows {a b : Alternatives α} (h : ∀ row, row ∈ a.rows ↔ row ∈ b.rows) : a = b := by
  have hnodup (table : Alternatives α) : table.rows.Nodup :=
    table.sorted.imp fun hlt heq => absurd (heq ▸ hlt) (Nat.lt_irrefl _)
  have hperm : a.rows.Perm b.rows := (List.perm_ext_iff_of_nodup (hnodup a) (hnodup b)).mpr h
  have hrows : a.rows = b.rows :=
    hperm.eq_of_pairwise (fun _ _ _ _ hab hba => absurd hab (Nat.lt_asymm hba)) a.sorted b.sorted
  cases a
  cases b
  cases hrows
  rfl

-- What was seen decides on the present value and the table, in whatever order it was seen.
theorem Exact.unique {reconcile : α → α → α} {reconciled : List α → α → Prop}
    (hlaws : Reconciles reconcile reconciled)
    (hunique : ∀ values a b, reconciled values a → reconciled values b → a = b)
    {seen other : List (α × Version)} (hperm : seen.Perm other) {a b : α}
    {left right : Alternatives α} (hleft : Exact reconciled seen a left)
    (hright : Exact reconciled other b right) : a = b ∧ left = right := by
  have hempty : left.isEmpty ↔ right.isEmpty := by
    rw [hleft.isEmpty_iff, hright.isEmpty_iff]
    simp only [hperm.mem_iff]
  refine ⟨?_, ext_mem_rows fun row => ?_⟩
  · have hvalues := (hperm.map Prod.fst)
    exact hunique _ a b (hlaws.congr _ _ a (fun _ => hvalues.mem_iff) hleft.current) hright.current
  · by_cases h : left.isEmpty
    · have hnone := List.isEmpty_iff.mp h
      have hnone' := List.isEmpty_iff.mp (hempty.mp h)
      rw [hnone, hnone']
    · rw [hleft.mem_rows_iff h, hright.mem_rows_iff (mt hempty.mpr h), versionOf?_perm hperm]

end Alternatives

end ApiUnion
