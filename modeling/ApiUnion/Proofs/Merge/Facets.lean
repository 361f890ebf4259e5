import ApiUnion.Proofs.Access
import ApiUnion.Proofs.Alternatives

-- Widening two sides that differ in visibility or modality: what is kept of them and what is
-- recorded of both.

namespace ApiUnion

open Version

namespace Alternatives

variable {α : Type} [Facet α] [DecidableEq α]

theorem combine?_eq_none {left right : Side α} (hcurrent : left.current = right.current)
    (hleft : left.table.isEmpty) (hright : right.table.isEmpty) : combine? left right = none := by
  simp [combine?, hcurrent, hleft, hright]

theorem combine?_eq_some {left right : Side α}
    (h : left.current = right.current → ¬left.table.isEmpty) :
    combine? left right = some (ofRows (left.rows ++ right.rows)) := by
  unfold combine?
  by_cases hcurrent : left.current = right.current
  · simp [hcurrent, h hcurrent]
  · simp [hcurrent]

-- A table of values that do not all agree starts with two of them.
omit [DecidableEq α] in
theorem values_of_differ (table : Alternatives α)
    (h : ¬∀ a ∈ table.values, ∀ b ∈ table.values, a = b) :
    ∃ first second rest, table.values = first :: second :: rest ∧
      (first :: second :: rest).Pairwise fun a b => Facet.rank a < Facet.rank b := by
  have hsorted : table.values.Pairwise fun a b => Facet.rank a < Facet.rank b :=
    List.pairwise_map.mpr table.sorted
  cases hvalues : table.values with
  | nil =>
      rw [hvalues] at h
      exact absurd (by simp) h
  | cons first rest =>
      cases rest with
      | nil =>
          rw [hvalues] at h
          exact absurd (by simp) h
      | cons second rest => exact ⟨first, second, rest, rfl, hvalues ▸ hsorted⟩

-- A table of just what was seen, of values that differ, holds their reconciled value and is exact.
theorem exact_of_differ (reconcile : α → α → α) (reconciled : List α → α → Prop)
    (hlaws : Reconciles reconcile reconciled) (seen : List (α × Version)) (table : Alternatives α)
    (hrows : ∀ value, versionOf? table.rows value = versionOf? seen value)
    (hdiffer : ¬∀ a ∈ seen, ∀ b ∈ seen, a.1 = b.1) :
    ∃ value, table.reconciled? reconcile = some value ∧ Exact reconciled seen value table := by
  have hvalues : ∀ value, value ∈ table.values ↔ value ∈ seen.map Prod.fst := by
    intro value
    rw [mem_values_iff, hrows, ne_eq, versionOf?_eq_none, Decidable.not_not]
  have htable : ¬∀ a ∈ table.values, ∀ b ∈ table.values, a = b := by
    intro hall
    refine hdiffer fun a ha b hb => ?_
    exact hall _ ((hvalues _).mpr (List.mem_map_of_mem ha)) _
      ((hvalues _).mpr (List.mem_map_of_mem hb))
  obtain ⟨first, second, rest, hlist, hsorted⟩ := values_of_differ table htable
  have hreconciled := hlaws.foldl first second rest hsorted
  have hempty : ¬table.isEmpty := by
    intro hempty
    rw [isEmpty, List.isEmpty_iff] at hempty
    rw [values, hempty] at hlist
    cases hlist
  refine ⟨(second :: rest).foldl reconcile first, by rw [reconciled?, hlist], ?_, ?_, ?_, ?_⟩
  · exact hlaws.congr _ _ _ (fun value => hlist ▸ hvalues value) hreconciled
  · exact iff_of_false hempty hdiffer
  · exact fun _ => hvalues
  · intro _ value version
    rw [mem_rows_iff, hrows]

theorem exact_append_same (reconcile : α → α → α) (reconciled : List α → α → Prop)
    (hlaws : Reconciles reconcile reconciled) (seen : List (α × Version)) (current : α)
    (table : Alternatives α) (version : Version) (hexact : Exact reconciled seen current table)
    (hempty : table.isEmpty) :
    Exact reconciled (seen ++ [(current, version)]) current table := by
  have hall : ∀ row ∈ seen ++ [(current, version)], row.1 = current := by
    intro row hrow
    rcases List.mem_append.mp hrow with hrow | hrow
    · exact (seen_of_isEmpty reconcile reconciled hlaws _ _ table hexact hempty).2 row hrow
    · rw [List.mem_singleton.mp hrow]
  refine ⟨hlaws.of_mem _ _ (by simp) ?_, ?_, absurd hempty, absurd hempty⟩
  · intro value hvalue
    obtain ⟨row, hrow, rfl⟩ := List.mem_map.mp hvalue
    exact hall row hrow
  · refine iff_of_true hempty ?_
    intro a ha b hb
    rw [hall a ha, hall b hb]

end Alternatives

namespace Merge

open Alternatives

variable {α : Type} [Facet α] [DecidableEq α]

-- One more value is seen, in one more version. The target may have seen many that agreed before its
-- table is started.
theorem exact_widen (current : Access → α) (update : Access → α → Access) (reconcile : α → α → α)
    (reconciled : List α → α → Prop) (hlaws : Reconciles reconcile reconciled)
    (hupdate : ∀ access value, current (update access value) = value)
    (target other : FacetView α) (seen : List (α × Version)) (version : Version)
    (hexact : Exact reconciled seen (current target.access) target.table)
    (hversion : target.version = join? (seen.map Prod.snd))
    (hplain : other.table.isEmpty) (hother : other.version = some version) :
    Exact reconciled (seen ++ [(current other.access, version)])
      (current (widen current update reconcile target other).1)
      (widen current update reconcile target other).2 := by
  by_cases hsame : current target.access = current other.access ∧ target.table.isEmpty
  · obtain ⟨hcurrent, hempty⟩ := hsame
    have hcombine : combine? (target.side current) (other.side current) = none :=
      combine?_eq_none hcurrent hempty hplain
    rw [widen, hcombine, ← hcurrent]
    exact exact_append_same reconcile reconciled hlaws seen _ target.table version hexact hempty
  · have hcombine : combine? (target.side current) (other.side current) =
        some (ofRows ((target.side current).rows ++ (other.side current).rows)) := by
      exact combine?_eq_some fun hcurrent hempty => hsame ⟨hcurrent, hempty⟩
    have hrows : ∀ value, versionOf? (ofRows ((target.side current).rows ++
        (other.side current).rows) : Alternatives α).rows value =
        versionOf? (seen ++ [(current other.access, version)]) value := by
      intro value
      rw [versionOf?_ofRows, versionOf?_append, versionOf?_append,
        versionOf?_rows_side reconcile reconciled hlaws seen (target.side current) hexact hversion,
        rows_side_of_isEmpty (other.side current) version hplain hother]
      rfl
    have hdiffer : ¬∀ a ∈ seen ++ [(current other.access, version)],
        ∀ b ∈ seen ++ [(current other.access, version)], a.1 = b.1 := by
      intro hall
      have hempty : target.table.isEmpty := hexact.isEmpty_iff.mpr fun a ha b hb =>
        hall a (by simp [ha]) b (by simp [hb])
      obtain ⟨row, hrow, hvalue⟩ :=
        (seen_of_isEmpty reconcile reconciled hlaws seen _ _ hexact hempty).1
      have hlast := hall row (by simp [hrow]) (current other.access, version) (by simp)
      exact hsame ⟨hvalue.symm.trans hlast, hempty⟩
    obtain ⟨value, hvalue, hresult⟩ := exact_of_differ reconcile reconciled hlaws _ _ hrows hdiffer
    rw [widen, hcombine]
    simp only [hvalue, hupdate]
    exact hresult

-- The access changes in the facet at most.
theorem access_widen (current : Access → α) (update : Access → α → Access)
    (reconcile : α → α → α) (target other : FacetView α) :
    (widen current update reconcile target other).1 = target.access ∨
      ∃ value, (widen current update reconcile target other).1 = update target.access value := by
  unfold widen
  cases combine? (target.side current) (other.side current) with
  | none => exact .inl rfl
  | some table =>
      cases hvalue : table.reconciled? reconcile with
      | none => simp [hvalue]
      | some value => exact .inr ⟨value, by simp [hvalue]⟩

-- What the facet has no part in stays as it is.
theorem kept_widen {β : Type} {kept : Access → β} {current : Access → α}
    {update : Access → α → Access} {reconcile : α → α → α}
    (hkept : ∀ access value, kept (update access value) = kept access)
    (target other : FacetView α) :
    kept (widen current update reconcile target other).1 = kept target.access := by
  rcases access_widen current update reconcile target other with h | ⟨value, h⟩
  · rw [h]
  · rw [h, hkept]

end Merge

-- The widest of some visibilities.
def IsWidest (values : List Visibility) (value : Visibility) : Prop :=
  value ∈ values ∧ ∀ other ∈ values, other.rank ≤ value.rank

-- What some modalities have in common, or else open.
def IsCommonOrOpen (values : List Modality) (value : Modality) : Prop :=
  ((∀ a ∈ values, ∀ b ∈ values, a = b) → value ∈ values) ∧
    ((¬∀ a ∈ values, ∀ b ∈ values, a = b) → value = .open)

theorem isWidest_foldl (first : Visibility) (rest : List Visibility) :
    IsWidest (first :: rest) (rest.foldl Visibility.widen first) := by
  induction rest generalizing first with
  | nil => exact ⟨by simp, by simp⟩
  | cons second rest ih =>
      obtain ⟨hmem, hle⟩ := ih (first.widen second)
      rw [List.foldl_cons]
      have hfirst : first.rank ≤ (first.widen second).rank := by
        unfold Visibility.widen
        split <;> omega
      have hsecond : second.rank ≤ (first.widen second).rank := by
        unfold Visibility.widen
        split <;> omega
      have hwidest := hle (first.widen second) (by simp)
      refine ⟨?_, ?_⟩
      · rcases List.mem_cons.mp hmem with heq | hrest
        · rw [heq]
          unfold Visibility.widen
          split <;> simp
        · simp [hrest]
      · intro other hother
        rcases List.mem_cons.mp hother with rfl | hother
        · omega
        · rcases List.mem_cons.mp hother with rfl | hother
          · omega
          · exact hle other (by simp [hother])

theorem reconciles_visibility : Alternatives.Reconciles Visibility.widen IsWidest where
  of_mem _ _ hmem hall := ⟨hmem, fun other hother => (hall other hother) ▸ Nat.le_refl _⟩
  mem _ _ h _ := h.1
  congr _ _ value hiff h :=
    ⟨(hiff value).mp h.1, fun other hother => h.2 other ((hiff other).mpr hother)⟩
  foldl first second rest _ := isWidest_foldl first (second :: rest)

theorem foldl_widen_open (values : List Modality) : values.foldl Modality.widen .open = .open := by
  induction values with
  | nil => rfl
  | cons value values ih =>
      have hstep : Modality.widen .open value = .open := by
        cases value <;> rfl
      rw [List.foldl_cons, hstep, ih]

theorem reconciles_modality : Alternatives.Reconciles Modality.widen IsCommonOrOpen where
  of_mem _ _ hmem hall := by
    refine ⟨fun _ => hmem, fun hdiffer => absurd ?_ hdiffer⟩
    intro a ha b hb
    rw [hall a ha, hall b hb]
  mem _ _ h hagree := h.1 hagree
  congr xs ys value hiff h := by
    have hagree : (∀ a ∈ xs, ∀ b ∈ xs, a = b) ↔ ∀ a ∈ ys, ∀ b ∈ ys, a = b := by
      simp only [hiff]
    exact ⟨fun hys => (hiff value).mp (h.1 (hagree.mpr hys)),
      fun hys => h.2 fun hxs => hys (hagree.mp hxs)⟩
  foldl first second _ hsorted := by
    have hne : first ≠ second := by
      rintro rfl
      have hlt := (List.pairwise_cons.mp hsorted).1 first (by simp)
      exact Nat.lt_irrefl _ hlt
    have hopen : first.widen second = .open := by
      unfold Modality.widen
      rw [if_neg hne]
    rw [List.foldl_cons, hopen, foldl_widen_open]
    refine ⟨fun hagree => ?_, fun _ => rfl⟩
    exact absurd (hagree first (by simp) second (by simp)) hne

theorem IsWidest.unique {values : List Visibility} {a b : Visibility} (ha : IsWidest values a)
    (hb : IsWidest values b) : a = b :=
  Facet.rank_injective (Nat.le_antisymm (hb.2 a ha.1) (ha.2 b hb.1))

theorem IsCommonOrOpen.unique {values : List Modality} {a b : Modality}
    (ha : IsCommonOrOpen values a) (hb : IsCommonOrOpen values b) : a = b := by
  by_cases hagree : ∀ a ∈ values, ∀ b ∈ values, a = b
  · exact hagree a (ha.1 hagree) b (hb.1 hagree)
  · rw [ha.2 hagree, hb.2 hagree]

end ApiUnion
