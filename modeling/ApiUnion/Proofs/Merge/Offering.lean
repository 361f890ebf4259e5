import ApiUnion.Model.Snapshot
import ApiUnion.Proofs.Merge.Facets
import ApiUnion.Proofs.Merge.Members

-- What others can see of a class they can see of every class that it is merged into: no widening
-- makes a member private.

namespace ApiUnion

open Alternatives Snapshot

theorem Alternatives.mem_values_ofRows {α : Type} [Facet α] [DecidableEq α]
    (rows : List (α × Version)) (value : α) :
    value ∈ (ofRows rows : Alternatives α).values ↔ value ∈ rows.map Prod.fst := by
  rw [mem_values_iff, versionOf?_ofRows, ne_eq, versionOf?_eq_none, not_not]

theorem Visibility.foldl_widen_mem (value : Visibility) (rest : List Visibility) :
    rest.foldl widen value ∈ value :: rest := by
  induction rest generalizing value with
  | nil => exact List.mem_singleton_self value
  | cons next rest ih =>
      have hwider : value.widen next = value ∨ value.widen next = next := by
        unfold widen
        split
        · exact .inr rfl
        · exact .inl rfl
      rw [List.foldl_cons]
      rcases hwider with h | h
      · rw [h]
        have hmem := ih value
        rw [List.mem_cons] at hmem ⊢
        exact hmem.imp_right (List.mem_cons_of_mem next)
      · rw [h]
        exact List.mem_cons_of_mem value (ih next)

namespace Access

theorem visibility_ne_private {access : Access} (h : isPrivate access.bits = false) :
    access.visibility ≠ .private := by
  have hbit : access.has 0x0002 = false := h
  unfold visibility
  rw [hbit]
  split
  · decide
  · split <;> decide

theorem isPrivate_withVisibility (access : Access) {visibility : Visibility}
    (h : visibility ≠ .private) : isPrivate (access.withVisibility visibility).bits = false := by
  have hmask : ~~~visibilityMask &&& privateBit = 0 := by decide
  simp only [isPrivate, withVisibility, and_masked_or, hmask, UInt16.and_zero, UInt16.zero_or]
  cases visibility with
  | «private» => exact absurd rfl h
  | packagePrivate | «protected» | «public» => rfl

theorem isPrivate_withModality (access : Access) (modality : Modality) :
    isPrivate (access.withModality modality).bits = isPrivate access.bits := by
  rw [isPrivate, bits_withModality_and access modality privateBit (by decide), isPrivate]

end Access

namespace Merge

-- Neither what is there now nor what was there in any version is private.
structure FacetView.Offered (view : FacetView Visibility) : Prop where
  access : isPrivate view.access.bits = false
  table : .private ∉ view.table.values

theorem FacetView.Offered.rows {view : FacetView Visibility} (h : view.Offered) :
    .private ∉ (view.side Access.visibility).rows.map Prod.fst := by
  unfold Side.rows
  split
  · split
    · simpa [side] using (Access.visibility_ne_private h.access).symm
    · exact List.not_mem_nil
  · exact h.table

theorem offered_widenVisibility {target other : FacetView Visibility} (htarget : target.Offered)
    (hother : other.Offered) (version : Option Version) :
    FacetView.Offered ⟨(widenVisibility target other).1, (widenVisibility target other).2,
      version⟩ := by
  unfold widenVisibility widen combine?
  by_cases hsame : ((target.side Access.visibility).current = (other.side Access.visibility).current
      && (target.side Access.visibility).table.isEmpty
      && (other.side Access.visibility).table.isEmpty) = true
  · rw [if_pos hsame]
    exact ⟨htarget.access, htarget.table⟩
  · rw [if_neg hsame]
    have htable : .private ∉ (ofRows ((target.side Access.visibility).rows ++
        (other.side Access.visibility).rows) : Alternatives Visibility).values := by
      rw [mem_values_ofRows, List.map_append, List.mem_append, not_or]
      exact ⟨htarget.rows, hother.rows⟩
    refine ⟨?_, htable⟩
    dsimp only
    split
    · rename_i value hvalue
      -- The value that all are reconciled as is one of them.
      refine Access.isPrivate_withVisibility _ fun hprivate => htable ?_
      unfold reconciled? at hvalue
      split at hvalue
      · cases hvalue
      · rename_i first rest hvalues
        rw [hvalues, ← hprivate, ← Option.some.inj hvalue]
        exact Visibility.foldl_widen_mem first rest
    · exact htarget.access

theorem isPrivate_widenModality (target other : FacetView Modality) :
    isPrivate (widenModality target other).1.bits = isPrivate target.access.bits := by
  unfold widenModality widen
  split
  · rfl
  · dsimp only
    split
    · exact Access.isPrivate_withModality _ _
    · rfl

end Merge

-- A method that others can see, of a type that can be read.
structure ApiMethod.Offered (method : ApiMethod) : Prop where
  access : isPrivate method.access.bits = false
  visibilities : .private ∉ method.visibilities.values
  readable : (MethodType.ofText? method.descriptor).isSome = true

theorem Snapshot.offered_method {member : Member} (version : Version) (count : Nat)
    (hoffered : isPrivate member.access = false)
    (hreadable : (MethodType.ofText? member.descriptor).isSome = true) :
    (method version count member).Offered :=
  ⟨hoffered, List.not_mem_nil, hreadable⟩

theorem Merge.offered_applyMethod (subject : String) {target incoming : ApiMethod}
    (signature : Option String) (htarget : target.Offered) (hincoming : incoming.Offered) :
    (applyMethod subject target incoming signature).value.Offered := by
  have hown : FacetView.Offered ⟨target.access, target.visibilities, target.version⟩ :=
    ⟨htarget.access, htarget.visibilities⟩
  have hother : FacetView.Offered ⟨incoming.access, incoming.visibilities, incoming.version⟩ :=
    ⟨hincoming.access, hincoming.visibilities⟩
  have hwidened := offered_widenVisibility hown hother none
  exact ⟨(isPrivate_widenModality _ _).trans hwidened.access, hwidened.table, htarget.readable⟩

end ApiUnion
