import ApiUnion.Model.Basic

-- Widening: when versions differ in visibility or modality, the merged access permits what each of
-- them permits, and a table tells which version had what.

namespace ApiUnion

namespace Alternatives

variable {α : Type} [Facet α]

-- All values of a table reconciled with one another.
def reconciled? (reconcile : α → α → α) (table : Alternatives α) : Option α :=
  match table.values with
  | [] => none
  | value :: rest => some (rest.foldl reconcile value)

end Alternatives

namespace Merge

-- The access of an entity, with its table for one facet and its version.
structure FacetView (α : Type) [Facet α] where
  access : Access
  table : Alternatives α
  version : Option Version

def FacetView.side {α : Type} [Facet α] (view : FacetView α) (current : Access → α) :
    Alternatives.Side α :=
  ⟨view.table, current view.access, view.version⟩

-- The access and table of a target after another version of it was seen.
def widen {α : Type} [Facet α] [DecidableEq α] (current : Access → α)
    (update : Access → α → Access) (reconcile : α → α → α) (target other : FacetView α) :
    Access × Alternatives α :=
  match Alternatives.combine? (target.side current) (other.side current) with
  | none => (target.access, target.table)
  | some table =>
    let access := match table.reconciled? reconcile with
      | some value => update target.access value
      | none => target.access
    (access, table)

def widenVisibility : FacetView Visibility → FacetView Visibility →
    Access × Alternatives Visibility :=
  widen Access.visibility Access.withVisibility Visibility.widen

def widenModality : FacetView Modality → FacetView Modality → Access × Alternatives Modality :=
  widen Access.modality Access.withModality Modality.widen

end Merge

end ApiUnion
