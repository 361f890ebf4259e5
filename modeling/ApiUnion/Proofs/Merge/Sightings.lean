import ApiUnion.Proofs.Merge.Facets

-- The visibility and modality with which something was seen, version by version, and how widening
-- records them.

namespace ApiUnion

open Version

-- What a snapshot shows of the access of a class or member, and in which version.
structure Sighting where
  visibility : Visibility
  modality : Modality
  version : Version

namespace Sighting

def of (access : Access) (version : Version) : Sighting :=
  ⟨access.visibility, access.modality, version⟩

def visibilities (seen : List Sighting) : List (Visibility × Version) :=
  seen.map fun sighting => (sighting.visibility, sighting.version)

def modalities (seen : List Sighting) : List (Modality × Version) :=
  seen.map fun sighting => (sighting.modality, sighting.version)

def versions (seen : List Sighting) : List Version :=
  seen.map Sighting.version

end Sighting

-- The access of an entity, and its tables, as a view of one facet after the other is widened.
structure ExactAccess (seen : List Sighting) (access : Access)
    (visibilities : Alternatives Visibility) (modalities : Alternatives Modality) : Prop where
  visibility : Alternatives.Exact IsWidest (Sighting.visibilities seen) access.visibility visibilities
  modality : Alternatives.Exact IsCommonOrOpen (Sighting.modalities seen) access.modality modalities

namespace Merge

theorem exact_widenVisibility (target other : FacetView Visibility) (seen : List Sighting)
    (version : Version)
    (hexact : Alternatives.Exact IsWidest (Sighting.visibilities seen) target.access.visibility
      target.table)
    (hversion : target.version = join? (Sighting.versions seen)) (hplain : other.table.isEmpty)
    (hother : other.version = some version) :
    Alternatives.Exact IsWidest
      (Sighting.visibilities (seen ++ [Sighting.of other.access version]))
      (widenVisibility target other).1.visibility (widenVisibility target other).2 := by
  have hversions : (Sighting.visibilities seen).map Prod.snd = Sighting.versions seen := by
    simp [Sighting.visibilities, Sighting.versions]
  rw [← hversions] at hversion
  have h := exact_widen Access.visibility Access.withVisibility Visibility.widen IsWidest
    reconciles_visibility Access.visibility_withVisibility target other _ version hexact hversion
    hplain hother
  rw [Sighting.visibilities, List.map_append]
  exact h

theorem exact_widenModality (target other : FacetView Modality) (seen : List Sighting)
    (version : Version)
    (hexact : Alternatives.Exact IsCommonOrOpen (Sighting.modalities seen) target.access.modality
      target.table)
    (hversion : target.version = join? (Sighting.versions seen)) (hplain : other.table.isEmpty)
    (hother : other.version = some version) :
    Alternatives.Exact IsCommonOrOpen
      (Sighting.modalities (seen ++ [Sighting.of other.access version]))
      (widenModality target other).1.modality (widenModality target other).2 := by
  have hversions : (Sighting.modalities seen).map Prod.snd = Sighting.versions seen := by
    simp [Sighting.modalities, Sighting.versions]
  rw [← hversions] at hversion
  have h := exact_widen Access.modality Access.withModality Modality.widen IsCommonOrOpen
    reconciles_modality Access.modality_withModality target other _ version hexact hversion
    hplain hother
  rw [Sighting.modalities, List.map_append]
  exact h

theorem modality_widenVisibility (target other : FacetView Visibility) :
    (widenVisibility target other).1.modality = target.access.modality :=
  kept_widen Access.modality_withVisibility target other

theorem visibility_widenModality (target other : FacetView Modality) :
    (widenModality target other).1.visibility = target.access.visibility :=
  kept_widen Access.visibility_withModality target other

-- Classes and methods are widened in visibility first, and neither facet disturbs the other.
theorem exactAccess_widen (seen : List Sighting) (access other : Access)
    (visibilities otherVisibilities : Alternatives Visibility)
    (modalities otherModalities : Alternatives Modality) (target : Option Version)
    (version : Version) (hexact : ExactAccess seen access visibilities modalities)
    (hversion : target = join? (Sighting.versions seen)) (hvisibilities : otherVisibilities.isEmpty)
    (hmodalities : otherModalities.isEmpty) :
    ExactAccess (seen ++ [Sighting.of other version])
      (widenModality
        ⟨(widenVisibility ⟨access, visibilities, target⟩
          ⟨other, otherVisibilities, some version⟩).1, modalities, target⟩
        ⟨other, otherModalities, some version⟩).1
      (widenVisibility ⟨access, visibilities, target⟩ ⟨other, otherVisibilities, some version⟩).2
      (widenModality
        ⟨(widenVisibility ⟨access, visibilities, target⟩
          ⟨other, otherVisibilities, some version⟩).1, modalities, target⟩
        ⟨other, otherModalities, some version⟩).2 where
  visibility := by
    rw [visibility_widenModality]
    exact exact_widenVisibility ⟨access, visibilities, target⟩
      ⟨other, otherVisibilities, some version⟩ seen version hexact.visibility hversion
      hvisibilities rfl
  modality := by
    refine exact_widenModality ⟨_, modalities, target⟩ ⟨other, otherModalities, some version⟩ seen
      version ?_ hversion hmodalities rfl
    rw [modality_widenVisibility]
    exact hexact.modality

theorem exactAccess_single (access : Access) (version : Version)
    (visibilities : Alternatives Visibility) (modalities : Alternatives Modality)
    (hvisibilities : visibilities.isEmpty) (hmodalities : modalities.isEmpty) :
    ExactAccess [Sighting.of access version] access visibilities modalities where
  visibility := Alternatives.exact_single _ _ reconciles_visibility _ _ _ hvisibilities
  modality := Alternatives.exact_single _ _ reconciles_modality _ _ _ hmodalities

end Merge

theorem ExactAccess.unique {seen other : List Sighting} (hperm : seen.Perm other) {a b : Access}
    {visibilities otherVisibilities : Alternatives Visibility}
    {modalities otherModalities : Alternatives Modality}
    (ha : ExactAccess seen a visibilities modalities)
    (hb : ExactAccess other b otherVisibilities otherModalities) :
    (a.visibility = b.visibility ∧ visibilities = otherVisibilities) ∧
      a.modality = b.modality ∧ modalities = otherModalities :=
  ⟨Alternatives.Exact.unique reconciles_visibility (fun _ _ _ => IsWidest.unique) (hperm.map _)
      ha.visibility hb.visibility,
    Alternatives.Exact.unique reconciles_modality (fun _ _ _ => IsCommonOrOpen.unique)
      (hperm.map _) ha.modality hb.modality⟩

end ApiUnion
