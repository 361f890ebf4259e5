import ApiUnion.Proofs.Signature.Shape

-- Shapes of method signatures. The join under the names of the first has the shape of the first, so
-- that joining others to a signature changes nothing about what can be joined to it.

namespace ApiUnion

open Renaming

-- A signature with all type arguments forgotten but their number.
structure MethodShape where
  typeParameters : List (Option GenericType × List GenericType)
  parameters : List GenericType
  result : Option GenericType
  throws : List GenericType

namespace MethodSignature

def shape (signature : MethodSignature) : MethodShape where
  typeParameters := signature.typeParameters.map TypeParameter.shape
  parameters := signature.parameters.map GenericType.shape
  result := signature.result.map GenericType.shape
  throws := signature.throws.map GenericType.shape

variable {a b join : MethodSignature}

theorem shape_eq_of_join? (h : a.join? b = some join) : a.shape = b.shape := by
  obtain ⟨htypeParameters, hparameters, hresult, hthrows⟩ := join?_eq_some h
  rw [shape, shape, map_shape_of_joinParameters? htypeParameters,
    map_shape_of_joinAll? hparameters, map_shape_of_joinOption? hresult,
    map_shape_of_joinAll? hthrows]

theorem shape_join? (h : a.join? b = some join) : join.shape = a.shape := by
  obtain ⟨htypeParameters, hparameters, hresult, hthrows⟩ := join?_eq_some h
  have hbounds := map_shape_eq (loosens_joinOption? hresult)
  have hresultShape : join.result.map GenericType.shape = a.result.map GenericType.shape := by
    cases hfirst : a.result <;> cases hlast : join.result <;> simp_all
  rw [shape, shape, ← map_shape_joinParameters? htypeParameters,
    ← map_shape_eq (loosens_joinAll? hparameters), hresultShape,
    ← map_shape_eq (loosens_joinAll? hthrows)]

theorem isSome_join?_of_shape (h : a.shape = b.shape) : (a.join? b).isSome := by
  obtain ⟨htypeParameters, hparameters, hresult, hthrows⟩ := MethodShape.mk.inj h
  obtain ⟨result, hresult⟩ := Option.isSome_iff_exists.mp (isSome_joinOption?_of_shape hresult)
  obtain ⟨typeParameters, htypeParameters⟩ :=
    Option.isSome_iff_exists.mp (isSome_joinParameters?_of_shape htypeParameters)
  obtain ⟨parameters, hparameters⟩ :=
    Option.isSome_iff_exists.mp (isSome_joinAll?_of_shape hparameters)
  obtain ⟨throws, hthrows⟩ := Option.isSome_iff_exists.mp (isSome_joinAll?_of_shape hthrows)
  simp [join?, hresult, htypeParameters, hparameters, hthrows]

-- Putting the names of the first back does not change what the canonical form is.
theorem canonical_fromPlaceholders (ha : a.ownNames.Nodup)
    (h : a.canonical.join? b.canonical = some join) :
    (join.rename (.fromPlaceholders a.ownNames b.ownNames)).canonical = join := by
  obtain ⟨-, -, hbound⟩ := bound_fromPlaceholders placeholder ha h
  have hsame (name : String) :
      toSymbols placeholder (placeholders a.ownNames) name = name := by
    by_cases hmem : name ∈ placeholders a.ownNames
    · obtain ⟨i, hi, rfl⟩ := mem_placeholders.mp hmem
      exact toSymbols_placeholder hi
    · exact toSymbols_of_notMem hmem
  calc (join.rename (.fromPlaceholders a.ownNames b.ownNames)).canonical
      _ = join.rename (toSymbols placeholder (placeholders a.ownNames)) := hbound
      _ = join.rename fun name => name := join.rename_congr fun name _ => hsame name
      _ = join := join.rename_id

end MethodSignature

end ApiUnion
