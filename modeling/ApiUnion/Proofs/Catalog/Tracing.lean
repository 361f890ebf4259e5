import ApiUnion.Proofs.Catalog.Provenance
import ApiUnion.Proofs.Merge.Sightings

-- The variants of a method, traced through a run with everything that went into each of them.

namespace ApiUnion

open Version Merge

-- The variants that a class has under a name and descriptor.
def ApiClass.variants (entry : ApiClass) (name descriptor : String) : List ApiMethod :=
  (entry.method? name descriptor).elim [] MethodSlot.toList

-- The variants of a method with all that went into each of them.
structure TracedMethod where
  method : ApiMethod
  seen : List Sighting

namespace TracedMethod

def start (ofClass : Version) (method : ApiMethod) : TracedMethod :=
  ⟨method, [Sighting.of method.access (method.versionIn ofClass)]⟩

def explicit (ofClass : Version) (traced : TracedMethod) : TracedMethod :=
  { traced with method := explicitMethod ofClass traced.method }

-- The first variant that accepts the incoming method has seen it too.
def absorb (options : MergeOptions) (owner : String) :
    List TracedMethod → TracedMethod → List TracedMethod
  | [], incoming => [incoming]
  | target :: rest, incoming =>
    let subject := s!"{owner}.{incoming.method.name}{incoming.method.descriptor}"
    match checkMethod options target.method incoming.method with
    | .ok signature =>
      { method := (applyMethod subject target.method incoming.method signature).value
        seen := target.seen ++ incoming.seen } :: rest
    | .error _ => target :: absorb options owner rest incoming

-- The variants under one name and descriptor after one more snapshot was taken in.
def step (options : MergeOptions) (name descriptor : String) (traced : List TracedMethod)
    (step : Acceptance) : List TracedMethod :=
  let incoming := (step.snapshot.variants name descriptor).map (start step.snapshot.version)
  match step.before with
  | none => incoming
  | some before =>
    let incoming := incoming.map (explicit step.snapshot.version)
    match before.method? name descriptor with
    | none => incoming
    | some _ => incoming.foldl (absorb options before.name) (traced.map (explicit before.version))

def run (options : MergeOptions) (name descriptor : String) (taken : List Acceptance) :
    List TracedMethod :=
  taken.foldl (step options name descriptor) []

theorem intoFirst_traced (options : MergeOptions) (owner : String) (traced : List TracedMethod)
    (incoming : TracedMethod) :
    let merged := (intoFirst options
      s!"{owner}.{incoming.method.name}{incoming.method.descriptor}" incoming.method
      (traced.map method)).value
    let absorbed := absorb options owner traced incoming
    (merged = some (absorbed.map method) ∧ absorbed.length = traced.length) ∨
      (merged = none ∧ absorbed = traced ++ [incoming]) := by
  induction traced with
  | nil => exact .inr ⟨rfl, rfl⟩
  | cons target rest ih =>
      simp only [List.map_cons, intoFirst, absorb, Logged.value_bind]
      cases checkMethod options target.method incoming.method with
      | ok signature => exact .inl ⟨rfl, rfl⟩
      | error conflict =>
          simp only [Logged.value_bind, Logged.value_pure]
          rcases ih with ⟨hmerged, hlength⟩ | ⟨hnone, habsorb⟩
          · rw [hmerged]
            exact .inl ⟨rfl, congrArg (· + 1) hlength⟩
          · rw [hnone, habsorb]
            exact .inr ⟨rfl, rfl⟩

theorem map_method_absorb (options : MergeOptions) (owner : String) (traced : List TracedMethod)
    (incoming : TracedMethod) (slot : MethodSlot) (h : slot.toList = traced.map method) :
    (intoVariants options owner slot incoming.method).value.toList =
      (absorb options owner traced incoming).map method := by
  unfold intoVariants
  rw [Logged.value_bind, h]
  rcases intoFirst_traced options owner traced incoming with ⟨hmerged, hlength⟩ | ⟨hnone, habsorb⟩
  · rw [hmerged]
    refine MethodSlot.toList_refill ?_
    rw [List.length_map, hlength, h, List.length_map]
  · rw [hnone, habsorb, List.map_append, ← h]
    exact slot.toList_push incoming.method

theorem map_method_foldl_absorb (options : MergeOptions) (owner : String)
    (traced incoming : List TracedMethod) (slot : MethodSlot)
    (h : slot.toList = traced.map method) :
    ((incoming.map method).foldlM (intoVariants options owner) slot).value.toList =
      (incoming.foldl (absorb options owner) traced).map method := by
  induction incoming generalizing traced slot with
  | nil => exact h
  | cons first incoming ih =>
      rw [List.map_cons, List.foldlM_cons, Logged.value_bind, List.foldl_cons]
      exact ih _ _ (map_method_absorb options owner traced first slot h)

theorem map_method_explicit (ofClass : Version) (traced : List TracedMethod) :
    (traced.map (explicit ofClass)).map method =
      (traced.map method).map (explicitMethod ofClass) := by
  simp [explicit, Function.comp_def]

theorem map_method_start (ofClass : Version) (methods : List ApiMethod) :
    (methods.map (start ofClass)).map method = methods := by
  simp [start, Function.comp_def]

end TracedMethod

theorem toList_map_explicitMethod {slot : MethodSlot} {traced : List TracedMethod}
    (ofClass : Version) (h : slot.toList = traced.map TracedMethod.method) :
    (slot.map (explicitMethod ofClass)).toList =
      (traced.map (TracedMethod.explicit ofClass)).map TracedMethod.method := by
  rw [MethodSlot.toList_map, h, TracedMethod.map_method_explicit]

theorem variants_applyClass (options : MergeOptions) (target incoming : ApiClass)
    (signature : Option String) (name descriptor : String) (traced : List TracedMethod)
    (h : target.variants name descriptor = traced.map TracedMethod.method) :
    (applyClass options target incoming signature).value.variants name descriptor =
      (TracedMethod.step options name descriptor traced ⟨some target, incoming⟩).map
        TracedMethod.method := by
  have hslot : (applyClass options target incoming signature).value.variants name descriptor =
      ((applyClass options target incoming signature).value.methods.get?
        (memberKey name descriptor)).elim [] MethodSlot.toList := rfl
  rw [hslot, get?_methods_applyClass]
  simp only [TracedMethod.step, ApiClass.variants, ApiClass.method?] at h ⊢
  cases hbefore : target.methods.get? (memberKey name descriptor) with
  | none =>
      cases incoming.methods.get? (memberKey name descriptor) with
      | none => rfl
      | some added =>
          exact toList_map_explicitMethod incoming.version
            (TracedMethod.map_method_start incoming.version added.toList).symm
  | some slot =>
      rw [hbefore] at h
      have hexplicit := toList_map_explicitMethod target.version h
      cases incoming.methods.get? (memberKey name descriptor) with
      | none => exact hexplicit
      | some added =>
          have hadded := toList_map_explicitMethod incoming.version
            (TracedMethod.map_method_start incoming.version added.toList).symm
          have hfold := TracedMethod.map_method_foldl_absorb options target.name _
            ((added.toList.map (TracedMethod.start incoming.version)).map
              (TracedMethod.explicit incoming.version)) _ hexplicit
          rw [← hadded] at hfold
          exact hfold

end ApiUnion
