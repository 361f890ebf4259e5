import ApiUnion.Model.Snapshot
import ApiUnion.Proofs.ClassFile.Normal

-- What emission adds to the annotations of a class or member is what a snapshot takes away again.

namespace ApiUnion

namespace Marks

variable {mark : AnnotationValue}

theorem type_of_isVersionMetadata (h : isVersionMetadata mark = true) :
    mark.type ∈ [existsIn, alternativeVisibility, alternativeModality, mangledName] := by
  simpa [isVersionMetadata] using h

theorem nullability?_of_isVersionMetadata (h : isVersionMetadata mark = true) :
    nullability? mark = none := by
  have htypes : ∀ type ∈ [existsIn, alternativeVisibility, alternativeModality, mangledName],
      type ≠ notNull ∧ type ≠ nullable := by decide
  obtain ⟨hnotNull, hnullable⟩ := htypes mark.type (type_of_isVersionMetadata h)
  rw [nullability?, if_neg hnotNull, if_neg hnullable]

theorem isKotlinMetadata_of_isVersionMetadata (h : isVersionMetadata mark = true) :
    isKotlinMetadata mark = false := by
  have htypes : ∀ type ∈ [existsIn, alternativeVisibility, alternativeModality, mangledName],
      type ≠ kotlinMetadata := by decide
  simpa [isKotlinMetadata] using htypes mark.type (type_of_isVersionMetadata h)

theorem isVersionMetadata_of_mem_ofVersion {version : Option Version}
    (h : mark ∈ ofVersion version) : isVersionMetadata mark = true := by
  unfold ofVersion at h
  split at h
  · rw [List.mem_singleton] at h
    subst h
    rfl
  · cases h

theorem isVersionMetadata_of_mem_ofAlternatives {α : Type} [Facet α] {type element : String}
    {value : α → ElementValue} {table : Alternatives α}
    (htype : type ∈ [existsIn, alternativeVisibility, alternativeModality, mangledName])
    (h : mark ∈ ofAlternatives type element value table) : isVersionMetadata mark = true := by
  unfold ofAlternatives at h
  split at h
  · cases h
  · rw [List.mem_singleton] at h
    subst h
    simpa [isVersionMetadata] using htype

theorem isVersionMetadata_of_mem {version : Option Version} {visibilities : Alternatives Visibility}
    {modalities : Alternatives Modality}
    (h : mark ∈ versionMetadata version visibilities modalities) :
    isVersionMetadata mark = true := by
  unfold versionMetadata at h
  rw [List.mem_append, List.mem_append] at h
  rcases h with (h | h) | h
  · exact isVersionMetadata_of_mem_ofVersion h
  · exact isVersionMetadata_of_mem_ofAlternatives (by simp) h
  · exact isVersionMetadata_of_mem_ofAlternatives (by simp) h

-- All of these hold texts and names only, which are read as they were written.

@[simp] theorem map_asRead_ofNullability (nullability : Nullability) :
    (ofNullability nullability).map AnnotationValue.asRead = ofNullability nullability := by
  cases nullability <;> rfl

theorem map_asRead_ofVersion (version : Option Version) :
    (ofVersion version).map AnnotationValue.asRead = ofVersion version := by
  unfold ofVersion
  split <;> rfl

theorem map_asRead_ofAlternatives {α : Type} [Facet α] (type element : String)
    (value : α → ElementValue) (table : Alternatives α)
    (hvalue : ∀ a, (value a).asRead = value a) :
    (ofAlternatives type element value table).map AnnotationValue.asRead =
      ofAlternatives type element value table := by
  unfold ofAlternatives
  split
  · rfl
  · rw [List.map_singleton, AnnotationValue.asRead, elementsAsRead_of_forall]
    intro element helement
    rw [List.mem_pair] at helement
    rcases helement with rfl | rfl
    · refine congrArg ElementValue.array (valuesAsRead_of_forall _ fun text htext => ?_)
      simp only [List.mem_map, List.mem_filterMap, Option.map_eq_some_iff] at htext
      obtain ⟨_, ⟨_, _, _, _, rfl⟩, rfl⟩ := htext
      rfl
    · refine congrArg ElementValue.array (valuesAsRead_of_forall _ fun item hitem => ?_)
      simp only [List.mem_map, List.mem_filterMap, Option.map_eq_some_iff] at hitem
      obtain ⟨_, ⟨_, _, _, _, rfl⟩, rfl⟩ := hitem
      exact hvalue _

@[simp] theorem map_asRead_versionMetadata (version : Option Version)
    (visibilities : Alternatives Visibility) (modalities : Alternatives Modality) :
    (versionMetadata version visibilities modalities).map AnnotationValue.asRead =
      versionMetadata version visibilities modalities := by
  unfold versionMetadata
  rw [List.map_append, List.map_append, map_asRead_ofVersion, map_asRead_ofAlternatives,
    map_asRead_ofAlternatives]
  · exact fun _ => rfl
  · exact fun _ => rfl

end Marks

namespace Snapshot

open Marks

theorem forall_mem_all_filter {keep : AnnotationValue → Bool} {good : AnnotationValue → Prop}
    (h : ∀ mark, keep mark = true → good mark) (visible invisible : List AnnotationValue) :
    ∀ mark ∈ (⟨visible.filter keep, invisible.filter keep⟩ : Annotations).all, good mark := by
  intro mark hmark
  rw [Annotations.all, ← List.filter_append] at hmark
  exact h mark (List.mem_filter.mp hmark).2

@[simp] theorem kept_append (xs ys : List AnnotationValue) : kept (xs ++ ys) = kept xs ++ kept ys :=
  List.filter_append ..

@[simp] theorem kept_kept (marks : List AnnotationValue) : kept (kept marks) = kept marks := by
  simp [kept]

@[simp] theorem kept_ofNullability (nullability : Nullability) :
    kept (ofNullability nullability) = [] := by
  cases nullability <;> decide

@[simp] theorem kept_versionMetadata (version : Option Version)
    (visibilities : Alternatives Visibility) (modalities : Alternatives Modality) :
    kept (versionMetadata version visibilities modalities) = [] := by
  refine List.filter_eq_nil_iff.mpr fun mark hmark => ?_
  simp [isVersionMetadata_of_mem hmark]

@[simp] theorem keptOnClass_append (xs ys : List AnnotationValue) :
    keptOnClass (xs ++ ys) = keptOnClass xs ++ keptOnClass ys :=
  List.filter_append ..

@[simp] theorem keptOnClass_keptOnClass (marks : List AnnotationValue) :
    keptOnClass (keptOnClass marks) = keptOnClass marks := by
  simp [keptOnClass]

@[simp] theorem keptOnClass_versionMetadata (version : Option Version)
    (visibilities : Alternatives Visibility) (modalities : Alternatives Modality) :
    keptOnClass (versionMetadata version visibilities modalities) = [] := by
  refine List.filter_eq_nil_iff.mpr fun mark hmark => ?_
  simp [isVersionMetadata_of_mem hmark]

@[simp] theorem filter_isKotlinMetadata_keptOnClass (marks : List AnnotationValue) :
    (keptOnClass marks).filter isKotlinMetadata = [] := by
  refine List.filter_eq_nil_iff.mpr fun mark hmark => ?_
  have hkept := (List.mem_filter.mp hmark).2
  simp_all

@[simp] theorem filter_isKotlinMetadata_versionMetadata (version : Option Version)
    (visibilities : Alternatives Visibility) (modalities : Alternatives Modality) :
    (versionMetadata version visibilities modalities).filter isKotlinMetadata = [] := by
  refine List.filter_eq_nil_iff.mpr fun mark hmark => ?_
  simp [isKotlinMetadata_of_isVersionMetadata (isVersionMetadata_of_mem hmark)]

@[simp] theorem filterMap_nullability?_kept (marks : List AnnotationValue) :
    (kept marks).filterMap nullability? = [] := by
  refine List.filterMap_eq_nil_iff.mpr fun mark hmark => ?_
  have hkept := (List.mem_filter.mp hmark).2
  simp_all

@[simp] theorem filterMap_nullability?_versionMetadata (version : Option Version)
    (visibilities : Alternatives Visibility) (modalities : Alternatives Modality) :
    (versionMetadata version visibilities modalities).filterMap nullability? = [] :=
  List.filterMap_eq_nil_iff.mpr fun _ hmark =>
    nullability?_of_isVersionMetadata (isVersionMetadata_of_mem hmark)

-- Only the annotation that was added makes a promise.
theorem nullability_emitted {marks : List AnnotationValue} (promised : Nullability)
    (h : marks.filterMap nullability? = (ofNullability promised).filterMap nullability?) :
    nullability marks = promised := by
  unfold nullability
  rw [h]
  cases promised <;> rfl

end Snapshot

end ApiUnion
