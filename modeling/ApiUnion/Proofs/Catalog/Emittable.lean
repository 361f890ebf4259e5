import ApiUnion.Proofs.Catalog.Acceptance
import ApiUnion.Proofs.Merge.Members
import ApiUnion.Proofs.Model.Marks
import ApiUnion.Proofs.Model.Snapshot

-- What is true of a snapshot and kept by every merge, so that emission can say it: members stand
-- under their own keys, only version fields tell of versions, and all versions are of one kind.

namespace ApiUnion

open Marks

-- Annotations that tell of no version.
def Annotations.Unversioned (annotations : Annotations) : Prop :=
  ∀ mark ∈ annotations.all, isVersionMetadata mark = false

structure ApiField.Emittable (allowed : Version → Prop) (key : String) (field : ApiField) :
    Prop where
  key : field.key = key
  version : ∀ version, field.version = some version → allowed version
  annotations : field.annotations.Unversioned

structure ApiMethod.Emittable (allowed : Version → Prop) (key : String) (method : ApiMethod) :
    Prop where
  key : method.key = key
  version : ∀ version, method.version = some version → allowed version
  annotations : method.annotations.Unversioned

structure ApiClass.Emittable (allowed : Version → Prop) (entry : ApiClass) : Prop where
  version : allowed entry.version
  metadata : ∀ mark, entry.metadata = some mark → isVersionMetadata mark = false
  annotations : entry.annotations.Unversioned
  fields : ∀ key field, entry.fields.get? key = some field → field.Emittable allowed key
  methods : ∀ key slot, entry.methods.get? key = some slot →
    ∀ method ∈ slot.toList, method.Emittable allowed key

variable {allowed : Version → Prop}

namespace Snapshot

theorem unversioned_keptBoth (visible invisible : List AnnotationValue) :
    (keptBoth visible invisible).Unversioned :=
  forall_mem_all_filter (fun mark hmark => by simp_all) visible invisible

theorem unversioned_keptOnClass (visible invisible : List AnnotationValue) :
    (⟨keptOnClass visible, keptOnClass invisible⟩ : Annotations).Unversioned :=
  forall_mem_all_filter (fun mark hmark => by simp_all) visible invisible

theorem isVersionMetadata_of_metadata {file : ClassFile} {mark : AnnotationValue}
    (h : metadata file = some mark) : isVersionMetadata mark = false := by
  have hkotlin := (List.mem_filter.mp (List.mem_of_getLast? h)).2
  by_contra hversion
  rw [isKotlinMetadata_of_isVersionMetadata (by simpa using hversion)] at hkotlin
  cases hkotlin

theorem emittable_ofClassFile {file : ClassFile} {version : Version} {entry : ApiClass}
    (h : ApiClass.ofClassFile file version = .ok entry) (hversion : allowed version) :
    entry.Emittable allowed := by
  obtain ⟨fields, methods, hfields, -, hmethods, rfl⟩ :=
    (ofClassFile_eq_ok_iff file version entry).mp h
  have hown : ∀ found, some version = some found → allowed found :=
    fun found hfound => Option.some.inj hfound ▸ hversion
  exact {
    version := hversion
    metadata := fun mark hmark => isVersionMetadata_of_metadata hmark
    annotations := unversioned_keptOnClass file.visible file.invisible
    fields := fun key field hfield => by
      have hrow := Table.mem_rows_of_get? hfield
      rw [assembled, hfields] at hrow
      obtain ⟨member, -, hmember⟩ := List.mem_map.mp hrow
      cases hmember
      exact ⟨rfl, hown, unversioned_keptBoth member.visible member.invisible⟩
    methods := fun key variants hvariants method hmethod => by
      have hrow := Table.mem_rows_of_get? hvariants
      rw [assembled, hmethods] at hrow
      obtain ⟨member, -, hmember⟩ := List.mem_map.mp hrow
      cases hmember
      obtain rfl := List.mem_singleton.mp hmethod
      exact ⟨rfl, hown, unversioned_keptBoth member.visible member.invisible⟩
  }

end Snapshot

namespace Merge

-- Nothing but what one of the two sides has comes into a list of annotations.
theorem forall_mem_marks {good : AnnotationValue → Prop} (subject : String)
    (target incoming : List AnnotationValue) (htarget : ∀ mark ∈ target, good mark)
    (hincoming : ∀ mark ∈ incoming, good mark) :
    ∀ mark ∈ (marks subject target incoming).value, good mark := by
  induction incoming generalizing target with
  | nil => exact htarget
  | cons mark incoming ih =>
      obtain ⟨hmark, hincoming⟩ := List.forall_mem_cons.mp hincoming
      refine ih _ ?_ hincoming
      unfold Logged.attempt checkMark
      dsimp only
      split
      · simpa [Except.toOption, or_imp, forall_and, hmark] using htarget
      · split
        · exact htarget
        · exact htarget

theorem forall_mem_annotations {good : AnnotationValue → Prop} (subject : String)
    {target incoming : Annotations} (htarget : ∀ mark ∈ target.all, good mark)
    (hincoming : ∀ mark ∈ incoming.all, good mark) :
    ∀ mark ∈ (annotations subject target incoming).value.all, good mark := by
  obtain ⟨htarget, htarget'⟩ := List.forall_mem_append.mp htarget
  obtain ⟨hincoming, hincoming'⟩ := List.forall_mem_append.mp hincoming
  exact List.forall_mem_append.mpr
    ⟨forall_mem_marks subject _ _ htarget hincoming, forall_mem_marks subject _ _ htarget' hincoming'⟩

theorem unversioned_annotations (subject : String) {target incoming : Annotations}
    (htarget : target.Unversioned) (hincoming : incoming.Unversioned) :
    (annotations subject target incoming).value.Unversioned :=
  forall_mem_annotations subject htarget hincoming

theorem allowed_plus? (hplus : ∀ a b, allowed a → allowed b → allowed (a.plus b))
    {a b : Option Version} (ha : ∀ version, a = some version → allowed version)
    (hb : ∀ version, b = some version → allowed version) :
    ∀ version, Version.plus? a b = some version → allowed version := by
  cases a with
  | none => simpa using hb
  | some a =>
      cases b with
      | none => simpa using ha
      | some b =>
          intro version h
          cases h
          exact hplus a b (ha a rfl) (hb b rfl)

theorem allowed_getD {own : Option Version} {version : Version}
    (hown : ∀ found, own = some found → allowed found) (hversion : allowed version) :
    allowed (own.getD version) := by
  cases own with
  | none => exact hversion
  | some own => exact hown own rfl

variable {key : String} {version : Version}

theorem emittable_explicitField {field : ApiField} (h : field.Emittable allowed key)
    (hversion : allowed version) : (explicitField version field).Emittable allowed key :=
  ⟨h.key, fun _ hfound => Option.some.inj hfound ▸ allowed_getD h.version hversion, h.annotations⟩

theorem emittable_explicitMethod {method : ApiMethod} (h : method.Emittable allowed key)
    (hversion : allowed version) : (explicitMethod version method).Emittable allowed key :=
  ⟨h.key, fun _ hfound => Option.some.inj hfound ▸ allowed_getD h.version hversion, h.annotations⟩

variable (hplus : ∀ a b, allowed a → allowed b → allowed (a.plus b))
include hplus

theorem emittable_applyField (subject : String) {target incoming : ApiField}
    (signature : Option String) (htarget : target.Emittable allowed key)
    (hincoming : incoming.Emittable allowed key) :
    (applyField subject target incoming signature).value.Emittable allowed key :=
  ⟨htarget.key, allowed_plus? hplus htarget.version hincoming.version,
    unversioned_annotations _ htarget.annotations hincoming.annotations⟩

theorem emittable_applyMethod (subject : String) {target incoming : ApiMethod}
    (signature : Option String) (htarget : target.Emittable allowed key)
    (hincoming : incoming.Emittable allowed key) :
    (applyMethod subject target incoming signature).value.Emittable allowed key :=
  ⟨htarget.key, allowed_plus? hplus htarget.version hincoming.version,
    unversioned_annotations _ htarget.annotations hincoming.annotations⟩

theorem emittable_applyClass (options : MergeOptions) {target incoming : ApiClass}
    (signature : Option String) (htarget : target.Emittable allowed)
    (hincoming : incoming.Emittable allowed) :
    (applyClass options target incoming signature).value.Emittable allowed where
  version := hplus _ _ htarget.version hincoming.version
  metadata mark hmark := by
    have hmetadata : (applyClass options target incoming signature).value.metadata =
        target.metadata.or incoming.metadata := rfl
    rw [hmetadata, Option.or_eq_some_iff] at hmark
    rcases hmark with hmark | ⟨-, hmark⟩
    · exact htarget.metadata mark hmark
    · exact hincoming.metadata mark hmark
  annotations := unversioned_annotations _ htarget.annotations hincoming.annotations
  fields := by
    refine forall_fields_applyClass (fun key field => field.Emittable allowed key)
      options signature ?_ ?_ ?_
    · exact fun key subject target incoming signature htarget hincoming =>
        emittable_applyField hplus subject signature htarget hincoming
    · exact fun key field hfield =>
        emittable_explicitField (htarget.fields key field hfield) htarget.version
    · exact fun key field hfield =>
        emittable_explicitField (hincoming.fields key field hfield) hincoming.version
  methods := by
    refine forall_methods_applyClass (fun key method => method.Emittable allowed key)
      options signature ?_ ?_ ?_
    · exact fun key subject target incoming signature htarget hincoming =>
        emittable_applyMethod hplus subject signature htarget hincoming
    · exact fun key variants hvariants method hmethod =>
        emittable_explicitMethod (htarget.methods key variants hvariants method hmethod)
          htarget.version
    · exact fun key variants hvariants method hmethod =>
        emittable_explicitMethod (hincoming.methods key variants hvariants method hmethod)
          hincoming.version

end Merge

namespace Catalog

theorem emittable_run (hplus : ∀ a b, allowed a → allowed b → allowed (a.plus b))
    (options : MergeOptions) (snapshots : List ApiClass)
    (h : ∀ snapshot ∈ snapshots, snapshot.Emittable allowed) (name : String) (entry : ApiClass)
    (hget : ((empty options).appendAll snapshots).get? name = some entry) :
    entry.Emittable allowed := by
  refine run_induction (motive := fun known _ => ∀ entry, known = some entry →
    entry.Emittable allowed) name options snapshots ?_ ?_ ?_ entry hget
  · intro entry hnone
    cases hnone
  · intro snapshot hsnapshot entry hentry
    cases hentry
    exact h snapshot hsnapshot
  · intro existing taken snapshot hsnapshot signature ih _ entry hentry
    cases hentry
    exact Merge.emittable_applyClass hplus options signature (ih existing rfl)
      (h snapshot hsnapshot)

theorem allowed_impliedVersion {ofClass : Version} {version : Option Version}
    (h : ∀ found, version = some found → allowed found) :
    ∀ found, impliedVersion ofClass version = some found → allowed found := by
  unfold impliedVersion
  split
  · intro found hfound
    cases hfound
  · exact h

theorem emittable_withImpliedVersions {entry : ApiClass} (h : entry.Emittable allowed) :
    (withImpliedVersions entry).Emittable allowed where
  version := h.version
  metadata := h.metadata
  annotations := h.annotations
  fields key field hfield := by
    rw [withImpliedVersions, Table.get?_map] at hfield
    obtain ⟨original, horiginal, rfl⟩ := Option.map_eq_some_iff.mp hfield
    have hkept := h.fields key original horiginal
    exact ⟨hkept.key, allowed_impliedVersion hkept.version, hkept.annotations⟩
  methods key variants hvariants method hmethod := by
    rw [withImpliedVersions, Table.get?_map] at hvariants
    obtain ⟨original, horiginal, rfl⟩ := Option.map_eq_some_iff.mp hvariants
    rw [MethodSlot.toList_map] at hmethod
    obtain ⟨unmapped, hunmapped, rfl⟩ := List.mem_map.mp hmethod
    have hkept := h.methods key original horiginal unmapped hunmapped
    exact ⟨hkept.key, allowed_impliedVersion hkept.version, hkept.annotations⟩

end Catalog

end ApiUnion
