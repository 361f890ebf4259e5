import ApiUnion.Proofs.Catalog.Admission
import ApiUnion.Proofs.Catalog.Gathering

-- The order in which snapshots of a class arrive. What is reconciled comes out the same in every
-- order in which all of them are merged, though names, constants and annotations may not.

namespace ApiUnion

open Version Merge

namespace Catalog

section Runs

variable (options : MergeOptions) (snapshots : List ApiClass) (name : String)

theorem gathered_run (hplain : ∀ snapshot ∈ snapshots, snapshot.Unwidened) :
    ∀ entry ∈ ((empty options).appendAll snapshots).get? name,
      let taken := acceptances name (empty options) snapshots
      entry.Gathered (taken.map Acceptance.snapshot) ∧ (2 ≤ taken.length → entry.Explicit) := by
  refine run_induction (motive := fun found taken => ∀ entry : ApiClass, entry ∈ found →
    entry.Gathered (taken.map Acceptance.snapshot) ∧ (2 ≤ taken.length → entry.Explicit))
    name options snapshots ?_ ?_ ?_
  · intro entry hentry
    cases hentry
  · intro snapshot hsnapshot entry hentry
    obtain rfl := Option.some.inj hentry
    exact ⟨ApiClass.gathered_installed snapshot (hplain snapshot hsnapshot),
      fun hlength => absurd hlength (by simp)⟩
  · intro existing taken snapshot hsnapshot signature ih _ entry hentry
    obtain rfl := Option.some.inj hentry
    have hexisting := (ih existing rfl).1
    rw [List.map_append]
    exact ⟨gathered_applyClass options existing snapshot signature _ (hplain snapshot hsnapshot)
      hexisting, fun _ => explicit_applyClass options existing snapshot signature _
        (hplain snapshot hsnapshot) hexisting⟩

theorem nullability_field_run (member descriptor : String) :
    ((((empty options).appendAll snapshots).get? name).bind (·.field? member descriptor)).map
        ApiField.nullability =
      pooled Nullability.weaken ((acceptances name (empty options) snapshots).filterMap
        fun step => (step.field? member descriptor).map ApiField.nullability) := by
  refine run_induction (motive := fun entry taken =>
    (entry.bind (·.field? member descriptor)).map ApiField.nullability =
      pooled Nullability.weaken (taken.filterMap
        fun step => (step.field? member descriptor).map ApiField.nullability))
    name options snapshots rfl ?_ ?_
  · intro snapshot _
    have hfirst : Acceptance.field? ⟨none, snapshot⟩ member descriptor =
        snapshot.field? member descriptor := rfl
    rw [List.filterMap_cons, hfirst]
    cases hfield : snapshot.field? member descriptor <;> simp [hfield, pooled]
  · intro existing taken snapshot _ signature ih _
    rw [List.filterMap_append, pooled_append, ← ih, Option.bind_some, Option.bind_some,
      nullability_field_applyClass, List.filterMap_cons]
    cases Acceptance.field? ⟨some existing, snapshot⟩ member descriptor <;> rfl

theorem map_snapshot_acceptances (catalog : Catalog)
    (hname : ∀ snapshot ∈ snapshots, snapshot.name = name)
    (htaken : ∀ outcome ∈ catalog.outcomes snapshots, outcome = .installed ∨ outcome = .merged) :
    (acceptances name catalog snapshots).map Acceptance.snapshot = snapshots := by
  induction snapshots generalizing catalog with
  | nil => rfl
  | cons snapshot rest ih =>
      rw [List.forall_mem_cons] at hname
      rw [outcomes, List.forall_mem_cons] at htaken
      have hfirst : acceptance? name catalog snapshot = some ⟨catalog.get? name, snapshot⟩ := by
        unfold acceptance?
        rw [if_neg (not_not.mpr hname.1)]
        rcases htaken.1 with h | h
        · rw [h]
        · rw [h]
      rw [acceptances, hfirst, List.map_append, ih _ hname.2 htaken.2]
      rfl

end Runs

-- If the second of two snapshots is merged, the first one was installed.
theorem installed_of_merged (options : MergeOptions) (first second : ApiClass)
    (h : (((empty options).append first).1.append second).2 = .merged) :
    ((empty options).append first).2 = .installed := by
  rcases (empty options).append_cases first with ⟨-, hclasses, -⟩ | ⟨-, happend⟩ |
    ⟨existing, -, -, hknown, -⟩
  · have hnone : ((empty options).append first).1.get? second.name = none := by
      rw [get?, hclasses]
      rfl
    rcases ((empty options).append first).1.append_cases second with ⟨hother, -⟩ | ⟨-, happend⟩ |
      ⟨existing, -, -, hknown, -⟩
    · rw [h] at hother
      simp at hother
    · rw [happend] at h
      cases h
    · rw [hnone] at hknown
      cases hknown
  · rw [happend]
  · cases hknown

-- All snapshots of a class are taken in if each after the first is merged into it.
theorem all_taken (options : MergeOptions) (snapshots : List ApiClass) (name : String)
    (hlength : 2 ≤ snapshots.length) (hname : ∀ snapshot ∈ snapshots, snapshot.name = name)
    (hmerged : ∀ outcome ∈ ((empty options).outcomes snapshots).tail, outcome = .merged) :
    (acceptances name (empty options) snapshots).map Acceptance.snapshot = snapshots := by
  refine map_snapshot_acceptances snapshots name (empty options) hname ?_
  match snapshots, hlength with
  | first :: second :: rest, _ =>
      rw [outcomes, List.tail_cons] at hmerged
      rw [outcomes, List.forall_mem_cons]
      have hsecond := hmerged _ (List.mem_cons_self)
      exact ⟨.inl (installed_of_merged options first second hsecond),
        fun outcome houtcome => .inr (hmerged outcome houtcome)⟩

end Catalog

structure ApiField.Alike (a b : ApiField) : Prop where
  version : a.version = b.version
  visibility : a.access.visibility = b.access.visibility
  visibilities : a.visibilities = b.visibilities
  nullability : a.nullability = b.nullability

-- Classes that agree in all that is reconciled when classes are merged. Fields need to agree only
-- if merging them was never refused, and methods only where they are alone under their keys.
structure ApiClass.Alike (merged : String → String → Prop) (a b : ApiClass) : Prop where
  version : a.version = b.version
  visibility : a.access.visibility = b.access.visibility
  modality : a.access.modality = b.access.modality
  visibilities : a.visibilities = b.visibilities
  modalities : a.modalities = b.modalities
  interfaces : ∀ name, name ∈ a.interfaces ↔ name ∈ b.interfaces
  innerClasses : ∀ key, key ∈ a.innerClasses.keys ↔ key ∈ b.innerClasses.keys
  fieldKeys : ∀ key, key ∈ a.fields.keys ↔ key ∈ b.fields.keys
  methodKeys : ∀ key, key ∈ a.methods.keys ↔ key ∈ b.methods.keys
  versions : ∀ name descriptor,
    join? ((a.variants name descriptor).filterMap ApiMethod.version) =
      join? ((b.variants name descriptor).filterMap ApiMethod.version)
  methods : ∀ name descriptor one other, a.method? name descriptor = some (.single one) →
    b.method? name descriptor = some (.single other) → one.Alike other
  fields : ∀ name descriptor, merged name descriptor → ∀ one other,
    a.field? name descriptor = some one → b.field? name descriptor = some other → one.Alike other

theorem ApiClass.Alike.refl (merged : String → String → Prop) (entry : ApiClass) :
    entry.Alike merged entry where
  version := rfl
  visibility := rfl
  modality := rfl
  visibilities := rfl
  modalities := rfl
  interfaces _ := .rfl
  innerClasses _ := .rfl
  fieldKeys _ := .rfl
  methodKeys _ := .rfl
  versions _ _ := rfl
  methods _ _ one other hone hother := by
    cases Option.some.inj (hone.symm.trans hother)
    exact .refl one
  fields _ _ _ one other hone hother := by
    cases Option.some.inj (hone.symm.trans hother)
    exact ⟨rfl, rfl, rfl, rfl⟩

theorem ApiClass.Gathered.methods_alike {xs ys : List ApiClass} {a b : ApiClass}
    (hperm : xs.Perm ys) (ha : a.Gathered xs) (hb : b.Gathered ys) (hexplicit : a.Explicit)
    (hexplicit' : b.Explicit) (name descriptor : String) :
    join? ((a.variants name descriptor).filterMap ApiMethod.version) =
        join? ((b.variants name descriptor).filterMap ApiMethod.version) ∧
      ∀ one other, a.method? name descriptor = some (.single one) →
        b.method? name descriptor = some (.single other) → one.Alike other := by
  have hmethods := hperm.flatMap_right fun snapshot => snapshot.explicitVariants name descriptor
  have hshared := ha.variants name descriptor
  have hshared' := hb.variants name descriptor
  have hkept := map_explicitMethod_of_isSome a.version (hexplicit.methods name descriptor)
  have hkept' := map_explicitMethod_of_isSome b.version (hexplicit'.methods name descriptor)
  rw [explicitVariants, hkept] at hshared
  rw [explicitVariants, hkept'] at hshared'
  refine ⟨?_, fun one other hone hother => ?_⟩
  · rw [hshared.join?_versions, hshared'.join?_versions,
      join?_perm (hmethods.filterMap ApiMethod.version)]
  · rw [ApiClass.variants, hone] at hshared
    rw [ApiClass.variants, hother] at hshared'
    obtain ⟨part, hpart, hgathered⟩ := hshared.gathered
    obtain ⟨part', hpart', hgathered'⟩ := hshared'.gathered
    exact hgathered.alike ((hpart.trans hmethods).trans hpart'.symm) hgathered'

namespace Acceptance

variable {taken : List Acceptance} {name descriptor : String}

-- Where nothing is refused, what was seen of a field is what the snapshots show.

theorem filterMap_fieldSighting? (h : ∀ step ∈ taken, step.refusesField name descriptor = false) :
    taken.filterMap (fun step => step.fieldSighting? name descriptor) =
      (taken.map Acceptance.snapshot).filterMap fun snapshot =>
        (snapshot.field? name descriptor).map fun field =>
          Sighting.of field.access (field.versionIn snapshot.version) := by
  rw [List.filterMap_map]
  refine List.filterMap_congr fun step hstep => ?_
  simp [fieldSighting?, h step hstep]

theorem filterMap_nullability (h : ∀ step ∈ taken, step.refusesField name descriptor = false) :
    (taken.filterMap fun step => (step.field? name descriptor).map ApiField.nullability) =
      (taken.map Acceptance.snapshot).filterMap fun snapshot =>
        (snapshot.field? name descriptor).map ApiField.nullability := by
  rw [List.filterMap_map]
  refine List.filterMap_congr fun step hstep => ?_
  simp [field?, h step hstep]

end Acceptance

theorem versionIn_of_isSome {field : ApiField} (h : field.version.isSome) (ofClass : Version) :
    some (field.versionIn ofClass) = field.version := by
  obtain ⟨version, hversion⟩ := Option.isSome_iff_exists.mp h
  rw [ApiField.versionIn, hversion]
  rfl

namespace Catalog

-- A run over snapshots without tables, at least two of which went into the class.
structure Amasses (options : MergeOptions) (name : String) (snapshots : List ApiClass)
    (entry : ApiClass) : Prop where
  found : ((empty options).appendAll snapshots).get? name = some entry
  plain : ∀ snapshot ∈ snapshots, snapshot.Unwidened
  several : 2 ≤ (acceptances name (empty options) snapshots).length

-- Whether a field was merged with every snapshot that has it, in either of two runs.
def MergedInBoth (options : MergeOptions) (name : String) (xs ys : List ApiClass)
    (member descriptor : String) : Prop :=
  ∀ step ∈ acceptances name (empty options) xs ++ acceptances name (empty options) ys,
    step.refusesField member descriptor = false

instance (options : MergeOptions) (name : String) (xs ys : List ApiClass)
    (member descriptor : String) : Decidable (MergedInBoth options name xs ys member descriptor) :=
  inferInstanceAs (Decidable (∀ step ∈ _, _))

section Orders

variable {options : MergeOptions} {name : String} {xs ys : List ApiClass} {a b : ApiClass}

theorem Amasses.gathered (h : Amasses options name xs a) :
    a.Gathered ((acceptances name (empty options) xs).map Acceptance.snapshot) :=
  (gathered_run options xs name h.plain a h.found).1

theorem Amasses.explicit (h : Amasses options name xs a) : a.Explicit :=
  (gathered_run options xs name h.plain a h.found).2 h.several

theorem Amasses.recorded (h : Amasses options name xs a) :
    a.Recorded options (acceptances name (empty options) xs) :=
  recorded_run options xs name h.plain a h.found

-- Such a run is one that merges every snapshot after the first.
theorem exists_amasses (hlength : 2 ≤ xs.length) (hname : ∀ snapshot ∈ xs, snapshot.name = name)
    (hplain : ∀ snapshot ∈ xs, snapshot.Unwidened)
    (hmerged : ∀ outcome ∈ ((empty options).outcomes xs).tail, outcome = .merged) :
    ∃ entry, Amasses options name xs entry := by
  have hcount : 2 ≤ (acceptances name (empty options) xs).length := by
    rwa [← all_taken options xs name hlength hname hmerged, List.length_map] at hlength
  have hversion := classVersion?_run options xs name
  cases hentry : ((empty options).appendAll xs).get? name with
  | some entry => exact ⟨entry, hentry, hplain, hcount⟩
  | none =>
      rw [classVersion?, hentry, Option.map_none, eq_comm, join?_eq_none, List.map_eq_nil_iff]
        at hversion
      simp [hversion] at hcount

theorem fields_alike (ha : Amasses options name xs a) (hb : Amasses options name ys b)
    (hperm : ((acceptances name (empty options) xs).map Acceptance.snapshot).Perm
      ((acceptances name (empty options) ys).map Acceptance.snapshot))
    (member descriptor : String) (hmerged : MergedInBoth options name xs ys member descriptor)
    {one other : ApiField} (hone : a.field? member descriptor = some one)
    (hother : b.field? member descriptor = some other) : one.Alike other := by
  rw [MergedInBoth, List.forall_mem_append] at hmerged
  obtain ⟨hmerged, hmerged'⟩ := hmerged
  have hrecorded := ha.recorded.fields member descriptor
  have hrecorded' := hb.recorded.fields member descriptor
  rw [Acceptance.filterMap_fieldSighting? hmerged, hone] at hrecorded
  rw [Acceptance.filterMap_fieldSighting? hmerged', hother] at hrecorded'
  obtain ⟨hexact, hversion⟩ := hrecorded
  obtain ⟨hexact', hversion'⟩ := hrecorded'
  rw [versionIn_of_isSome (ha.explicit.fields member descriptor one hone)] at hversion
  rw [versionIn_of_isSome (hb.explicit.fields member descriptor other hother)] at hversion'
  have hseen := hperm.filterMap fun snapshot => (snapshot.field? member descriptor).map fun field =>
    Sighting.of field.access (field.versionIn snapshot.version)
  obtain ⟨hvisibility, hvisibilities⟩ := Alternatives.Exact.unique reconciles_visibility
    (fun _ _ _ => IsWidest.unique) (hseen.map _) hexact hexact'
  have hnullability := nullability_field_run options xs name member descriptor
  have hnullability' := nullability_field_run options ys name member descriptor
  rw [Acceptance.filterMap_nullability hmerged, ha.found, Option.bind_some, hone] at hnullability
  rw [Acceptance.filterMap_nullability hmerged', hb.found, Option.bind_some, hother]
    at hnullability'
  refine ⟨?_, hvisibility, hvisibilities, ?_⟩
  · rw [hversion, hversion', Sighting.versions, Sighting.versions, join?_perm (hseen.map _)]
  · have hpooled := pooled_perm Nullability.weaken (hperm.filterMap fun snapshot =>
      (snapshot.field? member descriptor).map ApiField.nullability)
    exact Option.some.inj (hnullability.trans (hpooled.trans hnullability'.symm))

theorem alike_of_amasses (ha : Amasses options name xs a) (hb : Amasses options name ys b)
    (hperm : ((acceptances name (empty options) xs).map Acceptance.snapshot).Perm
      ((acceptances name (empty options) ys).map Acceptance.snapshot)) :
    a.Alike (MergedInBoth options name xs ys) b := by
  have hgathered := ha.gathered
  have hgathered' := hb.gathered
  have hseen : ((acceptances name (empty options) xs).map Acceptance.sighting).Perm
      ((acceptances name (empty options) ys).map Acceptance.sighting) := by
    have hmap := hperm.map fun snapshot => Sighting.of snapshot.access snapshot.version
    rwa [List.map_map, List.map_map] at hmap
  obtain ⟨⟨hvisibility, hvisibilities⟩, hmodality, hmodalities⟩ :=
    ha.recorded.access.unique hseen hb.recorded.access
  have hmethods := hgathered.methods_alike hperm hgathered' ha.explicit hb.explicit
  refine ⟨?_, hvisibility, hmodality, hvisibilities, hmodalities, ?_, ?_, ?_, ?_,
    fun name descriptor => (hmethods name descriptor).1,
    fun name descriptor => (hmethods name descriptor).2,
    fun member descriptor hmerged _ _ => fields_alike ha hb hperm member descriptor hmerged⟩
  · have hversion := join?_perm (hseen.map Sighting.version)
    exact Option.some.inj (ha.recorded.version.trans (hversion.trans hb.recorded.version.symm))
  · intro name
    rw [hgathered.interfaces, hgathered'.interfaces]
    simp only [hperm.mem_iff]
  · intro key
    rw [hgathered.innerClasses, hgathered'.innerClasses]
    simp only [hperm.mem_iff]
  · intro key
    rw [hgathered.fields, hgathered'.fields]
    simp only [hperm.mem_iff]
  · intro key
    rw [hgathered.methods, hgathered'.methods]
    simp only [hperm.mem_iff]

end Orders

-- Snapshots of one class that are all merged, in each of two orders, end up in classes that are
-- alike.
theorem alike_of_perm (options : MergeOptions) (name : String) (xs ys : List ApiClass)
    (hperm : xs.Perm ys) (hname : ∀ snapshot ∈ xs, snapshot.name = name)
    (hplain : ∀ snapshot ∈ xs, snapshot.Unwidened)
    (hxs : ∀ outcome ∈ ((empty options).outcomes xs).tail, outcome = .merged)
    (hys : ∀ outcome ∈ ((empty options).outcomes ys).tail, outcome = .merged) :
    Option.Rel (ApiClass.Alike (MergedInBoth options name xs ys))
      (((empty options).appendAll xs).get? name) (((empty options).appendAll ys).get? name) := by
  by_cases hlength : 2 ≤ xs.length
  · have hlength' : 2 ≤ ys.length := hperm.length_eq ▸ hlength
    have hname' : ∀ snapshot ∈ ys, snapshot.name = name := fun snapshot hsnapshot =>
      hname snapshot (hperm.mem_iff.mpr hsnapshot)
    have hplain' : ∀ snapshot ∈ ys, snapshot.Unwidened := fun snapshot hsnapshot =>
      hplain snapshot (hperm.mem_iff.mpr hsnapshot)
    obtain ⟨a, ha⟩ := exists_amasses hlength hname hplain hxs
    obtain ⟨b, hb⟩ := exists_amasses hlength' hname' hplain' hys
    have htaken : ((acceptances name (empty options) xs).map Acceptance.snapshot).Perm
        ((acceptances name (empty options) ys).map Acceptance.snapshot) := by
      rw [all_taken options xs name hlength hname hxs,
        all_taken options ys name hlength' hname' hys]
      exact hperm
    rw [ha.found, hb.found]
    exact .some (alike_of_amasses ha hb htaken)
  · -- There is no other order of a single snapshot.
    have hsame : xs = ys := by
      match xs, hlength with
      | [], _ => exact hperm.nil_eq
      | [snapshot], _ => exact (List.perm_singleton.mp hperm.symm).symm
      | _ :: _ :: _, hlength => exact absurd (by simp) hlength
    subst hsame
    cases ((empty options).appendAll xs).get? name with
    | none => exact .none
    | some entry => exact .some (.refl _ entry)

-- A class with a field and a method that takes a parameter.
def sketch (access member : UInt16) (exception tag : String) : ApiClass where
  name := "a"
  access := ⟨access⟩
  superclass := none
  version := .single tag
  fields := Table.ofRows [("fI", { access := ⟨member⟩, name := "f", descriptor := "I" })]
  methods := Table.ofRows
    [("m(I)V", .single { access := ⟨member⟩, name := "m", descriptor := "(I)V"
                         exceptions := [exception], parameters := [{ access := member }] })]

theorem unwidened_sketch (access member : UInt16) (exception tag : String) :
    (sketch access member exception tag).Unwidened where
  visibilities := rfl
  modalities := rfl
  fields := by
    intro field hfield
    obtain rfl := List.mem_singleton.mp hfield
    rfl
  methods := by
    intro method hmethod
    obtain rfl := List.mem_singleton.mp hmethod
    exact ⟨rfl, rfl⟩

-- The class is final, then abstract, and its members protected, then public, or the other way
-- around. The exceptions stand in different orders in the end.
theorem alike_of_swapped :
    let xs := [sketch 0x0011 0x0004 "p/E" "1", sketch 0x0401 0x0001 "p/F" "2"]
    let ys := [sketch 0x0401 0x0001 "p/F" "2", sketch 0x0011 0x0004 "p/E" "1"]
    MergedInBoth {} "a" xs ys "f" "I" ∧
      ∃ a b, ((empty {}).appendAll xs).get? "a" = some a ∧
        ((empty {}).appendAll ys).get? "a" = some b ∧ a ≠ b ∧
        Option.Rel (ApiClass.Alike (MergedInBoth {} "a" xs ys))
          (((empty {}).appendAll xs).get? "a") (((empty {}).appendAll ys).get? "a") := by
  intro xs ys
  have hplain : ∀ snapshot ∈ xs, snapshot.Unwidened := by
    simp [xs, unwidened_sketch]
  have hname : ∀ snapshot ∈ xs, snapshot.name = "a" := by
    simp [xs, sketch]
  refine ⟨by decide +kernel, _, _, rfl, rfl, by decide +kernel,
    alike_of_perm {} "a" xs ys (.swap _ _ []) hname hplain (by decide +kernel) (by decide +kernel)⟩

end Catalog

end ApiUnion
