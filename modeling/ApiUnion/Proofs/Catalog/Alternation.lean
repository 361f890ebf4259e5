import ApiUnion.Proofs.Catalog.Tracing
import ApiUnion.Proofs.Table

-- What a method was seen with is exactly what is recorded of it, over runs of any length.

namespace ApiUnion

open Version Merge

namespace TracedMethod

-- A traced method tells exactly what went into it, and goes by the versions of that.
structure Recorded (ofClass : Version) (traced : TracedMethod) : Prop where
  access : ExactAccess traced.seen traced.method.access traced.method.visibilities
    traced.method.modalities
  version : some (traced.method.versionIn ofClass) = join? (Sighting.versions traced.seen)

-- A method of one snapshot alone, with its version written out.
structure Fresh (traced : TracedMethod) (version : Version) : Prop where
  seen : traced.seen = [Sighting.of traced.method.access version]
  version : traced.method.version = some version
  visibilities : traced.method.visibilities.isEmpty
  modalities : traced.method.modalities.isEmpty

theorem Recorded.version_eq {ofClass : Version} {traced : TracedMethod}
    (h : Recorded ofClass traced) (hexplicit : traced.method.version.isSome) :
    traced.method.version = join? (Sighting.versions traced.seen) := by
  obtain ⟨version, hversion⟩ := Option.isSome_iff_exists.mp hexplicit
  rw [← h.version, ApiMethod.versionIn, hversion]
  rfl

theorem recorded_of_fresh (ofClass version : Version) (traced : TracedMethod)
    (h : Fresh traced version) : Recorded ofClass traced where
  access := by
    rw [h.seen]
    exact exactAccess_single _ _ _ _ h.visibilities h.modalities
  version := by
    rw [h.seen, ApiMethod.versionIn, h.version]
    rfl

theorem recorded_explicit (ofClass other : Version) (traced : TracedMethod)
    (h : Recorded ofClass traced) : Recorded other (traced.explicit ofClass) where
  access := h.access
  version := h.version

theorem recorded_into (subject : String) (ofClass version : Version)
    (target incoming : TracedMethod) (signature : Option String) (htarget : Recorded ofClass target)
    (hexplicit : target.method.version.isSome) (hincoming : Fresh incoming version) :
    let merged := (applyMethod subject target.method incoming.method signature).value
    Recorded ofClass ⟨merged, target.seen ++ incoming.seen⟩ ∧ merged.version.isSome := by
  have hversion : (applyMethod subject target.method incoming.method signature).value.version =
      plus? target.method.version incoming.method.version := rfl
  have hwidened := exactAccess_widen target.seen target.method.access incoming.method.access
    target.method.visibilities incoming.method.visibilities target.method.modalities
    incoming.method.modalities target.method.version version htarget.access
    (htarget.version_eq hexplicit) hincoming.visibilities hincoming.modalities
  rw [← hincoming.seen, ← hincoming.version] at hwidened
  refine ⟨⟨hwidened, ?_⟩, ?_⟩
  · have hjoin : join? (Sighting.versions (target.seen ++ incoming.seen)) =
        plus? target.method.version (some version) := by
      rw [Sighting.versions, List.map_append, join?_append, hincoming.seen,
        htarget.version_eq hexplicit]
      rfl
    obtain ⟨known, hknown⟩ := Option.isSome_iff_exists.mp hexplicit
    rw [hjoin, ApiMethod.versionIn, hversion, hincoming.version, hknown]
    rfl
  · obtain ⟨known, hknown⟩ := Option.isSome_iff_exists.mp hexplicit
    rw [hversion, hincoming.version, hknown]
    rfl

theorem recorded_absorb (options : MergeOptions) (owner : String) (ofClass version : Version)
    (traced : List TracedMethod) (incoming : TracedMethod) (hincoming : Fresh incoming version)
    (htraced : ∀ target ∈ traced, Recorded ofClass target ∧ target.method.version.isSome) :
    ∀ target ∈ absorb options owner traced incoming,
      Recorded ofClass target ∧ target.method.version.isSome := by
  have hfresh : Recorded ofClass incoming ∧ incoming.method.version.isSome :=
    ⟨recorded_of_fresh ofClass version incoming hincoming, by rw [hincoming.version]; rfl⟩
  induction traced with
  | nil => simpa [absorb] using hfresh
  | cons target rest ih =>
      rw [List.forall_mem_cons] at htraced
      obtain ⟨htarget, hrest⟩ := htraced
      rw [absorb]
      split
      · rename_i signature _
        rw [List.forall_mem_cons]
        exact ⟨recorded_into _ ofClass version target incoming signature htarget.1 htarget.2
          hincoming, hrest⟩
      · rw [List.forall_mem_cons]
        exact ⟨htarget, ih hrest⟩

theorem recorded_foldl_absorb (options : MergeOptions) (owner : String) (ofClass : Version)
    (traced incoming : List TracedMethod)
    (hincoming : ∀ added ∈ incoming, ∃ version, Fresh added version)
    (htraced : ∀ target ∈ traced, Recorded ofClass target ∧ target.method.version.isSome) :
    ∀ target ∈ incoming.foldl (absorb options owner) traced,
      Recorded ofClass target ∧ target.method.version.isSome := by
  induction incoming generalizing traced with
  | nil => exact htraced
  | cons added incoming ih =>
      rw [List.forall_mem_cons] at hincoming
      obtain ⟨⟨version, hfresh⟩, hincoming⟩ := hincoming
      rw [List.foldl_cons]
      exact ih _ hincoming (recorded_absorb options owner ofClass version traced added hfresh htraced)

theorem recorded_start (ofClass : Version) (method : ApiMethod)
    (hvisibilities : method.visibilities.isEmpty) (hmodalities : method.modalities.isEmpty) :
    Recorded ofClass (start ofClass method) where
  access := exactAccess_single _ _ _ _ hvisibilities hmodalities
  version := rfl

theorem fresh_start (ofClass : Version) (method : ApiMethod)
    (hvisibilities : method.visibilities.isEmpty) (hmodalities : method.modalities.isEmpty) :
    Fresh ((start ofClass method).explicit ofClass) (method.versionIn ofClass) where
  seen := rfl
  version := rfl
  visibilities := hvisibilities
  modalities := hmodalities

end TracedMethod

-- A class of a single snapshot, which tells of no versions with other access.
structure ApiClass.Unwidened (entry : ApiClass) : Prop where
  visibilities : entry.visibilities.isEmpty
  modalities : entry.modalities.isEmpty
  fields : ∀ field ∈ entry.fields.values, field.visibilities.isEmpty
  methods : ∀ method ∈ entry.allMethods, method.visibilities.isEmpty ∧ method.modalities.isEmpty

theorem ApiClass.Unwidened.of_mem_variants {entry : ApiClass} (h : entry.Unwidened)
    (name descriptor : String) (method : ApiMethod)
    (hmethod : method ∈ entry.variants name descriptor) :
    method.visibilities.isEmpty ∧ method.modalities.isEmpty := by
  refine h.methods method ?_
  unfold ApiClass.variants at hmethod
  cases hslot : entry.method? name descriptor with
  | none => simp [hslot] at hmethod
  | some slot =>
      rw [hslot] at hmethod
      exact List.mem_flatMap.mpr
        ⟨slot, entry.methods.mem_values_of_get? _ slot hslot, hmethod⟩

theorem TracedMethod.recorded_step (options : MergeOptions) (name descriptor : String)
    (target incoming : ApiClass) (hplain : incoming.Unwidened) (traced : List TracedMethod)
    (h : ∀ method ∈ traced, Recorded target.version method) :
    ∀ method ∈ step options name descriptor traced ⟨some target, incoming⟩,
      Recorded (target.version.plus incoming.version) method := by
  have htarget : ∀ method ∈ traced.map (explicit target.version),
      Recorded (target.version.plus incoming.version) method ∧ method.method.version.isSome := by
    intro method hmethod
    obtain ⟨original, horiginal, rfl⟩ := List.mem_map.mp hmethod
    exact ⟨recorded_explicit _ _ original (h original horiginal), rfl⟩
  have hincoming : ∀ added ∈ ((incoming.variants name descriptor).map
      (start incoming.version)).map (explicit incoming.version), ∃ version, Fresh added version := by
    intro added hadded
    rw [List.map_map] at hadded
    obtain ⟨method, hmethod, rfl⟩ := List.mem_map.mp hadded
    have hempty := hplain.of_mem_variants name descriptor method hmethod
    exact ⟨_, fresh_start incoming.version method hempty.1 hempty.2⟩
  simp only [step]
  split
  · intro method hmethod
    obtain ⟨version, hfresh⟩ := hincoming method hmethod
    exact recorded_of_fresh _ version method hfresh
  · exact fun method hmethod =>
      (recorded_foldl_absorb options target.name _ _ _ hincoming htarget method hmethod).1

namespace Acceptance

def sighting (step : Acceptance) : Sighting :=
  Sighting.of step.snapshot.access step.snapshot.version

-- What a field shows, unless merging it is recorded as a failure.
def fieldSighting? (step : Acceptance) (name descriptor : String) : Option Sighting :=
  if step.refusesField name descriptor then none
  else (step.snapshot.field? name descriptor).map fun field =>
    Sighting.of field.access (field.versionIn step.snapshot.version)

end Acceptance

-- A field tells exactly what was seen of it. There is nothing to tell of a field that is not there.
def RecordedField (ofClass : Version) (seen : List Sighting) : Option ApiField → Prop
  | none => seen = []
  | some field =>
    Alternatives.Exact IsWidest (Sighting.visibilities seen) field.access.visibility
      field.visibilities ∧
    some (field.versionIn ofClass) = join? (Sighting.versions seen)

theorem recordedField_single (ofClass version : Version) (field : ApiField)
    (hversion : field.versionIn ofClass = version) (hplain : field.visibilities.isEmpty) :
    RecordedField ofClass [Sighting.of field.access version] (some field) :=
  ⟨Alternatives.exact_single _ _ reconciles_visibility _ _ _ hplain, by rw [hversion]; rfl⟩

theorem recordedField_explicit (ofClass other : Version) (seen : List Sighting)
    (field : Option ApiField) (h : RecordedField ofClass seen field) :
    RecordedField other seen (field.map (explicitField ofClass)) := by
  cases field with
  | none => exact h
  | some field => exact h

theorem recordedField_applyField (subject : String) (ofClass version : Version)
    (seen : List Sighting) (target incoming : ApiField) (signature : Option String)
    (known : Version) (hknown : target.version = some known)
    (htarget : RecordedField ofClass seen (some target))
    (hversion : incoming.version = some version) (hplain : incoming.visibilities.isEmpty) :
    RecordedField ofClass (seen ++ [Sighting.of incoming.access version])
      (some (applyField subject target incoming signature).value) := by
  obtain ⟨hexact, hjoin⟩ := htarget
  rw [ApiField.versionIn, hknown] at hjoin
  refine ⟨?_, ?_⟩
  · exact exact_widenVisibility ⟨target.access, target.visibilities, target.version⟩
      ⟨incoming.access, incoming.visibilities, incoming.version⟩ seen version hexact
      (hknown.trans hjoin) hplain hversion
  · have hmerged : (applyField subject target incoming signature).value.version =
        plus? target.version incoming.version := rfl
    rw [ApiField.versionIn, hmerged, hknown, hversion, Sighting.versions, List.map_append,
      join?_append, ← Sighting.versions, ← hjoin]
    rfl

theorem recordedField_applyClass (options : MergeOptions) (target incoming : ApiClass)
    (signature : Option String) (name descriptor : String) (seen : List Sighting)
    (hplain : incoming.Unwidened)
    (h : RecordedField target.version seen (target.field? name descriptor)) :
    RecordedField (target.version.plus incoming.version)
      (seen ++ (Acceptance.fieldSighting? ⟨some target, incoming⟩ name descriptor).toList)
      ((applyClass options target incoming signature).value.field? name descriptor) := by
  have hexplicit := recordedField_explicit target.version
    (target.version.plus incoming.version) seen _ h
  simp only [Acceptance.fieldSighting?, Acceptance.refusesField]
  unfold ApiClass.field? at h hexplicit ⊢
  cases fieldMerged_applyClass options target incoming signature (memberKey name descriptor) with
  | kept hadded hafter =>
      rw [hafter]
      simpa [hadded] using hexplicit
  | new added hknown hadded hafter =>
      have hempty := hplain.fields added (incoming.fields.mem_values_of_get? _ added hadded)
      rw [hknown] at h
      obtain rfl : seen = [] := h
      simp only [hafter, hknown, hadded]
      exact recordedField_single _ _ (explicitField incoming.version added) rfl hempty
  | refused known added hknown hadded hrefuses hafter =>
      rw [hknown] at hexplicit
      simp only [hafter, hknown, hadded, if_pos hrefuses, Option.toList_none, List.append_nil]
      exact hexplicit
  | absorbed known added subject signature hknown hadded hrefuses hafter =>
      have hempty := hplain.fields added (incoming.fields.mem_values_of_get? _ added hadded)
      rw [hknown] at hexplicit
      simp only [hafter, hknown, hadded, hrefuses]
      exact recordedField_applyField _ (target.version.plus incoming.version)
        (added.versionIn incoming.version) seen (explicitField target.version known)
        (explicitField incoming.version added) signature (known.versionIn target.version) rfl
        hexplicit rfl hempty

-- What holds of a class all through a run, with the version that its members go by by default.
structure ApiClass.Recorded (options : MergeOptions) (taken : List Acceptance) (entry : ApiClass) :
    Prop where
  access : ExactAccess (taken.map Acceptance.sighting) entry.access entry.visibilities
    entry.modalities
  version : some entry.version = join? (Sighting.versions (taken.map Acceptance.sighting))
  fields : ∀ name descriptor, RecordedField entry.version
    (taken.filterMap fun step => step.fieldSighting? name descriptor) (entry.field? name descriptor)
  variants : ∀ name descriptor, entry.variants name descriptor =
    (TracedMethod.run options name descriptor taken).map TracedMethod.method
  methods : ∀ name descriptor, ∀ traced ∈ TracedMethod.run options name descriptor taken,
    TracedMethod.Recorded entry.version traced

theorem TracedMethod.run_append (options : MergeOptions) (name descriptor : String)
    (taken : List Acceptance) (last : Acceptance) :
    run options name descriptor (taken ++ [last]) =
      step options name descriptor (run options name descriptor taken) last := by
  rw [run, List.foldl_append]
  rfl

theorem recorded_installed (options : MergeOptions) (snapshot : ApiClass)
    (hplain : snapshot.Unwidened) : snapshot.Recorded options [⟨none, snapshot⟩] where
  access := exactAccess_single _ _ _ _ hplain.visibilities hplain.modalities
  version := rfl
  fields name descriptor := by
    have hfirst : Acceptance.fieldSighting? ⟨none, snapshot⟩ name descriptor =
        (snapshot.field? name descriptor).map fun field =>
          Sighting.of field.access (field.versionIn snapshot.version) := rfl
    rw [List.filterMap_cons, hfirst]
    cases hfield : snapshot.field? name descriptor with
    | none => exact rfl
    | some field =>
        exact recordedField_single _ _ field rfl
          (hplain.fields field (snapshot.fields.mem_values_of_get? _ field hfield))
  variants name descriptor := (TracedMethod.map_method_start _ _).symm
  methods name descriptor traced htraced := by
    obtain ⟨method, hmethod, rfl⟩ := List.mem_map.mp htraced
    have hempty := hplain.of_mem_variants name descriptor method hmethod
    exact TracedMethod.recorded_start snapshot.version method hempty.1 hempty.2

theorem recorded_merged (options : MergeOptions) (existing snapshot : ApiClass)
    (signature : Option String) (taken : List Acceptance) (hplain : snapshot.Unwidened)
    (h : existing.Recorded options taken) :
    (applyClass options existing snapshot signature).value.Recorded options
      (taken ++ [⟨some existing, snapshot⟩]) where
  access := by
    rw [List.map_append]
    exact exactAccess_widen _ existing.access snapshot.access existing.visibilities
      snapshot.visibilities existing.modalities snapshot.modalities (some existing.version)
      snapshot.version h.access h.version hplain.visibilities hplain.modalities
  version := by
    rw [List.map_append, Sighting.versions, List.map_append, join?_append, ← Sighting.versions,
      ← h.version]
    rfl
  fields name descriptor := by
    have hstep := recordedField_applyClass options existing snapshot signature name descriptor _
      hplain (h.fields name descriptor)
    rw [List.filterMap_append, List.filterMap_cons, List.filterMap_nil]
    cases hsighting : Acceptance.fieldSighting? ⟨some existing, snapshot⟩ name descriptor with
    | none =>
        rw [hsighting] at hstep
        exact hstep
    | some sighting =>
        rw [hsighting] at hstep
        exact hstep
  variants name descriptor := by
    rw [TracedMethod.run_append]
    exact variants_applyClass options existing snapshot signature name descriptor _
      (h.variants name descriptor)
  methods name descriptor := by
    rw [TracedMethod.run_append]
    exact TracedMethod.recorded_step options name descriptor existing snapshot hplain _
      (h.methods name descriptor)

namespace Catalog

theorem recorded_run (options : MergeOptions) (snapshots : List ApiClass) (name : String)
    (hplain : ∀ snapshot ∈ snapshots, snapshot.Unwidened) :
    ∀ entry, ((empty options).appendAll snapshots).get? name = some entry →
      entry.Recorded options (acceptances name (empty options) snapshots) := by
  refine run_induction (motive := fun entry taken =>
    ∀ known, entry = some known → known.Recorded options taken) name options snapshots ?_ ?_ ?_
  · intro known hknown
    cases hknown
  · intro snapshot hsnapshot known hknown
    obtain rfl := Option.some.inj hknown
    exact recorded_installed options snapshot (hplain snapshot hsnapshot)
  · intro existing taken snapshot hsnapshot signature ih _ known hknown
    obtain rfl := Option.some.inj hknown
    exact recorded_merged options existing snapshot signature taken (hplain snapshot hsnapshot)
      (ih existing rfl)

-- A class with one method, in one version.
def lone (access method : UInt16) (tag : String) : ApiClass where
  name := "a"
  access := ⟨access⟩
  superclass := none
  version := .single tag
  methods := Table.ofRows
    [("m()V", .single { access := ⟨method⟩, name := "m", descriptor := "()V" })]

theorem unwidened_lone (access method : UInt16) (tag : String) :
    (lone access method tag).Unwidened where
  visibilities := rfl
  modalities := rfl
  fields := by
    intro field hfield
    cases hfield
  methods := by
    intro other hother
    obtain rfl := List.mem_singleton.mp hother
    exact ⟨rfl, rfl⟩

-- The class is final, then abstract, and its method protected, then public.
theorem recorded_run_lone :
    ∃ entry, ((empty {}).appendAll [lone 0x0011 0x0004 "1", lone 0x0401 0x0001 "2"]).get? "a" =
        some entry ∧
      entry.modalities.values = [.final, .abstract] ∧ entry.access.modality = .open ∧
      entry.Recorded {} (acceptances "a" (empty {})
        [lone 0x0011 0x0004 "1", lone 0x0401 0x0001 "2"]) := by
  have hplain : ∀ snapshot ∈ [lone 0x0011 0x0004 "1", lone 0x0401 0x0001 "2"],
      snapshot.Unwidened := by
    simp [unwidened_lone]
  exact ⟨_, rfl, by rfl, by rfl, recorded_run {} _ "a" hplain _ rfl⟩

end Catalog

end ApiUnion
