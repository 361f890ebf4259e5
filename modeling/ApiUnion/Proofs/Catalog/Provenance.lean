import ApiUnion.Proofs.Catalog.Acceptance
import ApiUnion.Proofs.Merge.Members

-- Where the versions of classes and members come from: each is the join of those of the snapshots
-- that were accepted with it.

namespace ApiUnion

open Version

-- The version that a method goes by in a class of some version.
def ApiMethod.versionIn (ofClass : Version) (method : ApiMethod) : Version :=
  method.version.getD ofClass

def ApiField.versionIn (ofClass : Version) (field : ApiField) : Version :=
  field.version.getD ofClass

namespace Merge

-- Methods with a version of their own, whatever the version of their class.
def Explicit (methods : List ApiMethod) : Prop :=
  ∀ method ∈ methods, method.version.isSome

theorem getD_plus? (a b : Option Version) (ofClass : Version) (ha : a.isSome) (hb : b.isSome) :
    (plus? a b).getD ofClass = (a.getD ofClass).plus (b.getD ofClass) := by
  obtain ⟨a, rfl⟩ := Option.isSome_iff_exists.mp ha
  obtain ⟨b, rfl⟩ := Option.isSome_iff_exists.mp hb
  rfl

theorem explicit_map_explicitMethod (version : Version) (slot : MethodSlot) :
    Explicit (slot.map (explicitMethod version)).toList := by
  rw [MethodSlot.toList_map]
  exact List.forall_mem_map.mpr fun method _ => rfl

theorem slotVersion?_eq (ofClass : Version) (slot : MethodSlot) :
    Catalog.slotVersion? ofClass slot =
      join? (slot.toList.map (ApiMethod.versionIn ofClass)) :=
  foldl_plus? none _

theorem slotVersion?_map_explicitMethod (ofClass version : Version) (slot : MethodSlot) :
    Catalog.slotVersion? ofClass (slot.map (explicitMethod version)) =
      Catalog.slotVersion? version slot := by
  simp only [Catalog.slotVersion?, MethodSlot.toList_map, List.map_map, Function.comp_def]
  rfl

-- Wherever the method goes, the versions of all variants grow by its version.
theorem versions_absorbed (options : MergeOptions) (ofClass : Version) (incoming : ApiMethod)
    (variants after : List ApiMethod) (h : Absorbed options variants incoming after)
    (hvariants : Explicit variants) (hincoming : incoming.version.isSome) :
    Explicit after ∧
      join? (after.map (ApiMethod.versionIn ofClass)) =
        plus? (join? (variants.map (ApiMethod.versionIn ofClass)))
          (some (incoming.versionIn ofClass)) := by
  cases h with
  | into front target back signature subject hsplit hrefused hchecked hafter =>
      subst hsplit hafter
      have htarget : target.version.isSome := hvariants target (by simp)
      have hmerged : (applyMethod subject target incoming signature).value.version =
          plus? target.version incoming.version := rfl
      refine ⟨?_, ?_⟩
      · intro method hmethod
        rcases List.mem_append.mp hmethod with hfront | hback
        · exact hvariants method (by simp [hfront])
        · rcases List.mem_cons.mp hback with rfl | hback
          · obtain ⟨version, hversion⟩ := Option.isSome_iff_exists.mp htarget
            obtain ⟨other, hother⟩ := Option.isSome_iff_exists.mp hincoming
            rw [hmerged, hversion, hother]
            rfl
          · exact hvariants method (by simp [hback])
      · have hversion : (applyMethod subject target incoming signature).value.versionIn ofClass =
            (target.versionIn ofClass).plus (incoming.versionIn ofClass) :=
          getD_plus? target.version incoming.version ofClass htarget hincoming
        simp only [List.map_append, List.map_cons, join?_append, join?_cons, hversion, ← plus?_some]
        ac_rfl
  | beside hrefused hafter =>
      subst hafter
      refine ⟨?_, by rw [List.map_append, join?_append]; rfl⟩
      intro method hmethod
      rcases List.mem_append.mp hmethod with hold | hnew
      · exact hvariants method hold
      · obtain rfl := List.mem_singleton.mp hnew
        exact hincoming

theorem versions_foldlM_intoVariants (options : MergeOptions) (owner : String)
    (ofClass : Version) (incoming : List ApiMethod) (slot : MethodSlot)
    (hslot : Explicit slot.toList) (hincoming : Explicit incoming) :
    Catalog.slotVersion? ofClass (incoming.foldlM (intoVariants options owner) slot).value =
      plus? (Catalog.slotVersion? ofClass slot)
        (join? (incoming.map (ApiMethod.versionIn ofClass))) := by
  induction incoming generalizing slot with
  | nil => exact (plus?_none _).symm
  | cons method incoming ih =>
      have hstep := versions_absorbed options ofClass method slot.toList _
        (absorbed_intoVariants options owner slot method) hslot
        (hincoming method (by simp))
      obtain ⟨hexplicit, hversions⟩ := hstep
      rw [List.foldlM_cons, Logged.value_bind,
        ih _ hexplicit (fun other hother => hincoming other (by simp [hother])),
        slotVersion?_eq, hversions, slotVersion?_eq, List.map_cons, join?_cons, plus?_assoc]

end Merge

namespace ApiClass

-- The version of all variants under a name and descriptor, and that of a field.
def methodVersion? (entry : ApiClass) (name descriptor : String) : Option Version :=
  (entry.method? name descriptor).bind (Catalog.slotVersion? entry.version)

def fieldVersion? (entry : ApiClass) (name descriptor : String) : Option Version :=
  (entry.field? name descriptor).map (ApiField.versionIn entry.version)

end ApiClass

namespace Acceptance

-- Whether the snapshot has a field that is merged, and that merge is recorded as a failure.
def refusesField (step : Acceptance) (name descriptor : String) : Bool :=
  match step.before, step.snapshot.field? name descriptor with
  | some before, some incoming =>
    match before.field? name descriptor with
    | some target =>
      Merge.refusesField before.name (Merge.explicitField before.version target)
        (Merge.explicitField step.snapshot.version incoming)
    | none => false
  | _, _ => false

-- The version that the snapshot adds to the field.
def fieldVersion? (step : Acceptance) (name descriptor : String) : Option Version :=
  if step.refusesField name descriptor then none
  else step.snapshot.fieldVersion? name descriptor

end Acceptance

namespace Merge

variable (options : MergeOptions) (target incoming : ApiClass) (signature : Option String)
  (name descriptor : String)

theorem methodVersion?_applyClass :
    (applyClass options target incoming signature).value.methodVersion? name descriptor =
      plus? (target.methodVersion? name descriptor) (incoming.methodVersion? name descriptor) := by
  simp only [ApiClass.methodVersion?, ApiClass.method?, get?_methods_applyClass]
  cases incoming.methods.get? (memberKey name descriptor) with
  | none =>
      cases target.methods.get? (memberKey name descriptor) with
      | none => rfl
      | some slot =>
          exact (slotVersion?_map_explicitMethod _ target.version slot).trans (plus?_none _).symm
  | some added =>
      cases target.methods.get? (memberKey name descriptor) with
      | none => exact slotVersion?_map_explicitMethod _ incoming.version added
      | some slot =>
          have hfold := versions_foldlM_intoVariants options target.name
            (target.version.plus incoming.version)
            (added.map (explicitMethod incoming.version)).toList
            (slot.map (explicitMethod target.version))
            (explicit_map_explicitMethod _ _) (explicit_map_explicitMethod _ _)
          rw [← slotVersion?_eq, slotVersion?_map_explicitMethod,
            slotVersion?_map_explicitMethod] at hfold
          exact hfold

-- Whatever is seen of a field, made explicit or not, and joined where two fields are merged.
theorem map_field?_applyClass {α : Type} (view : Version → ApiField → α) (join : α → α → α)
    (hexplicit : ∀ version other field, view other (explicitField version field) =
      view version field)
    (hjoin : ∀ ofClass subject known added signature,
      view ofClass (applyField subject (explicitField target.version known)
          (explicitField incoming.version added) signature).value =
        join (view target.version known) (view incoming.version added)) :
    ((applyClass options target incoming signature).value.field? name descriptor).map
        (view (target.version.plus incoming.version)) =
      Option.merge join ((target.field? name descriptor).map (view target.version))
        (if Acceptance.refusesField ⟨some target, incoming⟩ name descriptor then none
          else (incoming.field? name descriptor).map (view incoming.version)) := by
  simp only [Acceptance.refusesField, ApiClass.field?]
  cases fieldMerged_applyClass options target incoming signature (memberKey name descriptor) with
  | kept hadded hafter =>
      simp only [hafter, hadded, Option.map_map, Option.map_none, ite_self, Option.merge_none_right]
      exact congrArg (Option.map · _) (funext fun known => hexplicit target.version _ known)
  | new added hknown hadded hafter =>
      simp [hafter, hknown, hadded, hexplicit]
  | refused known added hknown hadded hrefuses hafter =>
      simp [hafter, hknown, hadded, hrefuses, hexplicit]
  | absorbed known added subject signature hknown hadded hrefuses hafter =>
      simp [hafter, hknown, hadded, hrefuses, hjoin]

theorem fieldVersion?_applyClass :
    (applyClass options target incoming signature).value.fieldVersion? name descriptor =
      plus? (target.fieldVersion? name descriptor)
        (Acceptance.fieldVersion? ⟨some target, incoming⟩ name descriptor) := by
  rw [plus?_eq_merge]
  exact map_field?_applyClass options target incoming signature name descriptor
    ApiField.versionIn Version.plus (fun _ _ _ => rfl) (fun _ _ _ _ _ => rfl)

theorem isSome_field?_applyClass :
    ((applyClass options target incoming signature).value.field? name descriptor).isSome =
      ((target.field? name descriptor).isSome || (incoming.field? name descriptor).isSome) := by
  simp only [ApiClass.field?, get?_fields_applyClass]
  cases incoming.fields.get? (memberKey name descriptor) <;>
    cases target.fields.get? (memberKey name descriptor) <;> rfl

theorem isSome_method?_applyClass :
    ((applyClass options target incoming signature).value.method? name descriptor).isSome =
      ((target.method? name descriptor).isSome || (incoming.method? name descriptor).isSome) := by
  simp only [ApiClass.method?, get?_methods_applyClass]
  cases incoming.methods.get? (memberKey name descriptor) <;>
    cases target.methods.get? (memberKey name descriptor) <;> rfl

end Merge

namespace Catalog

theorem methodVersion?_eq_bind (catalog : Catalog) (owner name descriptor : String) :
    catalog.methodVersion? owner name descriptor =
      (catalog.get? owner).bind (·.methodVersion? name descriptor) := by
  unfold methodVersion? ApiClass.methodVersion?
  cases catalog.get? owner with
  | none => rfl
  | some entry => cases hmethod : entry.method? name descriptor <;> simp [hmethod]

theorem fieldVersion?_eq_bind (catalog : Catalog) (owner name descriptor : String) :
    catalog.fieldVersion? owner name descriptor =
      (catalog.get? owner).bind (·.fieldVersion? name descriptor) := by
  unfold fieldVersion? ApiClass.fieldVersion?
  cases catalog.get? owner with
  | none => rfl
  | some entry => cases hfield : entry.field? name descriptor <;> simp [hfield, ApiField.versionIn]

variable (options : MergeOptions) (snapshots : List ApiClass) (name member descriptor : String)

-- A run of one class ends with what it had of the first snapshot, joined with all that was added.
theorem join?_run (view : ApiClass → Option Version) (added : Acceptance → Option Version)
    (hinstalled : ∀ snapshot, view snapshot = added ⟨none, snapshot⟩)
    (hmerged : ∀ existing snapshot signature,
      view (Merge.applyClass options existing snapshot signature).value =
        plus? (view existing) (added ⟨some existing, snapshot⟩)) :
    (((empty options).appendAll snapshots).get? name).bind view =
      join? ((acceptances name (empty options) snapshots).filterMap added) := by
  have hone : ∀ step, join? ([step].filterMap added) = added step := by
    intro step
    rw [List.filterMap_cons]
    cases added step <;> rfl
  refine run_induction (motive := fun entry taken =>
    entry.bind view = join? (taken.filterMap added)) name options snapshots rfl ?_ ?_
  · intro snapshot _
    rw [Option.bind_some, hone, hinstalled]
  · intro existing taken snapshot _ signature ih _
    rw [List.filterMap_append, join?_append, ← ih, hone, Option.bind_some, Option.bind_some, hmerged]

theorem any_run (holds : ApiClass → Bool)
    (hmerged : ∀ existing snapshot signature,
      holds (Merge.applyClass options existing snapshot signature).value =
        (holds existing || holds snapshot)) :
    (((empty options).appendAll snapshots).get? name).any holds =
      (acceptances name (empty options) snapshots).any fun step => holds step.snapshot := by
  refine run_induction (motive := fun entry taken =>
    entry.any holds = taken.any fun step => holds step.snapshot) name options snapshots rfl ?_ ?_
  · intro snapshot _
    simp
  · intro existing taken snapshot _ signature ih _
    rw [List.any_append, ← ih]
    simp [hmerged]

theorem classVersion?_run :
    ((empty options).appendAll snapshots).classVersion? name =
      join? ((acceptances name (empty options) snapshots).map fun step => step.snapshot.version) := by
  rw [classVersion?, Option.map_eq_bind, ← List.filterMap_eq_map]
  exact join?_run options snapshots name _ _ (fun _ => rfl) (fun _ _ _ => rfl)

theorem isSome_method?_run :
    ((((empty options).appendAll snapshots).get? name).bind
        (·.method? member descriptor)).isSome =
      (acceptances name (empty options) snapshots).any
        fun step => (step.snapshot.method? member descriptor).isSome := by
  rw [Option.isSome_bind]
  exact any_run options snapshots name _ fun existing snapshot signature =>
    Merge.isSome_method?_applyClass options existing snapshot signature member descriptor

theorem methodVersion?_run :
    ((empty options).appendAll snapshots).methodVersion? name member descriptor =
      join? ((acceptances name (empty options) snapshots).filterMap
        fun step => step.snapshot.methodVersion? member descriptor) := by
  rw [methodVersion?_eq_bind]
  exact join?_run options snapshots name _ _ (fun _ => rfl) fun existing snapshot signature =>
    Merge.methodVersion?_applyClass options existing snapshot signature member descriptor

theorem isSome_field?_run :
    ((((empty options).appendAll snapshots).get? name).bind
        (·.field? member descriptor)).isSome =
      (acceptances name (empty options) snapshots).any
        fun step => (step.snapshot.field? member descriptor).isSome := by
  rw [Option.isSome_bind]
  exact any_run options snapshots name _ fun existing snapshot signature =>
    Merge.isSome_field?_applyClass options existing snapshot signature member descriptor

theorem fieldVersion?_run :
    ((empty options).appendAll snapshots).fieldVersion? name member descriptor =
      join? ((acceptances name (empty options) snapshots).filterMap
        fun step => step.fieldVersion? member descriptor) := by
  rw [fieldVersion?_eq_bind]
  exact join?_run options snapshots name _ _ (fun _ => rfl) fun existing snapshot signature =>
    Merge.fieldVersion?_applyClass options existing snapshot signature member descriptor

theorem versions_run (options : MergeOptions) (snapshots : List ApiClass) (name : String) :
    let catalog := (empty options).appendAll snapshots
    let taken := acceptances name (empty options) snapshots
    catalog.classVersion? name = join? (taken.map fun step => step.snapshot.version) ∧
    ∀ member descriptor,
      (((catalog.get? name).bind (·.method? member descriptor)).isSome ↔
        ∃ step ∈ taken, (step.snapshot.method? member descriptor).isSome) ∧
      catalog.methodVersion? name member descriptor =
        join? (taken.filterMap fun step => step.snapshot.methodVersion? member descriptor) ∧
      (((catalog.get? name).bind (·.field? member descriptor)).isSome ↔
        ∃ step ∈ taken, (step.snapshot.field? member descriptor).isSome) ∧
      catalog.fieldVersion? name member descriptor =
        join? (taken.filterMap fun step => step.fieldVersion? member descriptor) := by
  intro catalog taken
  refine ⟨classVersion?_run options snapshots name, fun member descriptor => ⟨?_,
    methodVersion?_run options snapshots name member descriptor, ?_,
    fieldVersion?_run options snapshots name member descriptor⟩⟩
  · rw [isSome_method?_run options snapshots name member descriptor, List.any_eq_true]
  · rw [isSome_field?_run options snapshots name member descriptor, List.any_eq_true]

end Catalog

end ApiUnion
