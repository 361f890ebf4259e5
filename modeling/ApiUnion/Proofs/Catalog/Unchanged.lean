import ApiUnion.Proofs.Catalog.Admission
import ApiUnion.Proofs.Catalog.Alternation
import ApiUnion.Proofs.Merge.Repeating
import ApiUnion.Proofs.Model.Snapshot

-- A class that did not change between two versions only gains a version: what is merged of its two
-- snapshots is the snapshot of both versions.

namespace ApiUnion

-- The same class, seen in another version, with members that go by that version.
def ApiClass.dated (version : Version) (entry : ApiClass) : ApiClass :=
  { entry with
    version
    fields := entry.fields.map (ApiField.dated version)
    methods := entry.methods.map (MethodSlot.map (ApiMethod.dated version)) }

-- No key has more than one method.
def ApiClass.Lone (entry : ApiClass) : Prop :=
  ∀ slot ∈ entry.methods.values, slot.isGroup = false

instance (entry : ApiClass) : Decidable entry.Lone :=
  inferInstanceAs (Decidable (∀ slot ∈ entry.methods.values, slot.isGroup = false))

namespace Merge

variable (options : MergeOptions) (entry : ApiClass) (first second : Version)

theorem withExplicitVersions_dated (version : Version) :
    withExplicitVersions (entry.dated version) = entry.dated version := by
  have hmethod (method : ApiMethod) :
      explicitMethod version (method.dated version) = method.dated version := rfl
  simp [withExplicitVersions, ApiClass.dated, Table.map, MethodSlot.map_map, Function.comp_def,
    explicitField, hmethod, ApiField.dated]

theorem fields_dated (owner : String) (hplain : entry.Unwidened) :
    ((entry.dated second).fields.rows.foldlM (intoFields owner) (entry.dated first).fields).value =
      (entry.dated (first.plus second)).fields :=
  foldlM_rows_map (value_intoFields owner) entry.fields fun both hboth =>
    field_dated owner both first second (hplain.fields both hboth)

theorem methods_dated (owner : String) (hplain : entry.Unwidened) (hlone : entry.Lone) :
    ((entry.dated second).methods.rows.foldlM (intoMethods options owner)
        (entry.dated first).methods).value = (entry.dated (first.plus second)).methods := by
  refine foldlM_rows_map (value_intoMethods options owner) entry.methods ?_
  intro slot hslot
  obtain ⟨method, rfl⟩ := MethodSlot.exists_eq_single (hlone slot hslot)
  obtain ⟨hvisibilities, hmodalities⟩ := hplain.methods method
    (List.mem_flatMap.mpr ⟨.single method, hslot, List.mem_cons_self⟩)
  exact intoVariants_dated options owner method first second hvisibilities hmodalities

theorem applyClass_dated (hplain : entry.Unwidened) (hlone : entry.Lone) :
    (applyClass options (entry.dated first) (entry.dated second) entry.signature).value =
      entry.dated (first.plus second) := by
  have hfields := fields_dated entry first second entry.name hplain
  have hmethods := methods_dated options entry first second entry.name hplain hlone
  unfold applyClass
  rw [withExplicitVersions_dated, withExplicitVersions_dated]
  -- All but the version and the members is the same on both sides.
  have hdated (version : Version) : (entry.dated version).name = entry.name ∧
      (entry.dated version).access = entry.access ∧
      (entry.dated version).visibilities = entry.visibilities ∧
      (entry.dated version).modalities = entry.modalities ∧
      (entry.dated version).annotations = entry.annotations ∧
      (entry.dated version).innerClasses = entry.innerClasses ∧
      (entry.dated version).interfaces = entry.interfaces ∧
      (entry.dated version).metadata = entry.metadata ∧
      (entry.dated version).version = version := ⟨rfl, rfl, rfl, rfl, rfl, rfl, rfl, rfl, rfl⟩
  simp only [hdated, Logged.value_bind, Logged.value_pure,
    widenVisibility_of_same hplain.visibilities, widenModality_of_same hplain.modalities,
    annotations_self, innerClasses_self, union_self, Option.or_self, hfields, hmethods]
  rfl

end Merge

namespace Snapshot

variable {file : ClassFile} {version : Version} {entry : ApiClass}

-- The version of a snapshot goes into the versions of the class and its members, and nowhere else.
theorem ofClassFile_dated (h : ApiClass.ofClassFile file version = .ok entry) (other : Version) :
    ApiClass.ofClassFile file other = .ok (entry.dated other) := by
  obtain ⟨fields, methods, hfields, hparsed, hmethods, rfl⟩ :=
    (ofClassFile_eq_ok_iff file version entry).mp h
  refine (ofClassFile_eq_ok_iff file other _).mpr
    ⟨fields.map (ApiField.dated other), methods.map (MethodSlot.map (ApiMethod.dated other)),
      ?_, hparsed, ?_, rfl⟩
  · rw [Table.rows_map, hfields, List.map_map]
    rfl
  · rw [Table.rows_map, hmethods, List.map_map]
    rfl

theorem mem_fields_ofClassFile (h : ApiClass.ofClassFile file version = .ok entry)
    {found : ApiField} (hfound : found ∈ entry.fields.values) :
    ∃ member, found = field version member := by
  obtain ⟨fields, methods, hfields, -, -, rfl⟩ := (ofClassFile_eq_ok_iff file version entry).mp h
  have hvalues : fields.values = (offered file.fields).map (field version) := by
    rw [Table.values, hfields, List.map_map]
    rfl
  rw [show (assembled file version fields methods).fields = fields from rfl, hvalues] at hfound
  obtain ⟨member, -, rfl⟩ := List.mem_map.mp hfound
  exact ⟨member, rfl⟩

theorem mem_methods_ofClassFile (h : ApiClass.ofClassFile file version = .ok entry)
    {found : MethodSlot} (hfound : found ∈ entry.methods.values) :
    ∃ member, found = .single (method version (arity member) member) := by
  obtain ⟨fields, methods, -, -, hmethods, rfl⟩ := (ofClassFile_eq_ok_iff file version entry).mp h
  have hvalues : methods.values = (offered file.methods).map fun member =>
      .single (method version (arity member) member) := by
    rw [Table.values, hmethods, List.map_map]
    rfl
  rw [show (assembled file version fields methods).methods = methods from rfl, hvalues] at hfound
  obtain ⟨member, -, rfl⟩ := List.mem_map.mp hfound
  exact ⟨member, rfl⟩

theorem lone_ofClassFile (h : ApiClass.ofClassFile file version = .ok entry) : entry.Lone := by
  intro slot hslot
  obtain ⟨member, rfl⟩ := mem_methods_ofClassFile h hslot
  rfl

theorem unwidened_ofClassFile (h : ApiClass.ofClassFile file version = .ok entry) :
    entry.Unwidened where
  visibilities := by
    obtain ⟨fields, methods, -, -, -, rfl⟩ := (ofClassFile_eq_ok_iff file version entry).mp h
    rfl
  modalities := by
    obtain ⟨fields, methods, -, -, -, rfl⟩ := (ofClassFile_eq_ok_iff file version entry).mp h
    rfl
  fields found hfound := by
    obtain ⟨member, rfl⟩ := mem_fields_ofClassFile h hfound
    rfl
  methods found hfound := by
    obtain ⟨slot, hslot, hfound⟩ := List.mem_flatMap.mp hfound
    obtain ⟨member, rfl⟩ := mem_methods_ofClassFile h hslot
    obtain rfl := List.mem_singleton.mp hfound
    exact ⟨rfl, rfl⟩

end Snapshot

namespace Catalog

theorem checkClass_dated (entry : ApiClass) (first second : Version) :
    Merge.checkClass (entry.dated first) (entry.dated second) = .ok entry.signature := by
  unfold Merge.checkClass ApiClass.dated
  rw [if_neg (not_not.mpr rfl), if_neg (not_not.mpr rfl), if_neg (not_not.mpr rfl)]
  cases entry.signature with
  | none => rfl
  | some text => exact if_pos rfl

-- For any class of one snapshot: it is installed, and then it meets itself.
theorem append_dated (options : MergeOptions) (entry : ApiClass) (first second : Version)
    (hplain : entry.Unwidened) (hlone : entry.Lone) (hkept : (empty options).skips entry = false)
    (hnew : first.contains second = false) :
    (empty options).outcomes [entry.dated first, entry.dated second] = [.installed, .merged] ∧
      ((empty options).appendAll [entry.dated first, entry.dated second]).classes =
        Table.empty.insert entry.name (entry.dated (first.plus second)) := by
  let installed := (empty options).put (entry.dated first) []
  let merge := Merge.classes options (entry.dated first) (entry.dated second)
  have hinstalled : (empty options).append (entry.dated first) = (installed, .installed) := by
    have hskips : (empty options).skips (entry.dated first) = false := hkept
    unfold append
    rw [hskips]
    rfl
  have hfound : installed.get? (entry.dated second).name = some (entry.dated first) :=
    (get?_put _ _ _ _).trans (if_pos rfl)
  have hvalue : merge.value = some (entry.dated (first.plus second)) := by
    rw [Merge.value_classes, checkClass_dated]
    exact congrArg some (Merge.applyClass_dated options entry first second hplain hlone)
  have hmerged : installed.append (entry.dated second) =
      (installed.put (entry.dated (first.plus second)) merge.events, .merged) := by
    have hskips : installed.skips (entry.dated second) = false := hkept
    have hunseen : (entry.dated first).version.contains (entry.dated second).version = false := hnew
    unfold append
    rw [hskips, hfound]
    simp only [hunseen, Bool.false_eq_true, if_false]
    rw [show Merge.classes installed.options _ _ = merge from rfl, hvalue]
  have hclasses : (installed.put (entry.dated (first.plus second)) merge.events).classes =
      Table.empty.insert entry.name (entry.dated (first.plus second)) :=
    Table.ext_rows (if_pos rfl)
  refine ⟨?_, ?_⟩
  · rw [outcomes, outcomes, outcomes, hinstalled, hmerged]
  · rw [appendAll, List.foldl_cons, List.foldl_cons, List.foldl_nil, hinstalled, hmerged, hclasses]

-- A class file that is taken in again in a new version is merged without a trace: all that is left
-- is the snapshot of the file in both versions.
theorem append_unchanged (options : MergeOptions) (file : ClassFile) (first second : Version)
    (entry : ApiClass) (hread : ApiClass.ofClassFile file first = .ok entry)
    (hkept : (empty options).skips entry = false) (hnew : first.contains second = false) :
    ∃ again both, ApiClass.ofClassFile file second = .ok again ∧
      ApiClass.ofClassFile file (first.plus second) = .ok both ∧
      (empty options).outcomes [entry, again] = [.installed, .merged] ∧
      ((empty options).appendAll [entry, again]).classes = Table.empty.insert file.name both ∧
      ∀ slot ∈ both.methods.values, slot.isGroup = false := by
  have hdated := Snapshot.ofClassFile_dated hread
  have hentry : entry = entry.dated first := Except.ok.inj (hread.symm.trans (hdated first))
  have hname : entry.name = file.name := by
    obtain ⟨fields, methods, -, -, -, rfl⟩ :=
      (Snapshot.ofClassFile_eq_ok_iff file first entry).mp hread
    rfl
  obtain ⟨houtcomes, hclasses⟩ := append_dated options entry first second
    (Snapshot.unwidened_ofClassFile hread) (Snapshot.lone_ofClassFile hread) hkept hnew
  rw [← hentry] at houtcomes hclasses
  rw [hname] at hclasses
  exact ⟨_, _, hdated second, hdated (first.plus second), houtcomes, hclasses,
    Snapshot.lone_ofClassFile (hdated (first.plus second))⟩

-- A class with signatures that are none, an interface and an annotation that are given twice, and
-- values that are not numbers.
def oddities : ClassFile where
  access := 0x0021
  name := "p/A"
  superclass := some "java/lang/Object"
  interfaces := ["p/I", "p/I"]
  signature := some "none"
  visible :=
    [⟨"Lp/N;", [("value", .constant (.float 0x7FC00000))], some "p/N"⟩,
      ⟨"Lp/N;", [("value", .constant (.float 0x7FC00000))], some "p/N"⟩]
  fields :=
    [{ access := 0x0019, name := "f", descriptor := "F", signature := some "none"
       constant := some (.float 0x7FC00000) }]
  methods := [{ access := 0x0001, name := "m", descriptor := "(I)V", signature := some "none" }]

theorem append_oddities : ∃ entry, ApiClass.ofClassFile oddities (.single "1") = .ok entry ∧
    (empty {}).skips entry = false ∧ (Version.single "1").contains (.single "2") = false ∧
    ∃ again both, ApiClass.ofClassFile oddities (.single "2") = .ok again ∧
      ApiClass.ofClassFile oddities ((Version.single "1").plus (.single "2")) = .ok both ∧
      (empty {}).outcomes [entry, again] = [.installed, .merged] ∧
      ((empty {}).appendAll [entry, again]).classes = Table.empty.insert "p/A" both ∧
      ∀ slot ∈ both.methods.values, slot.isGroup = false :=
  ⟨_, rfl, rfl, by decide, append_unchanged {} oddities (.single "1") (.single "2") _ rfl rfl
    (by decide)⟩

end Catalog

end ApiUnion
