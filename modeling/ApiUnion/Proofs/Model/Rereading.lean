import ApiUnion.Model.Emission
import ApiUnion.Proofs.ClassFile.Capacity
import ApiUnion.Proofs.Model.Marks
import ApiUnion.Proofs.Model.Snapshot

-- A snapshot that is written as a class file is found in it again. Only the access flags of
-- parameters are lost where no parameter of the method has a name.

namespace ApiUnion

open Emission Interning Marks Snapshot

def ApiMethod.hasNamedParameter (method : ApiMethod) : Bool :=
  method.parameters.any fun parameter => parameter.name.isSome

-- What is found of a method that was written with its parameters.
def ApiMethod.reread (method : ApiMethod) : ApiMethod :=
  if method.hasNamedParameter then method
  else { method with parameters := method.parameters.map fun p => { p with access := 0 } }

def ApiClass.reread (entry : ApiClass) : ApiClass :=
  { entry with methods := entry.methods.map fun slot => slot.map ApiMethod.reread }

-- Annotations that are read as they were written still are when some are left out.
theorem map_asRead_filter {marks : List AnnotationValue}
    (h : marks.map AnnotationValue.asRead = marks) (keep : AnnotationValue → Bool) :
    (marks.filter keep).map AnnotationValue.asRead = marks.filter keep :=
  map_asRead_iff.mpr fun mark hmark => map_asRead_iff.mp h mark (List.mem_of_mem_filter hmark)

theorem fieldRow_fieldMember (version : Version) {member : Member} (h : member.Normal) :
    fieldRow version (fieldMember (field version member)).asReadField = fieldRow version member := by
  have hvisible : (kept member.visible).map AnnotationValue.asRead = kept member.visible :=
    map_asRead_filter h.visible _
  have hinvisible : (kept member.invisible).map AnnotationValue.asRead = kept member.invisible :=
    map_asRead_filter h.invisible _
  have hconstant := h.constant
  refine Prod.ext rfl ?_
  simp only [fieldRow, field, fieldMember, Member.asReadField, Member.annotations, keptBoth,
    List.map_append, hvisible, hinvisible, hconstant, map_asRead_ofNullability,
    map_asRead_versionMetadata]
  rw [nullability_emitted (nullability (member.visible ++ member.invisible)) (by simp)]
  simp

-- What the lists of annotations by parameter say of one parameter.

theorem getD_listsAsRead (lists : List (List AnnotationValue)) (index : Nat) :
    ((Member.listsAsRead lists)[index]?).getD [] =
      ((lists[index]?).getD []).map AnnotationValue.asRead := by
  unfold Member.listsAsRead
  split
  · rename_i hempty
    cases hlist : lists[index]? with
    | none => rfl
    | some list =>
        have := List.all_eq_true.mp hempty list (List.mem_of_getElem? hlist)
        simp [List.isEmpty_iff.mp this]
  · rw [List.getElem?_map]
    cases lists[index]? <;> rfl

-- Lists that are left out altogether when all of them are empty.
theorem getD_map_of_any {α β : Type} (items : List α) (f : α → List β) (needed : α → Bool)
    (h : ∀ item, needed item = false → f item = []) (index : Nat) :
    ((if items.any needed then items.map f else [])[index]?).getD [] =
      items[index]?.elim [] f := by
  split
  · rw [List.getElem?_map]
    cases items[index]? <;> rfl
  · rename_i hnone
    rw [Bool.not_eq_true, List.any_eq_false] at hnone
    cases hitem : items[index]? with
    | none => rfl
    | some item =>
        have hneeded := hnone item (List.mem_of_getElem? hitem)
        exact (h item (Bool.not_eq_true _ ▸ hneeded)).symm

theorem getD_visibleParameters (method : ApiMethod) (index : Nat) :
    ((visibleParameters method)[index]?).getD [] =
      (method.parameters[index]?).elim [] fun p =>
        p.annotations.visible ++ ofNullability p.nullability :=
  getD_map_of_any method.parameters _ _ (fun p hp => by simp_all [ofNullability]) index

theorem getD_invisibleParameters (method : ApiMethod) (index : Nat) :
    ((invisibleParameters method)[index]?).getD [] =
      (method.parameters[index]?).elim [] fun p => p.annotations.invisible :=
  getD_map_of_any method.parameters _ _ (fun p hp => by simpa using hp) index

theorem getElem?_declaredParameters (method : ApiMethod) (options : EmitOptions)
    (h : options.writeParameters = true) (index : Nat) :
    (declaredParameters method options)[index]? =
      if method.hasNamedParameter then (method.parameters[index]?).map fun p => ⟨p.name, p.access⟩
      else none := by
  unfold declaredParameters ApiMethod.hasNamedParameter
  rw [h, Bool.true_and]
  split
  · exact List.getElem?_map ..
  · rfl

theorem map_asRead_kept_getD {lists : List (List AnnotationValue)}
    (h : ∀ list ∈ lists, list.map AnnotationValue.asRead = list) (index : Nat) :
    (kept ((lists[index]?).getD [])).map AnnotationValue.asRead =
      kept ((lists[index]?).getD []) := by
  refine map_asRead_filter ?_ _
  cases hlist : lists[index]? with
  | none => rfl
  | some list => exact h list (List.mem_of_getElem? hlist)

theorem parameters_getElem? (version : Version) {count index : Nat} (member : Member)
    (h : index < count) :
    (method version count member).parameters[index]? = some (parameter member index) := by
  simp [method, h]

-- A parameter that was written is found again, with what stands beside its name if it is there.
theorem parameter_methodMember (version : Version) (options : EmitOptions)
    (hwrite : options.writeParameters = true) {member : Member} (h : member.Normal)
    {count index : Nat} (hindex : index < count) :
    parameter (methodMember options (method version count member) none).asReadMethod index =
      if (method version count member).hasNamedParameter then parameter member index
      else { parameter member index with name := none, access := 0 } := by
  have hparameter := parameters_getElem? version member hindex
  have hvisible := map_asRead_kept_getD h.visibleParameters index
  have hinvisible := map_asRead_kept_getD h.invisibleParameters index
  generalize method version count member = written at *
  have hdeclared := getElem?_declaredParameters written options hwrite index
  rw [hparameter] at hdeclared
  have hpromise : nullability (kept ((member.visibleParameters[index]?).getD []) ++
      ofNullability (parameter member index).nullability ++
      kept ((member.invisibleParameters[index]?).getD [])) =
        (parameter member index).nullability :=
    nullability_emitted _ (by simp)
  unfold parameter at hparameter hdeclared hpromise ⊢
  simp only [Member.asReadMethod, methodMember, getD_listsAsRead, getD_visibleParameters,
    getD_invisibleParameters, hdeclared, hparameter, Option.elim_some, keptBoth, List.map_append,
    hvisible, hinvisible, map_asRead_ofNullability, hpromise]
  split <;> simp

theorem parameters_methodMember (version : Version) (options : EmitOptions)
    (hwrite : options.writeParameters = true) {member : Member} (h : member.Normal) (count : Nat) :
    (List.range count).map
        (parameter (methodMember options (method version count member) none).asReadMethod) =
      (method version count member).reread.parameters := by
  unfold ApiMethod.reread
  split
  · rename_i hnamed
    refine List.map_congr_left fun index hindex => ?_
    rw [parameter_methodMember version options hwrite h (List.mem_range.mp hindex), if_pos hnamed]
  · rename_i hunnamed
    have hparameters : (method version count member).parameters =
        (List.range count).map (parameter member) := rfl
    dsimp only
    rw [hparameters, List.map_map]
    refine List.map_congr_left fun index hindex => ?_
    rw [parameter_methodMember version options hwrite h (List.mem_range.mp hindex),
      if_neg hunnamed]
    -- None of the names is there to be lost.
    have hname : (parameter member index).name = none := by
      simp only [ApiMethod.hasNamedParameter, method, List.any_map, List.any_eq_true,
        Function.comp_apply, not_exists, not_and] at hunnamed
      simpa using hunnamed index hindex
    rw [Function.comp_apply, ← hname]

-- All else of a method is kept.
theorem method_methodMember (version : Version) (options : EmitOptions) {member : Member}
    (h : member.Normal) (count : Nat) :
    method version count (methodMember options (method version count member) none).asReadMethod =
      { method version count member with
        parameters := (List.range count).map
          (parameter (methodMember options (method version count member) none).asReadMethod) } := by
  have hvisible : (kept member.visible).map AnnotationValue.asRead = kept member.visible :=
    map_asRead_filter h.visible _
  have hinvisible : (kept member.invisible).map AnnotationValue.asRead = kept member.invisible :=
    map_asRead_filter h.invisible _
  have hdefault := h.annotationDefault
  have hpromise : nullability (kept member.visible ++ ofNullability (nullability member.annotations)
      ++ versionMetadata (some version) .empty .empty ++ kept member.invisible) =
        nullability member.annotations :=
    nullability_emitted _ (by simp)
  generalize hparameters : (List.range count).map
    (parameter (methodMember options (method version count member) none).asReadMethod) = parameters
  rw [method, hparameters]
  simp only [Member.asReadMethod, methodMember, variantName, method, keptBoth, Option.map_none,
    Option.toList_none, List.append_nil, List.map_append, map_asRead_ofNullability,
    map_asRead_versionMetadata, hvisible, hinvisible, hdefault, kept_append, kept_kept,
    kept_ofNullability, kept_versionMetadata, Member.annotations]
  rw [← Member.annotations, hpromise]

theorem methodRow_methodMember (version : Version) (options : EmitOptions)
    (hwrite : options.writeParameters = true) {member : Member} (h : member.Normal) :
    methodRow version
        (methodMember options (method version (arity member) member) none).asReadMethod =
      (member.key, .single (method version (arity member) member).reread) := by
  have hparameters := parameters_methodMember version options hwrite h (arity member)
  have hkept := method_methodMember version options h (arity member)
  refine Prod.ext rfl (congrArg MethodSlot.single ?_)
  refine hkept.trans ?_
  rw [hparameters]
  unfold ApiMethod.reread
  split <;> rfl

-- What is offered is offered again.
theorem offered_map_offered (f : Member → Member) (h : ∀ member, (f member).access = member.access)
    (members : List Member) : offered ((offered members).map f) = (offered members).map f := by
  refine List.filter_eq_self.mpr fun written hwritten => ?_
  obtain ⟨member, hmember, rfl⟩ := List.mem_map.mp hwritten
  rw [h]
  exact (List.mem_filter.mp hmember).2

-- The annotation that tells of the origin of a class stands apart from all others.
structure ApiClass.MarkerApart (entry : ApiClass) : Prop where
  metadata : ∀ mark, entry.metadata = some mark → isKotlinMetadata mark = true
  annotations : ∀ mark ∈ entry.annotations.all, isKotlinMetadata mark = false

theorem AnnotationValue.isKotlinMetadata_asRead (mark : AnnotationValue) :
    isKotlinMetadata mark.asRead = isKotlinMetadata mark := by
  cases mark
  rfl

-- It is found again, as no other annotation is taken for it.
theorem ApiClass.metadata_toClassFile {entry : ApiClass} (h : entry.MarkerApart)
    (options : EmitOptions) :
    Snapshot.metadata (entry.toClassFile options).asRead =
      entry.metadata.map AnnotationValue.asRead := by
  have hread (marks : List AnnotationValue) : (marks.map AnnotationValue.asRead).filter
      isKotlinMetadata = (marks.filter isKotlinMetadata).map AnnotationValue.asRead := by
    rw [List.filter_map]
    exact congrArg _ (List.filter_congr fun mark _ => mark.isKotlinMetadata_asRead)
  have hmetadata : entry.metadata.toList.filter isKotlinMetadata = entry.metadata.toList :=
    List.filter_eq_self.mpr fun mark hmark => h.metadata mark (Option.mem_toList.mp hmark)
  obtain ⟨hvisible, hinvisible⟩ := List.forall_mem_append.mp h.annotations
  have hnone {marks : List AnnotationValue} (hmarks : ∀ mark ∈ marks, isKotlinMetadata mark = false) :
      marks.filter isKotlinMetadata = [] :=
    List.filter_eq_nil_iff.mpr fun mark hmark => by simp [hmarks mark hmark]
  unfold Snapshot.metadata ClassFile.annotations
  rw [List.filter_append]
  simp only [ClassFile.asRead, toClassFile, hread, List.filter_append, hmetadata, hnone hvisible,
    hnone hinvisible, filter_isKotlinMetadata_versionMetadata, List.append_nil, List.map_nil]
  cases entry.metadata <;> rfl

namespace Snapshot

variable (file : ClassFile) (version : Version) (fields : Table ApiField)
  (methods : Table MethodSlot) (options : EmitOptions)

-- The members of a snapshot, written and read.

theorem fields_reread (hrows : fields.rows = (offered file.fields).map (fieldRow version)) :
    offered ((assembled file version fields methods).toClassFile options).asRead.fields =
      (offered file.fields).map fun member =>
        (fieldMember (field version member)).asReadField := by
  have hvalues : fields.values = (offered file.fields).map (field version) := by
    rw [Table.values, hrows, List.map_map]
    rfl
  simp only [ClassFile.asRead, ApiClass.toClassFile, assembled, hvalues, List.map_map]
  exact offered_map_offered (fun member => (fieldMember (field version member)).asReadField)
    (fun _ => rfl) file.fields

theorem methods_reread (hrows : methods.rows = (offered file.methods).map (methodRow version)) :
    offered ((assembled file version fields methods).toClassFile options).asRead.methods =
      (offered file.methods).map fun member =>
        (methodMember options (method version (arity member) member) none).asReadMethod := by
  have hvalues : methods.values =
      (offered file.methods).map fun member => .single (method version (arity member) member) := by
    rw [Table.values, hrows, List.map_map]
    rfl
  simp only [ClassFile.asRead, ApiClass.toClassFile, assembled, hvalues, List.flatMap_map]
  have hsingle (member : ApiMethod) :
      variantMembers options (.single member) = [methodMember options member none] := rfl
  simp only [hsingle, ← List.map_eq_flatMap, List.map_map]
  exact offered_map_offered
    (fun member => (methodMember options (method version (arity member) member) none).asReadMethod)
    (fun _ => rfl) file.methods

theorem innerClasses_reread :
    innerClasses ((assembled file version fields methods).toClassFile options).asRead =
      innerClasses file := by
  have hoffered : ∀ row ∈ (innerClasses file).rows, isPrivate row.2.access = false := by
    intro row hrow
    obtain ⟨inner, hinner, rfl⟩ := List.mem_map.mp (Table.mem_of_mem_rows_ofRows hrow)
    simpa using (List.mem_filter.mp hinner).2
  have hkept : ((innerClasses file).rows.map fun row =>
      (⟨row.1, row.2.outer, row.2.innerName, row.2.access⟩ : InnerClass)).filter
        (fun inner => !isPrivate inner.access) =
      (innerClasses file).rows.map fun row =>
        ⟨row.1, row.2.outer, row.2.innerName, row.2.access⟩ := by
    refine List.filter_eq_self.mpr fun inner hinner => ?_
    obtain ⟨row, hrow, rfl⟩ := List.mem_map.mp hinner
    simp [hoffered row hrow]
  conv_lhs => unfold innerClasses
  simp only [ClassFile.asRead, ApiClass.toClassFile, assembled, hkept, List.map_map]
  exact (congrArg Table.ofRows (List.map_id _)).trans (innerClasses file).ofRows_rows

theorem markerApart_assembled : (assembled file version fields methods).MarkerApart :=
  ⟨fun _ hmark => (List.mem_filter.mp (List.mem_of_getLast? hmark)).2,
    forall_mem_all_filter (fun mark hmark => by simp_all) file.visible file.invisible⟩

variable {file}

theorem map_asRead_metadata (h : file.Normal) :
    (metadata file).toList.map AnnotationValue.asRead = (metadata file).toList := by
  refine map_asRead_iff.mpr fun mark hmark => ?_
  have hmem := List.mem_of_getLast? (Option.mem_toList.mp hmark)
  rcases List.mem_append.mp (List.mem_of_mem_filter hmem) with hmem | hmem
  · exact map_asRead_iff.mp h.visible mark hmem
  · exact map_asRead_iff.mp h.invisible mark hmem

theorem visible_reread (h : file.Normal) :
    ((assembled file version fields methods).toClassFile options).asRead.visible =
      (metadata file).toList ++ keptOnClass file.visible ++
        versionMetadata (some version) .empty .empty := by
  simp only [ClassFile.asRead, ApiClass.toClassFile, assembled, List.map_append,
    map_asRead_metadata h, map_asRead_versionMetadata]
  rw [keptOnClass, map_asRead_filter h.visible]

theorem invisible_reread (h : file.Normal) :
    ((assembled file version fields methods).toClassFile options).asRead.invisible =
      keptOnClass file.invisible :=
  map_asRead_filter h.invisible _

theorem metadata_reread (h : file.Normal) :
    metadata ((assembled file version fields methods).toClassFile options).asRead =
      metadata file := by
  have hnormal := map_asRead_metadata h
  rw [ApiClass.metadata_toClassFile (markerApart_assembled file version fields methods), assembled]
  cases hmetadata : metadata file with
  | none => rfl
  | some mark => simpa [hmetadata] using hnormal

theorem keptOnClass_metadata : keptOnClass (metadata file).toList = [] := by
  refine List.filter_eq_nil_iff.mpr fun mark hmark => ?_
  have hmem := List.mem_of_getLast? (Option.mem_toList.mp hmark)
  have hkotlin := (List.mem_filter.mp hmem).2
  simp [hkotlin]

theorem ofClassFile_reread {entry : ApiClass} (h : file.Normal)
    (hentry : ApiClass.ofClassFile file version = .ok entry)
    (hwrite : options.writeParameters = true) :
    ApiClass.ofClassFile (entry.toClassFile options).asRead version = .ok entry.reread := by
  obtain ⟨fields, methods, hfields, hparsed, hmethods, rfl⟩ :=
    (ofClassFile_eq_ok_iff file version entry).mp hentry
  refine (ofClassFile_eq_ok_iff _ version _).mpr
    ⟨fields, methods.map fun slot => slot.map ApiMethod.reread, ?_, ?_, ?_, ?_⟩
  · rw [fields_reread file version fields methods options hfields, List.map_map, hfields]
    refine List.map_congr_left fun member hmember => ?_
    have hnormal := h.fields member (List.mem_of_mem_filter hmember)
    exact (fieldRow_fieldMember version hnormal).symm
  · rw [methods_reread file version fields methods options hmethods]
    intro written hwritten
    obtain ⟨member, hmember, rfl⟩ := List.mem_map.mp hwritten
    exact hparsed member hmember
  · rw [methods_reread file version fields methods options hmethods, List.map_map,
      Table.rows_map, hmethods, List.map_map]
    refine List.map_congr_left fun member hmember => ?_
    have hnormal := h.methods member (List.mem_of_mem_filter hmember)
    exact (methodRow_methodMember version options hwrite hnormal).symm
  · have hmetadata := metadata_reread version fields methods options h
    have hinner := innerClasses_reread file version fields methods options
    have hvisible := visible_reread version fields methods options h
    have hinvisible := invisible_reread version fields methods options h
    have henclosing : ((assembled file version fields methods).toClassFile
      options).asRead.enclosing = file.enclosing := h.enclosing
    conv_rhs => rw [assembled]
    rw [hmetadata, hinner, hvisible, hinvisible, henclosing]
    simp only [keptOnClass_append, keptOnClass_metadata, keptOnClass_keptOnClass,
      keptOnClass_versionMetadata, List.nil_append, List.append_nil]
    rfl

end Snapshot

namespace ApiClass

-- Bytes that were written are read to their end.
theorem ofBytes_of_toBytes {file : ClassFile} {bytes : List UInt8} (h : file.toBytes = .ok bytes)
    (version : Version) : ofBytes bytes version = ofClassFile file.asRead version := by
  have hread : ClassFile.ofBytes bytes = .ok file.asRead :=
    Reader.within_of_reads "class" (ClassFile.reads_toBytes h)
  rw [ofBytes, hread]

-- What a class file is read as is found in it again after it is written.
theorem ofBytes_toBytes_reread (bytes written : List UInt8) (version : Version)
    (entry : ApiClass) (options : EmitOptions) (hentry : ofBytes bytes version = .ok entry)
    (hwrite : options.writeParameters = true) (hwritten : entry.toBytes options = .ok written) :
    ofBytes written version = .ok entry.reread := by
  obtain ⟨file, hfile, hentry⟩ := (ofBytes_eq_ok_iff bytes version entry).mp hentry
  have hnormal := ClassFile.normal_of_ofBytes hfile
  rw [ofBytes_of_toBytes hwritten]
  exact ofClassFile_reread version options hnormal hentry hwrite

end ApiClass

-- An interface with a method whose one parameter has a flag but no name.
def flagged : ClassFile where
  access := 0x0601
  name := "a"
  superclass := none
  methods := [{
    access := 0x0401
    name := "b"
    descriptor := "(I)V"
    visible := [{ type := notNull, elements := [] }]
    parameters := [⟨none, 0x0010⟩] }]

def flaggedEntry (access : UInt16) : ApiClass where
  access := ⟨0x0601⟩
  name := "a"
  superclass := none
  version := .single "1"
  methods := .ofRows [("b(I)V", .single {
    access := ⟨0x0401⟩
    name := "b"
    descriptor := "(I)V"
    version := some (.single "1")
    nullability := .notNull
    parameters := [{ access }] })]

theorem exists_ofBytes_flagged :
    ∃ bytes, ApiClass.ofBytes bytes (.single "1") = .ok (flaggedEntry 0x10) := by
  have hsmall : flagged.Small := by decide +kernel
  obtain ⟨bytes, hbytes⟩ := ClassFile.exists_toBytes hsmall
  refine ⟨bytes, (ApiClass.ofBytes_of_toBytes hbytes _).trans ?_⟩
  decide +kernel

-- The entry in some versions, as members keep theirs.
theorem exists_toBytes_flaggedEntry (version : Version)
    (hversion : version ∈ [.universal, .single "1", .ofTags ["1", "2"]]) :
    ∃ bytes, { flaggedEntry 0x10 with version }.toBytes {} = .ok bytes := by
  have hsmall : ∀ version ∈ [.universal, .single "1", .ofTags ["1", "2"]],
      ({ flaggedEntry 0x10 with version }.toClassFile {}).Small := by decide +kernel
  exact ClassFile.exists_toBytes (hsmall version hversion)

theorem ApiClass.ofBytes_toBytes_reread_flagged : ∃ bytes written,
    ApiClass.ofBytes bytes (.single "1") = .ok (flaggedEntry 0x10) ∧
      (flaggedEntry 0x10).toBytes {} = .ok written ∧
      ApiClass.ofBytes written (.single "1") = .ok (flaggedEntry 0) := by
  obtain ⟨bytes, hentry⟩ := exists_ofBytes_flagged
  obtain ⟨written, hwritten⟩ := exists_toBytes_flaggedEntry (.single "1") (by simp)
  have hreread : (flaggedEntry 0x10).reread = flaggedEntry 0 := by decide +kernel
  rw [← hreread]
  exact ⟨bytes, written, hentry, hwritten,
    ApiClass.ofBytes_toBytes_reread bytes written _ _ {} hentry rfl hwritten⟩

end ApiUnion
