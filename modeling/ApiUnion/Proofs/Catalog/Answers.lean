import ApiUnion.Proofs.Catalog.Emitted
import ApiUnion.Proofs.Catalog.Provenance
import ApiUnion.Proofs.Model.Rereading

-- An index of the classes that a catalog emits gives the answers of the catalog, as far as versions
-- can be read from their literals.

namespace ApiUnion

open Emission

-- What is known of a class and its members.
@[ext]
structure Answers where
  ofClass : Option Version
  ofMethod : String → String → Option Version
  ofField : String → String → Option Version

theorem Answers.eq_of_forall {a b : Answers} (hclass : a.ofClass = b.ofClass)
    (hmethod : ∀ name descriptor, a.ofMethod name descriptor = b.ofMethod name descriptor)
    (hfield : ∀ name descriptor, a.ofField name descriptor = b.ofField name descriptor) : a = b :=
  Answers.ext hclass (funext fun name => funext (hmethod name))
    (funext fun name => funext (hfield name))

def Answers.none : Answers where
  ofClass := .none
  ofMethod _ _ := .none
  ofField _ _ := .none

def Catalog.answers (catalog : Catalog) (owner : String) : Answers where
  ofClass := catalog.classVersion? owner
  ofMethod := catalog.methodVersion? owner
  ofField := catalog.fieldVersion? owner

namespace VersionIndex

def answers (index : VersionIndex) (owner : String) : Answers where
  ofClass := index.classVersion? owner
  ofMethod := index.methodVersion? owner
  ofField := index.fieldVersion? owner

-- The path of a member that is known by its key.
def keyPath (owner key : String) : String :=
  owner ++ "." ++ key

theorem path_eq (owner name descriptor : String) :
    path owner name descriptor = keyPath owner (memberKey name descriptor) := by
  simp [path, keyPath, toString]

-- The first dot of a path ends the name of the class if that has none.
theorem keyPath_inj {a b : String} (ha : '.' ∉ a.toList) (hb : '.' ∉ b.toList) (k l : String) :
    keyPath a k = keyPath b l ↔ a = b ∧ k = l := by
  have htake {owner : String} (h : '.' ∉ owner.toList) (key : String) :
      (keyPath owner key).toList.takeWhile (· ≠ '.') = owner.toList := by
    have hdot : ".".toList = ['.'] := rfl
    rw [keyPath, String.toList_append, String.toList_append, hdot, List.append_assoc,
      List.singleton_append, List.takeWhile_append_of_pos, List.takeWhile_cons_of_neg]
    · simp
    · simp
    · intro c hc
      have hne : c ≠ '.' := fun heq => h (heq ▸ hc)
      simpa using hne
  constructor
  · intro h
    have howner : a = b := String.toList_inj.mp (by rw [← htake ha k, h, htake hb l])
    subst howner
    exact ⟨rfl, by simpa [keyPath] using h⟩
  · rintro ⟨rfl, rfl⟩
    rfl

-- A class of another name leaves what is known of a class as it was.
theorem answers_add_of_ne {file : ClassFile} {owner : String} (hne : file.name ≠ owner)
    (hfile : '.' ∉ file.name.toList) (howner : '.' ∉ owner.toList) (index : VersionIndex) :
    (index.add file).answers owner = index.answers owner := by
  have hpath (member : Member) (name found descriptor : String) :
      path owner found descriptor ≠ path file.name name member.descriptor := by
    rw [path_eq, path_eq, ne_eq, keyPath_inj howner hfile]
    exact fun h => hne h.1.symm
  unfold add
  cases markedVersion? file.annotations with
  | none => rfl
  | some version =>
      refine Answers.eq_of_forall ?_ (fun name descriptor => ?_) fun name descriptor => ?_
      · exact (index.classes.get?_insert file.name owner version).trans (if_neg (Ne.symm hne))
      · exact Table.get?_foldl_of_kept (fun table member =>
          (table.get?_insert ..).trans (if_neg (hpath member _ name descriptor)))
          file.methods index.methods
      · exact Table.get?_foldl_of_kept (fun table member =>
          (table.get?_insert ..).trans (if_neg (hpath member _ name descriptor)))
          file.fields index.fields

theorem get?_insertField (owner : String) (ofClass : Version) (fields : Table Version)
    (member : Member) (howner : '.' ∉ owner.toList) (key : String) :
    (insertField owner ofClass fields member).get? (keyPath owner key) =
      if key = member.key then some (memberVersion ofClass member)
      else fields.get? (keyPath owner key) := by
  have hown : path owner member.name member.descriptor = keyPath owner member.key :=
    path_eq owner member.name member.descriptor
  simp only [insertField, hown, Table.get?_insert, keyPath_inj howner howner, true_and]

theorem get?_insertMethod (owner : String) (ofClass : Version) (methods : Table Version)
    (member : Member) (howner : '.' ∉ owner.toList) (key : String) :
    (insertMethod owner ofClass methods member).get? (keyPath owner key) =
      if key = memberKey (unmangledName member) member.descriptor then
        Version.plus? (methods.get? (keyPath owner key)) (some (memberVersion ofClass member))
      else methods.get? (keyPath owner key) := by
  simp only [insertMethod, path_eq, Table.get?_insert, keyPath_inj howner howner, true_and]
  split
  · rename_i hkey
    subst hkey
    cases methods.get? (keyPath owner (memberKey (unmangledName member) member.descriptor)) <;> rfl
  · rfl

-- The variants under a key are put together, whatever they are called.
theorem get?_foldl_insertMethod (owner : String) (ofClass : Version) (members : List Member)
    (howner : '.' ∉ owner.toList) {slot : String}
    (hslot : ∀ member ∈ members, memberKey (unmangledName member) member.descriptor = slot)
    (methods : Table Version) (key : String) :
    (members.foldl (insertMethod owner ofClass) methods).get? (keyPath owner key) =
      if key = slot then
        Version.plus? (methods.get? (keyPath owner key))
          (Version.join? (members.map (memberVersion ofClass)))
      else methods.get? (keyPath owner key) := by
  induction members generalizing methods with
  | nil => simp
  | cons member members ih =>
      obtain ⟨hmember, hmembers⟩ := List.forall_mem_cons.mp hslot
      rw [List.foldl_cons, ih hmembers, get?_insertMethod owner ofClass methods member howner,
        hmember, List.map_cons, Version.join?_cons, ← Version.plus?_assoc]
      split <;> rfl

end VersionIndex

namespace Emission

theorem mem_variantMembers {options : EmitOptions} {slot : MethodSlot} {member : Member}
    (h : member ∈ variantMembers options slot) :
    ∃ method ∈ slot.toList, ∃ variant, member = methodMember options method variant := by
  cases slot with
  | single method =>
      obtain rfl := List.mem_singleton.mp h
      exact ⟨method, List.mem_cons_self, none, rfl⟩
  | group variants =>
      obtain ⟨index, hindex, rfl⟩ := List.mem_mapIdx.mp h
      exact ⟨_, List.getElem_mem hindex, some index, rfl⟩

theorem map_variantMembers {β : Type} {options : EmitOptions} {found : Member → β}
    {value : ApiMethod → β} {slot : MethodSlot} (h : ∀ method ∈ slot.toList, ∀ variant,
      found (methodMember options method variant) = value method) :
    (variantMembers options slot).map found = slot.toList.map value := by
  cases slot with
  | single method => exact congrArg (fun answer => [answer]) (h method List.mem_cons_self none)
  | group variants =>
      refine List.ext_getElem (by simp [variantMembers, MethodSlot.toList])
        fun index hleft hright => ?_
      have hindex : index < variants.length := by simpa [MethodSlot.toList] using hright
      have hmember : variants[index] ∈ variants := List.getElem_mem hindex
      simpa [variantMembers, MethodSlot.toList] using h _ hmember (some index)

end Emission

-- The version that is found of a member of a class of some version.
def rereadIn (ofClass : Version) (own : Option Version) : Version :=
  (own.bind Version.reread?).getD ofClass

-- What is found of a class that was emitted. Nothing is, if its version has no literal.
def ApiClass.rereadAnswers (entry : ApiClass) : Answers where
  ofClass := entry.version.reread?
  ofMethod name descriptor := do
    let ofClass ← entry.version.reread?
    let slot ← entry.method? name descriptor
    Version.join? (slot.toList.map fun method => rereadIn ofClass method.version)
  ofField name descriptor := do
    let ofClass ← entry.version.reread?
    let field ← entry.field? name descriptor
    pure (rereadIn ofClass field.version)

namespace VersionIndex

variable {allowed : Version → Prop} {entry : ApiClass} (options : EmitOptions)

theorem get?_foldl_fields (h : entry.Emittable allowed) (hname : '.' ∉ entry.name.toList)
    (ofClass : Version) (fields : Table Version) (key : String) :
    ((entry.toClassFile options).asRead.fields.foldl (insertField entry.name ofClass) fields).get?
        (keyPath entry.name key) =
      (entry.fields.get? key).elim (fields.get? (keyPath entry.name key)) fun field =>
        some (rereadIn ofClass field.version) := by
  have hfields : (entry.toClassFile options).asRead.fields =
      entry.fields.rows.map fun row => (fieldMember row.2).asReadField := by
    simp only [ClassFile.asRead, ApiClass.toClassFile, Table.values, List.map_map]
    rfl
  rw [hfields, List.foldl_map]
  refine Table.get?_foldl_rows (keyPath entry.name)
    (fun _ field => some (rereadIn ofClass field.version)) entry.fields
    (fun table row hrow key => ?_) fields key
  have hfield := h.fields row.1 row.2 (Table.get?_of_mem_rows hrow)
  rw [get?_insertField entry.name ofClass table _ hname,
    memberVersion_fieldMember ofClass hfield.annotations]
  have hkey : (fieldMember row.2).asReadField.key = row.1 := hfield.key
  rw [hkey]
  rfl

theorem get?_foldl_methods (h : entry.Emittable allowed) (hname : '.' ∉ entry.name.toList)
    (ofClass : Version) (methods : Table Version) (key : String) :
    ((entry.toClassFile options).asRead.methods.foldl (insertMethod entry.name ofClass)
        methods).get? (keyPath entry.name key) =
      (entry.methods.get? key).elim (methods.get? (keyPath entry.name key)) fun slot =>
        Version.plus? (methods.get? (keyPath entry.name key))
          (Version.join? (slot.toList.map fun method => rereadIn ofClass method.version)) := by
  have hmethods : (entry.toClassFile options).asRead.methods =
      entry.methods.rows.flatMap fun row =>
        (variantMembers options row.2).map Member.asReadMethod := by
    simp only [ClassFile.asRead, ApiClass.toClassFile, Table.values, List.flatMap_map,
      List.map_flatMap]
  rw [hmethods, List.foldl_flatMap]
  refine Table.get?_foldl_rows (keyPath entry.name)
    (fun before slot => Version.plus? before
      (Version.join? (slot.toList.map fun method => rereadIn ofClass method.version)))
    entry.methods (fun table row hrow key => ?_) methods key
  have hvariants := h.methods row.1 row.2 (Table.get?_of_mem_rows hrow)
  have hslot : ∀ member ∈ (variantMembers options row.2).map Member.asReadMethod,
      memberKey (unmangledName member) member.descriptor = row.1 := by
    intro member hmember
    obtain ⟨written, hwritten, rfl⟩ := List.mem_map.mp hmember
    obtain ⟨method, hmethod, variant, rfl⟩ := mem_variantMembers hwritten
    rw [unmangledName_methodMember options variant (hvariants method hmethod).annotations]
    exact (hvariants method hmethod).key
  have hversions : ((variantMembers options row.2).map Member.asReadMethod).map
      (memberVersion ofClass) =
        row.2.toList.map fun method => rereadIn ofClass method.version := by
    rw [List.map_map]
    exact map_variantMembers fun method hmethod variant =>
      memberVersion_methodMember options variant ofClass (hvariants method hmethod).annotations
  rw [get?_foldl_insertMethod entry.name ofClass _ hname hslot, hversions]

theorem answers_add_toClassFile (h : entry.Emittable allowed) (hname : '.' ∉ entry.name.toList)
    (index : VersionIndex) (hnew : index.answers entry.name = .none) :
    (index.add (entry.toClassFile options).asRead).answers entry.name = entry.rereadAnswers := by
  have hmethod (name descriptor : String) :
      index.methods.get? (keyPath entry.name (memberKey name descriptor)) = none := by
    rw [← path_eq]
    exact congrFun (congrFun (congrArg Answers.ofMethod hnew) name) descriptor
  have hfield (name descriptor : String) :
      index.fields.get? (keyPath entry.name (memberKey name descriptor)) = none := by
    rw [← path_eq]
    exact congrFun (congrFun (congrArg Answers.ofField hnew) name) descriptor
  unfold add ApiClass.rereadAnswers
  rw [markedVersion?_toClassFile options h]
  cases entry.version.reread? with
  | none => exact hnew
  | some version =>
      refine Answers.eq_of_forall ?_ (fun name descriptor => ?_) fun name descriptor => ?_
      · exact (index.classes.get?_insert entry.name entry.name version).trans (if_pos rfl)
      · have hfold := get?_foldl_methods options h hname version index.methods
          (memberKey name descriptor)
        rw [hmethod, ← path_eq] at hfold
        refine hfold.trans ?_
        simp only [ApiClass.method?]
        cases entry.methods.get? (memberKey name descriptor) <;> simp
      · have hfold := get?_foldl_fields options h hname version index.fields
          (memberKey name descriptor)
        rw [hfield, ← path_eq] at hfold
        refine hfold.trans ?_
        simp only [ApiClass.field?]
        cases entry.fields.get? (memberKey name descriptor) <;> simp

-- The index of the classes of a catalog, as they are emitted.
def ofClasses (options : EmitOptions) (entries : List ApiClass) :
    Except ClassFileError VersionIndex :=
  entries.foldlM (fun index entry => do index.addBytes (← entry.toBytes options)) .empty

-- The same index from what reading finds of the classes.
def ofReread (options : EmitOptions) (entries : List ApiClass) : VersionIndex :=
  entries.foldl (fun index entry => index.add (entry.toClassFile options).asRead) .empty

theorem ofClasses_eq {entries : List ApiClass}
    (h : ∀ entry ∈ entries, ∃ bytes, entry.toBytes options = .ok bytes) :
    ofClasses options entries = .ok (ofReread options entries) := by
  unfold ofClasses ofReread
  generalize VersionIndex.empty = index
  induction entries generalizing index with
  | nil => rfl
  | cons entry entries ih =>
      obtain ⟨⟨bytes, hbytes⟩, hentries⟩ := List.forall_mem_cons.mp h
      have hread : ClassFile.ofBytes bytes = .ok (entry.toClassFile options).asRead :=
        Reader.within_of_reads "class" (ClassFile.reads_toBytes hbytes)
      rw [List.foldlM_cons, hbytes, List.foldl_cons, ← ih hentries]
      show (index.addBytes bytes >>= _) = _
      rw [addBytes, hread]
      rfl

theorem answers_foldl_of_ne {entries : List ApiClass} {owner : String}
    (howner : '.' ∉ owner.toList) (hnames : ∀ entry ∈ entries, '.' ∉ entry.name.toList)
    (hne : ∀ entry ∈ entries, entry.name ≠ owner) (index : VersionIndex) :
    (entries.foldl (fun index entry => index.add (entry.toClassFile options).asRead) index).answers
      owner = index.answers owner := by
  induction entries generalizing index with
  | nil => rfl
  | cons entry entries ih =>
      obtain ⟨hname, hnames⟩ := List.forall_mem_cons.mp hnames
      obtain ⟨hentry, hne⟩ := List.forall_mem_cons.mp hne
      rw [List.foldl_cons, ih hnames hne]
      exact answers_add_of_ne hentry hname howner index

-- Each class is added to an index that knows nothing of it, and later ones leave it alone.
theorem answers_ofReread {entries : List ApiClass} (hdistinct : (entries.map ApiClass.name).Nodup)
    (hnames : ∀ entry ∈ entries, '.' ∉ entry.name.toList) {entry : ApiClass}
    (hmem : entry ∈ entries) (h : entry.Emittable allowed) :
    (ofReread options entries).answers entry.name = entry.rereadAnswers := by
  obtain ⟨front, back, rfl⟩ := List.append_of_mem hmem
  obtain ⟨hfront, hback⟩ := List.forall_mem_append.mp hnames
  obtain ⟨hname, hback⟩ := List.forall_mem_cons.mp hback
  rw [List.map_append, List.map_cons, List.nodup_append] at hdistinct
  obtain ⟨-, hlater, hearlier⟩ := hdistinct
  have hfrontNe : ∀ other ∈ front, other.name ≠ entry.name := fun other hother =>
    hearlier _ (List.mem_map_of_mem hother) _ List.mem_cons_self
  have hbackNe : ∀ other ∈ back, other.name ≠ entry.name := fun other hother heq =>
    (List.nodup_cons.mp hlater).1 (heq ▸ List.mem_map_of_mem hother)
  unfold ofReread
  rw [List.foldl_append, List.foldl_cons, answers_foldl_of_ne options hname hback hbackNe]
  refine answers_add_toClassFile options h hname _ ?_
  rw [answers_foldl_of_ne options hname hfront hfrontNe]
  rfl

theorem answers_ofReread_of_ne {entries : List ApiClass} {owner : String}
    (howner : '.' ∉ owner.toList) (hnames : ∀ entry ∈ entries, '.' ∉ entry.name.toList)
    (hne : ∀ entry ∈ entries, entry.name ≠ owner) :
    (ofReread options entries).answers owner = .none :=
  answers_foldl_of_ne options howner hnames hne empty

end VersionIndex

namespace Catalog

-- A catalog whose classes stand under their names, and can be emitted.
structure Emittable (allowed : Version → Prop) (catalog : Catalog) : Prop where
  keyed : catalog.Keyed
  entries : ∀ name entry, catalog.get? name = some entry → entry.Emittable allowed

variable {allowed : Version → Prop} {catalog : Catalog}

theorem emittable_appendAll (hplus : ∀ a b, allowed a → allowed b → allowed (a.plus b))
    (options : MergeOptions) {snapshots : List ApiClass}
    (h : ∀ snapshot ∈ snapshots, snapshot.Emittable allowed) :
    ((empty options).appendAll snapshots).Emittable allowed :=
  ⟨keyed_appendAll options snapshots, emittable_run hplus options snapshots h⟩

theorem emittable_cleanUp (h : catalog.Emittable allowed) : catalog.cleanUp.Emittable allowed where
  keyed := keyed_cleanUp catalog h.keyed
  entries name entry hget := by
    rw [get?, cleanUp, Table.get?_map] at hget
    obtain ⟨original, horiginal, rfl⟩ := Option.map_eq_some_iff.mp hget
    exact emittable_withImpliedVersions (h.entries name original horiginal)

theorem mem_values_iff (h : catalog.Keyed) (entry : ApiClass) :
    entry ∈ catalog.classes.values ↔ catalog.get? entry.name = some entry := by
  constructor
  · intro hmem
    obtain ⟨row, hrow, rfl⟩ := List.mem_map.mp hmem
    have hget := Table.get?_of_mem_rows hrow
    rw [← h row.1 row.2 hget] at hget
    exact hget
  · exact catalog.classes.mem_values_of_get? entry.name entry

theorem nodup_names (h : catalog.Keyed) : (catalog.classes.values.map ApiClass.name).Nodup := by
  have hnames : catalog.classes.values.map ApiClass.name = catalog.classes.keys := by
    rw [Table.values, List.map_map]
    exact List.map_congr_left fun row hrow => h row.1 row.2 (Table.get?_of_mem_rows hrow)
  rw [hnames]
  exact catalog.classes.distinct

-- What is found of the classes of a catalog, in whatever order they are added to an index.
theorem answers_ofReread (h : catalog.Emittable allowed) (options : EmitOptions)
    {entries : List ApiClass} (hentries : entries.Perm catalog.classes.values)
    (hnames : ∀ entry ∈ catalog.classes.values, '.' ∉ entry.name.toList) {owner : String}
    (howner : '.' ∉ owner.toList) :
    (VersionIndex.ofReread options entries).answers owner =
      (catalog.get? owner).elim .none ApiClass.rereadAnswers := by
  have hdistinct : (entries.map ApiClass.name).Nodup :=
    (hentries.map ApiClass.name).nodup_iff.mpr (nodup_names h.keyed)
  have hentryNames : ∀ entry ∈ entries, '.' ∉ entry.name.toList :=
    fun entry hentry => hnames entry (hentries.mem_iff.mp hentry)
  cases hget : catalog.get? owner with
  | none =>
      refine VersionIndex.answers_ofReread_of_ne options howner hentryNames fun entry hentry heq => ?_
      have hfound := (mem_values_iff h.keyed entry).mp (hentries.mem_iff.mp hentry)
      rw [heq, hget] at hfound
      cases hfound
  | some entry =>
      obtain rfl := h.keyed owner entry hget
      have hmem := hentries.mem_iff.mpr ((mem_values_iff h.keyed entry).mpr hget)
      exact VersionIndex.answers_ofReread options hdistinct hentryNames hmem
        (h.entries entry.name entry hget)

end Catalog

end ApiUnion
