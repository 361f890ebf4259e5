import ApiUnion.Model.Snapshot
import ApiUnion.Proofs.Table

-- A snapshot is taken of a class file unless two offered members share a key or a method has a
-- descriptor that is none, and its tables then hold one row for each offered member, in order.

namespace ApiUnion

namespace Snapshot

theorem insertNew_eq_ok_iff {α : Type} (className : String) (table grown : Table α) (key : String)
    (value : α) :
    insertNew className table key value = .ok grown ↔ grown.rows = table.rows ++ [(key, value)] := by
  unfold insertNew
  by_cases hused : key ∈ table.keys
  · rw [if_pos ((table.contains_iff key).mpr hused)]
    constructor
    · intro h
      cases h
    · intro h
      -- The rows are those of a table, so the key cannot stand in it twice.
      have hdistinct := grown.distinct
      rw [h, List.map_append] at hdistinct
      exact absurd (by simp) (List.disjoint_of_nodup_append hdistinct hused)
  · rw [if_neg (mt (table.contains_iff key).mp hused), Except.ok.injEq,
      ← table.rows_insert_of_notMem key value hused]
    exact ⟨fun h => h ▸ rfl, fun h => (Table.ext_rows h).symm⟩

-- The row that an offered field adds.
def fieldRow (version : Version) (member : Member) : String × ApiField :=
  (member.key, field version member)

-- How many parameters the descriptor names.
def arity (member : Member) : Nat :=
  ((MethodType.ofText? member.descriptor).map fun type => type.parameters.length).getD 0

-- The row that an offered method adds.
def methodRow (version : Version) (member : Member) : String × MethodSlot :=
  (member.key, .single (method version (arity member) member))

theorem insertField_eq_ok_iff (className : String) (version : Version) (table : Table ApiField)
    (member : Member) (grown : Table ApiField) :
    insertField className version table member = .ok grown ↔
      True ∧ grown.rows = table.rows ++ [fieldRow version member] := by
  rw [true_and]
  exact insertNew_eq_ok_iff className table grown member.key (field version member)

theorem insertMethod_eq_ok_iff (className : String) (version : Version) (table : Table MethodSlot)
    (member : Member) (grown : Table MethodSlot) :
    insertMethod className version table member = .ok grown ↔
      (MethodType.ofText? member.descriptor).isSome = true ∧
        grown.rows = table.rows ++ [methodRow version member] := by
  unfold insertMethod methodRow arity
  cases MethodType.ofText? member.descriptor with
  | none => simp
  | some type => simpa using insertNew_eq_ok_iff className table grown member.key _

-- The snapshot of a file with these tables of members.
def assembled (file : ClassFile) (version : Version) (fields : Table ApiField)
    (methods : Table MethodSlot) : ApiClass where
  name := file.name
  access := ⟨file.access⟩
  signature := file.signature
  superclass := file.superclass
  interfaces := file.interfaces
  enclosing := file.enclosing
  version := version
  origin := if (metadata file).isSome then .kotlin else .plain
  metadata := metadata file
  annotations := ⟨keptOnClass file.visible, keptOnClass file.invisible⟩
  innerClasses := innerClasses file
  fields := fields
  methods := methods

theorem ofClassFile_eq_ok_iff (file : ClassFile) (version : Version) (entry : ApiClass) :
    ApiClass.ofClassFile file version = .ok entry ↔
      ∃ fields methods, fields.rows = (offered file.fields).map (fieldRow version) ∧
        (∀ member ∈ offered file.methods, (MethodType.ofText? member.descriptor).isSome = true) ∧
        methods.rows = (offered file.methods).map (methodRow version) ∧
        entry = assembled file version fields methods := by
  have hfields := Table.foldlM_eq_ok_iff (insertField_eq_ok_iff file.name version)
    (offered file.fields) .empty
  have hmethods := Table.foldlM_eq_ok_iff (insertMethod_eq_ok_iff file.name version)
    (offered file.methods) .empty
  have hempty {α : Type} : (Table.empty : Table α).rows = [] := rfl
  simp only [hempty, List.nil_append, implies_true, true_and] at hfields hmethods
  constructor
  · intro h
    unfold ApiClass.ofClassFile at h
    cases hfield : (offered file.fields).foldlM (insertField file.name version) .empty with
    | error error =>
        rw [hfield] at h
        cases h
    | ok fields =>
        rw [hfield] at h
        cases hmethod : (offered file.methods).foldlM (insertMethod file.name version) .empty with
        | error error =>
            rw [hmethod] at h
            cases h
        | ok methods =>
            rw [hmethod] at h
            cases h
            obtain ⟨hparsed, hrows⟩ := (hmethods methods).mp hmethod
            exact ⟨fields, methods, (hfields fields).mp hfield, hparsed, hrows, rfl⟩
  · rintro ⟨fields, methods, hfield, hparsed, hmethod, rfl⟩
    unfold ApiClass.ofClassFile
    rw [(hfields fields).mpr hfield, (hmethods methods).mpr ⟨hparsed, hmethod⟩]
    rfl

theorem ofBytes_eq_ok_iff (bytes : List UInt8) (version : Version) (entry : ApiClass) :
    ApiClass.ofBytes bytes version = .ok entry ↔
      ∃ file, ClassFile.ofBytes bytes = .ok file ∧ ApiClass.ofClassFile file version = .ok entry := by
  unfold ApiClass.ofBytes
  cases ClassFile.ofBytes bytes <;> simp

theorem toOption_eq_some_iff {ε α : Type} {result : Except ε α} {a : α} :
    result.toOption = some a ↔ result = .ok a := by
  cases result <;> simp [Except.toOption]

-- The snapshots of those files that are not refused.
def ofFiles (files : List (ClassFile × Version)) : List ApiClass :=
  files.filterMap fun file => (ApiClass.ofClassFile file.1 file.2).toOption

theorem exists_of_mem_ofFiles {files : List (ClassFile × Version)} {snapshot : ApiClass}
    (h : snapshot ∈ ofFiles files) :
    ∃ file version, ApiClass.ofClassFile file version = .ok snapshot := by
  obtain ⟨⟨file, version⟩, -, hread⟩ := List.mem_filterMap.mp h
  exact ⟨file, version, toOption_eq_some_iff.mp hread⟩

end Snapshot

end ApiUnion
