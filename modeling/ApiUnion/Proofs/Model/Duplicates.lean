import ApiUnion.Proofs.Model.Snapshot

-- Class files that are refused for a member that is in them twice. Two members are held to be one
-- if name and descriptor, put together, make one text.

namespace ApiUnion

open Snapshot

namespace Member

-- One name and one descriptor.
def Same (a b : Member) : Prop :=
  a.name = b.name ∧ a.descriptor = b.descriptor

instance (a b : Member) : Decidable (a.Same b) :=
  inferInstanceAs (Decidable (_ ∧ _))

-- The descriptor of the first begins with what the name of the second ends with.
def Straddles (a b : Member) : Prop :=
  ∃ middle, middle ≠ "" ∧ b.name = a.name ++ middle ∧ a.descriptor = middle ++ b.descriptor

-- Two members that are told apart by their names, but not by their keys.
def Collides (a b : Member) : Prop :=
  a.Straddles b ∨ b.Straddles a

theorem key_of_straddles {a b : Member} (h : a.Straddles b) : a.key = b.key := by
  obtain ⟨middle, -, hname, hdescriptor⟩ := h
  rw [key, key, hname, hdescriptor, String.append_assoc]

-- Where the two names differ in length, the rest of the longer one is what straddles.
theorem key_eq_key_iff (a b : Member) : a.key = b.key ↔ a.Same b ∨ a.Collides b := by
  constructor
  · intro h
    have hchars : a.name.toList ++ a.descriptor.toList = b.name.toList ++ b.descriptor.toList := by
      simpa only [key, String.toList_append] using congrArg String.toList h
    have hstraddles {x y : Member} {middle : List Char}
        (hname : y.name.toList = x.name.toList ++ middle)
        (hdescriptor : x.descriptor.toList = middle ++ y.descriptor.toList) :
        x.Same y ∨ x.Straddles y := by
      by_cases hempty : middle = []
      · subst hempty
        rw [List.append_nil] at hname
        exact .inl ⟨(String.toList_inj.mp hname).symm, String.toList_inj.mp hdescriptor⟩
      · refine .inr ⟨String.ofList middle, ?_, ?_, ?_⟩
        · simpa [← String.toList_inj] using hempty
        · simpa [← String.toList_inj] using hname
        · simpa [← String.toList_inj] using hdescriptor
    rcases List.append_eq_append_iff.mp hchars with ⟨middle, hname, hdescriptor⟩ |
      ⟨middle, hname, hdescriptor⟩
    · rcases hstraddles hname hdescriptor with hsame | hstraddles
      · exact .inl hsame
      · exact .inr (.inl hstraddles)
    · rcases hstraddles hname hdescriptor with hsame | hstraddles
      · exact .inl ⟨hsame.1.symm, hsame.2.symm⟩
      · exact .inr (.inr hstraddles)
  · rintro (⟨hname, hdescriptor⟩ | hstraddles | hstraddles)
    · rw [key, key, hname, hdescriptor]
    · exact key_of_straddles hstraddles
    · exact (key_of_straddles hstraddles).symm

theorem collides_iff (a b : Member) : a.Collides b ↔ a.key = b.key ∧ ¬a.Same b := by
  have hname {x y : Member} (h : x.Straddles y) : x.name ≠ y.name := by
    obtain ⟨middle, hmiddle, hname, -⟩ := h
    intro heq
    rw [hname, eq_comm, String.append_eq_left_iff] at heq
    exact hmiddle heq
  constructor
  · intro h
    refine ⟨(key_eq_key_iff a b).mpr (.inr h), fun hsame => ?_⟩
    rcases h with h | h
    · exact hname h hsame.1
    · exact hname h hsame.1.symm
  · rintro ⟨hkey, hnot⟩
    exact ((key_eq_key_iff a b).mp hkey).resolve_left hnot

instance (a b : Member) : Decidable (a.Collides b) :=
  decidable_of_iff _ (collides_iff a b).symm

-- Two members of a list, one after the other, are so related.
def HasTwo (related : Member → Member → Prop) (members : List Member) : Prop :=
  ∃ first second, [first, second].Sublist members ∧ related first second

variable {related other : Member → Member → Prop} {members : List Member}

theorem not_hasTwo_iff : ¬HasTwo related members ↔ members.Pairwise fun a b => ¬related a b := by
  rw [List.pairwise_iff_forall_sublist]
  simp only [HasTwo, not_exists, not_and]

instance [∀ a b, Decidable (related a b)] : Decidable (HasTwo related members) :=
  decidable_of_iff (¬members.Pairwise fun a b => ¬related a b)
    (not_congr not_hasTwo_iff.symm |>.trans not_not)

theorem hasTwo_or : HasTwo (fun a b => related a b ∨ other a b) members ↔
    HasTwo related members ∨ HasTwo other members := by
  simp only [HasTwo, and_or_left, exists_or]

theorem nodup_keys_iff :
    (members.map key).Nodup ↔ ¬HasTwo Same members ∧ ¬HasTwo Collides members := by
  rw [← not_or, ← hasTwo_or, not_hasTwo_iff, List.Nodup, List.pairwise_map]
  simp only [ne_eq, key_eq_key_iff]

end Member

namespace Snapshot

open Member

-- An insertion fails for a key that is in use, and for nothing else.
theorem isDuplicate_of_insertNew {α : Type} {className key : String} {table : Table α} {value : α}
    {error : SnapshotError} (h : insertNew className table key value = .error error) :
    error = .duplicateMember className key := by
  unfold insertNew at h
  split at h
  · exact (Except.error.inj h).symm
  · cases h

-- If every step fails for its key alone, so does the whole.
theorem isDuplicate_of_foldlM {α : Type} {className : String}
    {step : Table α → Member → Except SnapshotError (Table α)} {members : List Member}
    (hstep : ∀ member ∈ members, ∀ table error, step table member = .error error →
      error = .duplicateMember className member.key) :
    ∀ table error, members.foldlM step table = .error error →
      ∃ key, error = .duplicateMember className key := by
  induction members with
  | nil =>
      intro table error h
      cases h
  | cons member members ih =>
      intro table error h
      obtain ⟨hmember, hmembers⟩ := List.forall_mem_cons.mp hstep
      rw [List.foldlM_cons] at h
      cases hfirst : step table member with
      | error first =>
          rw [hfirst] at h
          cases h
          exact ⟨member.key, hmember table error hfirst⟩
      | ok grown =>
          rw [hfirst] at h
          exact ih hmembers grown error h

variable {file : ClassFile} (version : Version)

theorem isDuplicate_of_ofClassFile {error : SnapshotError}
    (hreadable : ∀ member ∈ offered file.methods,
      (MethodType.ofText? member.descriptor).isSome = true)
    (h : ApiClass.ofClassFile file version = .error error) :
    ∃ key, error = .duplicateMember file.name key := by
  have hfield : ∀ member ∈ offered file.fields, ∀ table error,
      insertField file.name version table member = .error error →
        error = .duplicateMember file.name member.key :=
    fun _ _ _ _ => isDuplicate_of_insertNew
  have hmethod : ∀ member ∈ offered file.methods, ∀ table error,
      insertMethod file.name version table member = .error error →
        error = .duplicateMember file.name member.key := by
    intro member hmember table error h
    obtain ⟨type, htype⟩ := Option.isSome_iff_exists.mp (hreadable member hmember)
    rw [insertMethod, htype] at h
    exact isDuplicate_of_insertNew h
  unfold ApiClass.ofClassFile at h
  cases hfields : (offered file.fields).foldlM (insertField file.name version) .empty with
  | error first =>
      rw [hfields] at h
      cases h
      exact isDuplicate_of_foldlM hfield .empty error hfields
  | ok fields =>
      rw [hfields] at h
      cases hmethods : (offered file.methods).foldlM (insertMethod file.name version) .empty with
      | error first =>
          rw [hmethods] at h
          cases h
          exact isDuplicate_of_foldlM hmethod .empty error hmethods
      | ok methods =>
          rw [hmethods] at h
          cases h

theorem exists_ofClassFile_iff : (∃ entry, ApiClass.ofClassFile file version = .ok entry) ↔
    ((offered file.fields).map Member.key).Nodup ∧
      (∀ member ∈ offered file.methods, (MethodType.ofText? member.descriptor).isSome = true) ∧
      ((offered file.methods).map Member.key).Nodup := by
  have hfieldKeys : ((offered file.fields).map (fieldRow version)).map Prod.fst =
      (offered file.fields).map Member.key := List.map_map
  have hmethodKeys : ((offered file.methods).map (methodRow version)).map Prod.fst =
      (offered file.methods).map Member.key := List.map_map
  constructor
  · rintro ⟨entry, h⟩
    obtain ⟨fields, methods, hfields, hreadable, hmethods, -⟩ :=
      (ofClassFile_eq_ok_iff file version entry).mp h
    refine ⟨?_, hreadable, ?_⟩
    · rw [← hfieldKeys, ← hfields]
      exact fields.distinct
    · rw [← hmethodKeys, ← hmethods]
      exact methods.distinct
  · rintro ⟨hfields, hreadable, hmethods⟩
    rw [← hfieldKeys] at hfields
    rw [← hmethodKeys] at hmethods
    exact ⟨_, (ofClassFile_eq_ok_iff file version _).mpr
      ⟨⟨_, hfields⟩, ⟨_, hmethods⟩, rfl, hreadable, rfl, rfl⟩⟩

-- The members of a class are those that its file offers, in order, each under its own name and
-- descriptor.
structure Lists (file : ClassFile) (version : Version) (entry : ApiClass) : Prop where
  fields : entry.fields.values = (offered file.fields).map (field version)
  methods : entry.methods.values =
    (offered file.methods).map fun member => .single (method version (arity member) member)
  field? : ∀ member ∈ offered file.fields,
    entry.field? member.name member.descriptor = some (field version member)
  method? : ∀ member ∈ offered file.methods,
    entry.method? member.name member.descriptor =
      some (.single (method version (arity member) member))

theorem lists_ofClassFile {entry : ApiClass}
    (h : ApiClass.ofClassFile file version = .ok entry) : Lists file version entry := by
  obtain ⟨fields, methods, hfields, -, hmethods, rfl⟩ :=
    (ofClassFile_eq_ok_iff file version entry).mp h
  exact {
    fields := by
      rw [Table.values, assembled, hfields, List.map_map]
      rfl
    methods := by
      rw [Table.values, assembled, hmethods, List.map_map]
      rfl
    field? := fun member hmember => by
      have hrow : fieldRow version member ∈ fields.rows := hfields ▸ List.mem_map_of_mem hmember
      exact Table.get?_of_mem_rows hrow
    method? := fun member hmember => by
      have hrow : methodRow version member ∈ methods.rows := hmethods ▸ List.mem_map_of_mem hmember
      exact Table.get?_of_mem_rows hrow
  }

-- A file is refused for two members of one name and descriptor, and for two that collide.
theorem duplicateMember_iff (file : ClassFile) (version : Version)
    (hreadable : ∀ member ∈ offered file.methods,
      (MethodType.ofText? member.descriptor).isSome = true) :
    ((∃ key, ApiClass.ofClassFile file version = .error (.duplicateMember file.name key)) ↔
      (HasTwo Same (offered file.fields) ∨ HasTwo Same (offered file.methods)) ∨
        HasTwo Collides (offered file.fields) ∨ HasTwo Collides (offered file.methods)) ∧
    ((∃ key, ApiClass.ofClassFile file version = .error (.duplicateMember file.name key)) ∨
      ∃ entry, ApiClass.ofClassFile file version = .ok entry ∧ Lists file version entry) := by
  have hok : (∃ entry, ApiClass.ofClassFile file version = .ok entry) ↔
      ¬((HasTwo Same (offered file.fields) ∨ HasTwo Same (offered file.methods)) ∨
        HasTwo Collides (offered file.fields) ∨ HasTwo Collides (offered file.methods)) := by
    rw [exists_ofClassFile_iff, nodup_keys_iff, nodup_keys_iff]
    tauto
  cases hread : ApiClass.ofClassFile file version with
  | ok entry =>
      have hnone := hok.mp ⟨entry, hread⟩
      refine ⟨⟨?_, fun htwo => absurd htwo hnone⟩, ?_⟩
      · rintro ⟨_, herror⟩
        cases herror
      · exact .inr ⟨entry, rfl, lists_ofClassFile version hread⟩
  | error error =>
      obtain ⟨key, rfl⟩ := isDuplicate_of_ofClassFile version hreadable hread
      have hnot : ¬∃ entry, ApiClass.ofClassFile file version = .ok entry := by
        rintro ⟨entry, hentry⟩
        rw [hread] at hentry
        cases hentry
      have htwo := not_not.mp (mt hok.mpr hnot)
      exact ⟨⟨fun _ => htwo, fun _ => ⟨key, rfl⟩⟩, .inl ⟨key, rfl⟩⟩

-- Members of one name or one descriptor, with private ones among them that have both in common.
def overloads : ClassFile where
  access := 0x0021
  name := "p/A"
  superclass := some "java/lang/Object"
  fields := [("f", "I", 0x0002), ("f", "I", 0x0001), ("f", "J", 0x0001), ("g", "I", 0x0004)].map
    fun (name, descriptor, access) => { access, name, descriptor }
  methods := [("m", "()V", 0x0001), ("m", "(I)V", 0x0001), ("n", "()V", 0x0000),
    ("m", "()V", 0x0002)].map fun (name, descriptor, access) => { access, name, descriptor }

theorem duplicateMember_overloads :
    (∃ entry, ApiClass.ofClassFile overloads (.single "1") = .ok entry ∧
      Lists overloads (.single "1") entry) ∧
    let again := { overloads with methods := overloads.methods ++ overloads.methods }
    ∃ key, ApiClass.ofClassFile again (.single "1") = .error (.duplicateMember "p/A" key) := by
  have hkept := duplicateMember_iff overloads (.single "1") (by decide +kernel)
  have hrefused := duplicateMember_iff
    { overloads with methods := overloads.methods ++ overloads.methods } (.single "1")
    (by decide +kernel)
  exact ⟨hkept.2.resolve_left (mt hkept.1.mp (by decide +kernel)),
    hrefused.1.mpr (.inl (by decide +kernel))⟩

-- Fields `a` of class `Lx` and `aL` of class `x`.
def collidingFields : ClassFile where
  access := 0x0021
  name := "p/A"
  superclass := some "java/lang/Object"
  fields := [("a", "LLx;"), ("aL", "Lx;")].map fun (name, descriptor) =>
    { access := 0x0001, name, descriptor }

-- Methods `m`, which returns `x(I)Ly`, and `m()Lx`, which returns `y`.
def collidingMethods : ClassFile where
  access := 0x0021
  name := "p/A"
  superclass := some "java/lang/Object"
  methods := [("m", "()Lx(I)Ly;"), ("m()Lx", "(I)Ly;")].map fun (name, descriptor) =>
    { access := 0x0001, name, descriptor }

theorem duplicateMember_collisions :
    (ApiClass.ofClassFile collidingFields (.single "1") = .error (.duplicateMember "p/A" "aLLx;") ∧
      ¬HasTwo Same (offered collidingFields.fields) ∧ offered collidingFields.methods = []) ∧
    (∀ member ∈ offered collidingMethods.methods,
      (MethodType.ofText? member.descriptor).isSome = true) ∧
      ApiClass.ofClassFile collidingMethods (.single "1") =
        .error (.duplicateMember "p/A" "m()Lx(I)Ly;") ∧
      ¬HasTwo Same (offered collidingMethods.methods) ∧ offered collidingMethods.fields = [] := by
  decide +kernel

end Snapshot

end ApiUnion
