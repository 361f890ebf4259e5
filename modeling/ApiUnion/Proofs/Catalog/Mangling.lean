import Mathlib.Data.List.Pairwise
import ApiUnion.Proofs.Catalog.Answers
import ApiUnion.Proofs.Merge.Offering
import ApiUnion.Proofs.Model.Duplicates
import ApiUnion.Proofs.Model.Rereading
import ApiUnion.Proofs.Splitting.Partition

-- The names that variants of a method are emitted under. Numbering keeps them apart from one
-- another, but nobody looks whether a method of that name is there already.

namespace ApiUnion

open Emission Member Snapshot

theorem Emission.variantName_inj {a b : String} {i j : Nat} :
    variantName a (some i) = variantName b (some j) ↔ a = b ∧ i = j := by
  have hchars (name : String) (index : Nat) : (variantName name (some index)).toList =
      (name.toList ++ ['$']) ++ 'V' :: Nat.toDigits 10 index := by
    simp [variantName, toString]
  rw [← String.toList_inj, hchars, hchars,
    append_stop_inj (notMem_toDigits rfl i) (notMem_toDigits rfl j), List.append_left_inj,
    String.toList_inj, Renaming.toDigits_injective.eq_iff]

-- A method that is alone under its key, and called as a variant of a group is going to be.
def MethodSlot.Shadows : MethodSlot → MethodSlot → Prop
  | single lone, group variants =>
    ∃ variant ∈ variants.zipIdx,
      lone.name = variantName variant.1.name (some variant.2) ∧
        lone.descriptor = variant.1.descriptor
  | single _, single _ | group _, _ => False

instance : (lone group : MethodSlot) → Decidable (lone.Shadows group)
  | .single lone, .group variants => inferInstanceAs (Decidable (∃ variant ∈ variants.zipIdx,
      lone.name = variantName variant.1.name (some variant.2) ∧
        lone.descriptor = variant.1.descriptor))
  | .single _, .single _ | .group _, _ => inferInstanceAs (Decidable False)

theorem Emission.mem_variantMembers_group {options : EmitOptions} {variants : List ApiMethod}
    {member : Member} : member ∈ variantMembers options (.group variants) ↔
      ∃ variant ∈ variants.zipIdx, member = methodMember options variant.1 (some variant.2) := by
  simp [variantMembers, List.mapIdx_eq_zipIdx_map, eq_comm]

theorem Emission.pairwise_variantMembers (options : EmitOptions) (slot : MethodSlot) :
    (variantMembers options slot).Pairwise fun a b => ¬a.Same b := by
  cases slot with
  | single method => exact List.pairwise_singleton _ _
  | group variants =>
      rw [variantMembers, List.pairwise_iff_getElem]
      intro i j hi hj hlt hsame
      simp only [List.getElem_mapIdx] at hsame
      exact hlt.ne (variantName_inj.mp hsame.1).2

-- Two methods that are emitted as one were one before, or one is numbered and the other has that
-- name of its own.
theorem Emission.cases_of_same {options : EmitOptions} {first second : MethodSlot} {a b : Member}
    (ha : a ∈ variantMembers options first) (hb : b ∈ variantMembers options second)
    (hsame : a.Same b) :
    (∃ x ∈ first.toList, ∃ y ∈ second.toList, x.name = y.name ∧ x.descriptor = y.descriptor) ∨
      first.Shadows second ∨ second.Shadows first := by
  obtain ⟨hname, hdescriptor⟩ := hsame
  cases first with
  | single lone =>
      obtain rfl := List.mem_singleton.mp ha
      cases second with
      | single other =>
          obtain rfl := List.mem_singleton.mp hb
          exact .inl ⟨lone, List.mem_cons_self, other, List.mem_cons_self, hname, hdescriptor⟩
      | group variants =>
          obtain ⟨variant, hvariant, rfl⟩ := mem_variantMembers_group.mp hb
          exact .inr (.inl ⟨variant, hvariant, hname, hdescriptor⟩)
  | group variants =>
      obtain ⟨variant, hvariant, rfl⟩ := mem_variantMembers_group.mp ha
      cases second with
      | single lone =>
          obtain rfl := List.mem_singleton.mp hb
          exact .inr (.inr ⟨variant, hvariant, hname.symm, hdescriptor.symm⟩)
      | group others =>
          obtain ⟨other, hother, rfl⟩ := mem_variantMembers_group.mp hb
          exact .inl ⟨variant.1, List.fst_mem_of_mem_zipIdx hvariant, other.1,
            List.fst_mem_of_mem_zipIdx hother, (variantName_inj.mp hname).1, hdescriptor⟩

namespace ApiClass

variable {allowed : Version → Prop} {entry : ApiClass}

theorem not_same_of_keys_ne (h : entry.Emittable allowed) {options : EmitOptions}
    {first second : String × MethodSlot} (hfirst : first ∈ entry.methods.rows)
    (hsecond : second ∈ entry.methods.rows) (hne : first.1 ≠ second.1)
    (hunshadowed : ¬first.2.Shadows second.2 ∧ ¬second.2.Shadows first.2) :
    ∀ a ∈ variantMembers options first.2, ∀ b ∈ variantMembers options second.2, ¬a.Same b := by
  have hkey {row : String × MethodSlot} (hrow : row ∈ entry.methods.rows) {method : ApiMethod}
      (hmethod : method ∈ row.2.toList) : memberKey method.name method.descriptor = row.1 :=
    (h.methods row.1 row.2 (Table.get?_of_mem_rows hrow) method hmethod).key
  intro a ha b hb hsame
  rcases cases_of_same ha hb hsame with ⟨x, hx, y, hy, hname, hdescriptor⟩ | hshadows | hshadows
  · rw [← hkey hfirst hx, ← hkey hsecond hy, hname, hdescriptor] at hne
    exact hne rfl
  · exact hunshadowed.1 hshadows
  · exact hunshadowed.2 hshadows

-- A numbered method comes under the name that a method has of its own.
theorem exists_same_of_shadows (options : EmitOptions) {lone group : MethodSlot}
    (h : lone.Shadows group) : lone ≠ group ∧
      ∃ a ∈ variantMembers options lone, ∃ b ∈ variantMembers options group, a.Same b := by
  cases lone with
  | group variants => exact h.elim
  | single method =>
      cases group with
      | single other => exact h.elim
      | group variants =>
          obtain ⟨variant, hvariant, hname, hdescriptor⟩ := h
          refine ⟨nofun, methodMember options method none, List.mem_cons_self,
            methodMember options variant.1 (some variant.2), ?_, hname, hdescriptor⟩
          exact mem_variantMembers_group.mpr ⟨variant, hvariant, rfl⟩

theorem hasTwo_same_iff (h : entry.Emittable allowed) (options : EmitOptions) :
    HasTwo Same (entry.toClassFile options).methods ↔
      ∃ lone ∈ entry.methods.values, ∃ group ∈ entry.methods.values, lone.Shadows group := by
  refine not_iff_not.mp ?_
  have hmethods : (entry.toClassFile options).methods =
      entry.methods.values.flatMap (variantMembers options) := rfl
  rw [not_hasTwo_iff, hmethods, List.pairwise_flatMap]
  constructor
  · rintro ⟨-, hapart⟩ ⟨lone, hlone, group, hgroup, hshadows⟩
    obtain ⟨hne, a, ha, b, hb, hsame⟩ := exists_same_of_shadows options hshadows
    -- The two may stand in either order.
    have hsymm : Std.Symm fun a b : MethodSlot => ∀ x ∈ variantMembers options a,
        ∀ y ∈ variantMembers options b, ¬x.Same y :=
      ⟨fun a b hab x hx y hy hsame => hab y hy x hx ⟨hsame.1.symm, hsame.2.symm⟩⟩
    exact hapart.forall hlone hgroup hne a ha b hb hsame
  · intro hnone
    refine ⟨fun slot _ => pairwise_variantMembers options slot, ?_⟩
    have hkeys : entry.methods.rows.Pairwise fun a b => a.1 ≠ b.1 :=
      List.pairwise_map.mp entry.methods.distinct
    refine List.pairwise_map.mpr (hkeys.imp_of_mem fun {a b} ha hb hne => ?_)
    have hvalue {row : String × MethodSlot} (hrow : row ∈ entry.methods.rows) :
        row.2 ∈ entry.methods.values := List.mem_map_of_mem hrow
    exact not_same_of_keys_ne h ha hb hne
      ⟨fun hshadows => hnone ⟨_, hvalue ha, _, hvalue hb, hshadows⟩,
        fun hshadows => hnone ⟨_, hvalue hb, _, hvalue ha, hshadows⟩⟩

-- A class that was emitted can be taken in again unless two of its methods are held to be one.
theorem exists_ofClassFile_toClassFile_iff (h : entry.Emittable allowed)
    (hoffered : ∀ method ∈ entry.allMethods, method.Offered) (options : EmitOptions)
    (version : Version) :
    (∃ again, ofClassFile (entry.toClassFile options).asRead version = .ok again) ↔
      ¬HasTwo Same (entry.toClassFile options).methods ∧
        ¬HasTwo Collides (entry.toClassFile options).methods := by
  have hemitted : ∀ member ∈ (entry.toClassFile options).methods,
      isPrivate member.access = false ∧ (MethodType.ofText? member.descriptor).isSome = true := by
    intro member hmember
    obtain ⟨slot, hslot, hmember⟩ := List.mem_flatMap.mp hmember
    obtain ⟨method, hmethod, variant, rfl⟩ := mem_variantMembers hmember
    have hmethod := hoffered method (List.mem_flatMap.mpr ⟨slot, hslot, hmethod⟩)
    exact ⟨hmethod.access, hmethod.readable⟩
  have hmethods : offered (entry.toClassFile options).asRead.methods =
      (entry.toClassFile options).methods.map asReadMethod := by
    refine List.filter_eq_self.mpr (List.forall_mem_map.mpr fun member hmember => ?_)
    rw [asReadMethod, (hemitted member hmember).1]
    rfl
  have hfieldKeys : (entry.toClassFile options).asRead.fields.map Member.key =
      entry.fields.keys := by
    simp only [ClassFile.asRead, toClassFile, Table.values, Table.keys, List.map_map]
    exact List.map_congr_left fun row hrow =>
      (h.fields row.1 row.2 (Table.get?_of_mem_rows hrow)).key
  have hfields : ((offered (entry.toClassFile options).asRead.fields).map Member.key).Nodup := by
    refine List.Nodup.sublist (List.filter_sublist.map Member.key) ?_
    rw [hfieldKeys]
    exact entry.fields.distinct
  have hmethodKeys : ((entry.toClassFile options).methods.map asReadMethod).map Member.key =
      (entry.toClassFile options).methods.map Member.key := List.map_map
  rw [exists_ofClassFile_iff, hmethods, hmethodKeys, ← nodup_keys_iff]
  refine ⟨fun hread => hread.2.2, fun hapart => ⟨hfields, ?_, hapart⟩⟩
  exact List.forall_mem_map.mpr fun member hmember => (hemitted member hmember).2

end ApiClass

namespace Catalog

variable {allowed : Version → Prop}

theorem offered_ofClassFile {file : ClassFile} {version : Version} {entry : ApiClass}
    (h : ApiClass.ofClassFile file version = .ok entry) :
    ∀ method ∈ entry.allMethods, method.Offered := by
  obtain ⟨fields, methods, -, hreadable, hmethods, rfl⟩ :=
    (ofClassFile_eq_ok_iff file version entry).mp h
  intro method hmethod
  obtain ⟨slot, hslot, hmethod⟩ := List.mem_flatMap.mp hmethod
  rw [assembled, Table.values, hmethods, List.map_map] at hslot
  obtain ⟨member, hmember, rfl⟩ := List.mem_map.mp hslot
  obtain rfl := List.mem_singleton.mp hmethod
  have hvisible := (List.mem_filter.mp hmember).2
  exact offered_method version _ (by simpa using hvisible) (hreadable member hmember)

theorem offered_run (options : MergeOptions) (snapshots : List ApiClass)
    (h : ∀ snapshot ∈ snapshots, ∀ method ∈ snapshot.allMethods, method.Offered) (name : String) :
    ∀ entry ∈ ((empty options).appendAll snapshots).get? name,
      ∀ method ∈ entry.allMethods, method.Offered := by
  have hunder {entry : ApiClass} (hentry : ∀ method ∈ entry.allMethods, method.Offered)
      (key : String) (slot : MethodSlot) (hget : entry.methods.get? key = some slot) :
      ∀ method ∈ slot.toList, method.Offered := fun method hmethod =>
    hentry method (List.mem_flatMap.mpr
      ⟨slot, entry.methods.mem_values_of_get? key slot hget, hmethod⟩)
  refine run_induction (motive := fun known _ => ∀ entry ∈ known,
    ∀ method ∈ entry.allMethods, method.Offered) name options snapshots ?_ ?_ ?_
  · intro entry hentry
    cases hentry
  · intro snapshot hsnapshot entry hentry
    obtain rfl := Option.some.inj hentry
    exact h snapshot hsnapshot
  · intro existing taken snapshot hsnapshot signature hexisting _ entry hentry method hmethod
    obtain rfl := Option.some.inj hentry
    obtain ⟨slot, hslot, hmethod⟩ := List.mem_flatMap.mp hmethod
    obtain ⟨row, hrow, rfl⟩ := List.mem_map.mp hslot
    refine Merge.forall_methods_applyClass (fun _ method => method.Offered) options
      signature ?_ ?_ ?_ row.1 row.2 (Table.get?_of_mem_rows hrow) method hmethod
    · exact fun _ subject _ _ signature htarget hincoming =>
        Merge.offered_applyMethod subject signature htarget hincoming
    · intro key slot hget method hmethod
      obtain ⟨haccess, hvisible, hreadable⟩ :=
        hunder (hexisting existing rfl) key slot hget method hmethod
      exact ⟨haccess, hvisible, hreadable⟩
    · intro key slot hget method hmethod
      obtain ⟨haccess, hvisible, hreadable⟩ :=
        hunder (h snapshot hsnapshot) key slot hget method hmethod
      exact ⟨haccess, hvisible, hreadable⟩

theorem offered_withImpliedVersions {entry : ApiClass}
    (h : ∀ method ∈ entry.allMethods, method.Offered) :
    ∀ method ∈ (withImpliedVersions entry).allMethods, method.Offered := by
  intro method hmethod
  obtain ⟨slot, hslot, hmethod⟩ := List.mem_flatMap.mp hmethod
  obtain ⟨row, hrow, rfl⟩ := List.mem_map.mp hslot
  obtain ⟨original, horiginal, rfl⟩ := List.mem_map.mp hrow
  rw [MethodSlot.toList_map] at hmethod
  obtain ⟨unmapped, hunmapped, rfl⟩ := List.mem_map.mp hmethod
  obtain ⟨haccess, hvisible, hreadable⟩ := h unmapped
    (List.mem_flatMap.mpr ⟨original.2, List.mem_map_of_mem horiginal, hunmapped⟩)
  exact ⟨haccess, hvisible, hreadable⟩

-- Two methods are emitted under one name and descriptor where one of them is called as a variant of
-- the other is numbered, and nowhere else. What is emitted can be taken in again unless there are
-- such methods, or two that share a key.
theorem duplicate_emitted_iff (options : MergeOptions) (emit : EmitOptions)
    (snapshots : List ApiClass)
    (hsnapshots : ∀ snapshot ∈ snapshots, ∃ file version,
      ApiClass.ofClassFile file version = .ok snapshot)
    (catalog : Catalog) (hcatalog : catalog = (empty options).appendAll snapshots ∨
      catalog = ((empty options).appendAll snapshots).cleanUp) :
    ∀ entry ∈ catalog.classes.values,
      (HasTwo Same (entry.toClassFile emit).methods ↔
        ∃ lone ∈ entry.methods.values, ∃ group ∈ entry.methods.values, lone.Shadows group) ∧
      ∀ bytes version, entry.toBytes emit = .ok bytes →
        ((∃ again, ApiClass.ofBytes bytes version = .ok again) ↔
          ¬HasTwo Same (entry.toClassFile emit).methods ∧
            ¬HasTwo Collides (entry.toClassFile emit).methods) := by
  have hemittable : ((empty options).appendAll snapshots).Emittable fun _ => True := by
    refine emittable_appendAll (fun _ _ _ _ => trivial) options fun snapshot hsnapshot => ?_
    obtain ⟨file, version, hread⟩ := hsnapshots snapshot hsnapshot
    exact emittable_ofClassFile hread trivial
  have hoffered : ∀ name, ∀ entry ∈ ((empty options).appendAll snapshots).get? name,
      ∀ method ∈ entry.allMethods, method.Offered := by
    refine offered_run options snapshots fun snapshot hsnapshot => ?_
    obtain ⟨file, version, hread⟩ := hsnapshots snapshot hsnapshot
    exact offered_ofClassFile hread
  have hkept : catalog.Emittable (fun _ => True) ∧
      ∀ name, ∀ entry ∈ catalog.get? name, ∀ method ∈ entry.allMethods, method.Offered := by
    rcases hcatalog with rfl | rfl
    · exact ⟨hemittable, hoffered⟩
    · refine ⟨emittable_cleanUp hemittable, fun name entry hentry => ?_⟩
      rw [get?, cleanUp, Table.get?_map] at hentry
      obtain ⟨original, horiginal, rfl⟩ := Option.map_eq_some_iff.mp hentry
      exact offered_withImpliedVersions (hoffered name original horiginal)
  intro entry hentry
  have hget := (mem_values_iff hkept.1.keyed entry).mp hentry
  have hclass := hkept.1.entries entry.name entry hget
  refine ⟨ApiClass.hasTwo_same_iff hclass emit, fun bytes version hbytes => ?_⟩
  rw [ApiClass.ofBytes_of_toBytes hbytes]
  exact ApiClass.exists_ofClassFile_toClassFile_iff hclass (hkept.2 entry.name entry hget) emit
    version

-- A class with a method that is static in its second version, beside one with a number in its name.
def numbering (name : String) : List ApiClass :=
  ofFiles <| [([("m", 0x0001), (name, 0x0001)], "1"), ([("m", 0x0009)], "2")].map
    fun (methods, tag) =>
      ({ access := 0x0001, name := "p/A", superclass := none
         methods := methods.map fun (name, access) => { access, name, descriptor := "()V" } },
        .single tag)

theorem duplicate_emitted_unshadowed :
    ∃ entry ∈ ((empty {}).appendAll (numbering "m$V2")).classes.values,
      (entry.toClassFile {}).methods.map Member.name = ["m$V0", "m$V1", "m$V2"] ∧
        ¬HasTwo Same (entry.toClassFile {}).methods ∧
        ∃ bytes again, entry.toBytes {} = .ok bytes ∧
          ApiClass.ofBytes bytes (.single "3") = .ok again := by
  have hnumbered : ∃ entry ∈ ((empty {}).appendAll (numbering "m$V2")).classes.values,
      (entry.toClassFile {}).methods.map Member.name = ["m$V0", "m$V1", "m$V2"] ∧
        (∀ lone ∈ entry.methods.values, ∀ group ∈ entry.methods.values, ¬lone.Shadows group) ∧
        ¬HasTwo Collides (entry.toClassFile {}).methods ∧ (entry.toClassFile {}).Small := by
    decide +kernel
  obtain ⟨entry, hentry, hnames, hunshadowed, hapart, hsmall⟩ := hnumbered
  obtain ⟨hsame, hread⟩ := duplicate_emitted_iff {} {} (numbering "m$V2")
    (fun _ hsnapshot => exists_of_mem_ofFiles hsnapshot) _ (.inl rfl) entry hentry
  have hdistinct : ¬HasTwo Same (entry.toClassFile {}).methods := fun htwo => by
    obtain ⟨lone, hlone, group, hgroup, hshadows⟩ := hsame.mp htwo
    exact hunshadowed lone hlone group hgroup hshadows
  obtain ⟨bytes, hbytes⟩ := ClassFile.exists_toBytes hsmall
  obtain ⟨again, hagain⟩ := (hread bytes (.single "3") hbytes).mpr ⟨hdistinct, hapart⟩
  exact ⟨entry, hentry, hnames, hdistinct, bytes, again, hbytes, hagain⟩

theorem duplicate_emitted_shadowed :
    (∀ snapshot ∈ numbering "m$V1", ∃ file version,
      ApiClass.ofClassFile file version = .ok snapshot) ∧
    ∃ entry ∈ ((empty {}).appendAll (numbering "m$V1")).classes.values,
      HasTwo Same (entry.toClassFile {}).methods ∧
        ∃ bytes, entry.toBytes {} = .ok bytes ∧
          ApiClass.ofBytes bytes (.single "3") = .error (.duplicateMember "p/A" "m$V1()V") := by
  have hnumbered : ∃ entry ∈ ((empty {}).appendAll (numbering "m$V1")).classes.values,
      HasTwo Same (entry.toClassFile {}).methods ∧ (entry.toClassFile {}).Small ∧
        ApiClass.ofClassFile (entry.toClassFile {}).asRead (.single "3") =
          .error (.duplicateMember "p/A" "m$V1()V") := by
    decide +kernel
  obtain ⟨entry, hentry, htwo, hsmall, hread⟩ := hnumbered
  obtain ⟨bytes, hbytes⟩ := ClassFile.exists_toBytes hsmall
  exact ⟨fun _ hsnapshot => exists_of_mem_ofFiles hsnapshot, entry, hentry, htwo, bytes, hbytes,
    (ApiClass.ofBytes_of_toBytes hbytes _).trans hread⟩

end Catalog

end ApiUnion
