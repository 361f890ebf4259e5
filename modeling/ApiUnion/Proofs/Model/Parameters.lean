import ApiUnion.Proofs.Catalog.Unchanged
import ApiUnion.Proofs.Model.Rereading

-- Parameters that are written and read. Names, nullability and annotations come back in any case,
-- and access flags where a name stands in the same list, as a list without names is not written.

namespace ApiUnion

open Snapshot

namespace ApiMethod

structure KeepsParameters (before after : ApiMethod) : Prop where
  name : after.name = before.name
  descriptor : after.descriptor = before.descriptor
  names : after.parameters.map Parameter.name = before.parameters.map Parameter.name
  nullability :
    after.parameters.map Parameter.nullability = before.parameters.map Parameter.nullability
  annotations :
    after.parameters.map Parameter.annotations = before.parameters.map Parameter.annotations
  access : after.parameters.map Parameter.access =
    if before.hasNamedParameter then before.parameters.map Parameter.access
    else before.parameters.map fun _ => 0

-- Nothing is lost where a name is known or no flag is set.
def IsLossless (method : ApiMethod) : Prop :=
  method.hasNamedParameter = true ∨ ∀ parameter ∈ method.parameters, parameter.access = 0

instance (method : ApiMethod) : Decidable method.IsLossless :=
  inferInstanceAs (Decidable (_ ∨ _))

theorem keepsParameters_reread (method : ApiMethod) (version : Version) :
    method.KeepsParameters (method.reread.dated version) := by
  unfold reread dated
  by_cases hnamed : method.hasNamedParameter = true
  · rw [if_pos hnamed]
    exact ⟨rfl, rfl, rfl, rfl, rfl, (if_pos hnamed).symm⟩
  · rw [if_neg hnamed]
    refine ⟨rfl, rfl, ?_, ?_, ?_, ?_⟩
    · exact List.map_map
    · exact List.map_map
    · exact List.map_map
    · rw [if_neg hnamed]
      exact List.map_map

theorem parameters_reread_iff (method : ApiMethod) (version : Version) :
    (method.reread.dated version).parameters = method.parameters ↔ method.IsLossless := by
  unfold reread dated IsLossless
  by_cases hnamed : method.hasNamedParameter = true
  · simp [hnamed]
  · have hcleared (p : Parameter) : { p with access := 0 } = p ↔ p.access = 0 :=
      ⟨fun h => h ▸ rfl, fun h => by rw [← h]⟩
    rw [if_neg hnamed, or_iff_right hnamed]
    exact map_asRead_iff.trans (by simp only [hcleared])

end ApiMethod

theorem ApiClass.allMethods_map {entry mapped : ApiClass} {f : ApiMethod → ApiMethod}
    (h : mapped.methods = entry.methods.map fun slot => slot.map f) :
    mapped.allMethods = entry.allMethods.map f := by
  rw [allMethods, h, allMethods, List.map_flatMap]
  simp only [Table.values, Table.rows_map, List.map_map, List.flatMap_map, Function.comp_apply,
    MethodSlot.toList_map]

namespace ApiClass

-- Whatever the version that it is read as, a class that was written has the methods of the snapshot
-- that it was written from, in order, with their parameters.
theorem parameters_toBytes (bytes written : List UInt8) (version other : Version)
    (entry : ApiClass) (options : EmitOptions) (hentry : ofBytes bytes version = .ok entry)
    (hwrite : options.writeParameters = true) (hwritten : entry.toBytes options = .ok written) :
    ∃ again, ofBytes written other = .ok again ∧
      List.Forall₂ ApiMethod.KeepsParameters entry.allMethods again.allMethods ∧
      (again.allMethods.map ApiMethod.parameters = entry.allMethods.map ApiMethod.parameters ↔
        ∀ method ∈ entry.allMethods, method.IsLossless) := by
  obtain ⟨file, hfile, hentry⟩ := (ofBytes_eq_ok_iff bytes version entry).mp hentry
  have hreread := ofClassFile_reread version options (ClassFile.normal_of_ofBytes hfile) hentry hwrite
  have hmethods : (entry.reread.dated other).allMethods =
      entry.allMethods.map fun method => method.reread.dated other := by
    have hreread : entry.reread.allMethods = entry.allMethods.map ApiMethod.reread :=
      allMethods_map rfl
    have hdated : (entry.reread.dated other).allMethods =
        entry.reread.allMethods.map (ApiMethod.dated other) := allMethods_map rfl
    rw [hdated, hreread, List.map_map]
    rfl
  refine ⟨entry.reread.dated other, ?_, ?_, ?_⟩
  · rw [ofBytes_of_toBytes hwritten]
    exact ofClassFile_dated hreread other
  · rw [hmethods, List.forall₂_map_right_iff, List.forall₂_same]
    exact fun method _ => method.keepsParameters_reread other
  · rw [hmethods, List.map_map, List.map_inj_left]
    simp only [Function.comp_apply, ApiMethod.parameters_reread_iff]

-- A method with a named parameter among two, and one whose only parameter has no name.

def documented : ClassFile where
  access := 0x0601
  name := "a"
  superclass := none
  methods := [
    { access := 0x0401
      name := "b"
      descriptor := "(I[J)V"
      parameters := [⟨some "i", 0x0010⟩, ⟨none, 0x1000⟩]
      visibleParameters :=
        [[{ type := "La;", elements := [] }], [{ type := Marks.notNull, elements := [] }]]
      invisibleParameters := [[], [{ type := "Lc;", elements := [] }]] },
    { access := 0x0401, name := "c", descriptor := "(I)V", parameters := [⟨none, 0x0010⟩] }]

def documentedEntry : ApiClass where
  access := ⟨0x0601⟩
  name := "a"
  superclass := none
  version := .single "1"
  methods := .ofRows [
    ("b(I[J)V", .single {
      access := ⟨0x0401⟩
      name := "b"
      descriptor := "(I[J)V"
      version := some (.single "1")
      parameters := [
        { name := some "i"
          access := 0x0010
          annotations := ⟨[{ type := "La;", elements := [] }], []⟩ },
        { access := 0x1000
          nullability := .notNull
          annotations := ⟨[], [{ type := "Lc;", elements := [] }]⟩ }] }),
    ("c(I)V", .single {
      access := ⟨0x0401⟩
      name := "c"
      descriptor := "(I)V"
      version := some (.single "1")
      parameters := [{ access := 0x0010 }] })]

theorem parameters_toBytes_documented : ∃ bytes written again,
    ofBytes bytes (.single "1") = .ok documentedEntry ∧ documentedEntry.toBytes {} = .ok written ∧
      ofBytes written (.single "2") = .ok again ∧
      List.Forall₂ ApiMethod.KeepsParameters documentedEntry.allMethods again.allMethods ∧
      again.allMethods.map ApiMethod.parameters ≠
        documentedEntry.allMethods.map ApiMethod.parameters := by
  have hsmall : documented.Small ∧ (documentedEntry.toClassFile {}).Small := by decide +kernel
  obtain ⟨bytes, hbytes⟩ := ClassFile.exists_toBytes hsmall.1
  obtain ⟨written, hwritten⟩ := ClassFile.exists_toBytes hsmall.2
  have hentry : ofBytes bytes (.single "1") = .ok documentedEntry := by
    rw [ofBytes_of_toBytes hbytes]
    decide +kernel
  obtain ⟨again, hagain, hkeeps, hlossless⟩ :=
    parameters_toBytes bytes written _ (.single "2") documentedEntry {} hentry rfl hwritten
  have hlossy : ¬∀ method ∈ documentedEntry.allMethods, method.IsLossless := by decide +kernel
  exact ⟨bytes, written, again, hentry, hwritten, hagain, hkeeps, mt hlossless.mp hlossy⟩

-- The flags of a parameter that has no name beside it.
theorem parameters_toBytes_flagged : ∃ bytes written again,
    ofBytes bytes (.single "1") = .ok (flaggedEntry 0x10) ∧
      (flaggedEntry 0x10).toBytes {} = .ok written ∧
      ofBytes written (.single "1") = .ok again ∧
      again.allMethods.map ApiMethod.parameters ≠
        (flaggedEntry 0x10).allMethods.map ApiMethod.parameters := by
  obtain ⟨bytes, hentry⟩ := exists_ofBytes_flagged
  obtain ⟨written, hwritten⟩ := exists_toBytes_flaggedEntry (.single "1") (by simp)
  refine ⟨bytes, written, flaggedEntry 0, hentry, hwritten, ?_, by decide +kernel⟩
  rw [ofBytes_of_toBytes hwritten]
  decide +kernel

end ApiClass

end ApiUnion
