import ApiUnion.Proofs.Catalog.Admission
import ApiUnion.Proofs.Catalog.Emittable
import ApiUnion.Proofs.Model.Rereading

-- The origin of a class and the annotation that tells of it. A snapshot has both or neither, but a
-- merged class keeps its first origin and takes the annotation from whichever snapshot has it
-- first.

namespace ApiUnion

open Marks Snapshot

namespace ApiClass

-- The origin is the one that the annotation tells of.
def Agrees (entry : ApiClass) : Prop :=
  entry.origin = .kotlin ↔ entry.metadata.isSome = true

-- The marker comes to a class that was first seen without it.
def GainsMarker : List ApiClass → Prop
  | [] => False
  | first :: rest => first.origin = .plain ∧ ∃ later ∈ rest, later.origin = .kotlin

instance : ∀ seen, Decidable (GainsMarker seen)
  | [] => inferInstanceAs (Decidable False)
  | _ :: rest => inferInstanceAs (Decidable (_ ∧ ∃ later ∈ rest, later.origin = .kotlin))

end ApiClass

open ApiClass

namespace Snapshot

variable {file : ClassFile} {version : Version} {entry : ApiClass}

theorem markerApart_ofClassFile (h : ApiClass.ofClassFile file version = .ok entry) :
    entry.MarkerApart := by
  obtain ⟨fields, methods, -, -, -, rfl⟩ := (ofClassFile_eq_ok_iff file version entry).mp h
  exact markerApart_assembled file version fields methods

theorem agrees_ofClassFile (h : ApiClass.ofClassFile file version = .ok entry) : entry.Agrees := by
  obtain ⟨fields, methods, -, -, -, rfl⟩ := (ofClassFile_eq_ok_iff file version entry).mp h
  unfold Agrees assembled
  split <;> simp_all

end Snapshot

namespace ApiClass

variable {entry : ApiClass}

-- Whoever reads the class again goes by the annotation alone.
theorem origin_reread (h : entry.MarkerApart) {options : EmitOptions} {version : Version}
    {again : ApiClass}
    (hagain : ofClassFile (entry.toClassFile options).asRead version = .ok again) :
    again.origin = .kotlin ↔ entry.metadata.isSome = true := by
  have hagrees := agrees_ofClassFile hagain
  obtain ⟨fields, methods, -, -, -, rfl⟩ := (ofClassFile_eq_ok_iff _ version again).mp hagain
  rw [Agrees, assembled, metadata_toClassFile h, Option.isSome_map] at hagrees
  rwa [assembled, metadata_toClassFile h, Option.isSome_map]

end ApiClass

namespace Catalog

theorem markerApart_applyClass (options : MergeOptions) {target incoming : ApiClass}
    (signature : Option String) (htarget : target.MarkerApart) (hincoming : incoming.MarkerApart) :
    (Merge.applyClass options target incoming signature).value.MarkerApart where
  metadata mark hmark := by
    have hmetadata : (Merge.applyClass options target incoming signature).value.metadata =
        target.metadata.or incoming.metadata := rfl
    rw [hmetadata, Option.or_eq_some_iff] at hmark
    rcases hmark with hmark | ⟨-, hmark⟩
    · exact htarget.metadata mark hmark
    · exact hincoming.metadata mark hmark
  annotations := Merge.forall_mem_annotations _ htarget.annotations hincoming.annotations

-- What a run makes of the snapshots that it takes in for a class.
structure Marked (seen : List ApiClass) (entry : ApiClass) : Prop where
  apart : entry.MarkerApart
  origin : seen.head?.map ApiClass.origin = some entry.origin
  metadata : entry.metadata = seen.findSome? ApiClass.metadata

-- The snapshots of a class that a run takes in.
def accepted (options : MergeOptions) (snapshots : List ApiClass) (name : String) : List ApiClass :=
  (acceptances name (empty options) snapshots).map Acceptance.snapshot

theorem marked_run (options : MergeOptions) (snapshots : List ApiClass)
    (h : ∀ snapshot ∈ snapshots, snapshot.MarkerApart) (name : String) :
    ∀ entry ∈ ((empty options).appendAll snapshots).get? name,
      Marked (accepted options snapshots name) entry := by
  refine run_induction (motive := fun known taken => ∀ entry ∈ known,
    Marked (taken.map Acceptance.snapshot) entry) name options snapshots ?_ ?_ ?_
  · intro entry hentry
    cases hentry
  · intro snapshot hsnapshot entry hentry
    obtain rfl := Option.some.inj hentry
    exact ⟨h snapshot hsnapshot, rfl, by simp⟩
  · intro existing taken snapshot hsnapshot signature hexisting _ entry hentry
    obtain rfl := Option.some.inj hentry
    obtain ⟨hapart, horigin, hmetadata⟩ := hexisting existing rfl
    refine ⟨markerApart_applyClass options signature hapart (h snapshot hsnapshot), ?_, ?_⟩
    · rw [List.map_append, List.head?_append]
      rw [Option.map_eq_some_iff] at horigin
      obtain ⟨first, hfirst, horigin⟩ := horigin
      rw [hfirst]
      exact congrArg some horigin
    · rw [List.map_append, List.findSome?_append, ← hmetadata, List.map_singleton,
        List.findSome?_singleton]
      rfl

theorem marked_withImpliedVersions {seen : List ApiClass} {entry : ApiClass}
    (h : Marked seen entry) : Marked seen (withImpliedVersions entry) :=
  ⟨⟨h.apart.metadata, h.apart.annotations⟩, h.origin, h.metadata⟩

theorem agrees_iff {seen : List ApiClass} {entry : ApiClass} (hmarked : Marked seen entry)
    (h : ∀ snapshot ∈ seen, snapshot.Agrees) : entry.Agrees ↔ ¬GainsMarker seen := by
  have hmetadata : entry.metadata.isSome = true ↔ ∃ snapshot ∈ seen, snapshot.origin = .kotlin := by
    rw [hmarked.metadata, List.findSome?_isSome_iff]
    exact exists_congr fun snapshot => and_congr_right fun hmem => (h snapshot hmem).symm
  obtain ⟨first, hfirst, horigin⟩ := Option.map_eq_some_iff.mp hmarked.origin
  obtain ⟨rest, rfl⟩ := List.head?_eq_some_iff.mp hfirst
  rw [Agrees, hmetadata, ← horigin, GainsMarker]
  cases hplain : first.origin with
  | plain => simp [hplain]
  | kotlin => simp [hplain]

-- A class has the origin that its annotation tells of, here and for whoever reads it again, unless
-- it was first seen without the annotation and later with it.
theorem agrees_run (options : MergeOptions) (emit : EmitOptions) (snapshots : List ApiClass)
    (hsnapshots : ∀ snapshot ∈ snapshots, ∃ file version,
      ApiClass.ofClassFile file version = .ok snapshot)
    (catalog : Catalog) (hcatalog : catalog = (empty options).appendAll snapshots ∨
      catalog = ((empty options).appendAll snapshots).cleanUp) (name : String) :
    ∀ entry ∈ catalog.get? name,
      Marked (accepted options snapshots name) entry ∧
      (entry.Agrees ↔ ¬GainsMarker (accepted options snapshots name)) ∧
      ∀ bytes version again, entry.toBytes emit = .ok bytes →
        ApiClass.ofBytes bytes version = .ok again →
          (again.origin = entry.origin ↔ ¬GainsMarker (accepted options snapshots name)) := by
  have hapart : ∀ snapshot ∈ snapshots, snapshot.MarkerApart := by
    intro snapshot hsnapshot
    obtain ⟨file, version, hread⟩ := hsnapshots snapshot hsnapshot
    exact markerApart_ofClassFile hread
  have hseen : ∀ snapshot ∈ accepted options snapshots name, snapshot.Agrees := by
    intro snapshot hsnapshot
    obtain ⟨step, hstep, rfl⟩ := List.mem_map.mp hsnapshot
    obtain ⟨file, version, hread⟩ := hsnapshots step.snapshot (mem_acceptances hstep).1
    exact agrees_ofClassFile hread
  have hmarked : ∀ entry ∈ catalog.get? name, Marked (accepted options snapshots name) entry := by
    rcases hcatalog with rfl | rfl
    · exact marked_run options snapshots hapart name
    · intro entry hentry
      rw [get?, cleanUp, Table.get?_map] at hentry
      obtain ⟨original, horiginal, rfl⟩ := Option.map_eq_some_iff.mp hentry
      exact marked_withImpliedVersions (marked_run options snapshots hapart name original horiginal)
  intro entry hentry
  have hentry := hmarked entry hentry
  have hagrees := agrees_iff hentry hseen
  refine ⟨hentry, hagrees, fun bytes version again hbytes hagain => ?_⟩
  rw [ApiClass.ofBytes_of_toBytes hbytes] at hagain
  have horigin := origin_reread hentry.apart hagain
  rw [← hagrees, Agrees, ← horigin]
  cases again.origin <;> cases entry.origin <;> simp

-- A class that is marked in some of its versions.
def marking (isMarked : List Bool) : List ApiClass :=
  ofFiles (isMarked.mapIdx fun index isMarked =>
    ({ access := 0x0001, name := "p/A", superclass := none
       visible := if isMarked then [{ type := kotlinMetadata, elements := [] }] else [] },
      .single (toString index)))

theorem agrees_run_marked :
    ∃ entry ∈ ((empty {}).appendAll (marking [true, false])).get? "p/A",
      entry.version = .ofTags ["0", "1"] ∧ entry.Agrees ∧
        ∃ bytes again, entry.toBytes {} = .ok bytes ∧
          ApiClass.ofBytes bytes (.single "2") = .ok again ∧ again.origin = entry.origin := by
  have hmarked : ∃ entry ∈ ((empty {}).appendAll (marking [true, false])).get? "p/A",
      entry.version = .ofTags ["0", "1"] ∧ (entry.toClassFile {}).Small ∧
        ∃ again ∈ (ApiClass.ofClassFile (entry.toClassFile {}).asRead (.single "2")).toOption,
          again.name = "p/A" := by
    decide +kernel
  obtain ⟨entry, hentry, hversion, hsmall, again, hread, -⟩ := hmarked
  obtain ⟨bytes, hbytes⟩ := ClassFile.exists_toBytes hsmall
  have hagain : ApiClass.ofBytes bytes (.single "2") = .ok again :=
    (ApiClass.ofBytes_of_toBytes hbytes _).trans (toOption_eq_some_iff.mp hread)
  obtain ⟨-, hagrees, hreread⟩ := agrees_run {} {} (marking [true, false])
    (fun _ hsnapshot => exists_of_mem_ofFiles hsnapshot) _ (.inl rfl) "p/A" entry hentry
  have hkept : ¬GainsMarker (accepted {} (marking [true, false]) "p/A") := by decide +kernel
  exact ⟨entry, hentry, hversion, hagrees.mpr hkept, bytes, again, hbytes, hagain,
    (hreread bytes _ again hbytes hagain).mpr hkept⟩

theorem disagrees_run_marked :
    (∀ snapshot ∈ marking [false, true], ∃ file version,
      ApiClass.ofClassFile file version = .ok snapshot) ∧
    ∃ entry ∈ ((empty {}).appendAll (marking [false, true])).get? "p/A",
      entry.origin = .plain ∧ entry.metadata.isSome = true ∧
        ∃ bytes again, entry.toBytes {} = .ok bytes ∧
          ApiClass.ofBytes bytes (.single "2") = .ok again ∧ again.origin = .kotlin := by
  have hmarked : ∃ entry ∈ ((empty {}).appendAll (marking [false, true])).get? "p/A",
      entry.origin = .plain ∧ entry.metadata.isSome = true ∧ (entry.toClassFile {}).Small ∧
        ∃ again ∈ (ApiClass.ofClassFile (entry.toClassFile {}).asRead (.single "2")).toOption,
          again.origin = .kotlin := by
    decide +kernel
  obtain ⟨entry, hentry, hplain, hmetadata, hsmall, again, hread, hkotlin⟩ := hmarked
  obtain ⟨bytes, hbytes⟩ := ClassFile.exists_toBytes hsmall
  exact ⟨fun _ hsnapshot => exists_of_mem_ofFiles hsnapshot, entry, hentry, hplain, hmetadata,
    bytes, again, hbytes, (ApiClass.ofBytes_of_toBytes hbytes _).trans
      (toOption_eq_some_iff.mp hread), hkotlin⟩

end Catalog

end ApiUnion
