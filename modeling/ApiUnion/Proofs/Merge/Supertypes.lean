import ApiUnion.Proofs.Merge.Fitting
import ApiUnion.Proofs.Merge.Repeating
import ApiUnion.Proofs.Model.Erasure

-- The super types of classes, which are listed by name and stand in the signature of the class as
-- well. Merging unites the lists and joins the signatures, and both come to the same.

namespace ApiUnion

open Renaming

namespace Merge

-- A list without repetitions adds what the other lacks, in order.
theorem union_eq_append (target incoming : List String) (h : incoming.Nodup) :
    union target incoming = target ++ incoming.filter fun item => !target.contains item := by
  unfold union
  induction incoming generalizing target with
  | nil => simp
  | cons item incoming ih =>
      obtain ⟨hitem, hincoming⟩ := List.nodup_cons.mp h
      rw [List.foldl_cons, ih _ hincoming]
      by_cases hfound : target.contains item
      · rw [if_pos hfound, List.filter_cons_of_neg (by simpa using hfound)]
      · have hsame : (incoming.filter fun other => !(target ++ [item]).contains other) =
            incoming.filter fun other => !target.contains other := by
          refine List.filter_congr fun other hother => ?_
          have hne : other ≠ item := fun heq => hitem (heq ▸ hother)
          simp [hne]
        rw [if_neg hfound, hsame, List.filter_cons_of_pos (by simpa using hfound),
          List.append_assoc, List.singleton_append]

theorem nodup_union {target incoming : List String} (htarget : target.Nodup)
    (hincoming : incoming.Nodup) : (union target incoming).Nodup := by
  rw [union_eq_append target incoming hincoming]
  refine htarget.append (hincoming.filter _) fun item hitem hadded => ?_
  simpa [hitem] using (List.mem_filter.mp hadded).2

end Merge

theorem names_mapM_joinNamesake? {others types found : List ClassType}
    (h : types.mapM (ClassType.joinNamesake? others) = some found) :
    found.map ClassType.internalName = types.map ClassType.internalName := by
  induction types generalizing found with
  | nil =>
      obtain rfl := Option.some.inj h
      rfl
  | cons type types ih =>
      simp only [List.mapM_cons, Option.bind_eq_bind, Option.bind_eq_some_iff, Option.pure_def,
        Option.some.injEq] at h
      obtain ⟨first, hfirst, rest, hrest, rfl⟩ := h
      rw [List.map_cons, List.map_cons, ih hrest,
        ClassType.internalName_of_shape (ClassType.shape_joinNamesake? hfirst)]

section Joins

variable {a b join : ClassSignature}

theorem ClassSignature.interfaceNames_rename (names : Renaming) (signature : ClassSignature) :
    (signature.rename names).interfaceNames = signature.interfaceNames := by
  simp only [interfaceNames, rename, List.map_map]
  exact List.map_congr_left fun type _ => type.internalName_rename names

theorem ClassSignature.interfaceNames_join? (h : a.join? b = some join)
    (hdistinct : b.interfaceNames.Nodup) :
    join.interfaceNames = Merge.union a.interfaceNames b.interfaceNames := by
  have hinterfaces := (ClassSignature.join?_eq_some h).2.2
  simp only [joinInterfaces?, Option.bind_eq_bind, Option.bind_eq_some_iff, Option.pure_def,
    Option.some.injEq] at hinterfaces
  obtain ⟨shared, hshared, hjoin⟩ := hinterfaces
  have hadded (type : ClassType) : (!a.interfaces.any fun known =>
      known.internalName = type.internalName) = !a.interfaceNames.contains type.internalName := by
    refine congrArg (!·) (Bool.eq_iff_iff.mpr ?_)
    simp [interfaceNames]
  rw [Merge.union_eq_append _ _ hdistinct, interfaceNames, ← hjoin, List.map_append,
    names_mapM_joinNamesake? hshared, interfaceNames, interfaceNames, List.filter_map]
  simp only [hadded]
  rfl

theorem ClassSignature.internalName_join? (h : a.join? b = some join) :
    join.superclass.internalName = a.superclass.internalName :=
  (ClassType.internalName_of_shape
    (loosen_joinSegments? _ _ _ (ClassSignature.join?_eq_some h).2.1).shape_eq).symm

-- Variables that are declared go by names of the first.
theorem ClassSignature.ownNames_merged_subset (h : a.canonical.join? b.canonical = some join) :
    (join.rename (.fromPlaceholders a.ownNames b.ownNames)).ownNames ⊆ a.ownNames := by
  have hjoin : join.ownNames = a.ownNames.map (toPlaceholders a.ownNames) :=
    (ownNames_of_loosens (loosens_joinParameters? (ClassSignature.join?_eq_some h).1).1).trans
      (ownNames_rename _ a)
  rw [ownNames_rename, hjoin, List.map_map]
  intro name hname
  obtain ⟨own, hown, rfl⟩ := List.mem_map.mp hname
  obtain ⟨i, hi, hplaceholder⟩ := mem_placeholders.mp (toPlaceholders_mem hown)
  rw [Function.comp_apply, ← hplaceholder, fromPlaceholders_placeholder hi]
  exact List.getElem_mem hi

end Joins

namespace Merge

variable {existing snapshot : ApiClass} {a b : ClassSignature} {signature : Option String}

-- Merging keeps the lists in step with the signatures, and declares no more names than the first.
theorem drawnBy_applyClass (options : MergeOptions) (ha : existing.DrawnBy a)
    (hb : snapshot.DrawnBy b) (hdistinct : snapshot.interfaces.Nodup)
    (hused : ∀ name ∈ a.ownNames, ';' ∉ name.toList)
    (hchecked : checkClass existing snapshot = .ok signature) :
    ∃ merged : ClassSignature, merged.ownNames ⊆ a.ownNames ∧
      (applyClass options existing snapshot signature).value.DrawnBy merged := by
  obtain ⟨⟨left, hleft, haText⟩, haSuper, haInterfaces⟩ := ha
  obtain ⟨⟨right, hright, hbText⟩, -, hbInterfaces⟩ := hb
  have hmerged := (checkClass_eq_ok hchecked).2
  rw [hleft, hright] at hmerged
  obtain ⟨text, rfl⟩ : ∃ text, signature = some text := by
    rcases classSignatures_eq_ok hmerged with ⟨h, -⟩ | ⟨-, -, text, -, -, h⟩
    · cases h
    · exact ⟨text, h⟩
  rcases classSignatures_cases haText hbText hmerged with ⟨hsame, rfl⟩ | ⟨join, hjoin, rfl⟩
  · have hnames : b.interfaceNames = a.interfaceNames := by
      rw [← ClassSignature.interfaceNames_canonical, ← hsame,
        ClassSignature.interfaceNames_canonical]
    have hunion : union existing.interfaces snapshot.interfaces = a.interfaceNames := by
      rw [haInterfaces, hbInterfaces, hnames, union_self]
    exact ⟨a, List.Subset.refl _, ⟨left, rfl, haText⟩, haSuper, hunion⟩
  · have hjoined : (join.rename (.fromPlaceholders a.ownNames b.ownNames)).interfaceNames =
        union a.interfaceNames b.interfaceNames := by
      rw [ClassSignature.interfaceNames_rename, ClassSignature.interfaceNames_join? hjoin,
        ClassSignature.interfaceNames_canonical, ClassSignature.interfaceNames_canonical]
      rw [ClassSignature.interfaceNames_canonical, ← hbInterfaces]
      exact hdistinct
    have hsuper : (join.rename
        (.fromPlaceholders a.ownNames b.ownNames)).superclass.internalName =
          a.superclass.internalName := by
      rw [ClassSignature.rename, ClassType.internalName_rename,
        ClassSignature.internalName_join? hjoin, ClassSignature.canonical, ClassSignature.rename,
        ClassType.internalName_rename]
    refine ⟨_, ClassSignature.ownNames_merged_subset hjoin,
      ⟨_, rfl, ofText_merged haText hbText hused hjoin⟩, ?_, ?_⟩
    · rw [hsuper]
      exact haSuper
    · rw [hjoined, ← haInterfaces, ← hbInterfaces]
      rfl

end Merge

end ApiUnion
