import ApiUnion.Proofs.Merge.Fitting

-- Snapshots that do not fit a class. They fit nothing that comes of merging others into the class,
-- as that keeps all that is looked at: what is refused once is refused for good.

namespace ApiUnion

namespace Merge

theorem textFits_of_classSignatures {x y merged : String}
    (honce : ∀ signature ∈ ClassSignature.ofChars? y.toList, signature.interfaceNames.Nodup)
    (h : classSignatures (some x) (some y) = .ok (some merged)) : TextFits x y := by
  intro a b ha hb
  rcases classSignatures_cases ha hb h with ⟨hsame, -⟩ | ⟨join, hjoin, -⟩
  · -- Equal signatures merge whatever they name, but fit only if each interface meets itself.
    have hnames : b.canonical.interfaceNames.Nodup := by
      rw [ClassSignature.interfaceNames_canonical]
      exact honce b (ClassSignature.ofChars?_of_ofText hb)
    rw [hsame]
    exact ClassSignature.fits_self hnames
  · exact ClassSignature.fits_of_join? hjoin

theorem textFits_of_merged {x y merged other : String} (hx : SoundText x) (hy : SoundText y)
    (h : classSignatures (some x) (some y) = .ok (some merged)) (hfits : TextFits merged other) :
    TextFits x other := by
  intro a d ha hd
  obtain ⟨first, hfirst, hdeclarable⟩ := hx
  obtain ⟨b, hb, -⟩ := hy
  obtain rfl := Except.ok.inj (hfirst.symm.trans ha)
  rcases classSignatures_cases ha hb h with ⟨-, rfl⟩ | ⟨join, hjoin, rfl⟩
  · exact hfits first d ha hd
  · have hread := ofText_merged ha hb hdeclarable.usable hjoin
    have hjoinFits : join.Fits d.canonical :=
      (ClassSignature.fits_merged_iff hdeclarable.distinct hjoin).mp (hfits _ d hread hd)
    exact hjoinFits.of_fits_join hjoin

theorem fits_of_checkClass {target incoming : ApiClass} {signature : Option String}
    (honce : incoming.NamesInterfacesOnce) (h : checkClass target incoming = .ok signature) :
    target.Fits incoming := by
  obtain ⟨⟨hkind, henclosing, hsuperclass⟩, hmerged⟩ := checkClass_eq_ok h
  refine ⟨hkind, henclosing, hsuperclass, ?_⟩
  rcases classSignatures_eq_ok hmerged with ⟨hx, hy, -⟩ | ⟨x, y, z, hx, hy, rfl⟩
  · rw [hx, hy]
    exact .none
  · rw [hx, hy] at hmerged
    rw [hx, hy]
    exact .some (textFits_of_classSignatures (honce y hy) hmerged)

-- All that is checked is as it was, but the signature, and that has only become looser.
theorem fits_of_fits_applyClass (options : MergeOptions) {target incoming other : ApiClass}
    {signature : Option String} (htarget : target.Sound) (hincoming : incoming.Sound)
    (h : checkClass target incoming = .ok signature)
    (hfits : (applyClass options target incoming signature).value.Fits other) :
    target.Fits other := by
  have hkind := hfits.kind
  rw [classKind_applyClass] at hkind
  refine ⟨hkind, hfits.enclosing, hfits.superclass, ?_⟩
  have hmerged := (checkClass_eq_ok h).2
  have hsignature : Option.Rel TextFits signature other.signature := hfits.signature
  rcases classSignatures_eq_ok hmerged with ⟨hx, -, rfl⟩ | ⟨x, y, z, hx, hy, rfl⟩
  · rw [hx]
    exact hsignature
  · rw [hx, hy] at hmerged
    rw [hx]
    cases hother : other.signature with
    | none => rw [hother] at hsignature; cases hsignature
    | some text =>
        rw [hother] at hsignature
        cases hsignature with
        | some htext =>
            exact .some (textFits_of_merged (htarget x hx) (hincoming y hy) hmerged htext)

end Merge

end ApiUnion
