import Mathlib.Tactic.MkIffOfInductiveProp
import ApiUnion.Proofs.Access
import ApiUnion.Proofs.Merge.Classes
import ApiUnion.Proofs.Merge.Facets
import ApiUnion.Proofs.Merge.Signatures
import ApiUnion.Proofs.Signature.Shape

-- Snapshots that fit a class: they can be merged into it as wholes, and into whatever comes of
-- merging the class with others that they fit.

namespace ApiUnion

open Renaming

-- No name is declared twice, and none ends early where it is used.
@[mk_iff]
structure ClassSignature.Declarable (signature : ClassSignature) : Prop where
  distinct : signature.ownNames.Nodup
  usable : ∀ name ∈ signature.ownNames, ';' ∉ name.toList

instance (signature : ClassSignature) : Decidable signature.Declarable :=
  decidable_of_iff' _ (ClassSignature.declarable_iff signature)

def SoundText (text : String) : Prop :=
  ∃ signature, ClassSignature.ofText text = .ok signature ∧ signature.Declarable

instance (text : String) : Decidable (SoundText text) :=
  match hread : ClassSignature.ofText text with
  | .ok signature => decidable_of_iff signature.Declarable
      ⟨fun h => ⟨signature, hread, h⟩,
        fun ⟨_, hother, h⟩ => Except.ok.inj (hread.symm.trans hother) ▸ h⟩
  | .error _ => .isFalse fun ⟨_, hother, _⟩ => nomatch hread.symm.trans hother

def TextFits (x y : String) : Prop :=
  ∀ a b, ClassSignature.ofText x = .ok a → ClassSignature.ofText y = .ok b →
    a.canonical.Fits b.canonical

-- The join under the names of the first fits what the join fits, since its own names make way for
-- the placeholders that it was joined with.
theorem ClassSignature.fits_merged_iff {a b join other : ClassSignature} (ha : a.ownNames.Nodup)
    (hjoin : a.canonical.join? b.canonical = some join) :
    (join.rename (.fromPlaceholders a.ownNames b.ownNames)).canonical.Fits other ↔
      join.Fits other := by
  obtain ⟨hlength, hnames⟩ := ownNames_fromPlaceholders ha hjoin
  have hparameters := (loosens_joinParameters? (ClassSignature.join?_eq_some hjoin).1).1
  rw [canonical, hnames, rename_rename]
  refine fits_rename_iff fun parameter hparameter v hv => ?_
  obtain ⟨source, hsource, hle⟩ := exists_of_forall₂ hparameters parameter hparameter
  obtain ⟨original, -, rfl⟩ := List.mem_map.mp hsource
  have hv := hle.variables_subset hv
  rw [TypeParameter.variables_rename] at hv
  obtain ⟨u, -, rfl⟩ := List.mem_map.mp hv
  have hscope := (toPlaceholders_cases ha u).imp_right fun h => h.2.symm ▸ h.1
  refine (toSymbols_fromPlaceholders ha hlength hscope).trans ?_
  by_cases hplaceholder : toPlaceholders a.ownNames u ∈ placeholders a.ownNames
  · obtain ⟨i, hi, heq⟩ := mem_placeholders.mp hplaceholder
    rw [← heq]
    exact toSymbols_placeholder hi
  · exact toSymbols_of_notMem hplaceholder

namespace Merge

theorem classSignatures_eq_ok {target source merged : Option String}
    (h : classSignatures target source = .ok merged) :
    target = none ∧ source = none ∧ merged = none ∨
      ∃ x y z, target = some x ∧ source = some y ∧ merged = some z := by
  cases target with
  | none =>
      cases source with
      | none => exact .inl ⟨rfl, rfl, (Except.ok.inj h).symm⟩
      | some y => cases h
  | some x =>
      cases source with
      | none => cases h
      | some y =>
          by_cases hsame : x = y
          · have hread : classSignatures (some x) (some y) = .ok (some x) := if_pos hsame
            rw [hread] at h
            exact .inr ⟨x, y, x, rfl, rfl, (Except.ok.inj h).symm⟩
          · have hread : classSignatures (some x) (some y) = some <$> classTexts x y :=
              if_neg hsame
            rw [hread] at h
            cases hmerged : classTexts x y with
            | error conflict => rw [hmerged] at h; cases h
            | ok z =>
                rw [hmerged] at h
                exact .inr ⟨x, y, z, rfl, rfl, (Except.ok.inj h).symm⟩

theorem fits_classSignatures {x y merged : String} (hx : SoundText x) (hy : SoundText y)
    (h : classSignatures (some x) (some y) = .ok (some merged)) :
    SoundText merged ∧ ∀ other, TextFits x other → TextFits y other → TextFits merged other := by
  obtain ⟨a, ha, haDeclarable⟩ := hx
  obtain ⟨b, hb, -⟩ := hy
  rcases classSignatures_cases ha hb h with ⟨-, rfl⟩ | ⟨join, hjoin, rfl⟩
  · exact ⟨⟨a, ha, haDeclarable⟩, fun other hxfits _ => hxfits⟩
  · have hread := ofText_merged ha hb haDeclarable.usable hjoin
    have hnames := (ClassSignature.ownNames_fromPlaceholders haDeclarable.distinct hjoin).2
    refine ⟨⟨_, hread, ?_, ?_⟩, fun other hxfits hyfits c d hc hd => ?_⟩
    · rw [hnames]
      exact haDeclarable.distinct
    · rw [hnames]
      exact haDeclarable.usable
    · obtain rfl := Except.ok.inj (hread.symm.trans hc)
      exact (ClassSignature.fits_merged_iff haDeclarable.distinct hjoin).mpr
        ((hxfits a d ha hd).of_join (hyfits b d hb hd) hjoin)

theorem classSignatures_of_fits {x y : String} (hx : SoundText x) (hy : SoundText y)
    (h : TextFits x y) : ∃ merged, classSignatures (some x) (some y) = .ok merged := by
  by_cases hne : x = y
  · exact ⟨some x, if_pos hne⟩
  · obtain ⟨a, ha, -⟩ := hx
    obtain ⟨b, hb, -⟩ := hy
    suffices hmerged : ∃ merged, classTexts x y = .ok merged by
      obtain ⟨merged, hmerged⟩ := hmerged
      exact ⟨some merged, (classSignatures_eq_ok_iff hne merged).mpr hmerged⟩
    by_cases hsame : a.canonical = b.canonical
    · exact ⟨x, (classTexts_eq_ok_iff _ _ _).mpr ⟨a, ha, b, hb, .inl ⟨hsame, rfl⟩⟩⟩
    · obtain ⟨join, hjoin⟩ := Option.isSome_iff_exists.mp (h a b ha hb).isSome_join?
      exact ⟨_, (classTexts_eq_ok_iff _ _ _).mpr ⟨a, ha, b, hb, .inr ⟨hsame, join, hjoin, rfl⟩⟩⟩

end Merge

-- A signature that can be read names no interface twice.
def ApiClass.NamesInterfacesOnce (entry : ApiClass) : Prop :=
  ∀ text ∈ entry.signature, ∀ signature ∈ ClassSignature.ofChars? text.toList,
    signature.interfaceNames.Nodup

instance (entry : ApiClass) : Decidable entry.NamesInterfacesOnce :=
  inferInstanceAs (Decidable (∀ text ∈ entry.signature,
    ∀ signature ∈ ClassSignature.ofChars? text.toList, signature.interfaceNames.Nodup))

namespace ApiClass

-- Class signatures that can be merged time and again.
def Sound (entry : ApiClass) : Prop :=
  ∀ text ∈ entry.signature, SoundText text

instance (entry : ApiClass) : Decidable entry.Sound :=
  inferInstanceAs (Decidable (∀ text ∈ entry.signature, SoundText text))

structure Fits (a b : ApiClass) : Prop where
  kind : a.access.classKind = b.access.classKind
  enclosing : a.enclosing = b.enclosing
  superclass : a.superclass = b.superclass
  signature : Option.Rel TextFits a.signature b.signature

end ApiClass

namespace Merge

theorem checkClass_eq (target incoming : ApiClass)
    (hkind : target.access.classKind = incoming.access.classKind)
    (henclosing : target.enclosing = incoming.enclosing)
    (hsuperclass : target.superclass = incoming.superclass) :
    checkClass target incoming = classSignatures target.signature incoming.signature := by
  unfold checkClass
  simp only [hkind, henclosing, hsuperclass, ne_eq, not_true_eq_false, if_false]

theorem checkClass_of_fits {target incoming : ApiClass} (htarget : target.Sound)
    (hincoming : incoming.Sound) (h : target.Fits incoming) :
    ∃ signature, checkClass target incoming = .ok signature := by
  rw [checkClass_eq target incoming h.kind h.enclosing h.superclass]
  have hsignature := h.signature
  cases hx : target.signature with
  | none =>
      cases hy : incoming.signature with
      | none => exact ⟨none, rfl⟩
      | some y => rw [hx, hy] at hsignature; cases hsignature
  | some x =>
      cases hy : incoming.signature with
      | none => rw [hx, hy] at hsignature; cases hsignature
      | some y =>
          rw [hx, hy] at hsignature
          cases hsignature with
          | some hfits => exact classSignatures_of_fits (htarget x hx) (hincoming y hy) hfits

theorem checkClass_eq_ok {target incoming : ApiClass} {signature : Option String}
    (h : checkClass target incoming = .ok signature) :
    (target.access.classKind = incoming.access.classKind ∧
        target.enclosing = incoming.enclosing ∧ target.superclass = incoming.superclass) ∧
      classSignatures target.signature incoming.signature = .ok signature := by
  unfold checkClass at h
  simp only at h
  split at h
  · cases h
  · rename_i hkind
    split at h
    · cases h
    · rename_i henclosing
      split at h
      · cases h
      · rename_i hsuperclass
        exact ⟨⟨not_not.mp hkind, not_not.mp henclosing, not_not.mp hsuperclass⟩, h⟩

theorem classKind_applyClass (options : MergeOptions) (target incoming : ApiClass)
    (signature : Option String) :
    (applyClass options target incoming signature).value.access.classKind =
      target.access.classKind :=
  (kept_widen Access.classKind_withModality ⟨_, target.modalities, some target.version⟩
      ⟨incoming.access, incoming.modalities, some incoming.version⟩).trans
    (kept_widen Access.classKind_withVisibility
      ⟨target.access, target.visibilities, some target.version⟩
      ⟨incoming.access, incoming.visibilities, some incoming.version⟩)

-- What two classes merge into is as sound as they are, and others fit it if they fit both.
theorem fits_applyClass (options : MergeOptions) {target incoming : ApiClass}
    {signature : Option String} (htarget : target.Sound) (hincoming : incoming.Sound)
    (h : checkClass target incoming = .ok signature) :
    (applyClass options target incoming signature).value.Sound ∧
      ∀ other, target.Fits other → incoming.Fits other →
        (applyClass options target incoming signature).value.Fits other := by
  have hsignature : (applyClass options target incoming signature).value.signature = signature :=
    rfl
  have hmerged := (checkClass_eq_ok h).2
  rcases classSignatures_eq_ok hmerged with ⟨hx, hy, rfl⟩ | ⟨x, y, z, hx, hy, rfl⟩
  · refine ⟨fun text htext => ?_, fun other hfits _ => ⟨?_, hfits.enclosing, hfits.superclass, ?_⟩⟩
    · rw [hsignature] at htext
      cases htext
    · rw [classKind_applyClass]
      exact hfits.kind
    · rw [hsignature, ← hx]
      exact hfits.signature
  · rw [hx, hy] at hmerged
    obtain ⟨hsound, hfit⟩ := fits_classSignatures (htarget x hx) (hincoming y hy) hmerged
    refine ⟨fun text htext => ?_, fun other hfits hfits' =>
      ⟨?_, hfits.enclosing, hfits.superclass, ?_⟩⟩
    · rw [hsignature] at htext
      obtain rfl := Option.some.inj htext
      exact hsound
    · rw [classKind_applyClass]
      exact hfits.kind
    · have hfirst := hfits.signature
      have hsecond := hfits'.signature
      rw [hx] at hfirst
      rw [hy] at hsecond
      rw [hsignature]
      cases hother : other.signature with
      | none => rw [hother] at hfirst; cases hfirst
      | some text =>
          rw [hother] at hfirst hsecond
          cases hfirst with
          | some hfirst =>
              cases hsecond with
              | some hsecond => exact .some (hfit text hfirst hsecond)

end Merge

end ApiUnion
