import ApiUnion.Proofs.Merge.Fitting

-- Why two versions of a class do not match as wholes. There are four reasons, looked at in order; a
-- conflict of signatures is the last of them.

namespace ApiUnion

namespace Merge

-- Why a snapshot does not match a class as a whole. What comes first counts.
inductive Mismatch (existing snapshot : ApiClass) : ConflictKind → Prop
  | kind (hkind : existing.access.classKind ≠ snapshot.access.classKind) :
      Mismatch existing snapshot .classKindMismatch
  | owner (hkind : existing.access.classKind = snapshot.access.classKind)
      (howner : existing.enclosing ≠ snapshot.enclosing) :
      Mismatch existing snapshot .ownerMismatch
  | superclass (hkind : existing.access.classKind = snapshot.access.classKind)
      (howner : existing.enclosing = snapshot.enclosing)
      (hsuperclass : existing.superclass ≠ snapshot.superclass) :
      Mismatch existing snapshot .superTypeMismatch
  | generics (hkind : existing.access.classKind = snapshot.access.classKind)
      (howner : existing.enclosing = snapshot.enclosing)
      (hsuperclass : existing.superclass = snapshot.superclass)
      (hgenerics : ∀ merged, classSignatures existing.signature snapshot.signature ≠ .ok merged) :
      Mismatch existing snapshot .genericsMismatch

-- Signatures can be in no conflict but one about generics.
def OnlyGenerics {α : Type} (result : Except Conflict α) : Prop :=
  ∀ conflict, result = .error conflict → conflict.kind = .genericsMismatch

theorem onlyGenerics_ok {α : Type} (a : α) : OnlyGenerics (.ok a) :=
  fun _ h => nomatch h

theorem onlyGenerics_error {α : Type} {conflict : Conflict}
    (h : conflict.kind = .genericsMismatch) :
    OnlyGenerics (.error conflict : Except Conflict α) := by
  rintro other hother
  obtain rfl := Except.error.inj hother
  exact h

theorem onlyGenerics_bind {α β : Type} {result : Except Conflict α} {next : α → Except Conflict β}
    (hresult : OnlyGenerics result) (hnext : ∀ a, OnlyGenerics (next a)) :
    OnlyGenerics (result >>= next) := by
  cases result with
  | ok a => exact hnext a
  | error conflict => exact onlyGenerics_error (hresult conflict rfl)

theorem onlyGenerics_readable {α : Type} (ofText : String → Except ClassFileError α)
    (text : String) : OnlyGenerics (readable ofText text) := by
  unfold readable
  cases ofText text with
  | ok signature => exact onlyGenerics_ok signature
  | error error => exact onlyGenerics_error rfl

theorem onlyGenerics_joined {α : Type} (target source : String) (join : Option α) :
    OnlyGenerics (joined target source join) := by
  cases join with
  | some join => exact onlyGenerics_ok join
  | none => exact onlyGenerics_error rfl

theorem onlyGenerics_classTexts (target source : String) :
    OnlyGenerics (classTexts target source) := by
  unfold classTexts
  refine onlyGenerics_bind (onlyGenerics_readable _ target) fun a => ?_
  refine onlyGenerics_bind (onlyGenerics_readable _ source) fun b => ?_
  split
  · exact onlyGenerics_ok target
  · exact onlyGenerics_bind (onlyGenerics_joined target source _) fun join => onlyGenerics_ok _

theorem onlyGenerics_classSignatures (target source : Option String) :
    OnlyGenerics (classSignatures target source) := by
  have hone (a b : Option String) :
      OnlyGenerics (throw (genericsMismatch s!"{erased a} vs {erased b}") :
        Except Conflict (Option String)) := onlyGenerics_error rfl
  cases target with
  | none =>
      cases source with
      | none => exact onlyGenerics_ok none
      | some y => exact hone none (some y)
  | some x =>
      cases source with
      | none => exact hone (some x) none
      | some y =>
          have hboth : classSignatures (some x) (some y) =
              if x = y then .ok (some x) else some <$> classTexts x y := rfl
          rw [hboth]
          split
          · exact onlyGenerics_ok (some x)
          · rw [map_eq_pure_bind]
            exact onlyGenerics_bind (onlyGenerics_classTexts x y) fun text =>
              onlyGenerics_ok (some text)

theorem mismatch_of_checkClass {existing snapshot : ApiClass} {conflict : Conflict}
    (h : checkClass existing snapshot = .error conflict) :
    Mismatch existing snapshot conflict.kind := by
  by_cases hkind : existing.access.classKind = snapshot.access.classKind
  · by_cases howner : existing.enclosing = snapshot.enclosing
    · by_cases hsuperclass : existing.superclass = snapshot.superclass
      · rw [checkClass_eq existing snapshot hkind howner hsuperclass] at h
        rw [onlyGenerics_classSignatures _ _ conflict h]
        refine .generics hkind howner hsuperclass fun merged hmerged => ?_
        rw [h] at hmerged
        cases hmerged
      · simp only [checkClass, hkind, howner, hsuperclass, ne_eq, not_true_eq_false,
          not_false_eq_true, if_false, if_true] at h
        obtain rfl := Except.error.inj h
        exact .superclass hkind howner hsuperclass
    · simp only [checkClass, hkind, howner, ne_eq, not_true_eq_false, not_false_eq_true, if_false,
        if_true] at h
      obtain rfl := Except.error.inj h
      exact .owner hkind howner
  · simp only [checkClass, hkind, ne_eq, not_false_eq_true, if_true] at h
    obtain rfl := Except.error.inj h
    exact .kind hkind

theorem not_mismatch_of_checkClass {existing snapshot : ApiClass} {signature : Option String}
    (h : checkClass existing snapshot = .ok signature) (kind : ConflictKind) :
    ¬ Mismatch existing snapshot kind := by
  obtain ⟨⟨hkind, howner, hsuperclass⟩, hgenerics⟩ := checkClass_eq_ok h
  rintro (hnot | ⟨-, hnot⟩ | ⟨-, -, hnot⟩ | ⟨-, -, -, hnot⟩)
  · exact hnot hkind
  · exact hnot howner
  · exact hnot hsuperclass
  · exact hnot signature hgenerics

end Merge

end ApiUnion
