import ApiUnion.Proofs.Access
import ApiUnion.Proofs.Merge.Facets
import ApiUnion.Proofs.Merge.Members
import ApiUnion.Proofs.Merge.Signatures
import ApiUnion.Proofs.Signature.MethodShape

-- Variants of a method that stay apart. What a variant takes in is like it already, so the variant
-- goes on to refuse what it refused before, unless it loses its signature.

namespace ApiUnion

open Renaming

namespace MethodSignature

-- No name is declared twice, and none ends early where it is used.
structure Declarable (signature : MethodSignature) : Prop where
  distinct : signature.ownNames.Nodup
  usable : ∀ name ∈ signature.ownNames, ';' ∉ name.toList

instance (signature : MethodSignature) : Decidable signature.Declarable :=
  decidable_of_iff (signature.ownNames.Nodup ∧ ∀ name ∈ signature.ownNames, ';' ∉ name.toList)
    ⟨fun h => ⟨h.1, h.2⟩, fun h => ⟨h.distinct, h.usable⟩⟩

theorem ofChars?_of_ofText {text : String} {signature : MethodSignature}
    (h : ofText text = .ok signature) : ofChars? text.toList = some signature := by
  obtain ⟨hlegible, htext⟩ := (ofText_eq_ok_iff _ _).mp h
  exact (ofChars?_eq_some_iff _ _).mpr ⟨hlegible, (eq_ofList_iff _ _).mpr htext⟩

end MethodSignature

namespace ApiMethod

-- What can be read of the signature declares its names properly.
def Declarable (method : ApiMethod) : Prop :=
  ∀ text ∈ method.signature, ∀ signature ∈ MethodSignature.ofChars? text.toList,
    signature.Declarable

instance (method : ApiMethod) : Decidable method.Declarable :=
  inferInstanceAs (Decidable (∀ text ∈ method.signature,
    ∀ signature ∈ MethodSignature.ofChars? text.toList, signature.Declarable))

end ApiMethod

theorem Access.methodKind_withVisibility (access : Access) (visibility : Visibility) :
    (access.withVisibility visibility).methodKind = access.methodKind :=
  bits_withVisibility_and access visibility methodKindMask (by decide)

theorem Access.methodKind_withModality (access : Access) (modality : Modality) :
    (access.withModality modality).methodKind = access.methodKind :=
  bits_withModality_and access modality methodKindMask (by decide)

namespace Merge

-- Texts of signatures that are merged: the same text, or such as are read and have one canonical
-- form or, if they are joined, canonical forms of one shape.
def Reconcilable (deep : Bool) (x y : String) : Prop :=
  x = y ∨ ∃ a b, MethodSignature.ofText x = .ok a ∧ MethodSignature.ofText y = .ok b ∧
    if deep then a.canonical.shape = b.canonical.shape else a.canonical = b.canonical

theorem Reconcilable.symm {deep : Bool} {x y : String} (h : Reconcilable deep x y) :
    Reconcilable deep y x := by
  rcases h with rfl | ⟨a, b, ha, hb, hsame⟩
  · exact .inl rfl
  · refine .inr ⟨b, a, hb, ha, ?_⟩
    cases deep with
    | true => exact Eq.symm hsame
    | false => exact Eq.symm hsame

theorem Reconcilable.trans {deep : Bool} {x y z : String} (hxy : Reconcilable deep x y)
    (hyz : Reconcilable deep y z) : Reconcilable deep x z := by
  rcases hxy with rfl | ⟨a, b, ha, hb, hab⟩
  · exact hyz
  · rcases hyz with rfl | ⟨b', c, hb', hc, hbc⟩
    · exact .inr ⟨a, b, ha, hb, hab⟩
    · obtain rfl := Except.ok.inj (hb.symm.trans hb')
      refine .inr ⟨a, c, ha, hc, ?_⟩
      cases deep with
      | true => exact Eq.trans hab hbc
      | false => exact Eq.trans hab hbc

theorem isOk_methodSignatures_iff (x y : String) (deep : Bool) :
    (methodSignatures (some x) (some y) deep).isOk = true ↔ Reconcilable deep x y := by
  by_cases hne : x = y
  · have hsame : methodSignatures (some x) (some y) deep = .ok (some x) := if_pos hne
    rw [hsame]
    exact ⟨fun _ => .inl hne, fun _ => rfl⟩
  · have htexts : methodSignatures (some x) (some y) deep = some <$> methodTexts x y deep :=
      if_neg hne
    have hok : (some <$> methodTexts x y deep : Except Conflict (Option String)).isOk = true ↔
        ∃ merged, methodTexts x y deep = .ok merged := by
      cases methodTexts x y deep with
      | ok merged => exact ⟨fun _ => ⟨merged, rfl⟩, fun _ => rfl⟩
      | error conflict => exact ⟨fun h => (nomatch h), fun ⟨_, h⟩ => (nomatch h)⟩
    rw [htexts, hok]
    constructor
    · rintro ⟨merged, h⟩
      obtain ⟨a, ha, b, hb, ⟨hsame, -⟩ | ⟨-, rfl, join, hjoin, -⟩⟩ :=
        (methodTexts_eq_ok_iff _ _ _ _).mp h
      · refine .inr ⟨a, b, ha, hb, ?_⟩
        cases deep with
        | true => exact congrArg MethodSignature.shape hsame
        | false => exact hsame
      · exact .inr ⟨a, b, ha, hb, MethodSignature.shape_eq_of_join? hjoin⟩
    · intro h
      obtain ⟨a, b, ha, hb, hsame⟩ := h.resolve_left hne
      by_cases hcanonical : a.canonical = b.canonical
      · exact ⟨x, (methodTexts_eq_ok_iff _ _ _ _).mpr ⟨a, ha, b, hb, .inl ⟨hcanonical, rfl⟩⟩⟩
      · cases deep with
        | false => exact absurd hsame hcanonical
        | true =>
            obtain ⟨join, hjoin⟩ :=
              Option.isSome_iff_exists.mp (MethodSignature.isSome_join?_of_shape hsame)
            exact ⟨_, (methodTexts_eq_ok_iff _ _ _ _).mpr
              ⟨a, ha, b, hb, .inr ⟨hcanonical, rfl, join, hjoin, rfl⟩⟩⟩

theorem methodSignatures_ne_none (x y : String) (deep : Bool) :
    methodSignatures (some x) (some y) deep ≠ .ok none := by
  intro h
  by_cases hne : x = y
  · have hsame : methodSignatures (some x) (some y) deep = .ok (some x) := if_pos hne
    rw [hsame] at h
    cases h
  · have htexts : methodSignatures (some x) (some y) deep = some <$> methodTexts x y deep :=
      if_neg hne
    rw [htexts] at h
    cases hmerged : methodTexts x y deep with
    | ok merged => rw [hmerged] at h; cases h
    | error conflict => rw [hmerged] at h; cases h

-- What a signature merges with another into is merged with the same signatures as before.
theorem reconcilable_merged {x y z : String} {deep : Bool}
    (hx : ∀ a, MethodSignature.ofText x = .ok a → a.Declarable)
    (h : methodSignatures (some x) (some y) deep = .ok (some z)) :
    Reconcilable deep x z ∧ ∀ c, MethodSignature.ofText z = .ok c → c.Declarable := by
  by_cases hne : x = y
  · have hsame : methodSignatures (some x) (some y) deep = .ok (some x) := if_pos hne
    obtain rfl := Option.some.inj (Except.ok.inj (hsame.symm.trans h))
    exact ⟨.inl rfl, hx⟩
  · obtain ⟨a, ha, b, hb, ⟨-, rfl⟩ | ⟨-, rfl, join, hjoin, rfl⟩⟩ :=
      (methodTexts_eq_ok_iff _ _ _ _).mp ((methodSignatures_eq_ok_iff hne deep z).mp h)
    · exact ⟨.inl rfl, hx⟩
    · have hdeclarable := hx a ha
      have hlegible := ((MethodSignature.ofText_eq_ok_iff _ _).mp ha).1
      have hread := (MethodSignature.ofText_eq_ok_iff _ _).mpr
        ⟨MethodSignature.legible_merged hlegible hdeclarable.usable hjoin, rfl⟩
      have hnames := (MethodSignature.ownNames_fromPlaceholders hdeclarable.distinct hjoin).2
      refine ⟨.inr ⟨a, _, ha, hread, ?_⟩, fun c hc => ?_⟩
      · rw [if_pos rfl, MethodSignature.canonical_fromPlaceholders hdeclarable.distinct hjoin,
          MethodSignature.shape_join? hjoin]
      · obtain rfl := Except.ok.inj (hread.symm.trans hc)
        constructor
        · rw [hnames]
          exact hdeclarable.distinct
        · rw [hnames]
          exact hdeclarable.usable

variable {options : MergeOptions}

-- Whether signatures are joined to that of the method.
def joins (options : MergeOptions) (method : ApiMethod) : Bool :=
  method.isConstructor || options.deep

theorem isOk_checkMethod_iff (target incoming : ApiMethod) :
    (checkMethod options target incoming).isOk = true ↔
      target.access.methodKind = incoming.access.methodKind ∧
        ∀ x ∈ target.signature, ∀ y ∈ incoming.signature,
          Reconcilable (joins options target) x y := by
  unfold checkMethod
  dsimp only
  split
  · rename_i hkind
    simp only [hkind, true_and]
    cases hx : target.signature with
    | none => exact ⟨fun _ x h => (nomatch h), fun _ => rfl⟩
    | some x =>
        cases hy : incoming.signature with
        | none => exact ⟨fun _ _ _ y h => (nomatch h), fun _ => rfl⟩
        | some y => simpa [joins] using isOk_methodSignatures_iff x y (joins options target)
  · rename_i hkind
    exact ⟨fun h => (nomatch h), fun h => absurd h.1 hkind⟩

theorem signature_of_checkMethod {target incoming : ApiMethod} {signature : Option String}
    (h : checkMethod options target incoming = .ok signature) :
    methodSignatures target.signature incoming.signature (joins options target) =
      .ok signature := by
  unfold checkMethod at h
  dsimp only at h
  split at h
  · exact h
  · cases h

theorem methodKind_applyMethod (subject : String) (target incoming : ApiMethod)
    (signature : Option String) :
    (applyMethod subject target incoming signature).value.access.methodKind =
      target.access.methodKind :=
  (kept_widen Access.methodKind_withModality ⟨_, target.modalities, target.version⟩
      ⟨incoming.access, incoming.modalities, incoming.version⟩).trans
    (kept_widen Access.methodKind_withVisibility ⟨target.access, target.visibilities, target.version⟩
      ⟨incoming.access, incoming.visibilities, incoming.version⟩)

-- A variant and a later one. The first refuses the second, unless it has no signature and takes in
-- every method of its kind. Where signatures are not joined in general, constructors are not
-- compared with other methods.
def Separate (options : MergeOptions) (a b : ApiMethod) : Prop :=
  joins options a = joins options b →
    (checkMethod options a b).isOk = false ∨
      a.signature = none ∧ a.access.methodKind = b.access.methodKind

instance (options : MergeOptions) (a b : ApiMethod) : Decidable (Separate options a b) :=
  inferInstanceAs (Decidable (_ → _))

theorem separate_of_refused {a b : ApiMethod} (h : (checkMethod options a b).isOk = false) :
    Separate options a b :=
  fun _ => .inl h

-- Refusing a method of one's kind means that both have signatures, and they are irreconcilable.
theorem signatures_of_refused {a b : ApiMethod} (h : (checkMethod options a b).isOk = false)
    (hkind : a.access.methodKind = b.access.methodKind) :
    ∃ x y, a.signature = some x ∧ b.signature = some y ∧
      ¬ Reconcilable (joins options a) x y := by
  have hnot := mt (isOk_checkMethod_iff a b).mpr (by rw [h]; exact Bool.false_ne_true)
  cases hx : a.signature with
  | none => exact absurd ⟨hkind, fun x hmem => by simp [hx] at hmem⟩ hnot
  | some x =>
      cases hy : b.signature with
      | none => exact absurd ⟨hkind, fun _ _ y hmem => by simp [hy] at hmem⟩ hnot
      | some y =>
          refine ⟨x, y, rfl, rfl, fun hsame => hnot ⟨hkind, fun x' hx' y' hy' => ?_⟩⟩
          rw [hx] at hx'
          rw [hy] at hy'
          obtain rfl := Option.some.inj hx'
          obtain rfl := Option.some.inj hy'
          exact hsame

theorem refused_of_not_reconcilable {a b : ApiMethod} {x y : String} (hx : a.signature = some x)
    (hy : b.signature = some y) (h : ¬ Reconcilable (joins options a) x y) :
    (checkMethod options a b).isOk = false := by
  rw [← Bool.not_eq_true, isOk_checkMethod_iff]
  exact fun hok => h (hok.2 x hx y hy)

theorem refused_of_methodKind {a b : ApiMethod}
    (h : a.access.methodKind ≠ b.access.methodKind) : (checkMethod options a b).isOk = false := by
  rw [← Bool.not_eq_true, isOk_checkMethod_iff]
  exact fun hok => h hok.1

section Absorbing

variable {target incoming : ApiMethod} {signature : Option String}
  (hchecked : checkMethod options target incoming = .ok signature) (subject : String)

include hchecked

-- Where a merged method has a signature it is that of two, reconcilable with that of the target.
theorem signature_merged (htarget : target.Declarable) {z : String}
    (hz : signature = some z) :
    ∃ w y, target.signature = some w ∧ incoming.signature = some y ∧
      Reconcilable (joins options target) w z ∧
      ∀ c, MethodSignature.ofText z = .ok c → c.Declarable := by
  have hmerged := signature_of_checkMethod hchecked
  subst hz
  cases hw : target.signature with
  | none => simp [hw, methodSignatures, pure, Except.pure] at hmerged
  | some w =>
      cases hy : incoming.signature with
      | none => simp [hw, hy, methodSignatures, pure, Except.pure] at hmerged
      | some y =>
          rw [hw, hy] at hmerged
          have hdeclarable : ∀ a, MethodSignature.ofText w = .ok a → a.Declarable :=
            fun a ha => htarget w hw a (MethodSignature.ofChars?_of_ofText ha)
          obtain ⟨hsame, hz⟩ := reconcilable_merged hdeclarable hmerged
          exact ⟨w, y, rfl, rfl, hsame, hz⟩

theorem declarable_merged (htarget : target.Declarable) :
    (applyMethod subject target incoming signature).value.Declarable := by
  intro z hz c hc
  obtain ⟨-, -, -, -, -, hdeclarable⟩ := signature_merged hchecked htarget hz
  refine hdeclarable c ((MethodSignature.ofText_eq_ok_iff z c).mpr ?_)
  obtain ⟨hlegible, htext⟩ := (MethodSignature.ofChars?_eq_some_iff _ _).mp hc
  exact ⟨hlegible, (eq_ofList_iff _ _).mp htext⟩

theorem methodKind_of_checkMethod :
    target.access.methodKind = incoming.access.methodKind := by
  have hok : (checkMethod options target incoming).isOk = true := by
    rw [hchecked]
    rfl
  exact ((isOk_checkMethod_iff target incoming).mp hok).1

-- An earlier variant refused what is merged into a later one.
theorem separate_merged_right {earlier : ApiMethod} (htarget : target.Declarable)
    (h : Separate options earlier target)
    (hrefused : (checkMethod options earlier incoming).isOk = false) :
    Separate options earlier (applyMethod subject target incoming signature).value := by
  intro hjoins
  by_cases hkind : earlier.access.methodKind = target.access.methodKind
  · obtain ⟨x, y, hx, hy, hxy⟩ :=
      signatures_of_refused hrefused (hkind.trans (methodKind_of_checkMethod hchecked))
    have htargetRefused : (checkMethod options earlier target).isOk = false :=
      (h hjoins).resolve_right fun hnone => by simp [hx] at hnone
    obtain ⟨x', w, hx', hw, hxw⟩ := signatures_of_refused htargetRefused hkind
    obtain rfl := Option.some.inj (hx.symm.trans hx')
    left
    cases hz : signature with
    | none =>
        -- Neither side lacks a signature, so that of the merged method is not dropped.
        have hmerged := signature_of_checkMethod hchecked
        rw [hw, hy, hz] at hmerged
        exact absurd hmerged (methodSignatures_ne_none w y _)
    | some z =>
        obtain ⟨w', y', hw', -, hwz, -⟩ := signature_merged hchecked htarget hz
        obtain rfl := Option.some.inj (hw.symm.trans hw')
        refine refused_of_not_reconcilable hx rfl fun hxz => hxw (hxz.trans ?_)
        rw [hjoins]
        exact hwz.symm
  · refine .inl (refused_of_methodKind ?_)
    rwa [methodKind_applyMethod]

-- A later variant was refused by the one that takes something in.
theorem separate_merged_left {later : ApiMethod} (htarget : target.Declarable)
    (h : Separate options target later) :
    Separate options (applyMethod subject target incoming signature).value later := by
  intro hjoins
  by_cases hkind : target.access.methodKind = later.access.methodKind
  · cases hz : signature with
    | none => exact .inr ⟨rfl, (methodKind_applyMethod ..).trans hkind⟩
    | some z =>
        obtain ⟨w, y, hw, -, hwz, -⟩ := signature_merged hchecked htarget hz
        have hrefused : (checkMethod options target later).isOk = false :=
          (h hjoins).resolve_right fun hnone => by simp [hw] at hnone
        obtain ⟨w', u, hw', hu, hwu⟩ := signatures_of_refused hrefused hkind
        obtain rfl := Option.some.inj (hw.symm.trans hw')
        exact .inl (refused_of_not_reconcilable rfl hu fun hzu => hwu (hwz.trans hzu))
  · refine .inl (refused_of_methodKind ?_)
    rwa [methodKind_applyMethod]

end Absorbing

-- Variants that stay apart, each with a signature that can be merged time and again.
structure Separated (options : MergeOptions) (variants : List ApiMethod) : Prop where
  declarable : ∀ method ∈ variants, method.Declarable
  pairwise : variants.Pairwise (Separate options)

theorem separated_absorbed {variants after : List ApiMethod} {incoming : ApiMethod}
    (h : Separated options variants) (hincoming : incoming.Declarable)
    (habsorbed : Absorbed options variants incoming after) : Separated options after := by
  cases habsorbed with
  | into front target back signature subject hvariants hrefused hchecked hafter =>
      subst hvariants hafter
      obtain ⟨hdeclarable, hpairwise⟩ := h
      rw [List.forall_mem_append, List.forall_mem_cons] at hdeclarable
      obtain ⟨hfrontDeclarable, htarget, hbackDeclarable⟩ := hdeclarable
      obtain ⟨hfront, hrest, hacross⟩ := List.pairwise_append.mp hpairwise
      obtain ⟨hlater, hback⟩ := List.pairwise_cons.mp hrest
      constructor
      · rw [List.forall_mem_append, List.forall_mem_cons]
        exact ⟨hfrontDeclarable, declarable_merged hchecked subject htarget, hbackDeclarable⟩
      · refine List.pairwise_append.mpr ⟨hfront, List.pairwise_cons.mpr ⟨?_, hback⟩, ?_⟩
        · exact fun later hmem =>
            separate_merged_left hchecked subject htarget (hlater later hmem)
        · intro earlier hearlier
          rw [List.forall_mem_cons]
          refine ⟨separate_merged_right hchecked subject htarget ?_ (hrefused earlier hearlier),
            fun later hlater => hacross earlier hearlier later (List.mem_cons_of_mem _ hlater)⟩
          exact hacross earlier hearlier target List.mem_cons_self
  | beside hrefused hafter =>
      subst hafter
      constructor
      · rw [List.forall_mem_append, List.forall_mem_singleton]
        exact ⟨h.declarable, hincoming⟩
      · refine List.pairwise_append.mpr ⟨h.pairwise, List.pairwise_singleton _ _, ?_⟩
        intro earlier hearlier
        rw [List.forall_mem_singleton]
        exact separate_of_refused (hrefused earlier hearlier)

theorem separated_foldlM (owner : String) (slot : MethodSlot) (incoming : List ApiMethod)
    (h : Separated options slot.toList) (hincoming : ∀ method ∈ incoming, method.Declarable) :
    Separated options (incoming.foldlM (intoVariants options owner) slot).value.toList := by
  induction incoming generalizing slot with
  | nil => exact h
  | cons method incoming ih =>
      rw [List.forall_mem_cons] at hincoming
      rw [List.foldlM_cons, Logged.value_bind]
      exact ih _ (separated_absorbed h hincoming.1
        (absorbed_intoVariants options owner slot method)) hincoming.2

-- Versions do not matter.
theorem separated_explicitMethod (version : Version) {slot : MethodSlot}
    (h : Separated options slot.toList) :
    Separated options (slot.map (explicitMethod version)).toList := by
  rw [MethodSlot.toList_map]
  constructor
  · rw [List.forall_mem_map]
    exact h.declarable
  · rw [List.pairwise_map]
    exact h.pairwise

end Merge

end ApiUnion
