import ApiUnion.Proofs.Catalog.Admission
import ApiUnion.Proofs.Merge.Refusing

-- Runs that are repeated. What was taken in is covered by the version of its class, which only
-- grows, and what was refused is refused again, so that a second pass changes no class.

namespace ApiUnion

open Version

-- The signature of a class can be read, declares no variable twice and names no interface twice.
def ApiClass.NamedOnce (entry : ApiClass) : Prop :=
  ∀ text ∈ entry.signature, ∃ signature ∈ (ClassSignature.ofText text).toOption,
    signature.ownNames.Nodup ∧ signature.interfaceNames.Nodup

instance (entry : ApiClass) : Decidable entry.NamedOnce :=
  inferInstanceAs (Decidable (∀ text ∈ entry.signature,
    ∃ signature ∈ (ClassSignature.ofText text).toOption,
      signature.ownNames.Nodup ∧ signature.interfaceNames.Nodup))

namespace Catalog

-- Whether a pass over the snapshots leaves all classes as they are.
def Repeats (catalog : Catalog) (snapshots : List ApiClass) : Prop :=
  (∀ outcome ∈ catalog.outcomes snapshots,
    outcome = .duplicate ∨ outcome = .rejected ∨ outcome = .skipped) ∧
  (catalog.appendAll snapshots).classes = catalog.classes

instance (catalog : Catalog) (snapshots : List ApiClass) : Decidable (catalog.Repeats snapshots) :=
  inferInstanceAs (Decidable (_ ∧ _))

-- A snapshot that cannot change anything any more: it is left out, or known already, or it does not
-- fit.
def Settled (catalog : Catalog) (snapshot : ApiClass) : Prop :=
  catalog.skips snapshot = true ∨ ∃ existing, catalog.get? snapshot.name = some existing ∧
    (existing.version.contains snapshot.version = true ∨ ¬existing.Fits snapshot)

-- Classes stand under their names, and their signatures can be merged time and again.
structure Sound (catalog : Catalog) : Prop where
  keyed : catalog.Keyed
  entries : ∀ name entry, catalog.get? name = some entry → entry.Sound

section Steps

variable {catalog : Catalog} {snapshot other : ApiClass}

theorem Settled.congr {after : Catalog} (hclasses : after.classes = catalog.classes)
    (hoptions : after.options = catalog.options) (h : catalog.Settled snapshot) :
    after.Settled snapshot := by
  unfold Settled skips get? at h ⊢
  rwa [hclasses, hoptions]

theorem append_of_settled (honce : snapshot.NamesInterfacesOnce) (h : catalog.Settled snapshot) :
    ((catalog.append snapshot).2 = .duplicate ∨ (catalog.append snapshot).2 = .rejected ∨
        (catalog.append snapshot).2 = .skipped) ∧
      (catalog.append snapshot).1.classes = catalog.classes ∧
      (catalog.append snapshot).1.options = catalog.options := by
  rcases h with hskips | ⟨existing, hexisting, hseen | hunfit⟩
  · unfold append
    rw [if_pos hskips]
    exact ⟨.inr (.inr rfl), rfl, rfl⟩
  · unfold append
    by_cases hskips : catalog.skips snapshot
    · rw [if_pos hskips]
      exact ⟨.inr (.inr rfl), rfl, rfl⟩
    · rw [if_neg hskips, hexisting]
      simp [hseen]
  · rcases catalog.append_cases snapshot with hkept | ⟨hnone, -⟩ |
      ⟨known, signature, -, hknown, hchecked, -⟩
    · exact hkept
    · rw [hexisting] at hnone
      cases hnone
    · rw [hexisting] at hknown
      obtain rfl := Option.some.inj hknown
      exact absurd (Merge.fits_of_checkClass honce hchecked) hunfit

theorem settled_of_acceptance?_eq_none (hsound : catalog.Sound) (hsnapshot : snapshot.Sound)
    (h : acceptance? snapshot.name catalog snapshot = none) : catalog.Settled snapshot := by
  unfold acceptance? append at h
  rw [if_neg (not_not.mpr rfl)] at h
  by_cases hskips : catalog.skips snapshot
  · exact .inl hskips
  rw [if_neg hskips] at h
  cases hexisting : catalog.get? snapshot.name with
  | none =>
      rw [hexisting] at h
      cases h
  | some existing =>
      refine .inr ⟨existing, hexisting, ?_⟩
      by_cases hseen : existing.version.contains snapshot.version
      · exact .inl hseen
      refine .inr fun hfits => ?_
      obtain ⟨signature, hchecked⟩ :=
        Merge.checkClass_of_fits (hsound.entries _ existing hexisting) hsnapshot hfits
      simp [hexisting, hseen, Merge.value_classes, hchecked, Except.toOption] at h

theorem contains_of_plus {a b c : Version} (h : a.contains c = true) :
    (a.plus b).contains c = true := by
  have hself := contains_self (a.plus b)
  rw [contains_plus, Bool.and_eq_true] at hself
  exact contains_trans hself.1 h

theorem sound_append (hsound : catalog.Sound) (hsnapshot : snapshot.Sound) :
    (catalog.append snapshot).1.Sound := by
  refine ⟨keyed_append catalog snapshot hsound.keyed, fun name entry hentry => ?_⟩
  cases appended_append name catalog snapshot hsound.keyed with
  | kept _ hget => exact hsound.entries name entry (hget.symm.trans hentry)
  | installed _ _ hget =>
      rw [hget] at hentry
      obtain rfl := Option.some.inj hentry
      exact hsnapshot
  | merged existing signature _ hbefore hchecked hget =>
      rw [hget] at hentry
      obtain rfl := Option.some.inj hentry
      exact (Merge.fits_applyClass catalog.options (hsound.entries name existing hbefore) hsnapshot
        hchecked).1

-- Whatever became of a snapshot, there is nothing more to it.
theorem settled_append (hsound : catalog.Sound) (hsnapshot : snapshot.Sound) :
    (catalog.append snapshot).1.Settled snapshot := by
  cases appended_append snapshot.name catalog snapshot hsound.keyed with
  | kept haccepted hget =>
      have h := settled_of_acceptance?_eq_none hsound hsnapshot haccepted
      unfold Settled skips at h ⊢
      rwa [hget, options_append]
  | installed _ _ hget => exact .inr ⟨snapshot, hget, .inl (contains_self _)⟩
  | merged existing signature _ _ _ hget =>
      refine .inr ⟨_, hget, .inl ?_⟩
      have hversion : (Merge.applyClass catalog.options existing snapshot signature).value.version =
          existing.version.plus snapshot.version := rfl
      rw [hversion, plus_comm]
      exact contains_of_plus (contains_self _)

theorem Settled.append (hsound : catalog.Sound) (hother : other.Sound)
    (h : catalog.Settled snapshot) : (catalog.append other).1.Settled snapshot := by
  rcases h with hskips | ⟨existing, hexisting, hcase⟩
  · refine .inl ?_
    unfold skips
    rw [options_append]
    exact hskips
  cases appended_append snapshot.name catalog other hsound.keyed with
  | kept _ hget => exact .inr ⟨existing, hget.trans hexisting, hcase⟩
  | installed _ hbefore _ =>
      rw [hexisting] at hbefore
      cases hbefore
  | merged known signature _ hbefore hchecked hget =>
      rw [hexisting] at hbefore
      obtain rfl := Option.some.inj hbefore
      -- The version has grown, and whatever fits the merged class would have fit it before.
      refine .inr ⟨_, hget, hcase.imp (fun hseen => ?_) fun hunfit hfits => ?_⟩
      · exact contains_of_plus hseen
      · exact hunfit (Merge.fits_of_fits_applyClass catalog.options
          (hsound.entries _ existing hexisting) hother hchecked hfits)

end Steps

theorem Settled.appendAll {catalog : Catalog} {snapshot : ApiClass} (snapshots : List ApiClass)
    (hsound : catalog.Sound) (hsnapshots : ∀ other ∈ snapshots, other.Sound)
    (h : catalog.Settled snapshot) : (catalog.appendAll snapshots).Settled snapshot := by
  induction snapshots generalizing catalog with
  | nil => exact h
  | cons other rest ih =>
      rw [List.forall_mem_cons] at hsnapshots
      exact ih (sound_append hsound hsnapshots.1) hsnapshots.2 (h.append hsound hsnapshots.1)

theorem settled_appendAll {catalog : Catalog} (snapshots : List ApiClass) (hsound : catalog.Sound)
    (hsnapshots : ∀ snapshot ∈ snapshots, snapshot.Sound) :
    ∀ snapshot ∈ snapshots, (catalog.appendAll snapshots).Settled snapshot := by
  induction snapshots generalizing catalog with
  | nil => simp
  | cons first rest ih =>
      rw [List.forall_mem_cons] at hsnapshots
      have hafter := sound_append hsound hsnapshots.1
      rw [List.forall_mem_cons]
      exact ⟨(settled_append hsound hsnapshots.1).appendAll rest hafter hsnapshots.2,
        ih hafter hsnapshots.2⟩

theorem repeats_of_settled {catalog : Catalog} (snapshots : List ApiClass)
    (honce : ∀ snapshot ∈ snapshots, snapshot.NamesInterfacesOnce)
    (h : ∀ snapshot ∈ snapshots, catalog.Settled snapshot) : catalog.Repeats snapshots := by
  induction snapshots generalizing catalog with
  | nil => exact ⟨by simp [outcomes], rfl⟩
  | cons first rest ih =>
      rw [List.forall_mem_cons] at honce h
      obtain ⟨houtcome, hclasses, hoptions⟩ := append_of_settled honce.1 h.1
      obtain ⟨houtcomes, hrest⟩ := ih honce.2 fun snapshot hsnapshot =>
        (h.2 snapshot hsnapshot).congr hclasses hoptions
      refine ⟨?_, hrest.trans hclasses⟩
      rw [outcomes, List.forall_mem_cons]
      exact ⟨houtcome, houtcomes⟩

-- A run that is repeated changes nothing if all class signatures can be merged time and again and
-- name no interface twice.
theorem repeats_run (options : MergeOptions) (snapshots : List ApiClass)
    (hsound : ∀ snapshot ∈ snapshots, snapshot.Sound)
    (honce : ∀ snapshot ∈ snapshots, snapshot.NamesInterfacesOnce) :
    ((empty options).appendAll snapshots).Repeats snapshots := by
  have hempty : (empty options).Sound :=
    ⟨keyed_empty options, fun name entry hentry => by simp [empty, get?] at hentry⟩
  exact repeats_of_settled snapshots honce (settled_appendAll snapshots hempty hsound)

-- A class with a signature, in one version.
def signed (signature tag : String) (interfaces : List String) : ApiClass where
  name := "p/A"
  access := ⟨0x0001⟩
  superclass := some "p/S"
  signature := some signature
  interfaces := interfaces
  version := .single tag

-- The second snapshot is refused, before and after the signature of the class has loosened.
theorem repeats_signed :
    let snapshots := [signed "<X:Lp/A;>Lp/S<TX;>;" "1" [],
      signed "<X:Lp/A;>Lp/S<**>;" "2" [],
      signed "<Y:Lp/A;>Lp/S<+TY;>;Lp/J<TY;>;" "3" ["p/J"]]
    (empty {}).outcomes snapshots = [.installed, .rejected, .merged] ∧
      ((empty {}).appendAll snapshots).Repeats snapshots := by
  intro snapshots
  have hsound : ∀ snapshot ∈ snapshots, snapshot.Sound := by decide +kernel
  have honce : ∀ snapshot ∈ snapshots, snapshot.NamesInterfacesOnce := by decide +kernel
  exact ⟨by decide +kernel, repeats_run {} snapshots hsound honce⟩

-- The variable of the first signature ends early where the third one uses it. So the merged text
-- has one argument more, and what was refused before is merged.
theorem merged_signed :
    ¬ ∀ (options : MergeOptions) (snapshots : List ApiClass),
      (∀ snapshot ∈ snapshots, snapshot.NamedOnce) →
        ((empty options).appendAll snapshots).Repeats snapshots := by
  intro h
  have hrepeats := h {} [signed "<a;Lx/Y:Lp/A;>Lp/S<TT0;>;" "1" [],
    signed "<Y:Lp/A;>Lp/S<**>;" "2" [],
    signed "<Y:Lp/A;>Lp/S<TY;>;Lp/J;" "3" ["p/J"]] (by decide +kernel)
  exact absurd hrepeats (by decide +kernel)

end Catalog

end ApiUnion
