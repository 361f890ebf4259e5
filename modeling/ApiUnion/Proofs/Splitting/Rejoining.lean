import ApiUnion.Proofs.Catalog.Admission
import ApiUnion.Proofs.Splitting.Computed
import ApiUnion.Proofs.Splitting.Likeness
import ApiUnion.Proofs.Splitting.Partition
import ApiUnion.Proofs.Table

-- Grouped snapshots merge: once split classes go by the names of their groups, no snapshot is
-- rejected that comes after others of its new name.

namespace ApiUnion

theorem ofText_renameInClassSignature {names : String → String} (hnames : NumbersNames names)
    {text : String} {signature : ClassSignature} (h : ClassSignature.ofText text = .ok signature) :
    ClassSignature.ofText (renameInClassSignature names text) =
      .ok (signature.renameClasses names) := by
  have hlegible := ((ClassSignature.ofText_eq_ok_iff _ _).mp h).1
  refine (ClassSignature.ofText_eq_ok_iff _ _).mpr ⟨hlegible.renameClasses hnames, ?_⟩
  rw [renameInClassSignature, ClassSignature.ofChars?_of_ofText h, Option.elim_some]

theorem Groups.numbersNames_nameIn (groups : Groups) (version : Version) :
    NumbersNames (groups.nameIn version) := by
  intro name
  unfold Groups.nameIn
  split
  · split
    · exact .inr ⟨_, rfl⟩
    · exact .inl rfl
  · exact .inl rfl

-- All generic signatures of the class can be read, whatever they are of.
def ApiClass.Readable (entry : ApiClass) : Prop :=
  (∀ text ∈ entry.signature, (ClassSignature.ofChars? text.toList).isSome) ∧
    (∀ field ∈ entry.fields.values, ∀ text ∈ field.signature,
      (GenericType.ofChars? text.toList).isSome) ∧
    ∀ method ∈ entry.allMethods, ∀ text ∈ method.signature,
      (MethodSignature.ofChars? text.toList).isSome

instance (entry : ApiClass) : Decidable entry.Readable :=
  inferInstanceAs (Decidable (_ ∧ _ ∧ _))

namespace Splitting

variable {groups : Groups} {a b : ApiClass}

-- What must not be ambiguous of two snapshots that come under one name: which class they are of,
-- the classes in the descriptor of an enclosing method, and those that their signatures consist of.
@[mk_iff]
structure Unambiguous (groups : Groups) (a b : ApiClass) : Prop where
  name : a.name = b.name
  descriptor : ∀ owner ∈ a.enclosing, ∀ text ∈ owner.descriptor,
    ∀ type ∈ MethodType.ofText? text, ∀ name ∈ type.classNames,
      groups.nameIn a.version name = groups.nameIn b.version name
  signature : ∀ x ∈ a.signature, ∀ y ∈ b.signature,
    ∀ first ∈ ClassSignature.ofChars? x.toList, ∀ second ∈ ClassSignature.ofChars? y.toList,
      first.Unambiguous (groups.nameIn a.version) (groups.nameIn b.version) second

instance (groups : Groups) (a b : ApiClass) : Decidable (Unambiguous groups a b) :=
  decidable_of_iff' _ (unambiguous_iff groups a b)

theorem sound_renameClass {names : String → String} (hnames : NumbersNames names)
    (h : a.Sound) : (renameClass names a).Sound := by
  intro text htext
  obtain ⟨old, hold, rfl⟩ := Option.mem_map.mp htext
  obtain ⟨signature, hread, hdeclarable⟩ := h old hold
  refine ⟨_, ofText_renameInClassSignature hnames hread, ?_, ?_⟩
  · rw [ClassSignature.ownNames_renameClasses]
    exact hdeclarable.distinct
  · rw [ClassSignature.ownNames_renameClasses]
    exact hdeclarable.usable

theorem renameOwner_of_sameOwner {left right : Version} {x y : Option EnclosingMethod}
    (h : Holds (sameOwner ⟨groups, left, right⟩ x y))
    (hnames : ∀ owner ∈ x, ∀ text ∈ owner.descriptor, ∀ type ∈ MethodType.ofText? text,
      ∀ name ∈ type.classNames, groups.nameIn left name = groups.nameIn right name) :
    x.map (renameOwner (groups.nameIn left)) = y.map (renameOwner (groups.nameIn right)) := by
  cases x with
  | none =>
      cases y with
      | none => rfl
      | some y => simp [sameOwner] at h
  | some x =>
      cases y with
      | none => simp [sameOwner] at h
      | some y =>
          simp only [sameOwner] at h
          obtain ⟨hsame, hclass⟩ := h.ite
          rw [Bool.and_eq_true, decide_eq_true_eq, decide_eq_true_eq] at hsame
          obtain ⟨howner, halike⟩ := nameIn_of_sameClass hclass
          have hdescriptor : x.descriptor.map (renameInMethodDescriptor (groups.nameIn left)) =
              y.descriptor.map (renameInMethodDescriptor (groups.nameIn right)) := by
            rw [← hsame.2]
            exact Option.map_congr fun text htext =>
              renameInMethodDescriptor_congr text (hnames x rfl text htext)
          rw [Option.map_some, Option.map_some, renameOwner, renameOwner, halike, hdescriptor,
            hsame.1]

theorem textFits_of_sameSignature {left right : Version} {x y : Option String}
    (h : Holds (sameSignature ⟨groups, left, right⟩ x y))
    (hx : ∀ text ∈ x, SoundText text) (hy : ∀ text ∈ y, SoundText text)
    (hnames : ∀ text ∈ x, ∀ other ∈ y, ∀ first ∈ ClassSignature.ofChars? text.toList,
      ∀ second ∈ ClassSignature.ofChars? other.toList,
        first.Unambiguous (groups.nameIn left) (groups.nameIn right) second) :
    Option.Rel TextFits (x.map (renameInClassSignature (groups.nameIn left)))
      (y.map (renameInClassSignature (groups.nameIn right))) := by
  cases x with
  | none =>
      cases y with
      | none => exact .none
      | some y => simp [sameSignature] at h
  | some x =>
      cases y with
      | none => simp [sameSignature] at h
      | some y =>
          obtain ⟨first, hfirst, -⟩ := hx x rfl
          obtain ⟨second, hsecond, -⟩ := hy y rfl
          have hfirstRead := ClassSignature.ofChars?_of_ofText hfirst
          have hsecondRead := ClassSignature.ofChars?_of_ofText hsecond
          simp only [sameSignature, hfirstRead, hsecondRead] at h
          refine .some fun a b ha hb => ?_
          rw [ofText_renameInClassSignature (groups.numbersNames_nameIn left) hfirst] at ha
          rw [ofText_renameInClassSignature (groups.numbersNames_nameIn right) hsecond] at hb
          obtain rfl := Except.ok.inj ha
          obtain rfl := Except.ok.inj hb
          rw [ClassSignature.canonical_renameClasses, ClassSignature.canonical_renameClasses]
          exact fits_of_sameCanonical h
            ((hnames x rfl y rfl first hfirstRead second hsecondRead).rename _ _)

-- What the grouping takes for mergeable fits under the new names.
theorem fits_renameOne (ha : a.Sound) (hb : b.Sound) (hnames : Unambiguous groups a b)
    (h : mergeable? groups a b) :
    (Splitter.renameOne groups a).Fits (Splitter.renameOne groups b) := by
  have hholds : Holds (mergeable groups a b) := ⟨[], h⟩
  unfold mergeable at hholds
  obtain ⟨hkind, hholds⟩ := hholds.ite_not
  obtain ⟨howner, hholds⟩ := hholds.bind_ite
  obtain ⟨hsuperclass, hsignature⟩ := hholds.bind_ite
  refine ⟨not_not.mp hkind, renameOwner_of_sameOwner howner hnames.descriptor, ?_,
    textFits_of_sameSignature hsignature ha hb hnames.signature⟩
  show a.superclass.map (groups.nameIn a.version) = b.superclass.map (groups.nameIn b.version)
  cases hx : a.superclass with
  | none =>
      cases hy : b.superclass with
      | none => rfl
      | some y => simp [hx, hy, sameSuperclass] at hsuperclass
  | some x =>
      cases hy : b.superclass with
      | none => simp [hx, hy, sameSuperclass] at hsuperclass
      | some y =>
          rw [hx, hy, sameSuperclass] at hsuperclass
          exact congrArg some (nameIn_of_sameClass hsuperclass).2

end Splitting

namespace Splitter

open Splitting

theorem snapshotsOf_foldl_add (splitter : Splitter) (snapshots : List ApiClass) (name : String) :
    (snapshots.foldl add splitter).snapshotsOf name =
      splitter.snapshotsOf name ++ snapshots.filter fun snapshot => snapshot.name = name := by
  induction snapshots generalizing splitter with
  | nil => simp
  | cons snapshot rest ih =>
      rw [List.foldl_cons, ih]
      by_cases hname : snapshot.name = name
      · subst hname
        simp [snapshotsOf, add]
      · simp [snapshotsOf, add, hname, Ne.symm hname]

-- Grouping any of the classes again would change nothing.
def IsStable (splitter : Splitter) : Prop :=
  ∀ name ∈ splitter.snapshots.keys,
    splitter.groups.get? name = some (splitter.computeGroups name).1

instance (splitter : Splitter) : Decidable splitter.IsStable :=
  inferInstanceAs (Decidable (∀ name ∈ splitter.snapshots.keys, _))

-- Where nothing is grouped there is nothing to group.
theorem renamed_of_isSome (splitter : Splitter) (order : QueueOrder)
    (h : ∀ name ∈ splitter.snapshots.keys, (splitter.groups.get? name).isSome) :
    splitter.renamed order = splitter.snapshots.rows.flatMap fun row =>
      row.2.map (renameOne splitter.groups) := by
  unfold renamed
  by_cases hempty : splitter.groups.isEmpty
  · have hrows : splitter.snapshots.rows = [] := by
      rw [List.eq_nil_iff_forall_not_mem]
      intro row hrow
      have hget := h row.1 (List.mem_map_of_mem hrow)
      rw [Table.get?, List.isEmpty_iff.mp hempty] at hget
      cases hget
    have hsnapshots : (splitter.groupAll order).snapshots = splitter.snapshots :=
      snapshots_settle order splitter _ _
    simp only [hempty, if_true, hsnapshots, Table.values, hrows, List.map_nil, List.flatMap_nil]
  · simp only [hempty, Table.values, List.flatMap_map]
    rfl

theorem renamed_eq (splitter : Splitter) (order : QueueOrder) (h : splitter.IsStable) :
    splitter.renamed order = splitter.snapshots.rows.flatMap fun row =>
      row.2.map (renameOne splitter.groups) :=
  splitter.renamed_of_isSome order fun name hname => by
    rw [h name hname]
    rfl

theorem fits_renamed {splitter : Splitter} (order : QueueOrder) (hstable : splitter.IsStable)
    (hnamed : ∀ row ∈ splitter.snapshots.rows, ∀ snapshot ∈ row.2, snapshot.name = row.1)
    (htagged : ∀ row ∈ splitter.snapshots.rows, Tagged row.2)
    (hsound : ∀ row ∈ splitter.snapshots.rows, ∀ snapshot ∈ row.2, snapshot.Sound)
    (hnames : ∀ row ∈ splitter.snapshots.rows, ∀ a ∈ row.2,
      ∀ other ∈ splitter.snapshots.rows, ∀ b ∈ other.2,
        splitter.groups.nameIn a.version a.name = splitter.groups.nameIn b.version b.name →
          Unambiguous splitter.groups a b) :
    (splitter.renamed order).Pairwise fun a b => a.name = b.name → a.Fits b := by
  rw [renamed_eq splitter order hstable, List.pairwise_flatMap]
  constructor
  · intro row hrow
    have hsnapshots : splitter.snapshotsOf row.1 = row.2 := by
      rw [snapshotsOf, Table.get?_of_mem_rows hrow, Option.getD_some]
    have hget := hstable row.1 (List.mem_map_of_mem hrow)
    have hdivided := divided_divide splitter.groups (splitter.snapshotsOf row.1)
    have hparted := parted_divide splitter.groups (splitter.snapshotsOf row.1)
    have hmergeable := groupMergeable_divide splitter.groups (splitter.snapshotsOf row.1)
    rw [computeGroups, hsnapshots] at hget
    rw [hsnapshots] at hdivided hparted hmergeable
    rw [List.pairwise_map, List.pairwise_iff_getElem]
    intro i j hi hj hlt hname
    have ha := List.getElem_mem hi
    have hb := List.getElem_mem hj
    have hrenamed : splitter.groups.nameIn row.2[i].version row.2[i].name =
        splitter.groups.nameIn row.2[j].version row.2[j].name := hname
    refine fits_renameOne (hsound row hrow _ ha) (hsound row hrow _ hb)
      (hnames row hrow _ ha row hrow _ hb hrenamed) ?_
    rw [hnamed row hrow _ ha, hnamed row hrow _ hb] at hrenamed
    exact (htagged row hrow).mergeable? hdivided hparted hget hmergeable
      (List.getElem?_eq_getElem hi) (List.getElem?_eq_getElem hj) hlt hrenamed
  · have hdistinct := splitter.snapshots.distinct
    rw [List.nodup_iff_pairwise_ne, List.pairwise_map] at hdistinct
    refine hdistinct.imp_of_mem fun {row other} hrow hother hne x hx y hy hname => ?_
    obtain ⟨a, ha, rfl⟩ := List.mem_map.mp hx
    obtain ⟨b, hb, rfl⟩ := List.mem_map.mp hy
    have hsame := (hnames row hrow a ha other hother b hb hname).name
    rw [hnamed row hrow a ha, hnamed other hother b hb] at hsame
    exact absurd hsame hne

-- All snapshots of a run, grouped.
def grouped (order : QueueOrder) (snapshots : List ApiClass) : Splitter :=
  (snapshots.foldl add {}).groupAll order

theorem isSome_groups_grouped (order : QueueOrder) (snapshots : List ApiClass) :
    ∀ name ∈ (grouped order snapshots).snapshots.keys,
      ((grouped order snapshots).groups.get? name).isSome := by
  rw [grouped, groupAll, snapshots_settle]
  exact isSome_groups_groupAll order _

section Orderless

variable (order other : QueueOrder) {snapshots : List ApiClass}
  (h : (snapshots.foldl add {}).isOrderless (snapshots.foldl add {}).budget
    (snapshots.foldl add {}).snapshots.keys)

include h

theorem grouped_of_isOrderless : grouped order snapshots = grouped other snapshots :=
  congrArg Prod.fst (settle_of_isOrderless order other _ _ _ h)

theorem renamed_of_isOrderless :
    (grouped order snapshots).renamed order = (grouped other snapshots).renamed other := by
  have hknown := isSome_groups_grouped other snapshots
  rw [grouped_of_isOrderless order other h, renamed_of_isSome _ order hknown,
    renamed_of_isSome _ other hknown]

end Orderless

theorem rows_grouped (order : QueueOrder) (snapshots : List ApiClass) :
    ∀ row ∈ (grouped order snapshots).snapshots.rows,
      row.2 = snapshots.filter fun snapshot => snapshot.name = row.1 := by
  intro row hrow
  rw [grouped, groupAll, snapshots_settle] at hrow
  have hof := snapshotsOf_foldl_add {} snapshots row.1
  rw [snapshotsOf, Table.get?_of_mem_rows hrow, Option.getD_some] at hof
  exact hof

-- Snapshots with a tag each, the signatures of which can be read, merge under the names of their
-- groups once these are stable, whatever the options and the order of grouping, unless those that
-- come under one name are ambiguous.
theorem rejected_notMem_grouped (order : QueueOrder) (options : MergeOptions)
    (snapshots : List ApiClass)
    (hsingle : ∀ snapshot ∈ snapshots, ∃ tag, snapshot.version = .single tag)
    (hdistinct : snapshots.Pairwise fun a b => a.name = b.name → a.version ≠ b.version)
    (hsound : ∀ snapshot ∈ snapshots, snapshot.Sound)
    (hstable : (grouped order snapshots).IsStable)
    (hnames : ∀ a ∈ snapshots, ∀ b ∈ snapshots,
      (grouped order snapshots).groups.nameIn a.version a.name =
          (grouped order snapshots).groups.nameIn b.version b.name →
        Unambiguous (grouped order snapshots).groups a b) :
    Outcome.rejected ∉
      (Catalog.empty options).outcomes ((grouped order snapshots).renamed order) := by
  have hfrom : ∀ row ∈ (grouped order snapshots).snapshots.rows, ∀ snapshot ∈ row.2,
      snapshot ∈ snapshots ∧ snapshot.name = row.1 := by
    intro row hrow snapshot hsnapshot
    rw [rows_grouped order snapshots row hrow, List.mem_filter] at hsnapshot
    exact ⟨hsnapshot.1, of_decide_eq_true hsnapshot.2⟩
  refine Catalog.rejected_notMem_outcomes options _ ?_ (fits_renamed order hstable ?_ ?_ ?_ ?_)
  · rw [renamed_eq _ order hstable]
    intro entry hentry
    obtain ⟨row, hrow, hmem⟩ := List.mem_flatMap.mp hentry
    obtain ⟨snapshot, hsnapshot, rfl⟩ := List.mem_map.mp hmem
    exact sound_renameClass (Groups.numbersNames_nameIn _ _)
      (hsound snapshot (hfrom row hrow snapshot hsnapshot).1)
  · exact fun row hrow snapshot hsnapshot => (hfrom row hrow snapshot hsnapshot).2
  · intro row hrow
    refine ⟨fun snapshot hsnapshot => hsingle snapshot (hfrom row hrow snapshot hsnapshot).1, ?_⟩
    have hrows := hdistinct.filter fun snapshot => snapshot.name = row.1
    rw [← rows_grouped order snapshots row hrow] at hrows
    refine hrows.imp_of_mem fun ha hb hne => hne ?_
    rw [(hfrom row hrow _ ha).2, (hfrom row hrow _ hb).2]
  · exact fun row hrow snapshot hsnapshot => hsound snapshot (hfrom row hrow snapshot hsnapshot).1
  · exact fun row hrow a ha other hother b hb =>
      hnames a (hfrom row hrow a ha).1 b (hfrom other hother b hb).1

-- One version of a class with what its grouping depends on here.
def seenIn (tag name : String) (access : UInt16) (signature : Option String)
    (enclosing : Option EnclosingMethod) : ApiClass where
  name := name
  access := ⟨access⟩
  superclass := some "java/lang/Object"
  signature := signature
  enclosing := enclosing
  version := .single tag

-- The third version of a class is an interface, so that two other classes part as well.
def parting : List ApiClass :=
  [seenIn "1" "p/A" 0x0001 none none, seenIn "2" "p/A" 0x0001 none none,
    seenIn "3" "p/A" 0x0601 none none,
    seenIn "1" "p/B" 0x0001 (some "<X:Lp/A;>Ljava/lang/Object;Lp/I<TX;>;") none,
    seenIn "2" "p/B" 0x0001 (some "<Y:Lp/A;>Ljava/lang/Object;Lp/J<TY;>;") none,
    seenIn "3" "p/B" 0x0001 (some "<X:Lp/A;>Ljava/lang/Object;") none,
    seenIn "1" "p/B$1" 0x0001 none (some ⟨"p/B", some "m", some "(I)V"⟩),
    seenIn "3" "p/B$1" 0x0001 none (some ⟨"p/B", some "m", some "(I)V"⟩)]

theorem exists_single_of_mem {snapshots : List ApiClass} {tags : List String}
    (h : ∀ snapshot ∈ snapshots, snapshot.version ∈ tags.map Version.single) :
    ∀ snapshot ∈ snapshots, ∃ tag, snapshot.version = .single tag := by
  intro snapshot hsnapshot
  obtain ⟨tag, -, htag⟩ := List.mem_map.mp (h snapshot hsnapshot)
  exact ⟨tag, htag.symm⟩

theorem rejected_notMem_grouped_parting :
    ((grouped .asNoted parting).renamed .asNoted).map ApiClass.name =
        ["p/AV0", "p/AV0", "p/AV1", "p/BV0", "p/BV0", "p/BV1", "p/B$1V0", "p/B$1V1"] ∧
      Outcome.rejected ∉
        (Catalog.empty {}).outcomes ((grouped .asNoted parting).renamed .asNoted) := by
  have htags : ∀ snapshot ∈ parting, snapshot.version ∈ ["1", "2", "3"].map Version.single := by
    decide +kernel
  exact ⟨by decide +kernel, rejected_notMem_grouped .asNoted {} parting (exists_single_of_mem htags)
    (by decide +kernel) (by decide +kernel) (by decide +kernel) (by decide +kernel)⟩

-- A local class of a method that takes a class that becomes an interface.
def enclosed : List ApiClass :=
  [seenIn "1" "p/A" 0x0001 none none, seenIn "2" "p/A" 0x0601 none none,
    seenIn "1" "p/X$1" 0x0001 none (some ⟨"p/X", some "m", some "(Lp/A;)V"⟩),
    seenIn "2" "p/X$1" 0x0001 none (some ⟨"p/X", some "m", some "(Lp/A;)V"⟩)]

-- Grouping compares the descriptors of enclosing methods as they stand. The classes that they name
-- get the names of their groups all the same.
theorem rejected_mem_grouped_enclosed :
    ¬ ∃ order : QueueOrder, ∀ (options : MergeOptions) (snapshots : List ApiClass),
      (∀ snapshot ∈ snapshots, ∃ tag, snapshot.version = .single tag) →
      (snapshots.Pairwise fun a b => a.name = b.name → a.version ≠ b.version) →
      (∀ snapshot ∈ snapshots, snapshot.Readable) → (grouped order snapshots).IsStable →
        Outcome.rejected ∉
          (Catalog.empty options).outcomes ((grouped order snapshots).renamed order) := by
  rintro ⟨order, h⟩
  have htags : ∀ snapshot ∈ enclosed, snapshot.version ∈ ["1", "2"].map Version.single := by
    decide +kernel
  have hmerged := h {} enclosed (exists_single_of_mem htags) (by decide +kernel) (by decide +kernel)
  rw [renamed_of_isOrderless order .asNoted (by decide +kernel),
    grouped_of_isOrderless order .asNoted (by decide +kernel)] at hmerged
  exact hmerged (by decide +kernel) (by decide +kernel)

end Splitter

end ApiUnion
