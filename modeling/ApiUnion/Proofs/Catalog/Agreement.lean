import ApiUnion.Proofs.Catalog.Answers
import ApiUnion.Proofs.Literals

-- A catalog and the index of what it emits: the same answers if the literals tell all versions, and
-- otherwise no wider ones of any class that has a literal.

namespace ApiUnion

open Interning Version

-- Whatever the bound forbids is forbidden.
def Restricts (found bound : Option Version) : Prop :=
  ∀ scope, isReferenceAllowed bound scope = false → isReferenceAllowed found scope = false

theorem restricts_none (found : Option Version) : Restricts found none := by
  intro scope hscope
  cases hscope

theorem restricts_universal (found : Option Version) : Restricts found (some universal) := by
  intro scope hscope
  cases hscope

-- What contains a scope is contained in nothing that does not.
theorem restricts_of_contains {found bound : Version} (h : bound.contains found) :
    Restricts (some found) (some bound) := by
  intro scope hscope
  simp only [isReferenceAllowed, Option.all_some] at hscope ⊢
  refine Bool.eq_false_iff.mpr fun hfound => ?_
  have hbound := contains_trans h hfound
  rw [hscope] at hbound
  cases hbound

namespace Version

theorem reread?_eq_none {version : Version} : version.reread? = none ↔ version = universal := by
  cases version <;> simp [reread?, literal?]

-- One by one, versions bound what is joined.
theorem restricts_join? {α : Type} {items : List α} {version other : α → Version}
    (h : ∀ item ∈ items, (version item).contains (other item)) :
    Restricts (join? (items.map other)) (join? (items.map version)) := by
  cases hbound : join? (items.map version) with
  | none => exact restricts_none _
  | some bound =>
      cases hjoined : join? (items.map other) with
      | none =>
          rw [join?_eq_none, List.map_eq_nil_iff] at hjoined
          subst hjoined
          cases hbound
      | some joined =>
          refine restricts_of_contains ((contains_join? hjoined bound).mpr ?_)
          refine List.forall_mem_map.mpr fun item hitem => ?_
          have hitems := (contains_join? hbound bound).mp (contains_self bound)
          exact contains_trans (List.forall_mem_map.mp hitems item hitem) (h item hitem)

end Version

theorem contains_rereadIn {ofClass found : Version} {own : Option Version}
    (hclass : ofClass.IsPlain) (hown : ∀ version, own = some version → version.IsPlain)
    (hfound : ofClass.reread? = some found) :
    (own.getD ofClass).contains (rereadIn found own) := by
  cases own with
  | none => exact contains_reread? hclass hfound
  | some version =>
      cases hversion : version.reread? with
      | none =>
          rw [reread?_eq_none.mp hversion]
          rfl
      | some literal =>
          have hcontains := contains_reread? (hown version rfl) hversion
          simpa [rereadIn, hversion] using hcontains

theorem rereadIn_of_isLegible {ofClass : Version} {own : Option Version}
    (hown : ∀ version, own = some version → version.IsLegible) :
    rereadIn ofClass own = own.getD ofClass := by
  cases own with
  | none => rfl
  | some version => simp [rereadIn, reread?_of_isLegible (hown version rfl)]

namespace ApiClass

-- What is known of a class and its members by the entry itself.
def answers (entry : ApiClass) : Answers where
  ofClass := some entry.version
  ofMethod := entry.methodVersion?
  ofField := entry.fieldVersion?

variable {entry : ApiClass}

theorem rereadAnswers_of_isLegible (h : entry.Emittable IsLegible) :
    entry.rereadAnswers = entry.answers := by
  have hclass := reread?_of_isLegible h.version
  refine Answers.eq_of_forall hclass (fun name descriptor => ?_) fun name descriptor => ?_
  · simp only [rereadAnswers, answers, methodVersion?, hclass]
    cases hmethod : entry.method? name descriptor with
    | none => rfl
    | some slot =>
        have hversions : ∀ method ∈ slot.toList,
            rereadIn entry.version method.version = method.versionIn entry.version :=
          fun method hmem => rereadIn_of_isLegible (h.methods _ slot hmethod method hmem).version
        refine Eq.trans ?_ (Merge.slotVersion?_eq entry.version slot).symm
        exact congrArg join? (List.map_congr_left hversions)
  · simp only [rereadAnswers, answers, fieldVersion?, hclass]
    cases hfield : entry.field? name descriptor with
    | none => rfl
    | some field =>
        exact congrArg some (rereadIn_of_isLegible (h.fields _ field hfield).version)

theorem restricts_ofClass (h : entry.Emittable IsPlain) :
    Restricts entry.rereadAnswers.ofClass entry.answers.ofClass := by
  show Restricts entry.version.reread? (some entry.version)
  cases hclass : entry.version.reread? with
  | none =>
      rw [reread?_eq_none.mp hclass]
      exact restricts_universal none
  | some found => exact restricts_of_contains (contains_reread? h.version hclass)

theorem restricts_ofMethod (h : entry.Emittable IsPlain) (hclass : entry.version ≠ universal)
    (name descriptor : String) :
    Restricts (entry.rereadAnswers.ofMethod name descriptor)
      (entry.answers.ofMethod name descriptor) := by
  obtain ⟨found, hfound⟩ := Option.ne_none_iff_exists'.mp (mt reread?_eq_none.mp hclass)
  simp only [rereadAnswers, answers, methodVersion?, hfound]
  cases hmethod : entry.method? name descriptor with
  | none => exact restricts_none none
  | some slot =>
      show Restricts (join? _) (Catalog.slotVersion? entry.version slot)
      rw [Merge.slotVersion?_eq]
      refine restricts_join? fun method hmem => ?_
      have hown := (h.methods _ slot hmethod method hmem).version
      exact contains_rereadIn h.version hown hfound

theorem restricts_ofField (h : entry.Emittable IsPlain) (hclass : entry.version ≠ universal)
    (name descriptor : String) :
    Restricts (entry.rereadAnswers.ofField name descriptor)
      (entry.answers.ofField name descriptor) := by
  obtain ⟨found, hfound⟩ := Option.ne_none_iff_exists'.mp (mt reread?_eq_none.mp hclass)
  simp only [rereadAnswers, answers, fieldVersion?, hfound]
  cases hfield : entry.field? name descriptor with
  | none => exact restricts_none none
  | some field =>
      exact restricts_of_contains
        (contains_rereadIn h.version (h.fields _ field hfield).version hfound)

end ApiClass

namespace Catalog

theorem answers_eq (catalog : Catalog) (owner : String) :
    catalog.answers owner = (catalog.get? owner).elim .none ApiClass.answers := by
  refine Answers.eq_of_forall ?_ (fun name descriptor => ?_) fun name descriptor => ?_
  · show (catalog.get? owner).map ApiClass.version = _
    cases catalog.get? owner <;> rfl
  · refine (catalog.methodVersion?_eq_bind owner name descriptor).trans ?_
    cases catalog.get? owner <;> rfl
  · refine (catalog.fieldVersion?_eq_bind owner name descriptor).trans ?_
    cases catalog.get? owner <;> rfl

variable {allowed : Version → Prop} {catalog : Catalog}

theorem emittable_of_ofBytes (hplus : ∀ a b, allowed a → allowed b → allowed (a.plus b))
    (options : MergeOptions) {snapshots : List ApiClass}
    (hsnapshots : ∀ snapshot ∈ snapshots, ∃ bytes version, allowed version ∧
      ApiClass.ofBytes bytes version = .ok snapshot)
    (hcatalog : catalog = (empty options).appendAll snapshots ∨
      catalog = ((empty options).appendAll snapshots).cleanUp) : catalog.Emittable allowed := by
  have hmerged : ((empty options).appendAll snapshots).Emittable allowed := by
    refine emittable_appendAll hplus options fun snapshot hsnapshot => ?_
    obtain ⟨bytes, version, hversion, hread⟩ := hsnapshots snapshot hsnapshot
    obtain ⟨file, -, hfile⟩ := (Snapshot.ofBytes_eq_ok_iff bytes version snapshot).mp hread
    exact Snapshot.emittable_ofClassFile hfile hversion
  rcases hcatalog with rfl | rfl
  · exact hmerged
  · exact emittable_cleanUp hmerged

-- The index of all classes exists, and has what is found of each of them.
theorem exists_index (h : catalog.Emittable allowed) (emit : EmitOptions)
    {entries : List ApiClass} (hentries : entries.Perm catalog.classes.values)
    (hnames : ∀ entry ∈ catalog.classes.values, '.' ∉ entry.name.toList)
    (hencode : ∀ entry ∈ catalog.classes.values, ∃ bytes, entry.toBytes emit = .ok bytes) :
    ∃ index, VersionIndex.ofClasses emit entries = .ok index ∧
      ∀ owner, '.' ∉ owner.toList →
        index.answers owner = (catalog.get? owner).elim .none ApiClass.rereadAnswers :=
  ⟨_, VersionIndex.ofClasses_eq emit fun entry hentry =>
      hencode entry (hentries.mem_iff.mp hentry),
    fun _ howner => answers_ofReread h emit hentries hnames howner⟩

-- The tag of a root is told by its literal, so nothing is lost.
theorem answers_index (options : MergeOptions) (emit : EmitOptions) (snapshots : List ApiClass)
    (hsnapshots : ∀ snapshot ∈ snapshots, ∃ bytes text root, RootSpec.ofText text = .ok root ∧
      ApiClass.ofBytes bytes (.single root.version) = .ok snapshot)
    (catalog : Catalog) (hcatalog : catalog = (empty options).appendAll snapshots ∨
      catalog = ((empty options).appendAll snapshots).cleanUp)
    (hnames : ∀ entry ∈ catalog.classes.values, '.' ∉ entry.name.toList)
    (hencode : ∀ entry ∈ catalog.classes.values, ∃ bytes, entry.toBytes emit = .ok bytes)
    (entries : List ApiClass) (hentries : entries.Perm catalog.classes.values) :
    ∃ index, VersionIndex.ofClasses emit entries = .ok index ∧
      ∀ owner, '.' ∉ owner.toList → index.answers owner = catalog.answers owner := by
  have hemittable : catalog.Emittable IsLegible := by
    refine emittable_of_ofBytes (fun _ _ => IsLegible.plus) options ?_ hcatalog
    intro snapshot hsnapshot
    obtain ⟨bytes, text, root, hroot, hread⟩ := hsnapshots snapshot hsnapshot
    exact ⟨bytes, _, isLegible_of_ofText hroot, hread⟩
  obtain ⟨index, hindex, hanswers⟩ := exists_index hemittable emit hentries hnames hencode
  refine ⟨index, hindex, fun owner howner => ?_⟩
  rw [hanswers owner howner, answers_eq]
  cases hget : catalog.get? owner with
  | none => rfl
  | some entry => exact ApiClass.rereadAnswers_of_isLegible (hemittable.entries owner entry hget)

-- An interface that is not in all snapshots with its method.

def bare : ClassFile :=
  { flagged with methods := [] }

def bareEntry (version : Version) : ApiClass :=
  { flaggedEntry 0x10 with version, methods := .empty }

theorem exists_ofBytes_bare (version : Version) (hversion : version ∈ [.single "2", .universal]) :
    ∃ bytes, ApiClass.ofBytes bytes version = .ok (bareEntry version) := by
  have hsmall : bare.Small := by decide +kernel
  obtain ⟨bytes, hbytes⟩ := ClassFile.exists_toBytes hsmall
  refine ⟨bytes, (ApiClass.ofBytes_of_toBytes hbytes version).trans ?_⟩
  simp only [List.mem_cons, List.not_mem_nil, or_false] at hversion
  rcases hversion with rfl | rfl <;> decide +kernel

def thinned (version : Version) : Catalog :=
  (empty {}).appendAll [flaggedEntry 0x10, bareEntry version]

theorem values_thinned (version : Version) (hversion : version ∈ [.single "2", .universal]) :
    (thinned version).classes.values =
      [{ flaggedEntry 0x10 with version := (single "1").plus version }] := by
  simp only [List.mem_cons, List.not_mem_nil, or_false] at hversion
  rcases hversion with rfl | rfl <;> decide +kernel

theorem exists_toBytes_thinned (version : Version)
    (hversion : version ∈ [.single "2", .universal]) :
    ∀ entry ∈ (thinned version).classes.values, ∃ bytes, entry.toBytes {} = .ok bytes := by
  rw [values_thinned version hversion]
  refine List.forall_mem_singleton.mpr (exists_toBytes_flaggedEntry _ ?_)
  simp only [List.mem_cons, List.not_mem_nil, or_false] at hversion
  rcases hversion with rfl | rfl <;> decide +kernel

theorem answers_index_thinned : ∃ first second index,
    ApiClass.ofBytes first (.single "1") = .ok (flaggedEntry 0x10) ∧
      ApiClass.ofBytes second (.single "2") = .ok (bareEntry (.single "2")) ∧
      VersionIndex.ofClasses {} (thinned (.single "2")).classes.values = .ok index ∧
      index.answers "a" = (thinned (.single "2")).answers "a" := by
  obtain ⟨first, hfirst⟩ := exists_ofBytes_flagged
  obtain ⟨second, hsecond⟩ := exists_ofBytes_bare (.single "2") (by simp)
  have hone : RootSpec.ofText "1=x" = .ok ⟨"1", "x"⟩ := by decide +kernel
  have htwo : RootSpec.ofText "2=y" = .ok ⟨"2", "y"⟩ := by decide +kernel
  obtain ⟨index, hindex, hanswers⟩ := answers_index {} {}
    [flaggedEntry 0x10, bareEntry (.single "2")]
    (List.forall_mem_cons.mpr ⟨⟨first, _, _, hone, hfirst⟩,
      List.forall_mem_singleton.mpr ⟨second, _, _, htwo, hsecond⟩⟩)
    (thinned (.single "2")) (.inl rfl)
    (values_thinned (.single "2") (by simp) ▸ List.forall_mem_singleton.mpr (by decide))
    (exists_toBytes_thinned (.single "2") (by simp)) _ (.refl _)
  exact ⟨first, second, index, hfirst, hsecond, hindex, hanswers "a" (by decide)⟩

-- Only a class without a literal is taken for one that nothing is known about.
theorem restricts_index (options : MergeOptions) (emit : EmitOptions) (snapshots : List ApiClass)
    (hsnapshots : ∀ snapshot ∈ snapshots, ∃ bytes version, version.IsPlain ∧
      ApiClass.ofBytes bytes version = .ok snapshot)
    (catalog : Catalog) (hcatalog : catalog = (empty options).appendAll snapshots ∨
      catalog = ((empty options).appendAll snapshots).cleanUp)
    (hnames : ∀ entry ∈ catalog.classes.values, '.' ∉ entry.name.toList)
    (hencode : ∀ entry ∈ catalog.classes.values, ∃ bytes, entry.toBytes emit = .ok bytes)
    (entries : List ApiClass) (hentries : entries.Perm catalog.classes.values) :
    ∃ index, VersionIndex.ofClasses emit entries = .ok index ∧
      ∀ owner, Restricts (index.classVersion? owner) (catalog.classVersion? owner) ∧
        (catalog.classVersion? owner ≠ some universal → ∀ name descriptor,
          Restricts (index.methodVersion? owner name descriptor)
            (catalog.methodVersion? owner name descriptor) ∧
          Restricts (index.fieldVersion? owner name descriptor)
            (catalog.fieldVersion? owner name descriptor)) := by
  have hemittable : catalog.Emittable IsPlain :=
    emittable_of_ofBytes (fun _ _ => IsPlain.plus) options hsnapshots hcatalog
  obtain ⟨index, hindex, hanswers⟩ := exists_index hemittable emit hentries hnames hencode
  refine ⟨index, hindex, fun owner => ?_⟩
  show Restricts (index.answers owner).ofClass (catalog.answers owner).ofClass ∧
    ((catalog.answers owner).ofClass ≠ some universal → ∀ name descriptor,
      Restricts ((index.answers owner).ofMethod name descriptor)
        ((catalog.answers owner).ofMethod name descriptor) ∧
      Restricts ((index.answers owner).ofField name descriptor)
        ((catalog.answers owner).ofField name descriptor))
  rw [catalog.answers_eq owner]
  cases hget : catalog.get? owner with
  | none => exact ⟨restricts_none _, fun _ _ _ => ⟨restricts_none _, restricts_none _⟩⟩
  | some entry =>
      have hentry := hemittable.entries owner entry hget
      obtain rfl := hemittable.keyed owner entry hget
      have hmem := (mem_values_iff hemittable.keyed entry).mpr hget
      rw [hanswers entry.name (hnames entry hmem), hget]
      refine ⟨ApiClass.restricts_ofClass hentry, fun hversion name descriptor => ?_⟩
      have hliteral : entry.version ≠ universal := fun heq => hversion (congrArg some heq)
      exact ⟨ApiClass.restricts_ofMethod hentry hliteral name descriptor,
        ApiClass.restricts_ofField hentry hliteral name descriptor⟩

theorem restricts_index_thinned : ∃ first second index,
    ApiClass.ofBytes first (.single "1") = .ok (flaggedEntry 0x10) ∧
      ApiClass.ofBytes second (.single "2") = .ok (bareEntry (.single "2")) ∧
      VersionIndex.ofClasses {} (thinned (.single "2")).classes.values = .ok index ∧
      isReferenceAllowed (index.methodVersion? "a" "b" "(I)V") (.single "2") = false := by
  obtain ⟨first, hfirst⟩ := exists_ofBytes_flagged
  obtain ⟨second, hsecond⟩ := exists_ofBytes_bare (.single "2") (by simp)
  have hone : (single "1").IsPlain :=
    List.forall_mem_singleton.mpr ⟨by decide, by decide +kernel⟩
  have htwo : (single "2").IsPlain :=
    List.forall_mem_singleton.mpr ⟨by decide, by decide +kernel⟩
  obtain ⟨index, hindex, hrestricts⟩ := restricts_index {} {}
    [flaggedEntry 0x10, bareEntry (.single "2")]
    (List.forall_mem_cons.mpr ⟨⟨first, _, hone, hfirst⟩,
      List.forall_mem_singleton.mpr ⟨second, _, htwo, hsecond⟩⟩)
    (thinned (.single "2")) (.inl rfl)
    (values_thinned (.single "2") (by simp) ▸ List.forall_mem_singleton.mpr (by decide))
    (exists_toBytes_thinned (.single "2") (by simp)) _ (.refl _)
  have hmethod := ((hrestricts "a").2 (by decide +kernel) "b" "(I)V").1
  exact ⟨first, second, index, hfirst, hsecond, hindex, hmethod _ (by decide +kernel)⟩

-- A class that is in all versions has no literal, so what is known of its methods is lost.
theorem widened_index_thinned : ∃ first second index,
    ApiClass.ofBytes first (.single "1") = .ok (flaggedEntry 0x10) ∧
      ApiClass.ofBytes second .universal = .ok (bareEntry .universal) ∧
      VersionIndex.ofClasses {} (thinned .universal).classes.values = .ok index ∧
      isReferenceAllowed ((thinned .universal).methodVersion? "a" "b" "(I)V") (.single "2") =
        false ∧
      isReferenceAllowed (index.methodVersion? "a" "b" "(I)V") (.single "2") = true := by
  obtain ⟨first, hfirst⟩ := exists_ofBytes_flagged
  obtain ⟨second, hsecond⟩ := exists_ofBytes_bare .universal (by simp)
  have hindex : VersionIndex.ofClasses {} (thinned .universal).classes.values =
      .ok (.ofReread {} (thinned .universal).classes.values) :=
    VersionIndex.ofClasses_eq {} (exists_toBytes_thinned .universal (by simp))
  exact ⟨first, second, _, hfirst, hsecond, hindex, by decide +kernel, by decide +kernel⟩

end Catalog

end ApiUnion
