import ApiUnion.Version

-- Versions under union: a join in which it does not matter how versions are grouped or ordered,
-- with inclusion as its order.

namespace ApiUnion

namespace TagSet

theorem union_comm (a b : TagSet) : a.union b = b.union a :=
  ext_mem fun t => by
    rw [mem_tags_union, mem_tags_union, or_comm]

theorem union_assoc (a b c : TagSet) : (a.union b).union c = a.union (b.union c) :=
  ext_mem fun t => by
    simp only [mem_tags_union, or_assoc]

theorem union_subset (a b c : TagSet) : (a.union b).subset c = (a.subset c && b.subset c) := by
  rw [Bool.eq_iff_iff, Bool.and_eq_true, subset_iff, subset_iff, subset_iff]
  constructor
  · intro h
    exact ⟨fun t ht => h t (by simp [ht]), fun t ht => h t (by simp [ht])⟩
  · rintro ⟨ha, hb⟩ t ht
    rcases mem_tags_union.mp ht with ht | ht
    · exact ha t ht
    · exact hb t ht

end TagSet

namespace Version

theorem plus_comm (a b : Version) : a.plus b = b.plus a := by
  cases a <;> cases b <;> simp [plus, TagSet.union_comm]

theorem plus_assoc (a b c : Version) : (a.plus b).plus c = a.plus (b.plus c) := by
  cases a <;> cases b <;> cases c <;> simp [plus, TagSet.union_assoc]

theorem contains_self (a : Version) : a.contains a := by
  cases a <;> simp [contains, TagSet.subset_iff]

theorem contains_trans {a b c : Version} (hab : a.contains b) (hbc : b.contains c) :
    a.contains c := by
  cases a with
  | universal => rfl
  | tags a =>
      cases b with
      | universal => cases hab
      | tags b =>
          cases c with
          | universal => cases hbc
          | tags c =>
              exact TagSet.subset_iff.mpr fun tag htag =>
                TagSet.subset_iff.mp hab tag (TagSet.subset_iff.mp hbc tag htag)

theorem contains_plus (bound a b : Version) :
    bound.contains (a.plus b) = (bound.contains a && bound.contains b) := by
  cases bound <;> cases a <;> cases b <;> simp [contains, plus, TagSet.union_subset]

@[simp] theorem plus?_none (a : Option Version) : plus? a none = a := by
  cases a <;> rfl

@[simp] theorem none_plus? (a : Option Version) : plus? none a = a := by
  cases a <;> rfl

@[simp] theorem plus?_some (a b : Version) : plus? (some a) (some b) = some (a.plus b) := rfl

theorem plus?_eq_merge (a b : Option Version) : plus? a b = Option.merge Version.plus a b := by
  cases a <;> cases b <;> rfl

theorem isSome_plus? (a b : Option Version) : (plus? a b).isSome = (a.isSome || b.isSome) := by
  cases a <;> cases b <;> rfl

theorem plus?_comm (a b : Option Version) : plus? a b = plus? b a := by
  cases a <;> cases b <;> simp [plus_comm]

theorem plus?_assoc (a b c : Option Version) : plus? (plus? a b) c = plus? a (plus? b c) := by
  cases a <;> cases b <;> cases c <;> simp [plus_assoc]

instance : Std.Associative plus := ⟨plus_assoc⟩

instance : Std.Commutative plus := ⟨plus_comm⟩

instance : Std.Associative plus? := ⟨plus?_assoc⟩

instance : Std.Commutative plus? := ⟨plus?_comm⟩

-- The least version that contains all of a list, if the list has any.
def join? (versions : List Version) : Option Version :=
  versions.foldr (fun version joined => plus? (some version) joined) none

@[simp] theorem join?_nil : join? [] = none := rfl

theorem join?_cons (version : Version) (versions : List Version) :
    join? (version :: versions) = plus? (some version) (join? versions) := rfl

@[simp] theorem join?_singleton (version : Version) : join? [version] = some version := rfl

theorem join?_append (xs ys : List Version) :
    join? (xs ++ ys) = plus? (join? xs) (join? ys) := by
  induction xs with
  | nil => simp
  | cons x xs ih => rw [List.cons_append, join?_cons, join?_cons, ih, plus?_assoc]

theorem join?_perm {xs ys : List Version} (h : xs.Perm ys) : join? xs = join? ys := by
  induction h with
  | nil => rfl
  | cons version _ ih => rw [join?_cons, join?_cons, ih]
  | swap a b versions =>
      simp only [join?_cons]
      ac_rfl
  | trans _ _ hxy hyz => exact hxy.trans hyz

theorem join?_eq_none {versions : List Version} : join? versions = none ↔ versions = [] := by
  cases versions with
  | nil => simp
  | cons version versions =>
      rw [join?_cons]
      cases join? versions <;> simp

theorem contains_join? {versions : List Version} {joined : Version}
    (h : join? versions = some joined) (bound : Version) :
    bound.contains joined ↔ ∀ version ∈ versions, bound.contains version := by
  induction versions generalizing joined with
  | nil => cases h
  | cons version versions ih =>
      rw [join?_cons] at h
      cases hrest : join? versions with
      | none =>
          rw [hrest, plus?_none] at h
          obtain rfl := Option.some.inj h
          simp [join?_eq_none.mp hrest]
      | some rest =>
          rw [hrest, plus?_some] at h
          obtain rfl := Option.some.inj h
          rw [contains_plus, Bool.and_eq_true, ih hrest, List.forall_mem_cons]

-- Joining from the left, as a version meets the others one by one.
theorem foldl_plus? (joined : Option Version) (versions : List Version) :
    versions.foldl (fun joined version => plus? joined (some version)) joined =
      plus? joined (join? versions) := by
  induction versions generalizing joined with
  | nil => exact (plus?_none joined).symm
  | cons version versions ih => rw [List.foldl_cons, ih, join?_cons, plus?_assoc]

end Version

end ApiUnion
