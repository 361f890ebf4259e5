import ApiUnion.Splitting.Groups

-- Comparing signatures looks classes up and notes their names. The groups of other classes make no
-- difference to it.

namespace ApiUnion

namespace Splitting

variable {α β : Type}

-- A question about a grouping that looks at the groups of the noted names only. What was noted
-- before stays and makes no difference to the answer.
structure Local (request : Groups → Noting α) : Prop where
  keeps : ∀ (groups : Groups) (names : List String), ∀ name ∈ names,
    name ∈ (request groups names).2
  answer : ∀ (groups : Groups) (names others : List String),
    (request groups names).1 = (request groups others).1
  agrees : ∀ (groups other : Groups) (names : List String),
    (∀ name ∈ (request groups names).2, other.get? name = groups.get? name) →
      request other names = request groups names

theorem mem_note (name other : String) (names : List String) :
    other ∈ (note name names).2 ↔ other = name ∨ other ∈ names := by
  show other ∈ (if names.contains name then names else name :: names) ↔ _
  split
  · rename_i hknown
    rw [List.contains_iff_mem] at hknown
    constructor
    · exact .inr
    · rintro (rfl | h)
      · exact hknown
      · exact h
  · exact List.mem_cons

namespace Local

theorem pure (a : α) : Local fun _ => (Pure.pure a : Noting α) where
  keeps _ _ _ h := h
  answer _ _ _ := rfl
  agrees _ _ _ _ := rfl

theorem bind {request : Groups → Noting α} {next : α → Groups → Noting β} (h : Local request)
    (hnext : ∀ a, Local (next a)) :
    Local fun groups => request groups >>= fun a => next a groups where
  keeps groups names name hname :=
    (hnext _).keeps groups _ name (h.keeps groups names name hname)
  answer groups names others := by
    show (next (request groups names).1 groups _).1 = (next (request groups others).1 groups _).1
    rw [h.answer groups names others]
    exact (hnext _).answer groups _ _
  agrees groups other names hnames := by
    have hfirst : request other names = request groups names := by
      refine h.agrees groups other names fun name hname => ?_
      exact hnames name ((hnext _).keeps groups _ name hname)
    show next (request other names).1 other (request other names).2 = _
    rw [hfirst]
    exact (hnext _).agrees groups other _ hnames

theorem ite {condition : Prop} [Decidable condition] {yes no : Groups → Noting α}
    (hyes : Local yes) (hno : Local no) :
    Local fun groups => if condition then yes groups else no groups := by
  by_cases h : condition
  · simpa only [if_pos h] using hyes
  · simpa only [if_neg h] using hno

-- The answer to a question decides which question comes next.
theorem bind_ite {request : Groups → Noting Bool} {yes no : Groups → Noting α}
    (h : Local request) (hyes : Local yes) (hno : Local no) :
    Local fun groups => (do if ← request groups then yes groups else no groups : Noting α) :=
  h.bind fun _ => hyes.ite hno

theorem allM {items : List α} {request : Groups → α → Noting Bool}
    (h : ∀ item, Local fun groups => request groups item) :
    Local fun groups => items.allM (request groups) := by
  induction items with
  | nil => exact pure true
  | cons item items ih =>
      simp only [List.allM]
      refine (h item).bind fun answer => ?_
      cases answer with
      | true => exact ih
      | false => exact pure false

end Local

-- Lists of one length, compared one by one.
def sameEach (same : α → α → Noting Bool) : List α → List α → Noting Bool
  | [], [] => pure true
  | x :: xs, y :: ys => do
    if xs.length ≠ ys.length then pure false
    else if ← same x y then sameEach same xs ys
    else pure false
  | _, _ => pure false

theorem sameTypes_eq (context : Context) (a b : List GenericType) :
    sameTypes context a b = sameEach (sameType context) a b := by
  induction a generalizing b with
  | nil => cases b <;> rfl
  | cons x xs ih =>
      cases b with
      | nil => rfl
      | cons y ys => simp only [sameTypes, sameEach, ih]

theorem sameParameters_eq (context : Context) (a b : List TypeParameter) :
    sameParameters context a b = sameEach (sameParameter context) a b := by
  induction a generalizing b with
  | nil => cases b <;> rfl
  | cons x xs ih =>
      cases b with
      | nil => rfl
      | cons y ys => simp only [sameParameters, sameEach, ih]

theorem Local.sameEach {same : Groups → α → α → Noting Bool}
    (h : ∀ x y, Local fun groups => same groups x y) (a b : List α) :
    Local fun groups => sameEach (same groups) a b := by
  induction a generalizing b with
  | nil =>
      cases b with
      | nil => exact pure true
      | cons y ys => exact pure false
  | cons x xs ih =>
      cases b with
      | nil => exact pure false
      | cons y ys =>
          simp only [Splitting.sameEach]
          exact ite (pure false) ((h x y).bind_ite (ih ys) (pure false))

variable (left right : Version)

theorem local_sameClass (a b : String) :
    Local fun groups => sameClass ⟨groups, left, right⟩ a b := by
  unfold sameClass
  by_cases hab : a = b
  · subst hab
    simp only [if_true]
    constructor
    · intro groups names name hname
      exact (mem_note a name names).mpr (.inr hname)
    · intro groups names others
      rfl
    · intro groups other names hnames
      have ha : other.get? a = groups.get? a := hnames a ((mem_note a a names).mpr (.inl rfl))
      have hresolve : ∀ version, other.resolve? a version = groups.resolve? a version := by
        intro version
        unfold Groups.resolve?
        rw [ha]
      simp only [hresolve]
  · simp only [if_neg hab]
    exact Local.pure false

-- One case for each constructor, as types, segments and arguments refer to one another.
mutual

theorem local_sameType : ∀ a b : GenericType,
    Local fun groups => sameType ⟨groups, left, right⟩ a b
  | .classType a, .classType b => by
      simp only [sameType]
      refine Local.ite (Local.pure false) ?_
      exact (local_sameClass left right _ _).bind_ite (local_sameSegments a b) (Local.pure false)
  | .array a, .array b => by
      simp only [sameType]
      exact local_sameType a b
  | .base a, .base b => by
      simp only [sameType]
      exact Local.pure _
  | .var a, .var b => by
      simp only [sameType]
      exact Local.pure _
  | .classType _, .array _ | .classType _, .base _ | .classType _, .var _ => by
      simp only [sameType]
      exact Local.pure false
  | .array _, .classType _ | .array _, .base _ | .array _, .var _ => by
      simp only [sameType]
      exact Local.pure false
  | .base _, .classType _ | .base _, .array _ | .base _, .var _ => by
      simp only [sameType]
      exact Local.pure false
  | .var _, .classType _ | .var _, .array _ | .var _, .base _ => by
      simp only [sameType]
      exact Local.pure false

theorem local_sameSegment : ∀ a b : Segment,
    Local fun groups => sameSegment ⟨groups, left, right⟩ a b
  | ⟨_, xs⟩, ⟨_, ys⟩ => by
      simp only [sameSegment]
      exact Local.ite (local_sameArguments xs ys) (Local.pure false)

theorem local_sameArgument : ∀ a b : TypeArgument,
    Local fun groups => sameArgument ⟨groups, left, right⟩ a b
  | .any, .any => by
      simp only [sameArgument]
      exact Local.pure true
  | .bounded v a, .bounded w b => by
      simp only [sameArgument]
      exact Local.ite (local_sameType a b) (Local.pure false)
  | .any, .bounded _ _ | .bounded _ _, .any => by
      simp only [sameArgument]
      exact Local.pure false

theorem local_sameSegments : ∀ a b : List Segment,
    Local fun groups => sameSegments ⟨groups, left, right⟩ a b
  | x :: xs, y :: ys => by
      simp only [sameSegments]
      exact (local_sameSegment x y).bind_ite (local_sameSegments xs ys) (Local.pure false)
  | [], _ | _ :: _, [] => by
      simp only [sameSegments]
      exact Local.pure true

theorem local_sameArguments : ∀ a b : List TypeArgument,
    Local fun groups => sameArguments ⟨groups, left, right⟩ a b
  | x :: xs, y :: ys => by
      simp only [sameArguments]
      exact (local_sameArgument x y).bind_ite (local_sameArguments xs ys) (Local.pure false)
  | [], _ | _ :: _, [] => by
      simp only [sameArguments]
      exact Local.pure true

end

theorem local_sameTypes (a b : List GenericType) :
    Local fun groups => sameTypes ⟨groups, left, right⟩ a b := by
  simp only [sameTypes_eq]
  exact Local.sameEach (local_sameType left right) a b

theorem local_sameBound (a b : Option GenericType) :
    Local fun groups => sameBound ⟨groups, left, right⟩ a b := by
  cases a with
  | none =>
      cases b with
      | none => exact Local.pure true
      | some b => exact Local.pure false
  | some a =>
      cases b with
      | none => exact Local.pure false
      | some b => exact local_sameType left right a b

theorem local_sameParameter (a b : TypeParameter) :
    Local fun groups => sameParameter ⟨groups, left, right⟩ a b :=
  (local_sameBound left right a.classBound b.classBound).bind_ite
    (local_sameTypes left right a.interfaceBounds b.interfaceBounds) (Local.pure false)

theorem local_sameParameters (a b : List TypeParameter) :
    Local fun groups => sameParameters ⟨groups, left, right⟩ a b := by
  simp only [sameParameters_eq]
  exact Local.sameEach (local_sameParameter left right) a b

theorem local_sameClassType (a b : ClassType) :
    Local fun groups => sameClassType ⟨groups, left, right⟩ a b :=
  local_sameType left right (.classType a) (.classType b)

theorem local_sameInterface (others : List ClassType) (type : ClassType) :
    Local fun groups => sameInterface ⟨groups, left, right⟩ others type := by
  unfold sameInterface
  cases others.find? fun other => other.internalName = type.internalName with
  | none => exact Local.pure true
  | some other => exact local_sameClassType left right type other

theorem local_sameCanonical (a b : ClassSignature) :
    Local fun groups => sameCanonical ⟨groups, left, right⟩ a b := by
  unfold sameCanonical
  refine (local_sameParameters left right _ _).bind_ite ?_ (Local.pure false)
  refine (local_sameClassType left right _ _).bind_ite ?_ (Local.pure false)
  exact Local.allM fun type => local_sameInterface left right b.interfaces type

theorem local_sameSignature (a b : Option String) :
    Local fun groups => sameSignature ⟨groups, left, right⟩ a b := by
  cases a with
  | none =>
      cases b with
      | none => exact Local.pure true
      | some b => exact Local.pure false
  | some a =>
      cases b with
      | none => exact Local.pure false
      | some b =>
          simp only [sameSignature]
          split
          · exact local_sameCanonical left right _ _
          · exact Local.pure _

theorem local_sameOwner (a b : Option EnclosingMethod) :
    Local fun groups => sameOwner ⟨groups, left, right⟩ a b := by
  cases a with
  | none =>
      cases b with
      | none => exact Local.pure true
      | some b => exact Local.pure false
  | some a =>
      cases b with
      | none => exact Local.pure false
      | some b =>
          simp only [sameOwner]
          exact Local.ite (local_sameClass left right _ _) (Local.pure false)

theorem local_sameSuperclass (a b : Option String) :
    Local fun groups => sameSuperclass ⟨groups, left, right⟩ a b := by
  cases a with
  | none =>
      cases b with
      | none => exact Local.pure true
      | some b => exact Local.pure false
  | some a =>
      cases b with
      | none => exact Local.pure false
      | some b => exact local_sameClass left right a b

theorem local_mergeable (a b : ApiClass) : Local fun groups => mergeable groups a b := by
  unfold mergeable
  refine Local.ite (Local.pure false) ?_
  refine (local_sameOwner _ _ _ _).bind_ite ?_ (Local.pure false)
  refine (local_sameSuperclass _ _ _ _).bind_ite ?_ (Local.pure false)
  exact local_sameSignature _ _ _ _

theorem local_mergeableAt (snapshots : List ApiClass) (snapshot : ApiClass) (index : Nat) :
    Local fun groups => mergeableAt groups snapshots snapshot index := by
  unfold mergeableAt
  cases snapshots[index]? with
  | none => exact Local.pure true
  | some member => exact local_mergeable member snapshot

theorem local_fits (snapshots : List ApiClass) (group : Group) (snapshot : ApiClass) :
    Local fun groups => fits groups snapshots group snapshot := by
  unfold fits
  exact Local.allM fun index => local_mergeableAt snapshots snapshot index

theorem local_place (snapshots : List ApiClass) (index : Nat) (snapshot : ApiClass)
    (found : List Group) : Local fun groups => place groups snapshots index snapshot found := by
  induction found with
  | nil => exact Local.pure _
  | cons group rest ih =>
      simp only [place]
      refine (local_fits snapshots group snapshot).bind_ite (Local.pure _) ?_
      exact ih.bind fun rest => Local.pure _

theorem local_divideFrom (snapshots : List ApiClass) (index : Nat) (found : List Group)
    (rest : List ApiClass) :
    Local fun groups => divideFrom groups snapshots index found rest := by
  induction rest generalizing index found with
  | nil => exact Local.pure found
  | cons snapshot rest ih =>
      simp only [divideFrom]
      exact (local_place snapshots index snapshot found).bind fun found => ih (index + 1) found

theorem local_divide (snapshots : List ApiClass) : Local fun groups => divide groups snapshots :=
  local_divideFrom snapshots 0 [] snapshots

end Splitting

end ApiUnion
