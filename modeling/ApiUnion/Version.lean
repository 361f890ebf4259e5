import ApiUnion.Text.Blank

-- Versions: sets of tags, joined by union and ordered by inclusion, below a version that contains
-- them all.

namespace ApiUnion

-- The tags in increasing order, without repetition.
structure TagSet where
  tags : List String
  sorted : tags.Pairwise (· < ·)
deriving DecidableEq

namespace TagSet

def empty : TagSet :=
  ⟨[], .nil⟩

-- A tag in its place in a sorted list.
def place (tag : String) : List String → List String
  | [] => [tag]
  | t :: rest =>
    if tag < t then tag :: t :: rest
    else if tag = t then t :: rest
    else t :: place tag rest

theorem mem_place {tag t : String} {tags : List String} :
    t ∈ place tag tags ↔ t = tag ∨ t ∈ tags := by
  induction tags with
  | nil => simp [place]
  | cons head rest ih =>
    simp only [place]
    split
    · simp
    · split
      · rename_i h
        subst h
        simp
      · simp only [List.mem_cons, ih]
        constructor
        · rintro (h | h | h) <;> simp [h]
        · rintro (h | h | h) <;> simp [h]

theorem sorted_place {tag : String} {tags : List String} (h : tags.Pairwise (· < ·)) :
    (place tag tags).Pairwise (· < ·) := by
  induction tags with
  | nil => simp [place]
  | cons head rest ih =>
    obtain ⟨hhead, hrest⟩ := List.pairwise_cons.1 h
    simp only [place]
    split
    · rename_i hlt
      refine List.pairwise_cons.2 ⟨?_, h⟩
      intro t ht
      rcases List.mem_cons.1 ht with rfl | ht
      · exact hlt
      · exact String.lt_trans hlt (hhead t ht)
    · split
      · exact h
      · rename_i hlt hne
        refine List.pairwise_cons.2 ⟨?_, ih hrest⟩
        intro t ht
        rcases mem_place.1 ht with rfl | ht
        · by_cases hh : head < t
          · exact hh
          · exact absurd (String.le_antisymm (String.not_lt.1 hh) (String.not_lt.1 hlt)) hne
        · exact hhead t ht

def insert (tag : String) (set : TagSet) : TagSet :=
  ⟨place tag set.tags, sorted_place set.sorted⟩

def ofList (tags : List String) : TagSet :=
  tags.foldr insert empty

def union (a b : TagSet) : TagSet :=
  b.tags.foldr insert a

def subset (a b : TagSet) : Bool :=
  a.tags.all b.tags.contains

@[simp] theorem mem_tags_insert {tag t : String} {set : TagSet} :
    t ∈ (set.insert tag).tags ↔ t = tag ∨ t ∈ set.tags :=
  mem_place

@[simp] theorem mem_tags_ofList {t : String} {tags : List String} :
    t ∈ (ofList tags).tags ↔ t ∈ tags := by
  induction tags with
  | nil => simp [ofList, empty]
  | cons tag rest ih =>
    have : ofList (tag :: rest) = (ofList rest).insert tag := rfl
    simp [this, ih]

@[simp] theorem mem_tags_union {t : String} {a b : TagSet} :
    t ∈ (a.union b).tags ↔ t ∈ a.tags ∨ t ∈ b.tags := by
  unfold union
  induction b.tags with
  | nil => simp
  | cons tag rest ih =>
    simp only [List.foldr_cons, mem_tags_insert, ih, List.mem_cons]
    constructor
    · rintro (h | h | h) <;> simp [h]
    · rintro (h | h | h) <;> simp [h]

theorem subset_iff {a b : TagSet} : a.subset b ↔ ∀ t ∈ a.tags, t ∈ b.tags := by
  simp [subset]

theorem eq_of_sorted {xs ys : List String} (hx : xs.Pairwise (· < ·)) (hy : ys.Pairwise (· < ·))
    (h : ∀ t, t ∈ xs ↔ t ∈ ys) : xs = ys := by
  induction xs generalizing ys with
  | nil =>
    cases ys with
    | nil => rfl
    | cons y ys => exact absurd ((h y).2 (by simp)) (by simp)
  | cons x xs ih =>
    cases ys with
    | nil => exact absurd ((h x).1 (by simp)) (by simp)
    | cons y ys =>
      obtain ⟨hxs, hxrest⟩ := List.pairwise_cons.1 hx
      obtain ⟨hys, hyrest⟩ := List.pairwise_cons.1 hy
      have hhead : x = y := by
        rcases List.mem_cons.1 ((h x).1 (by simp)) with rfl | hxy
        · rfl
        · rcases List.mem_cons.1 ((h y).2 (by simp)) with rfl | hyx
          · rfl
          · exact absurd (String.lt_trans (hxs y hyx) (hys x hxy)) (String.lt_irrefl x)
      subst hhead
      congr 1
      refine ih hxrest hyrest fun t => ?_
      have ht := h t
      simp only [List.mem_cons] at ht
      constructor
      · intro hmem
        rcases ht.1 (.inr hmem) with rfl | hmem'
        · exact absurd (hxs t hmem) (String.lt_irrefl t)
        · exact hmem'
      · intro hmem
        rcases ht.2 (.inr hmem) with rfl | hmem'
        · exact absurd (hys t hmem) (String.lt_irrefl t)
        · exact hmem'

-- Sets are told apart by their tags alone.
theorem ext_mem {a b : TagSet} (h : ∀ t, t ∈ a.tags ↔ t ∈ b.tags) : a = b := by
  have := eq_of_sorted a.sorted b.sorted h
  cases a
  cases b
  simp_all

def literal (set : TagSet) : String :=
  ", ".intercalate set.tags

-- The set that a literal writes: what stands between the commas, less blanks at the ends and empty
-- pieces.
def ofLiteral (text : String) : TagSet :=
  let pieces := (Text.splitChars ',' text.toList).map Text.trimChars
  ofList ((pieces.filter fun piece => !piece.isEmpty).map String.ofList)

end TagSet

inductive Version
  | universal
  | tags (set : TagSet)
deriving DecidableEq

namespace Version

def ofTags (tags : List String) : Version :=
  .tags (.ofList tags)

def single (tag : String) : Version :=
  ofTags [tag]

-- The least version that contains both.
def plus : Version → Version → Version
  | tags a, tags b => tags (a.union b)
  | _, _ => universal

def contains : Version → Version → Bool
  | universal, _ => true
  | tags _, universal => false
  | tags a, tags b => b.subset a

-- What emitted metadata records. The universal version leaves no trace.
def literal? : Version → Option String
  | universal => none
  | tags set => some set.literal

def ofLiteral (text : String) : Version :=
  tags (.ofLiteral text)

-- How listings write it.
def label (version : Version) : String :=
  version.literal?.getD "*"

def text (version : Version) : String :=
  match version.literal? with
  | some literal => "\x7b" ++ literal ++ "\x7d"
  | none => "*"

-- A missing version is absorbed.
def plus? : Option Version → Option Version → Option Version
  | some a, some b => some (a.plus b)
  | some a, none => some a
  | none, b => b

end Version

end ApiUnion
