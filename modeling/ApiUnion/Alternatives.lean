import ApiUnion.Access
import ApiUnion.Version

-- Tables of alternatives: which versions a class or member had each visibility, or each modality,
-- in. A table stays empty as long as all versions agree.

namespace ApiUnion

-- A kind of fact about access that takes one of a few ordered values.
class Facet (α : Type) where
  rank : α → Nat
  rank_injective : ∀ {a b : α}, rank a = rank b → a = b
  name : String
  label : α → String

instance : Facet Visibility where
  rank := Visibility.rank
  rank_injective := by intro a b; cases a <;> cases b <;> simp [Visibility.rank]
  name := "visibility"
  label := Visibility.label

instance : Facet Modality where
  rank := Modality.rank
  rank_injective := by intro a b; cases a <;> cases b <;> simp [Modality.rank]
  name := "modality"
  label := Modality.label

-- One row for each value that was observed, from narrow to wide.
structure Alternatives (α : Type) [Facet α] where
  rows : List (α × Version)
  sorted : rows.Pairwise fun a b => Facet.rank a.1 < Facet.rank b.1

namespace Alternatives

variable {α : Type} [Facet α]

instance [DecidableEq α] : DecidableEq (Alternatives α) := fun a b =>
  decidable_of_iff (a.rows = b.rows) (by cases a; cases b; simp)

def empty : Alternatives α :=
  ⟨[], .nil⟩

instance : Inhabited (Alternatives α) := ⟨empty⟩

def isEmpty (table : Alternatives α) : Bool :=
  table.rows.isEmpty

def size (table : Alternatives α) : Nat :=
  table.rows.length

def values (table : Alternatives α) : List α :=
  table.rows.map Prod.fst

-- A row in its place, joined with the row of that value if there is one.
def place (value : α) (version : Version) : List (α × Version) → List (α × Version)
  | [] => [(value, version)]
  | (v, w) :: rest =>
    if Facet.rank value < Facet.rank v then (value, version) :: (v, w) :: rest
    else if Facet.rank value = Facet.rank v then (v, w.plus version) :: rest
    else (v, w) :: place value version rest

theorem rank_of_mem_place {value : α} {version : Version} {rows : List (α × Version)}
    {row : α × Version} (h : row ∈ place value version rows) :
    Facet.rank row.1 = Facet.rank value ∨ ∃ other ∈ rows, Facet.rank row.1 = Facet.rank other.1 := by
  induction rows with
  | nil => simp_all [place]
  | cons head rest ih =>
    obtain ⟨v, w⟩ := head
    simp only [place] at h
    split at h
    · rcases List.mem_cons.1 h with rfl | h
      · exact .inl rfl
      · exact .inr ⟨row, h, rfl⟩
    · split at h
      · rcases List.mem_cons.1 h with rfl | h
        · exact .inr ⟨(v, w), by simp, rfl⟩
        · exact .inr ⟨row, by simp [h], rfl⟩
      · rcases List.mem_cons.1 h with rfl | h
        · exact .inr ⟨(v, w), by simp, rfl⟩
        · rcases ih h with h | ⟨other, ho, h⟩
          · exact .inl h
          · exact .inr ⟨other, by simp [ho], h⟩

theorem sorted_place {value : α} {version : Version} {rows : List (α × Version)}
    (h : rows.Pairwise fun a b => Facet.rank a.1 < Facet.rank b.1) :
    (place value version rows).Pairwise fun a b => Facet.rank a.1 < Facet.rank b.1 := by
  induction rows with
  | nil => simp [place]
  | cons head rest ih =>
    obtain ⟨v, w⟩ := head
    obtain ⟨hhead, hrest⟩ := List.pairwise_cons.1 h
    simp only [place]
    split
    · rename_i hlt
      refine List.pairwise_cons.2 ⟨?_, h⟩
      intro row hrow
      rcases List.mem_cons.1 hrow with rfl | hrow
      · exact hlt
      · exact Nat.lt_trans hlt (hhead row hrow)
    · split
      · exact List.pairwise_cons.2 ⟨hhead, hrest⟩
      · rename_i hlt hne
        refine List.pairwise_cons.2 ⟨?_, ih hrest⟩
        intro row hrow
        rcases rank_of_mem_place hrow with hr | ⟨other, ho, hr⟩
        · simp only [hr]
          omega
        · rw [hr]
          exact hhead other ho

-- What was observed in a version, joined with what was there.
def insert (table : Alternatives α) (value : α) (version : Version) : Alternatives α :=
  ⟨place value version table.rows, sorted_place table.sorted⟩

def insertAll (table : Alternatives α) (rows : List (α × Version)) : Alternatives α :=
  rows.foldl (fun table row => table.insert row.1 row.2) table

def ofRows (rows : List (α × Version)) : Alternatives α :=
  empty.insertAll rows

-- What one side of a merge knows: its table, the value it has now, and the version it has it in.
structure Side (α : Type) [Facet α] where
  table : Alternatives α
  current : α
  version : Option Version

-- The rows of a side: its table, or else its present value in its own version.
def Side.rows (side : Side α) : List (α × Version) :=
  if side.table.isEmpty then
    match side.version with
    | some version => [(side.current, version)]
    | none => []
  else side.table.rows

-- The table of both sides, unless they agree and neither ever differed.
def combine? [DecidableEq α] (left right : Side α) : Option (Alternatives α) :=
  if left.current = right.current && left.table.isEmpty && right.table.isEmpty then none
  else some (ofRows (left.rows ++ right.rows))

def text (table : Alternatives α) : String :=
  if table.isEmpty then ""
  else
    let rows := table.rows.map fun row => s!" {Facet.label row.1}={row.2.label}"
    s!" /* {Facet.name α}:" ++ String.join rows ++ " */"

end Alternatives

end ApiUnion
