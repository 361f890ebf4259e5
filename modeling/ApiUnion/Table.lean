-- Tables: values under names, in the order in which the names were first used.

namespace ApiUnion

structure Table (α : Type) where
  rows : List (String × α)
  distinct : (rows.map Prod.fst).Nodup

namespace Table

variable {α β : Type}

theorem ext_rows {a b : Table α} (h : a.rows = b.rows) : a = b := by
  cases a
  cases b
  simp_all

instance [DecidableEq α] : DecidableEq (Table α) := fun a b =>
  decidable_of_iff (a.rows = b.rows) ⟨ext_rows, fun h => h ▸ rfl⟩

def empty : Table α :=
  ⟨[], .nil⟩

instance : Inhabited (Table α) := ⟨empty⟩

def keys (table : Table α) : List String :=
  table.rows.map Prod.fst

def values (table : Table α) : List α :=
  table.rows.map Prod.snd

def size (table : Table α) : Nat :=
  table.rows.length

def isEmpty (table : Table α) : Bool :=
  table.rows.isEmpty

def get? (table : Table α) (key : String) : Option α :=
  table.rows.lookup key

def contains (table : Table α) (key : String) : Bool :=
  (table.get? key).isSome

-- A value under a name that is in use replaces the old one where it stands.
def put (key : String) (value : α) : List (String × α) → List (String × α)
  | [] => [(key, value)]
  | (k, v) :: rest => if key = k then (k, value) :: rest else (k, v) :: put key value rest

theorem mem_keys_put {key k : String} {value : α} {rows : List (String × α)} :
    k ∈ (put key value rows).map Prod.fst ↔ k = key ∨ k ∈ rows.map Prod.fst := by
  induction rows with
  | nil => simp [put]
  | cons head rest ih =>
    obtain ⟨k', v'⟩ := head
    simp only [put]
    split
    · rename_i h
      subst h
      simp
    · simp only [List.map_cons, List.mem_cons, ih]
      constructor
      · rintro (h | h | h) <;> simp [h]
      · rintro (h | h | h) <;> simp [h]

theorem distinct_put {key : String} {value : α} {rows : List (String × α)}
    (h : (rows.map Prod.fst).Nodup) : ((put key value rows).map Prod.fst).Nodup := by
  induction rows with
  | nil => simp [put]
  | cons head rest ih =>
    obtain ⟨k', v'⟩ := head
    simp only [List.map_cons, List.nodup_cons] at h
    simp only [put]
    split
    · simpa using h
    · rename_i hne
      simp only [List.map_cons, List.nodup_cons]
      refine ⟨?_, ih h.2⟩
      intro hmem
      rcases mem_keys_put.1 hmem with heq | hmem
      · exact hne heq.symm
      · exact h.1 hmem

theorem lookup_row {key : String} {row : String × α} {rows : List (String × α)} :
    (row :: rows).lookup key = if key = row.1 then some row.2 else rows.lookup key := by
  obtain ⟨name, value⟩ := row
  rw [List.lookup_cons]
  by_cases h : key = name
  · simp [h]
  · simp [h, beq_eq_false_iff_ne.2 h]

theorem lookup_put {key k : String} {value : α} {rows : List (String × α)} :
    (put key value rows).lookup k = if k = key then some value else rows.lookup k := by
  induction rows with
  | nil => simp [put, lookup_row]
  | cons head rest ih =>
    simp only [put]
    split
    · rename_i h
      simp only [lookup_row, h]
      split <;> rfl
    · rename_i hne
      simp only [lookup_row, ih]
      by_cases h : k = head.1
      · subst h
        simp [Ne.symm hne]
      · simp [h]

theorem keys_put {key : String} {value : α} {rows : List (String × α)} :
    (put key value rows).map Prod.fst =
      if key ∈ rows.map Prod.fst then rows.map Prod.fst else rows.map Prod.fst ++ [key] := by
  induction rows with
  | nil => simp [put]
  | cons head rest ih =>
    obtain ⟨k', v'⟩ := head
    by_cases h : key = k'
    · simp [put, h]
    · simp only [put, h, if_false, List.map_cons, ih, List.mem_cons, false_or]
      split <;> simp

def insert (table : Table α) (key : String) (value : α) : Table α :=
  ⟨put key value table.rows, distinct_put table.distinct⟩

@[simp] theorem get?_empty (key : String) : (empty : Table α).get? key = none := rfl

@[simp] theorem get?_insert (table : Table α) (key k : String) (value : α) :
    (table.insert key value).get? k = if k = key then some value else table.get? k :=
  lookup_put

-- A new name comes last.
theorem keys_insert (table : Table α) (key : String) (value : α) :
    (table.insert key value).keys = if key ∈ table.keys then table.keys else table.keys ++ [key] :=
  keys_put

def ofRows (rows : List (String × α)) : Table α :=
  rows.foldl (fun table row => table.insert row.1 row.2) empty

-- The same names with other values.
def map (f : α → β) (table : Table α) : Table β :=
  ⟨table.rows.map fun row => (row.1, f row.2), by simpa [Function.comp_def] using table.distinct⟩

@[simp] theorem keys_map (f : α → β) (table : Table α) : (table.map f).keys = table.keys := by
  simp [keys, map, Function.comp_def]

@[simp] theorem get?_map (f : α → β) (table : Table α) (key : String) :
    (table.map f).get? key = (table.get? key).map f := by
  simp only [get?, map]
  induction table.rows with
  | nil => rfl
  | cons head rest ih =>
    simp only [List.map_cons, lookup_row, ih]
    split <;> rfl

end Table

end ApiUnion
