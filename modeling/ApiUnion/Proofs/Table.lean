import Mathlib.Algebra.GroupWithZero.Nat
import Mathlib.Data.List.Dedup
import Mathlib.Data.List.Nodup
import ApiUnion.Table

-- Tables as functions from names to values, and as rows in the order of first use.

namespace ApiUnion

namespace Table

variable {α : Type}

theorem rows_map {β : Type} (f : α → β) (table : Table α) :
    (table.map f).rows = table.rows.map fun row => (row.1, f row.2) := rfl

theorem map_insert {β : Type} (f : α → β) (table : Table α) (key : String) (value : α) :
    (table.insert key value).map f = (table.map f).insert key (f value) := by
  refine ext_rows ?_
  simp only [rows_map, insert]
  induction table.rows with
  | nil => rfl
  | cons row rows ih =>
      simp only [put, List.map_cons]
      split
      · rfl
      · rw [List.map_cons, ih]

theorem mem_rows_of_get? {table : Table α} {key : String} {value : α}
    (h : table.get? key = some value) : (key, value) ∈ table.rows := by
  obtain ⟨front, back, hrows, -⟩ := List.lookup_eq_some_iff.mp h
  rw [hrows]
  simp

theorem mem_values_of_get? (table : Table α) (key : String) (value : α)
    (h : table.get? key = some value) : value ∈ table.values :=
  List.mem_map_of_mem (mem_rows_of_get? h)

theorem get?_of_mem_rows {table : Table α} {row : String × α}
    (h : row ∈ table.rows) : table.get? row.1 = some row.2 := by
  obtain ⟨rows, hdistinct⟩ := table
  simp only [get?]
  induction rows with
  | nil => cases h
  | cons head rest ih =>
      rw [List.map_cons, List.nodup_cons] at hdistinct
      rw [lookup_row]
      rcases List.mem_cons.mp h with rfl | h
      · exact if_pos rfl
      · have hne : row.1 ≠ head.1 := fun heq => hdistinct.1 (heq ▸ List.mem_map_of_mem h)
        rw [if_neg hne]
        exact ih hdistinct.2 h

theorem get?_ofRows (rows : List (String × α)) (key : String) :
    (ofRows rows).get? key = rows.reverse.lookup key := by
  have hfold : ∀ table : Table α, (rows.foldl (fun table row => table.insert row.1 row.2) table).get?
      key = (rows.reverse.lookup key).or (table.get? key) := by
    induction rows with
    | nil => exact fun table => rfl
    | cons row rows ih =>
        intro table
        rw [List.foldl_cons, ih, get?_insert, List.reverse_cons, List.lookup_append, lookup_row,
          List.lookup_nil]
        cases rows.reverse.lookup key <;> split <;> rfl
  rw [ofRows, hfold, get?_empty, Option.or_none]

-- Rows made of the values of a function tell that function.
theorem get?_ofRows_filterMap (names : List String) (value : String → Option α) (key : String)
    (h : key ∉ names → value key = none) :
    (ofRows (names.filterMap fun name => (value name).map (name, ·))).get? key = value key := by
  rw [get?_ofRows, ← List.filterMap_reverse]
  have hnames : key ∉ names.reverse → value key = none := by simpa using h
  generalize names.reverse = names at hnames ⊢
  induction names with
  | nil => exact (hnames (by simp)).symm
  | cons name names ih =>
      by_cases hname : key = name
      · subst hname
        cases hvalue : value key with
        | none =>
            rw [hvalue] at ih
            simpa [hvalue] using ih fun _ => rfl
        | some found => simp [hvalue]
      · have hrest := ih fun hnot => hnames (by simp [hname, hnot])
        cases hvalue : value name with
        | none => simpa [hvalue] using hrest
        | some found => simpa [hvalue, lookup_row, hname] using hrest

theorem mem_keys_iff (table : Table α) (key : String) :
    key ∈ table.keys ↔ (table.get? key).isSome := by
  unfold keys get?
  induction table.rows with
  | nil => simp
  | cons row rows ih =>
      rw [List.map_cons, List.mem_cons, lookup_row]
      split
      · simp [*]
      · simp [*]

theorem contains_iff (table : Table α) (key : String) :
    table.contains key = true ↔ key ∈ table.keys :=
  (table.mem_keys_iff key).symm

theorem mem_keys_insert (table : Table α) (key : String) (value : α) (name : String) :
    name ∈ (table.insert key value).keys ↔ name ∈ table.keys ∨ name = key := by
  rw [or_comm]
  exact mem_keys_put

-- Tables are told apart by their names, in order, and what they have under each.
theorem ext_get? {a b : Table α} (hkeys : a.keys = b.keys)
    (hget : ∀ key, a.get? key = b.get? key) : a = b := by
  have hrows (table : Table α) :
      table.rows = table.keys.filterMap fun key => (table.get? key).map (key, ·) := by
    have hrow : ∀ row ∈ table.rows,
        ((fun key => (table.get? key).map (key, ·)) ∘ Prod.fst) row = some row := by
      intro row hrow
      rw [Function.comp_apply, get?_of_mem_rows hrow]
      rfl
    rw [keys, List.filterMap_map, List.filterMap_congr hrow, List.filterMap_some]
  refine ext_rows ?_
  rw [hrows a, hrows b, hkeys]
  simp only [hget]

theorem size_congr {a b : Table α} (hget : ∀ key, a.get? key = b.get? key) : a.size = b.size := by
  have hkeys : a.keys.Perm b.keys := by
    refine (List.perm_ext_iff_of_nodup a.distinct b.distinct).mpr fun key => ?_
    exact (a.mem_keys_iff key).trans (by rw [hget, ← mem_keys_iff, keys])
  simpa only [keys, List.length_map, size] using hkeys.length_eq

theorem rows_insert_of_notMem (table : Table α) (key : String) (value : α)
    (h : key ∉ table.keys) : (table.insert key value).rows = table.rows ++ [(key, value)] := by
  unfold keys at h
  unfold insert
  dsimp only
  generalize table.rows = rows at h
  induction rows with
  | nil => rfl
  | cons row rows ih =>
      rw [List.map_cons, List.mem_cons, not_or] at h
      rw [put, if_neg h.1, ih h.2, List.cons_append]

theorem insert_of_get? {table : Table α} {key : String} {value : α}
    (h : table.get? key = some value) : table.insert key value = table := by
  have hused : key ∈ table.keys := (table.mem_keys_iff key).mpr (by rw [h]; rfl)
  refine ext_get? ((table.keys_insert key value).trans (if_pos hused)) fun other => ?_
  rw [get?_insert]
  split
  · rename_i hother
    rw [hother, h]
  · rfl

theorem insert_insert (table : Table α) (key : String) (first second : α) :
    (table.insert key first).insert key second = table.insert key second := by
  have hused : key ∈ (table.insert key first).keys :=
    (table.mem_keys_insert key first key).mpr (.inr rfl)
  refine ext_get? ?_ fun other => ?_
  · rw [keys_insert, if_pos hused, keys_insert, keys_insert]
  · rw [get?_insert, get?_insert, get?_insert]
    split <;> rfl

-- The rows that pass a test.
def filter (keep : String × α → Bool) (table : Table α) : Table α :=
  ⟨table.rows.filter keep, table.distinct.sublist (List.filter_sublist.map Prod.fst)⟩

theorem ofRows_rows (table : Table α) : ofRows table.rows = table := by
  have hfold : ∀ (rest : List (String × α)) (done : Table α), table.rows = done.rows ++ rest →
      rest.foldl (fun table row => table.insert row.1 row.2) done = table := by
    intro rest
    induction rest with
    | nil =>
        intro done h
        exact ext_rows (by simpa using h.symm)
    | cons row rest ih =>
        intro done h
        have hdistinct := table.distinct
        rw [h, List.map_append, List.map_cons] at hdistinct
        have hnew : row.1 ∉ done.keys :=
          fun hused => List.disjoint_of_nodup_append hdistinct hused (by simp)
        refine ih _ ?_
        rw [rows_insert_of_notMem done row.1 row.2 hnew, h, List.append_assoc]
        rfl
  exact hfold table.rows empty rfl

theorem mem_of_mem_rows_ofRows {rows : List (String × α)} {row : String × α}
    (h : row ∈ (ofRows rows).rows) : row ∈ rows := by
  have hget := get?_of_mem_rows h
  rw [get?_ofRows] at hget
  obtain ⟨front, back, hrows, -⟩ := List.lookup_eq_some_iff.mp hget
  rw [← List.mem_reverse, hrows]
  simp

theorem mem_keys_ofRows (rows : List (String × α)) (key : String) :
    key ∈ (ofRows rows).keys ↔ key ∈ rows.map Prod.fst := by
  rw [mem_keys_iff, get?_ofRows, ← not_iff_not, Option.not_isSome_iff_eq_none,
    List.lookup_eq_none_iff]
  simp only [List.mem_reverse, List.mem_map, not_exists, not_and, bne_iff_ne, ne_eq]
  exact ⟨fun h row hrow heq => h row hrow heq.symm, fun h row hrow heq => h row hrow heq.symm⟩

-- Rows that share a name come together in one.
theorem size_ofRows_iff (rows : List (String × α)) :
    (ofRows rows).size = rows.length ↔ (rows.map Prod.fst).Nodup := by
  have hkeys : (ofRows rows).keys.Perm (rows.map Prod.fst).dedup := by
    refine (List.perm_ext_iff_of_nodup (ofRows rows).distinct (List.nodup_dedup _)).mpr ?_
    intro key
    rw [List.mem_dedup]
    exact mem_keys_ofRows rows key
  have hsize : (ofRows rows).size = (rows.map Prod.fst).dedup.length := by
    rw [← hkeys.length_eq, keys, List.length_map, size]
  rw [hsize, ← List.length_map Prod.fst, ← List.dedup_eq_self]
  exact ⟨(List.dedup_sublist _).eq_of_length, congrArg List.length⟩

theorem exists_rows_insert {table : Table α} {key : String} {old : α}
    (h : table.get? key = some old) (value : α) :
    ∃ front back, table.rows = front ++ (key, old) :: back ∧
      (table.insert key value).rows = front ++ (key, value) :: back := by
  unfold get? at h
  unfold insert
  dsimp only
  generalize table.rows = rows at h
  induction rows with
  | nil => cases h
  | cons row rows ih =>
      rw [lookup_row] at h
      by_cases hkey : key = row.1
      · rw [if_pos hkey] at h
        obtain ⟨name, found⟩ := row
        obtain rfl := hkey
        obtain rfl := Option.some.inj h
        exact ⟨[], rows, rfl, by rw [put, if_pos rfl]; rfl⟩
      · rw [if_neg hkey] at h
        obtain ⟨front, back, hrows, hput⟩ := ih h
        exact ⟨row :: front, back, congrArg (row :: ·) hrows, by
          rw [put, if_neg hkey, hput]
          rfl⟩

theorem get?_foldl_of_kept {β : Type} {step : Table α → β → Table α} {key : String}
    (hstep : ∀ table item, (step table item).get? key = table.get? key) (items : List β)
    (table : Table α) : (items.foldl step table).get? key = table.get? key := by
  induction items generalizing table with
  | nil => rfl
  | cons item items ih => rw [List.foldl_cons, ih, hstep]

-- A table built up row by row, where each row of another table has a place of its own in it. Each
-- place meets one row at most.
theorem get?_foldl_rows {β : Type} {step : Table α → String × β → Table α}
    (place : String → String) (merged : Option α → β → Option α) (incoming : Table β)
    (hstep : ∀ table, ∀ row ∈ incoming.rows, ∀ key, (step table row).get? (place key) =
      if key = row.1 then merged (table.get? (place key)) row.2 else table.get? (place key))
    (target : Table α) (key : String) :
    (incoming.rows.foldl step target).get? (place key) =
      (incoming.get? key).elim (target.get? (place key)) (merged (target.get? (place key))) := by
  obtain ⟨rows, hdistinct⟩ := incoming
  unfold get? at hstep ⊢
  induction rows generalizing target with
  | nil => rfl
  | cons row rows ih =>
      rw [List.map_cons, List.nodup_cons] at hdistinct
      obtain ⟨hrow, hrows⟩ := List.forall_mem_cons.mp fun row hmem table => hstep table row hmem
      rw [List.foldl_cons, ih _ hdistinct.2 fun table row hmem => hrows row hmem table, lookup_row]
      by_cases hkey : key = row.1
      · have hfresh : rows.lookup key = none := by
          refine List.lookup_eq_none_iff.mpr fun other hother => ?_
          have hne : key ≠ other.1 :=
            fun heq => hdistinct.1 (hkey ▸ heq ▸ List.mem_map_of_mem hother)
          simpa using hne
        rw [hfresh, if_pos hkey, hrow target key, if_pos hkey]
        rfl
      · rw [if_neg hkey, hrow target key, if_neg hkey]

-- What the values of a table weigh together.
def total (weight : α → Nat) (table : Table α) : Nat :=
  (table.values.map weight).sum

theorem sum_map_rows (weight : α → Nat) (table : Table α) :
    (table.rows.map fun row => weight row.2).sum = table.total weight := by
  simp [total, values, Function.comp_def]

theorem total_one (table : Table α) : table.total (fun _ => 1) = table.size := by
  simp [total, values, size, Function.comp_def]

theorem total_map {β : Type} (weight : β → Nat) (f : α → β) (table : Table α) :
    (table.map f).total weight = table.total fun value => weight (f value) := by
  simp [total, values, rows_map, Function.comp_def]

theorem total_insert_of_none {table : Table α} {key : String} (h : table.get? key = none)
    (weight : α → Nat) (value : α) :
    (table.insert key value).total weight = table.total weight + weight value := by
  have hnew : key ∉ table.keys := by
    rw [mem_keys_iff, h]
    exact Bool.false_ne_true
  simp [total, values, rows_insert_of_notMem table key value hnew]

theorem total_insert_of_some {table : Table α} {key : String} {old : α}
    (h : table.get? key = some old) (weight : α → Nat) (value : α) :
    (table.insert key value).total weight + weight old = table.total weight + weight value := by
  obtain ⟨front, back, hrows, hinsert⟩ := exists_rows_insert h value
  simp only [total, values, hrows, hinsert, List.map_append, List.map_cons, List.sum_append,
    List.sum_cons]
  omega

-- The first rows of a table make a table.
theorem exists_rows_eq {table : Table α} {rows rest : List (String × α)}
    (h : table.rows = rows ++ rest) : ∃ first : Table α, first.rows = rows := by
  have hdistinct := table.distinct
  rw [h, List.map_append] at hdistinct
  exact ⟨⟨rows, hdistinct.of_append_left⟩, rfl⟩

-- A table is grown item by item, where each step that succeeds adds the row of its item.
theorem foldlM_eq_ok_iff {β ε : Type} {step : Table α → β → Except ε (Table α)}
    {row : β → String × α} {good : β → Prop}
    (hstep : ∀ table item grown, step table item = .ok grown ↔
      good item ∧ grown.rows = table.rows ++ [row item])
    (items : List β) (table grown : Table α) :
    items.foldlM step table = .ok grown ↔
      (∀ item ∈ items, good item) ∧ grown.rows = table.rows ++ items.map row := by
  induction items generalizing table with
  | nil =>
      have hsame : grown.rows = table.rows ↔ table = grown :=
        ⟨fun h => (ext_rows h).symm, fun h => h ▸ rfl⟩
      simpa [pure, Except.pure] using hsame.symm
  | cons item items ih =>
      rw [List.foldlM_cons, List.forall_mem_cons]
      constructor
      · intro h
        cases hfirst : step table item with
        | error error =>
            rw [hfirst] at h
            cases h
        | ok next =>
            rw [hfirst] at h
            obtain ⟨hitem, hnext⟩ := (hstep table item next).mp hfirst
            obtain ⟨hitems, hgrown⟩ := (ih next).mp h
            exact ⟨⟨hitem, hitems⟩, by rw [hgrown, hnext]; simp⟩
      · rintro ⟨⟨hitem, hitems⟩, hgrown⟩
        have hrows : grown.rows = (table.rows ++ [row item]) ++ items.map row := by simpa using hgrown
        obtain ⟨next, hnext⟩ := exists_rows_eq hrows
        rw [(hstep table item next).mpr ⟨hitem, hnext⟩]
        exact (ih next).mpr ⟨hitems, by rw [hrows, hnext]⟩

end Table

end ApiUnion
