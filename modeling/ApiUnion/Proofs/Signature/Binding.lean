import Mathlib.Data.List.Nodup
import ApiUnion.Proofs.Signature.Joining

-- Signatures with symbols for their own variables, one for each position. The placeholders of
-- canonical forms are such symbols, which, other than fresh ones, may be in use already.

namespace ApiUnion

open Signature

namespace Renaming

variable {rows : List (String × String)} {name image : String} {symbol : Nat → String}
  {names : List String}

theorem ofRows_of_mem (hdistinct : (rows.map Prod.fst).Nodup) (h : (name, image) ∈ rows) :
    ofRows rows name = image := by
  have hlookup : rows.reverse.lookup name = some image := by
    obtain ⟨front, back, hrows⟩ := List.append_of_mem (List.mem_reverse.mpr h)
    refine List.lookup_eq_some_iff.mpr ⟨front, back, hrows, fun row hrow => ?_⟩
    have hdistinct : (rows.reverse.map Prod.fst).Nodup := by
      rw [List.map_reverse]
      exact List.nodup_reverse.mpr hdistinct
    rw [hrows, List.map_append, List.map_cons] at hdistinct
    have hne := (List.nodup_append.mp hdistinct).2.2 row.1 (List.mem_map_of_mem hrow) name
      List.mem_cons_self
    simpa using hne.symm
  rw [ofRows, hlookup, Option.getD_some]

theorem ofRows_of_notMem (h : name ∉ rows.map Prod.fst) : ofRows rows name = name := by
  have hlookup : rows.reverse.lookup name = none := by
    refine List.lookup_eq_none_iff.mpr fun row hrow => ?_
    have hne : name ≠ row.1 := fun heq =>
      h (heq ▸ List.mem_map_of_mem (List.mem_reverse.mp hrow))
    simpa using hne
  rw [ofRows, hlookup, Option.getD_none]

theorem isSome_lookup_reverse (h : name ∈ rows.map Prod.fst) :
    (rows.reverse.lookup name).isSome := by
  obtain ⟨row, hrow, rfl⟩ := List.mem_map.mp h
  rw [← Option.ne_none_iff_isSome, Ne, List.lookup_eq_none_iff]
  intro hall
  simpa using hall row (List.mem_reverse.mpr hrow)

theorem ofRows_append_of_mem {others : List (String × String)} (h : name ∈ rows.map Prod.fst) :
    ofRows (others ++ rows) name = ofRows rows name := by
  rw [ofRows, ofRows, List.reverse_append, List.lookup_append,
    Option.or_of_isSome (isSome_lookup_reverse h)]

theorem ofRows_mem (h : name ∈ rows.map Prod.fst) : ofRows rows name ∈ rows.map Prod.snd := by
  obtain ⟨image, himage⟩ := Option.isSome_iff_exists.mp (isSome_lookup_reverse h)
  obtain ⟨front, back, hrows, -⟩ := List.lookup_eq_some_iff.mp himage
  have hrow : (name, image) ∈ rows := List.mem_reverse.mp (by simp [hrows])
  rw [ofRows, himage, Option.getD_some]
  exact List.mem_map_of_mem hrow

theorem toList_placeholder (i : Nat) : (placeholder i).toList = 'T' :: Nat.toDigits 10 i := by
  have happend : placeholder i = "T" ++ i.repr := rfl
  rw [happend, String.toList_append, Nat.toList_repr]
  rfl

theorem toDigits_injective : Function.Injective (Nat.toDigits 10) :=
  Function.LeftInverse.injective (g := fun digits => Nat.ofDigitChars 10 digits 0)
    fun _ => Nat.ofDigitChars_ten_toDigits

theorem placeholder_injective : Function.Injective placeholder := by
  intro i j h
  refine toDigits_injective ?_
  simpa [toList_placeholder] using congrArg String.toList h

theorem isIdentifier_placeholder (i : Nat) (stops : List Char) (hT : 'T' ∉ stops)
    (hdigits : ∀ c ∈ stops, c.isDigit = false) : IsIdentifier stops (placeholder i) := by
  rw [IsIdentifier, toList_placeholder, List.forall_mem_cons]
  refine ⟨List.cons_ne_nil _ _, hT, fun c hc hstop => ?_⟩
  have hdigit := Nat.isDigit_of_mem_toDigits (by decide) (by decide) hc
  rw [hdigits c hstop] at hdigit
  cases hdigit

theorem length_placeholders (names : List String) : (placeholders names).length = names.length := by
  simp [placeholders]

theorem nodup_placeholders (names : List String) : (placeholders names).Nodup :=
  List.nodup_range.map placeholder_injective

theorem mem_placeholders : name ∈ placeholders names ↔ ∃ i < names.length, placeholder i = name := by
  simp [placeholders]

def toSymbols (symbol : Nat → String) (names : List String) : Renaming :=
  ofRows (names.zip ((List.range names.length).map symbol))

theorem toSymbols_getElem (hdistinct : names.Nodup) (i : Nat) (hi : i < names.length) :
    toSymbols symbol names names[i] = symbol i := by
  refine ofRows_of_mem ?_ ?_
  · rwa [List.map_fst_zip (by simp)]
  · refine List.mem_iff_getElem.mpr ⟨i, by simpa using hi, by simp⟩

theorem toSymbols_of_notMem (h : name ∉ names) : toSymbols symbol names name = name := by
  refine ofRows_of_notMem ?_
  rwa [List.map_fst_zip (by simp)]

theorem map_toSymbols (hdistinct : names.Nodup) :
    names.map (toSymbols symbol names) = (List.range names.length).map symbol :=
  List.ext_getElem (by simp) fun i hi _ => by
    rw [List.getElem_map, toSymbols_getElem hdistinct, List.getElem_map, List.getElem_range]

theorem toSymbols_placeholder {i : Nat} (hi : i < names.length) :
    toSymbols symbol (placeholders names) (placeholder i) = symbol i := by
  have hi : i < (placeholders names).length := by rwa [length_placeholders]
  have hat : (placeholders names)[i] = placeholder i := by simp [placeholders]
  rw [← hat]
  exact toSymbols_getElem (nodup_placeholders names) i hi

-- By way of placeholders, where none of them is in use already.
theorem toSymbols_toPlaceholders (hdistinct : names.Nodup)
    (h : name ∈ names ∨ name ∉ placeholders names) :
    toSymbols symbol (placeholders names) (toPlaceholders names name) =
      toSymbols symbol names name := by
  by_cases hmem : name ∈ names
  · obtain ⟨i, hi, rfl⟩ := List.mem_iff_getElem.mp hmem
    have hplaceholder : toPlaceholders names names[i] = placeholder i :=
      toSymbols_getElem hdistinct i hi
    rw [hplaceholder, toSymbols_placeholder hi, toSymbols_getElem hdistinct]
  · have hplaceholder : toPlaceholders names name = name := toSymbols_of_notMem hmem
    rw [hplaceholder, toSymbols_of_notMem hmem, toSymbols_of_notMem (h.resolve_left hmem)]

theorem fromPlaceholders_placeholder {first second : List String} {i : Nat}
    (hi : i < first.length) : fromPlaceholders first second (placeholder i) = first[i] := by
  have hkeys : ((placeholders first).zip first).map Prod.fst = placeholders first :=
    List.map_fst_zip (by rw [length_placeholders])
  rw [fromPlaceholders, ofRows_append_of_mem]
  · refine ofRows_of_mem (by rw [hkeys]; exact nodup_placeholders first) ?_
    refine List.mem_iff_getElem.mpr ⟨i, by simpa [length_placeholders] using hi, ?_⟩
    simp [placeholders]
  · rw [hkeys]
    exact mem_placeholders.mpr ⟨i, hi, rfl⟩

theorem map_fromPlaceholders {first second : List String} :
    (placeholders first).map (fromPlaceholders first second) = first :=
  List.ext_getElem (by simp [length_placeholders]) fun i _ hi => by
    simp [placeholders, fromPlaceholders_placeholder hi]

theorem fromPlaceholders_of_notMem {first second : List String}
    (hlength : second.length = first.length) (h : name ∉ placeholders first) :
    fromPlaceholders first second name = name := by
  have hsame : placeholders second = placeholders first := by
    rw [placeholders, placeholders, hlength]
  refine ofRows_of_notMem ?_
  rw [List.map_append, List.map_fst_zip (by rw [length_placeholders]),
    List.map_fst_zip (by rw [length_placeholders]), hsame, List.mem_append, or_self]
  exact h

theorem toSymbols_fromPlaceholders {first second : List String} (hdistinct : first.Nodup)
    (hlength : second.length = first.length) (h : name ∈ placeholders first ∨ name ∉ first) :
    toSymbols symbol first (fromPlaceholders first second name) =
      toSymbols symbol (placeholders first) name := by
  by_cases hmem : name ∈ placeholders first
  · obtain ⟨i, hi, rfl⟩ := mem_placeholders.mp hmem
    rw [fromPlaceholders_placeholder hi, toSymbols_getElem hdistinct, toSymbols_placeholder hi]
  · rw [fromPlaceholders_of_notMem hlength hmem, toSymbols_of_notMem (h.resolve_left hmem),
      toSymbols_of_notMem hmem]

theorem injOn_toSymbols (hsymbol : Function.Injective symbol) :
    Set.InjOn (toSymbols symbol (placeholders names))
      {name | name ∈ placeholders names ∨ ∀ i, symbol i ≠ name} := by
  have hcases : ∀ name, (name ∈ placeholders names ∨ ∀ i, symbol i ≠ name) →
      (∃ i, name = placeholder i ∧ toSymbols symbol (placeholders names) name = symbol i) ∨
        toSymbols symbol (placeholders names) name = name ∧ ∀ i, symbol i ≠ name := by
    intro name h
    by_cases hmem : name ∈ placeholders names
    · obtain ⟨i, hi, rfl⟩ := mem_placeholders.mp hmem
      exact .inl ⟨i, rfl, toSymbols_placeholder hi⟩
    · exact .inr ⟨toSymbols_of_notMem hmem, h.resolve_left hmem⟩
  intro x hx y hy heq
  rcases hcases x hx with ⟨i, rfl, hi⟩ | ⟨hself, hfresh⟩ <;>
    rcases hcases y hy with ⟨j, rfl, hj⟩ | ⟨hself', hfresh'⟩
  · rw [hi, hj] at heq
    rw [hsymbol heq]
  · rw [hi, hself'] at heq
    exact absurd heq (hfresh' i)
  · rw [hself, hj] at heq
    exact absurd heq.symm (hfresh j)
  · rwa [hself, hself'] at heq

-- Symbols that are not in use.
structure Fresh (symbol : Nat → String) (used : List String) : Prop where
  injective : Function.Injective symbol
  unused : ∀ i, symbol i ∉ used

-- What is called like a placeholder of the own names is one of them itself.
def Apart (names used : List String) : Prop :=
  ∀ v ∈ used, v ∈ names ∨ v ∉ placeholders names

instance (names used : List String) : Decidable (Apart names used) :=
  inferInstanceAs (Decidable (∀ v ∈ used, v ∈ names ∨ v ∉ placeholders names))

theorem toPlaceholders_mem (h : name ∈ names) : toPlaceholders names name ∈ placeholders names := by
  have himage : toPlaceholders names name ∈ (names.zip (placeholders names)).map Prod.snd :=
    ofRows_mem (by rwa [List.map_fst_zip (by rw [length_placeholders])])
  rwa [List.map_snd_zip (by rw [length_placeholders])] at himage

theorem toPlaceholders_cases (hdistinct : names.Nodup) (v : String) :
    toPlaceholders names v ∈ placeholders names ∨ v ∉ names ∧ toPlaceholders names v = v := by
  by_cases hmem : v ∈ names
  · obtain ⟨i, hi, rfl⟩ := List.mem_iff_getElem.mp hmem
    have hplaceholder : toPlaceholders names names[i] = placeholder i :=
      toSymbols_getElem hdistinct i hi
    exact .inl (mem_placeholders.mpr ⟨i, hi, hplaceholder.symm⟩)
  · exact .inr ⟨hmem, toSymbols_of_notMem hmem⟩

theorem Fresh.scope {used : List String} (hfresh : Fresh symbol used)
    (hdistinct : names.Nodup) : ∀ v ∈ used.map (toPlaceholders names),
      v ∈ placeholders names ∨ ∀ i, symbol i ≠ v := by
  intro v hv
  obtain ⟨u, hu, rfl⟩ := List.mem_map.mp hv
  refine (toPlaceholders_cases hdistinct u).imp_right fun ⟨_, hself⟩ i hi => ?_
  rw [hself] at hi
  exact hfresh.unused i (hi ▸ hu)

theorem Fresh.mono {used others : List String} (h : Fresh symbol used)
    (hsubset : others ⊆ used) : Fresh symbol others :=
  ⟨h.injective, fun i hi => h.unused i (hsubset hi)⟩

-- Symbols that no name starts like.
def marked (i : Nat) : String :=
  "#" ++ placeholder i

theorem fresh_marked {used : List String} (h : ∀ v ∈ used, v.toList.head? ≠ some '#') :
    Fresh marked used where
  injective _ _ hij := placeholder_injective (String.append_right_inj _ |>.mp hij)
  unused i hi := h _ hi (by rw [marked, String.toList_append]; rfl)

end Renaming

open Renaming

def MethodSignature.bound (symbol : Nat → String) (signature : MethodSignature) :
    MethodSignature :=
  signature.rename (.toSymbols symbol signature.ownNames)

def ClassSignature.bound (symbol : Nat → String) (signature : ClassSignature) : ClassSignature :=
  signature.rename (.toSymbols symbol signature.ownNames)

theorem MethodSignature.ownNames_rename (names : Renaming) (signature : MethodSignature) :
    (signature.rename names).ownNames = signature.ownNames.map names := by
  simp only [MethodSignature.ownNames, ApiUnion.ownNames, MethodSignature.rename, List.map_map]
  rfl

theorem ClassSignature.ownNames_rename (names : Renaming) (signature : ClassSignature) :
    (signature.rename names).ownNames = signature.ownNames.map names := by
  simp only [ClassSignature.ownNames, ApiUnion.ownNames, ClassSignature.rename, List.map_map]
  rfl

section Methods

variable {symbol : Nat → String} {a b : MethodSignature}

theorem MethodSignature.ownNames_canonical (h : a.ownNames.Nodup) :
    a.canonical.ownNames = placeholders a.ownNames := by
  rw [canonical, ownNames_rename]
  exact map_toSymbols h

theorem MethodSignature.rename_canonical (h : a.ownNames.Nodup)
    (hapart : Apart a.ownNames a.variables) :
    a.canonical.rename (.toSymbols symbol (placeholders a.ownNames)) = a.bound symbol := by
  rw [canonical, rename_rename]
  exact a.rename_congr fun v hv => toSymbols_toPlaceholders h (hapart v hv)

theorem MethodSignature.join?_bound (ha : a.ownNames.Nodup) (hb : b.ownNames.Nodup)
    (hplaceholders : placeholders b.ownNames = placeholders a.ownNames)
    (haApart : Apart a.ownNames a.variables) (hbApart : Apart b.ownNames b.variables)
    (hfresh : Fresh symbol (a.variables ++ b.variables)) :
    (a.bound symbol).join? (b.bound symbol) = (a.canonical.join? b.canonical).map
      (MethodSignature.rename (.toSymbols symbol (placeholders a.ownNames))) := by
  rw [← rename_canonical ha haApart, ← rename_canonical hb hbApart, hplaceholders]
  refine MethodSignature.join?_rename (injOn_toSymbols hfresh.injective) _ _ ?_ ?_
  · rw [canonical, variables_rename]
    exact (hfresh.mono (List.subset_append_left _ _)).scope ha
  · rw [canonical, variables_rename, ← hplaceholders]
    exact (hfresh.mono (List.subset_append_right _ _)).scope hb

theorem MethodSignature.bound_eq_bound_iff (ha : a.ownNames.Nodup) (hb : b.ownNames.Nodup)
    (haApart : Apart a.ownNames a.variables) (hbApart : Apart b.ownNames b.variables)
    (hfresh : Fresh symbol (a.variables ++ b.variables)) :
    a.bound symbol = b.bound symbol ↔ a.canonical = b.canonical := by
  have hlength : ∀ {x y : MethodSignature}, x.ownNames.length = y.ownNames.length →
      placeholders x.ownNames = placeholders y.ownNames := fun h => by
    rw [placeholders, placeholders, h]
  constructor
  · intro h
    have hcount := congrArg (fun signature => signature.ownNames.length) h
    simp only [bound, ownNames_rename, List.length_map] at hcount
    rw [← rename_canonical ha haApart, ← rename_canonical hb hbApart, hlength hcount] at h
    refine (rename_injOn (injOn_toSymbols hfresh.injective) ?_ ?_).mp h
    · rw [canonical, variables_rename, ← hlength hcount]
      exact (hfresh.mono (List.subset_append_left _ _)).scope ha
    · rw [canonical, variables_rename]
      exact (hfresh.mono (List.subset_append_right _ _)).scope hb
  · intro h
    have hcount := congrArg MethodSignature.ownNames h
    rw [ownNames_canonical ha, ownNames_canonical hb] at hcount
    rw [← rename_canonical ha haApart, ← rename_canonical hb hbApart, h, hcount]

theorem MethodSignature.ownNames_fromPlaceholders {join : MethodSignature} (ha : a.ownNames.Nodup)
    (h : a.canonical.join? b.canonical = some join) :
    b.ownNames.length = a.ownNames.length ∧
      (join.rename (.fromPlaceholders a.ownNames b.ownNames)).ownNames = a.ownNames := by
  obtain ⟨hparameters, hcount⟩ :=
    loosens_joinParameters? (MethodSignature.join?_eq_some h).1
  refine ⟨by simpa [ownNames, ApiUnion.ownNames, canonical, rename] using hcount, ?_⟩
  have hjoin : join.ownNames = placeholders a.ownNames :=
    (ownNames_of_loosens hparameters).trans (ownNames_canonical ha)
  rw [ownNames_rename, hjoin]
  exact map_fromPlaceholders

-- A join with the names of the first put back.
theorem MethodSignature.bound_fromPlaceholders (symbol : Nat → String) {join : MethodSignature}
    (ha : a.ownNames.Nodup) (h : a.canonical.join? b.canonical = some join) :
    placeholders b.ownNames = placeholders a.ownNames ∧
      (join.rename (.fromPlaceholders a.ownNames b.ownNames)).ownNames = a.ownNames ∧
      (join.rename (.fromPlaceholders a.ownNames b.ownNames)).bound symbol =
        join.rename (.toSymbols symbol (placeholders a.ownNames)) := by
  obtain ⟨hlength, hnames⟩ := ownNames_fromPlaceholders ha h
  refine ⟨by rw [placeholders, placeholders, hlength], hnames, ?_⟩
  rw [bound, hnames, rename_rename]
  refine join.rename_congr fun v hv => toSymbols_fromPlaceholders ha hlength ?_
  have hv := variables_join? h hv
  rw [canonical, variables_rename] at hv
  obtain ⟨u, -, rfl⟩ := List.mem_map.mp hv
  exact (toPlaceholders_cases ha u).imp_right fun ⟨hu, hself⟩ => hself.symm ▸ hu

end Methods

section Classes

variable {symbol : Nat → String} {a b : ClassSignature}

theorem ClassSignature.ownNames_canonical (h : a.ownNames.Nodup) :
    a.canonical.ownNames = placeholders a.ownNames := by
  rw [canonical, ownNames_rename]
  exact map_toSymbols h

theorem ClassSignature.rename_canonical (h : a.ownNames.Nodup)
    (hapart : Apart a.ownNames a.variables) :
    a.canonical.rename (.toSymbols symbol (placeholders a.ownNames)) = a.bound symbol := by
  rw [canonical, rename_rename]
  exact a.rename_congr fun v hv => toSymbols_toPlaceholders h (hapart v hv)

theorem ClassSignature.join?_bound (ha : a.ownNames.Nodup) (hb : b.ownNames.Nodup)
    (hplaceholders : placeholders b.ownNames = placeholders a.ownNames)
    (haApart : Apart a.ownNames a.variables) (hbApart : Apart b.ownNames b.variables)
    (hfresh : Fresh symbol (a.variables ++ b.variables)) :
    (a.bound symbol).join? (b.bound symbol) = (a.canonical.join? b.canonical).map
      (ClassSignature.rename (.toSymbols symbol (placeholders a.ownNames))) := by
  rw [← rename_canonical ha haApart, ← rename_canonical hb hbApart, hplaceholders]
  refine ClassSignature.join?_rename (injOn_toSymbols hfresh.injective) _ _ ?_ ?_
  · rw [canonical, variables_rename]
    exact (hfresh.mono (List.subset_append_left _ _)).scope ha
  · rw [canonical, variables_rename, ← hplaceholders]
    exact (hfresh.mono (List.subset_append_right _ _)).scope hb

theorem ClassSignature.bound_eq_bound (ha : a.ownNames.Nodup) (hb : b.ownNames.Nodup)
    (haApart : Apart a.ownNames a.variables) (hbApart : Apart b.ownNames b.variables)
    (h : a.canonical = b.canonical) : a.bound symbol = b.bound symbol := by
  have hcount := congrArg ClassSignature.ownNames h
  rw [ownNames_canonical ha, ownNames_canonical hb] at hcount
  rw [← rename_canonical ha haApart, ← rename_canonical hb hbApart, h, hcount]

theorem ClassSignature.ownNames_fromPlaceholders {join : ClassSignature} (ha : a.ownNames.Nodup)
    (h : a.canonical.join? b.canonical = some join) :
    b.ownNames.length = a.ownNames.length ∧
      (join.rename (.fromPlaceholders a.ownNames b.ownNames)).ownNames = a.ownNames := by
  obtain ⟨hparameters, hcount⟩ :=
    loosens_joinParameters? (ClassSignature.join?_eq_some h).1
  refine ⟨by simpa [ownNames, ApiUnion.ownNames, canonical, rename] using hcount, ?_⟩
  have hjoin : join.ownNames = placeholders a.ownNames :=
    (ownNames_of_loosens hparameters).trans (ownNames_canonical ha)
  rw [ownNames_rename, hjoin]
  exact map_fromPlaceholders

-- Interfaces of the second come under its names, of which the first must not have any for its own.
theorem ClassSignature.bound_fromPlaceholders (symbol : Nat → String) {join : ClassSignature}
    (ha : a.ownNames.Nodup) (hb : b.ownNames.Nodup)
    (hforeign : ∀ v ∈ b.variables, v ∈ b.ownNames ∨ v ∉ a.ownNames)
    (h : a.canonical.join? b.canonical = some join) :
    placeholders b.ownNames = placeholders a.ownNames ∧
      (join.rename (.fromPlaceholders a.ownNames b.ownNames)).ownNames = a.ownNames ∧
      (join.rename (.fromPlaceholders a.ownNames b.ownNames)).bound symbol =
        join.rename (.toSymbols symbol (placeholders a.ownNames)) := by
  obtain ⟨hlength, hnames⟩ := ownNames_fromPlaceholders ha h
  refine ⟨by rw [placeholders, placeholders, hlength], hnames, ?_⟩
  rw [bound, hnames, rename_rename]
  refine join.rename_congr fun v hv => toSymbols_fromPlaceholders ha hlength ?_
  rcases variables_join? h v hv with hv | hv <;> rw [canonical, variables_rename] at hv <;>
    obtain ⟨u, hu, rfl⟩ := List.mem_map.mp hv
  · exact (toPlaceholders_cases ha u).imp_right fun ⟨hu, hself⟩ => hself.symm ▸ hu
  · rcases toPlaceholders_cases hb u with hplaceholder | ⟨hown, hself⟩
    · rw [placeholders, hlength] at hplaceholder
      exact .inl hplaceholder
    · rw [hself]
      exact .inr ((hforeign u hu).resolve_left hown)

end Classes

theorem GenericType.isReference_rename {names : Renaming} (type : GenericType)
    (h : type.IsReference) : (type.rename names).IsReference := by
  cases type with
  | base type => exact h
  | array component | var name | classType segments => trivial

mutual

theorem GenericType.legible_rename {names : Renaming}
    (h : ∀ v, IsIdentifier [';'] v → IsIdentifier [';'] (names v)) :
    ∀ type : GenericType, type.Legible → (type.rename names).Legible
  | .base _, _ => trivial
  | .array component, hlegible => component.legible_rename h hlegible
  | .var name, hlegible => h name hlegible
  | .classType segments, hlegible =>
      ⟨by
        obtain ⟨segment, rest, rfl⟩ := List.exists_cons_of_ne_nil hlegible.1
        exact List.cons_ne_nil _ _, legibleSegments_rename h segments hlegible.2⟩

theorem Segment.legible_rename {names : Renaming}
    (h : ∀ v, IsIdentifier [';'] v → IsIdentifier [';'] (names v)) :
    ∀ segment : Segment, segment.Legible → (segment.rename names).Legible
  | ⟨_, arguments⟩, hlegible => ⟨hlegible.1, legibleArguments_rename h arguments hlegible.2⟩

theorem TypeArgument.legible_rename {names : Renaming}
    (h : ∀ v, IsIdentifier [';'] v → IsIdentifier [';'] (names v)) :
    ∀ argument : TypeArgument, argument.Legible → (argument.rename names).Legible
  | .any, _ => trivial
  | .bounded _ bound, hlegible => ⟨bound.isReference_rename hlegible.1,
      bound.legible_rename h hlegible.2⟩

theorem legibleSegments_rename {names : Renaming}
    (h : ∀ v, IsIdentifier [';'] v → IsIdentifier [';'] (names v)) :
    ∀ segments : List Segment, LegibleSegments segments →
      LegibleSegments (renameSegments names segments)
  | [], _ => trivial
  | segment :: rest, hlegible =>
      ⟨segment.legible_rename h hlegible.1, legibleSegments_rename h rest hlegible.2⟩

theorem legibleArguments_rename {names : Renaming}
    (h : ∀ v, IsIdentifier [';'] v → IsIdentifier [';'] (names v)) :
    ∀ arguments : List TypeArgument, LegibleArguments arguments →
      LegibleArguments (renameArguments names arguments)
  | [], _ => trivial
  | argument :: rest, hlegible =>
      ⟨argument.legible_rename h hlegible.1, legibleArguments_rename h rest hlegible.2⟩

end

-- A name that can be declared. Where it is declared it ends with a colon, where it is used, with a
-- semicolon. A declared name can hold the semicolon, a used one the colon.
structure IsParameterName (name : String) : Prop where
  identifier : IsIdentifier [':'] name
  opening : name.toList.head? ≠ some '>'

-- A renaming under which names stay legible, for declarations where they are declared.
structure Renaming.KeepsLegible (names : Renaming) (declared : List String) : Prop where
  used : ∀ v, IsIdentifier [';'] v → IsIdentifier [';'] (names v)
  declared : ∀ v ∈ declared, IsParameterName (names v)

theorem Renaming.KeepsLegible.mono {names : Renaming} {declared others : List String}
    (h : names.KeepsLegible declared) (hsubset : others ⊆ declared) : names.KeepsLegible others :=
  ⟨h.used, fun v hv => h.declared v (hsubset hv)⟩

theorem TypeParameter.Legible.rename {names : Renaming} {parameter : TypeParameter}
    (hused : ∀ v, IsIdentifier [';'] v → IsIdentifier [';'] (names v))
    (hname : IsParameterName (names parameter.name)) (h : parameter.Legible) :
    (parameter.rename names).Legible where
  name := hname.identifier
  opening := hname.opening
  bounded := by
    rw [bounds_rename, Ne, List.map_eq_nil_iff]
    exact h.bounded
  bounds := by
    rw [bounds_rename, List.forall_mem_map]
    exact fun bound hbound => ⟨bound.isReference_rename (h.bounds bound hbound).1,
      bound.legible_rename hused (h.bounds bound hbound).2⟩

theorem MethodSignature.Legible.rename {names : Renaming} {signature : MethodSignature}
    (hnames : names.KeepsLegible signature.ownNames) (h : signature.Legible) :
    (signature.rename names).Legible where
  typeParameters := List.forall_mem_map.mpr fun parameter hparameter =>
    (h.typeParameters parameter hparameter).rename hnames.used
      (hnames.declared _ (List.mem_map_of_mem hparameter))
  parameters := List.forall_mem_map.mpr fun type htype =>
    type.legible_rename hnames.used (h.parameters type htype)
  result type htype := by
    obtain ⟨old, hold, rfl⟩ := Option.mem_map.mp htype
    exact old.legible_rename hnames.used (h.result old hold)
  throws := List.forall_mem_map.mpr fun type htype =>
    ⟨type.isReference_rename (h.throws type htype).1,
      type.legible_rename hnames.used (h.throws type htype).2⟩

theorem ClassSignature.Legible.rename {names : Renaming} {signature : ClassSignature}
    (hnames : names.KeepsLegible signature.ownNames) (h : signature.Legible) :
    (signature.rename names).Legible where
  typeParameters := List.forall_mem_map.mpr fun parameter hparameter =>
    (h.typeParameters parameter hparameter).rename hnames.used
      (hnames.declared _ (List.mem_map_of_mem hparameter))
  superclass := GenericType.legible_rename hnames.used _ h.superclass
  interfaces := List.forall_mem_map.mpr fun type htype =>
    GenericType.legible_rename hnames.used _ (h.interfaces type htype)

theorem Renaming.keepsLegible_toPlaceholders (names : List String) :
    (toPlaceholders names).KeepsLegible names where
  used v hv := by
    by_cases hmem : v ∈ names
    · obtain ⟨i, -, hi⟩ := mem_placeholders.mp (toPlaceholders_mem hmem)
      rw [← hi]
      exact isIdentifier_placeholder i _ (by simp) (by simp)
    · have hself : toPlaceholders names v = v := toSymbols_of_notMem hmem
      rwa [hself]
  declared v hv := by
    obtain ⟨i, -, hi⟩ := mem_placeholders.mp (toPlaceholders_mem hv)
    rw [← hi]
    refine ⟨isIdentifier_placeholder i _ (by simp) (by simp), ?_⟩
    rw [toList_placeholder]
    simp

theorem Renaming.keepsLegible_fromPlaceholders {first second : List String}
    (hlength : second.length = first.length) (hdeclared : ∀ name ∈ first, IsParameterName name)
    (hused : ∀ name ∈ first, ';' ∉ name.toList) :
    (fromPlaceholders first second).KeepsLegible (placeholders first) where
  used v hv := by
    by_cases hmem : v ∈ placeholders first
    · obtain ⟨i, hi, rfl⟩ := mem_placeholders.mp hmem
      rw [fromPlaceholders_placeholder hi]
      have hname := List.getElem_mem hi
      refine ⟨(hdeclared _ hname).identifier.1, fun c hc hstop => hused _ hname ?_⟩
      rwa [← List.mem_singleton.mp hstop]
    · rwa [fromPlaceholders_of_notMem hlength hmem]
  declared v hv := by
    obtain ⟨i, hi, rfl⟩ := mem_placeholders.mp hv
    rw [fromPlaceholders_placeholder hi]
    exact hdeclared _ (List.getElem_mem hi)

theorem parameterNames {parameters : List TypeParameter}
    (h : ∀ parameter ∈ parameters, parameter.Legible) :
    ∀ name ∈ ownNames parameters, IsParameterName name :=
  List.forall_mem_map.mpr fun parameter hparameter =>
    ⟨(h parameter hparameter).name, (h parameter hparameter).opening⟩

theorem MethodSignature.legible_canonical {signature : MethodSignature} (h : signature.Legible) :
    signature.canonical.Legible :=
  h.rename (keepsLegible_toPlaceholders signature.ownNames)

theorem ClassSignature.legible_canonical {signature : ClassSignature} (h : signature.Legible) :
    signature.canonical.Legible :=
  h.rename (keepsLegible_toPlaceholders signature.ownNames)

-- Putting the names of the first back keeps a join legible if they can be used where they stand.
theorem keepsLegible_join {as bs joins : List TypeParameter}
    (hparameters : ∀ parameter ∈ as, parameter.Legible)
    (hused : ∀ name ∈ ownNames as, ';' ∉ name.toList)
    (h : joinParameters? (as.map (TypeParameter.rename (.toPlaceholders (ownNames as))))
      (bs.map (TypeParameter.rename (.toPlaceholders (ownNames bs)))) = some joins) :
    (fromPlaceholders (ownNames as) (ownNames bs)).KeepsLegible (ownNames joins) := by
  obtain ⟨hjoins, hcount⟩ := loosens_joinParameters? h
  have hlength : (ownNames bs).length = (ownNames as).length := by
    simpa [ownNames] using hcount
  refine (keepsLegible_fromPlaceholders hlength (parameterNames hparameters) hused).mono ?_
  rw [ownNames_of_loosens hjoins]
  intro name hname
  obtain ⟨renamed, hrenamed, rfl⟩ := List.mem_map.mp hname
  obtain ⟨parameter, hparameter, rfl⟩ := List.mem_map.mp hrenamed
  exact toPlaceholders_mem (List.mem_map_of_mem hparameter)

theorem MethodSignature.legible_merged {a b join : MethodSignature} (ha : a.Legible)
    (hused : ∀ name ∈ a.ownNames, ';' ∉ name.toList)
    (hjoin : a.canonical.join? b.canonical = some join) :
    (join.rename (.fromPlaceholders a.ownNames b.ownNames)).Legible :=
  ((MethodSignature.legible_canonical ha).join? hjoin).rename
    (keepsLegible_join ha.typeParameters hused (MethodSignature.join?_eq_some hjoin).1)

theorem ClassSignature.legible_merged {a b join : ClassSignature} (ha : a.Legible)
    (hb : b.Legible) (hused : ∀ name ∈ a.ownNames, ';' ∉ name.toList)
    (hjoin : a.canonical.join? b.canonical = some join) :
    (join.rename (.fromPlaceholders a.ownNames b.ownNames)).Legible :=
  ((ClassSignature.legible_canonical ha).join? (ClassSignature.legible_canonical hb) hjoin).rename
    (keepsLegible_join ha.typeParameters hused (ClassSignature.join?_eq_some hjoin).1)

end ApiUnion
