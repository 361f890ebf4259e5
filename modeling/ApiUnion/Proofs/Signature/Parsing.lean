import Mathlib.Data.List.Basic
import Mathlib.Data.List.TakeWhile
import ApiUnion.Proofs.Text.Collecting
import ApiUnion.Signature.Parser

-- What the parsers of signatures accept. Each takes a value off the front of a text exactly if the
-- text starts with the printed value, for all values that can be printed at all.

namespace ApiUnion

namespace Signature

variable {α : Type}

-- The parser takes exactly the values of `legible`, where they are printed. What follows can decide
-- where a value ends.
def Takes (parse : Parser α) (legible : α → Prop) (chars : α → List Char)
    (follow : List Char → Prop) : Prop :=
  ∀ input value rest, parse input = some (value, rest) ↔
    legible value ∧ input = chars value ++ rest ∧ follow rest

-- The value ends where its last character says so.
def Closed (_rest : List Char) : Prop :=
  True

-- A name that is read up to one of the `stops`.
def IsIdentifier (stops : List Char) (name : String) : Prop :=
  name.toList ≠ [] ∧ ∀ c ∈ name.toList, c ∉ stops

theorem takes_identifier? (stops : List Char) :
    Takes (identifier? stops) (IsIdentifier stops) String.toList
      (fun rest => ∃ stop ∈ rest.head?, stop ∈ stops) := by
  intro input name rest
  simp only [identifier?]
  constructor
  · intro h
    split at h
    · cases h
    · rename_i htail
      split at h
      · cases h
      · rename_i hempty
        simp only [Option.some.injEq, Prod.mk.injEq] at h
        obtain ⟨rfl, rfl⟩ := h
        refine ⟨⟨?_, ?_⟩, ?_, ?_⟩
        · simpa using hempty
        · intro c hc
          rw [String.toList_ofList] at hc
          simpa using List.mem_takeWhile_imp hc
        · rw [String.toList_ofList, List.takeWhile_append_dropWhile]
        · cases hrest : input.dropWhile fun c => !stops.contains c with
          | nil => exact absurd hrest htail
          | cons stop tail =>
              refine ⟨stop, rfl, ?_⟩
              have hstop := List.head?_dropWhile_not (fun c => !stops.contains c) input
              rw [hrest] at hstop
              simpa using hstop
  · rintro ⟨⟨hne, hname⟩, rfl, stop, hstop, hmem⟩
    obtain ⟨tail, rfl⟩ := List.head?_eq_some_iff.mp hstop
    have hkept : ∀ c ∈ name.toList, (!stops.contains c) = true := fun c hc => by
      simpa using hname c hc
    have hstops : (!stops.contains stop) = false := by simpa using hmem
    rw [List.takeWhile_append_of_pos hkept, List.dropWhile_append_of_pos hkept,
      List.takeWhile_cons, List.dropWhile_cons, hstops]
    simp [hne]

theorem expect?_eq_some_iff (c : Char) (input rest : List Char) :
    expect? c input = some rest ↔ input = c :: rest := by
  cases input with
  | nil => simp [expect?]
  | cons d input => simp [expect?, eq_comm]

variable {item : Parser α} {legible : α → Prop} {chars : α → List Char}
  {follow : List Char → Prop}

theorem Takes.bind_eq_some_iff {β : Type} (hitem : Takes item legible chars follow)
    (next : α × List Char → Option β) (input : List Char) (result : β) :
    (item input).bind next = some result ↔
      ∃ value rest, legible value ∧ input = chars value ++ rest ∧ follow rest ∧
        next (value, rest) = some result := by
  rw [Option.bind_eq_some_iff, Prod.exists]
  refine exists_congr fun value => exists_congr fun rest => ?_
  rw [hitem, and_assoc, and_assoc]

theorem collects_itemsTo? (stop : Char) (hitem : Takes item legible chars follow)
    (hne : ∀ value, legible value → chars value ≠ []) :
    Collects (fun value => legible value ∧ (chars value).head? ≠ some stop) chars follow
      (fun input values result => ∃ rest, input = stop :: rest ∧ result = (values, rest))
      (itemsTo? stop item) where
  zero found result := by simp [itemsTo?]
  succ fuel found input result := by
    have hhead : ∀ value rest, legible value → input = chars value ++ rest →
        (chars value).head? = input.head? := by
      intro value rest hvalue hinput
      rw [hinput, List.head?_append_of_ne_nil _ (hne value hvalue)]
    cases input with
    | nil =>
        rw [itemsTo?]
        constructor
        · exact fun h => by cases h
        · rintro (⟨rest, hrest, -⟩ | ⟨value, rest, ⟨hvalue, -⟩, hinput, -⟩)
          · cases hrest
          · exact absurd (List.append_eq_nil_iff.mp hinput.symm).1 (hne value hvalue)
    | cons c input =>
        by_cases hc : c = stop
        · subst hc
          rw [itemsTo?, if_pos rfl]
          constructor
          · exact fun h => .inl ⟨input, rfl, (Option.some.inj h).symm⟩
          · rintro (⟨rest, hrest, rfl⟩ | ⟨value, rest, ⟨hvalue, hne⟩, hinput, -⟩)
            · rw [List.tail_eq_of_cons_eq hrest]
            · -- An item that starts with the closing character is never reached.
              exact absurd (hhead value rest hvalue hinput) hne
        · rw [itemsTo?, if_neg hc]
          refine (hitem.bind_eq_some_iff _ _ _).trans ⟨?_, ?_⟩
          · rintro ⟨value, rest, hvalue, hinput, hrest⟩
            refine .inr ⟨value, rest, ⟨hvalue, fun hstop => hc ?_⟩, hinput, hrest⟩
            exact Option.some.inj ((hhead value rest hvalue hinput).symm.trans hstop)
          · rintro (⟨rest, hrest, -⟩ | ⟨value, rest, ⟨hvalue, -⟩, hrest⟩)
            · exact absurd (List.head_eq_of_cons_eq hrest) hc
            · exact ⟨value, rest, hvalue, hrest⟩

theorem takes_upTo? (stop : Char) (hitem : Takes item legible chars follow)
    (hne : ∀ value, legible value → chars value ≠ []) (hstop : ∀ rest, follow (stop :: rest))
    (hnext : ∀ value rest, legible value → follow (chars value ++ rest)) :
    Takes (upTo? stop item)
      (fun values => ∀ value ∈ values, legible value ∧ (chars value).head? ≠ some stop)
      (fun values => values.flatMap chars ++ [stop]) Closed := by
  intro input values rest
  rw [upTo?, (collects_itemsTo? stop hitem hne).eq_some_iff (fun value hvalue => hne value hvalue.1)
    (fun input _ _ hends => ?_) (fun value rest hvalue => hnext value rest hvalue.1) _ _ _
    (Nat.le_refl _)]
  · simp only [List.reverse_nil, List.nil_append, List.append_assoc, List.cons_append, Closed,
      and_true]
    constructor
    · rintro ⟨more, last, hmore, hinput, rest, rfl, hresult⟩
      cases hresult
      exact ⟨hmore, hinput⟩
    · rintro ⟨hmore, hinput⟩
      exact ⟨values, stop :: rest, hmore, hinput, rest, rfl, rfl⟩
  · obtain ⟨rest, rfl, -⟩ := hends
    exact hstop rest

-- Values in angle brackets, which are left out where there are none.
def bracketed (chars : α → List Char) : List α → List Char
  | [] => []
  | value :: rest => '<' :: ((value :: rest).flatMap chars ++ ['>'])

theorem inBrackets_eq_some_iff {parse : Parser (List α)} (hitem : Takes item legible chars follow)
    (hne : ∀ value, legible value → chars value ≠ []) (hstop : ∀ rest, follow ('>' :: rest))
    (hnext : ∀ value rest, legible value → follow (chars value ++ rest))
    (hopen : ∀ input, parse ('<' :: input) = (upTo? '>' item input).bind fun found =>
      if found.1.isEmpty then none else some (found.1, found.2))
    (hnone : ∀ input, input.head? ≠ some '<' → parse input = some ([], input))
    (input : List Char) (values : List α) (rest : List Char) :
    parse input = some (values, rest) ↔
      (∀ value ∈ values, legible value ∧ (chars value).head? ≠ some '>') ∧
        input = bracketed chars values ++ rest ∧ (values = [] → rest.head? ≠ some '<') := by
  have hitems := takes_upTo? '>' hitem hne hstop hnext
  by_cases hhead : input.head? = some '<'
  · obtain ⟨tail, rfl⟩ := List.head?_eq_some_iff.mp hhead
    rw [hopen, Option.bind_eq_some_iff]
    constructor
    · rintro ⟨⟨found, after⟩, hfound, hread⟩
      obtain ⟨hlegible, rfl, -⟩ := (hitems _ _ _).mp hfound
      cases found with
      | nil => cases hread
      | cons value found =>
          simp only [List.isEmpty_cons, Bool.false_eq_true, if_false, Option.some.injEq,
            Prod.mk.injEq] at hread
          obtain ⟨rfl, rfl⟩ := hread
          exact ⟨hlegible, rfl, fun h => by cases h⟩
    · rintro ⟨hlegible, hinput, hrest⟩
      cases values with
      | nil =>
          rw [bracketed, List.nil_append] at hinput
          rw [hinput] at hhead
          exact absurd hhead (hrest rfl)
      | cons value values =>
          rw [bracketed, List.cons_append, List.cons.injEq] at hinput
          exact ⟨_, (hitems _ _ rest).mpr ⟨hlegible, hinput.2, trivial⟩, rfl⟩
  · rw [hnone input hhead, Option.some.injEq, Prod.mk.injEq]
    constructor
    · rintro ⟨rfl, rfl⟩
      exact ⟨by simp, rfl, fun _ => hhead⟩
    · rintro ⟨-, rfl, -⟩
      cases values with
      | nil => exact ⟨rfl, rfl⟩
      | cons value values => exact absurd rfl hhead

theorem collects_itemsAfter? (sign : Char) (hitem : Takes item legible chars Closed) :
    Collects legible (fun value => sign :: chars value) Closed
      (fun input values result => input.head? ≠ some sign ∧ result = (values, input))
      (itemsAfter? sign item) where
  zero found result := by simp [itemsAfter?, eq_comm]
  succ fuel found input result := by
    by_cases hhead : input.head? = some sign
    · obtain ⟨tail, rfl⟩ := List.head?_eq_some_iff.mp hhead
      simp only [itemsAfter?, (expect?_eq_some_iff sign _ tail).mpr rfl]
      refine (hitem.bind_eq_some_iff _ _ _).trans ⟨?_, ?_⟩
      · rintro ⟨value, rest, hvalue, rfl, hrest⟩
        exact .inr ⟨value, rest, hvalue, rfl, hrest⟩
      · rintro (⟨hends, -⟩ | ⟨value, rest, hvalue, hinput, hrest⟩)
        · exact absurd rfl hends
        · exact ⟨value, rest, hvalue, List.tail_eq_of_cons_eq hinput, hrest⟩
    · have hexpect : expect? sign input = none := by
        rw [Option.eq_none_iff_forall_ne_some]
        rintro rest hrest
        rw [(expect?_eq_some_iff sign input rest).mp hrest] at hhead
        exact hhead rfl
      simp only [itemsAfter?, hexpect]
      constructor
      · exact fun h => .inl ⟨hhead, (Option.some.inj h).symm⟩
      · rintro (⟨-, rfl⟩ | ⟨value, rest, -, rfl, -⟩)
        · rfl
        · exact absurd rfl hhead

theorem takes_announced? (sign : Char) (hitem : Takes item legible chars Closed) :
    Takes (announced? sign item) (fun values => ∀ value ∈ values, legible value)
      (fun values => values.flatMap fun value => sign :: chars value)
      (fun rest => rest.head? ≠ some sign) := by
  intro input values rest
  rw [announced?, (collects_itemsAfter? sign hitem).eq_some_iff
    (fun _ _ => List.cons_ne_nil _ _) (fun _ _ _ _ => trivial) (fun _ _ _ => trivial) _ _ _
    (Nat.le_refl _)]
  constructor
  · rintro ⟨more, last, hmore, hinput, hend, hresult⟩
    cases hresult
    exact ⟨hmore, hinput, hend⟩
  · rintro ⟨hmore, hinput, hend⟩
    exact ⟨values, rest, hmore, hinput, hend, rfl⟩

theorem collects_itemsToEnd? (hitem : Takes item legible chars Closed)
    (hne : ∀ value, legible value → chars value ≠ []) :
    Collects legible chars Closed (fun input values result => input = [] ∧ result = values)
      (itemsToEnd? item) where
  zero found result := by simp [itemsToEnd?, eq_comm]
  succ fuel found input result := by
    cases input with
    | nil =>
        rw [itemsToEnd?, Option.some.injEq]
        constructor
        · exact fun h => .inl ⟨rfl, h.symm⟩
        · rintro (⟨-, rfl⟩ | ⟨value, rest, hvalue, hinput, -⟩)
          · rfl
          · exact absurd (List.append_eq_nil_iff.mp hinput.symm).1 (hne value hvalue)
    | cons c input =>
        refine (hitem.bind_eq_some_iff _ _ _).trans ⟨.inr, ?_⟩
        rintro (⟨hnil, -⟩ | hitem)
        · cases hnil
        · exact hitem

theorem toEnd?_eq_some_iff (hitem : Takes item legible chars Closed)
    (hne : ∀ value, legible value → chars value ≠ []) (input : List Char) (values : List α) :
    toEnd? item input = some values ↔
      (∀ value ∈ values, legible value) ∧ input = values.flatMap chars := by
  rw [toEnd?, (collects_itemsToEnd? hitem hne).eq_some_iff hne (fun _ _ _ _ => trivial)
    (fun _ _ _ => trivial) _ _ _ (Nat.le_refl _)]
  constructor
  · rintro ⟨more, last, hmore, hinput, rfl, rfl⟩
    exact ⟨hmore, by rw [hinput, List.append_nil]⟩
  · rintro ⟨hmore, hinput⟩
    exact ⟨values, [], hmore, by rw [hinput, List.append_nil], rfl, rfl⟩

end Signature

end ApiUnion
