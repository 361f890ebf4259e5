-- Loops that read one item after another. What one pass does says what a run of passes accepts: the
-- printed items, and after them what the loop ends with.

namespace ApiUnion

-- A loop that collects items until it comes to where a list `ends`.
structure Collects {α β : Type} (legible : α → Prop) (chars : α → List Char)
    (follow : List Char → Prop) (ends : List Char → List α → β → Prop)
    (loop : Nat → List α → List Char → Option β) : Prop where
  zero : ∀ found result, loop 0 found [] = some result ↔ ends [] found.reverse result
  succ : ∀ fuel found input result, loop (fuel + 1) found input = some result ↔
    ends input found.reverse result ∨
      ∃ value rest, legible value ∧ input = chars value ++ rest ∧ follow rest ∧
        loop fuel (value :: found) rest = some result

-- An item takes a character at least, so the loop gets to the end with the characters for fuel.
theorem Collects.eq_some_iff {α β : Type} {legible : α → Prop} {chars : α → List Char}
    {follow : List Char → Prop} {ends : List Char → List α → β → Prop}
    {loop : Nat → List α → List Char → Option β} (h : Collects legible chars follow ends loop)
    (hne : ∀ value, legible value → chars value ≠ [])
    (hends : ∀ input values result, ends input values result → follow input)
    (hnext : ∀ value rest, legible value → follow (chars value ++ rest)) (fuel : Nat)
    (found : List α) (input : List Char) (hfuel : input.length ≤ fuel) (result : β) :
    loop fuel found input = some result ↔
      ∃ more last, (∀ value ∈ more, legible value) ∧ input = more.flatMap chars ++ last ∧
        ends last (found.reverse ++ more) result := by
  induction fuel generalizing found input with
  | zero =>
      obtain rfl := List.length_eq_zero_iff.mp (Nat.le_zero.mp hfuel)
      rw [h.zero]
      constructor
      · exact fun hlast => ⟨[], [], by simp, rfl, by rwa [List.append_nil]⟩
      · rintro ⟨more, last, hmore, hinput, hlast⟩
        obtain ⟨hnil, rfl⟩ := List.append_eq_nil_iff.mp hinput.symm
        cases more with
        | nil => rwa [List.append_nil] at hlast
        | cons value more =>
            have hvalue := hne value (hmore value List.mem_cons_self)
            exact absurd (List.append_eq_nil_iff.mp hnil).1 hvalue
  | succ fuel ih =>
      have hshorter : ∀ value rest, legible value → input = chars value ++ rest →
          rest.length ≤ fuel := by
        intro value rest hvalue hinput
        have hpos := List.length_pos_iff.mpr (hne value hvalue)
        rw [hinput, List.length_append] at hfuel
        omega
      rw [h.succ]
      constructor
      · rintro (hlast | ⟨value, rest, hvalue, hinput, -, hrest⟩)
        · exact ⟨[], input, by simp, rfl, by rwa [List.append_nil]⟩
        · obtain ⟨more, last, hmore, rfl, hlast⟩ :=
            (ih _ rest (hshorter value rest hvalue hinput)).mp hrest
          refine ⟨value :: more, last, List.forall_mem_cons.mpr ⟨hvalue, hmore⟩, ?_, ?_⟩
          · rw [hinput, List.flatMap_cons, List.append_assoc]
          · rwa [List.reverse_cons, List.append_assoc] at hlast
      · rintro ⟨more, last, hmore, hinput, hlast⟩
        cases more with
        | nil =>
            rw [List.append_nil] at hlast
            exact .inl (hinput ▸ hlast)
        | cons value more =>
            obtain ⟨hvalue, hmore⟩ := List.forall_mem_cons.mp hmore
            rw [List.flatMap_cons, List.append_assoc] at hinput
            refine .inr ⟨value, _, hvalue, hinput, ?_,
              (ih _ _ (hshorter value _ hvalue hinput)).mpr ⟨more, last, hmore, rfl, ?_⟩⟩
            · cases more with
              | nil => exact hends last _ result hlast
              | cons next more =>
                  rw [List.flatMap_cons, List.append_assoc]
                  exact hnext next _ (hmore next List.mem_cons_self)
            · rwa [List.reverse_cons, List.append_assoc]

end ApiUnion
