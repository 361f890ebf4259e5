import ApiUnion.Model.Basic

-- Slots of methods and the ways in which they change. None of these leaves a slot without a method,
-- or a group with less than two. Only in between, while a method is pushed, is there an empty
-- group.

namespace ApiUnion.MethodSlot

variable {slot : MethodSlot} {methods : List ApiMethod}

theorem exists_eq_single (h : slot.isGroup = false) : ∃ method, slot = single method := by
  cases slot with
  | single method => exact ⟨method, rfl⟩
  | group variants => cases h

@[simp] theorem toList_map (f : ApiMethod → ApiMethod) (slot : MethodSlot) :
    (slot.map f).toList = slot.toList.map f := by
  cases slot <;> rfl

@[simp] theorem isGroup_map (f : ApiMethod → ApiMethod) (slot : MethodSlot) :
    (slot.map f).isGroup = slot.isGroup := by
  cases slot <;> rfl

theorem map_map (f g : ApiMethod → ApiMethod) (slot : MethodSlot) :
    (slot.map f).map g = slot.map (g ∘ f) := by
  cases slot with
  | single method => rfl
  | group variants => exact congrArg group List.map_map

@[simp] theorem toList_push (slot : MethodSlot) (method : ApiMethod) :
    (slot.push method).toList = slot.toList ++ [method] := by
  cases slot <;> rfl

theorem toList_refill (h : methods.length = slot.toList.length) :
    (slot.refill methods).toList = methods := by
  cases slot with
  | single method =>
      obtain ⟨only, rfl⟩ := List.length_eq_one_iff.mp h
      rfl
  | group variants => rfl

@[simp] theorem isGroup_refill (slot : MethodSlot) (methods : List ApiMethod) :
    (slot.refill methods).isGroup = slot.isGroup := by
  cases slot <;> rfl

-- There is a method in every slot, and a second one in every group.
structure Sized (slot : MethodSlot) : Prop where
  nonempty : slot.toList ≠ []
  group : slot.isGroup → 2 ≤ slot.toList.length

instance (slot : MethodSlot) : Decidable slot.Sized :=
  decidable_of_iff (slot.toList ≠ [] ∧ (slot.isGroup → 2 ≤ slot.toList.length))
    ⟨fun h => ⟨h.1, h.2⟩, fun h => ⟨h.nonempty, h.group⟩⟩

theorem sized_single (method : ApiMethod) : (single method).Sized where
  nonempty := List.cons_ne_nil method []
  group h := by cases h

theorem not_sized_take (slot : MethodSlot) : ¬ slot.take.2.Sized :=
  fun h => h.nonempty rfl

theorem Sized.map {f : ApiMethod → ApiMethod} (h : slot.Sized) : (slot.map f).Sized where
  nonempty := by
    rw [toList_map, ne_eq, List.map_eq_nil_iff]
    exact h.nonempty
  group hgroup := by
    rw [toList_map, List.length_map]
    rw [isGroup_map] at hgroup
    exact h.group hgroup

theorem Sized.refill (h : slot.Sized) (hlength : methods.length = slot.toList.length) :
    (slot.refill methods).Sized where
  nonempty := by
    rw [toList_refill hlength, ← List.length_pos_iff, hlength, List.length_pos_iff]
    exact h.nonempty
  group hgroup := by
    rw [toList_refill hlength, hlength]
    rw [isGroup_refill] at hgroup
    exact h.group hgroup

-- The slot that is pushed onto need only have a method, so a group of one is mended.
theorem sized_push (h : slot.toList ≠ []) (method : ApiMethod) : (slot.push method).Sized where
  nonempty := by
    rw [toList_push]
    exact List.append_ne_nil_of_left_ne_nil h [method]
  group _ := by
    rw [toList_push, List.length_append, List.length_singleton]
    exact Nat.succ_le_succ (List.length_pos_iff.mpr h)

theorem foldl_push_group (variants more : List ApiMethod) :
    more.foldl push (group variants) = group (variants ++ more) := by
  induction more generalizing variants with
  | nil => rw [List.append_nil, List.foldl_nil]
  | cons method more ih =>
      rw [List.foldl_cons, List.append_cons]
      exact ih (variants ++ [method])

-- Pushing the methods of a slot one after the other gives the slot, if it has the size of one that
-- was made like that.
theorem Sized.exists_foldl_push (h : slot.Sized) : ∃ first more, slot.toList = first :: more ∧
    more.foldl push (single first) = slot := by
  cases slot with
  | single method => exact ⟨method, [], rfl, rfl⟩
  | group variants =>
      match variants, h.group rfl with
      | first :: second :: more, _ =>
          exact ⟨first, second :: more, rfl, foldl_push_group [first, second] more⟩

end ApiUnion.MethodSlot
