import Mathlib.Algebra.GroupWithZero.Nat
import ApiUnion.Proofs.ClassFile.Interning

-- Pools by what they are asked for. A pool holds each thing that it was asked for once, and its
-- parts before it, in the order of the first requests. The number of a thing is the count of
-- numbers that those in front of it take. A request is refused only if there is no room for what it
-- lacks.

namespace ApiUnion

-- What can be asked of a pool while a class file is written.
inductive PoolRequest
  | utf8 (text : String)
  | «class» (name : String)
  | string (text : String)
  | integer (value : Int32)
  | float (bits : UInt32)
  | long (value : Int64)
  | double (bits : UInt64)
  | nameAndType (name descriptor : String)
  | methodref (owner name descriptor : String)
deriving DecidableEq

namespace PoolRequest

def intern : PoolRequest → Interning UInt16
  | utf8 text => PoolBuilder.utf8 text
  | «class» name => PoolBuilder.class name
  | string text => PoolBuilder.string text
  | integer value => PoolBuilder.integer value
  | float bits => PoolBuilder.float bits
  | long value => PoolBuilder.long value
  | double bits => PoolBuilder.double bits
  | nameAndType name descriptor => PoolBuilder.nameAndType name descriptor
  | methodref owner name descriptor => PoolBuilder.methodref owner name descriptor

def slots : PoolRequest → Nat
  | long _ | double _ => 2
  | _ => 1

-- All that a thing refers to, each after what it refers to itself.
def under : PoolRequest → List PoolRequest
  | «class» name => [utf8 name]
  | string text => [utf8 text]
  | nameAndType name descriptor => [utf8 name, utf8 descriptor]
  | methodref owner name descriptor =>
    [utf8 owner, .class owner, utf8 name, utf8 descriptor, nameAndType name descriptor]
  | _ => []

-- What a pool has to hold for an answer, in the order in which it is taken in.
def parts (request : PoolRequest) : List PoolRequest :=
  request.under ++ [request]

theorem slots_pos (request : PoolRequest) : 1 ≤ request.slots := by
  cases request <;> simp [slots]

theorem class_mem_under (owner name descriptor : String) :
    .class owner ∈ (methodref owner name descriptor).under :=
  .tail _ (.head _)

theorem nameAndType_mem_under (owner name descriptor : String) :
    nameAndType name descriptor ∈ (methodref owner name descriptor).under :=
  List.mem_of_getLast? rfl

theorem mem_parts (request : PoolRequest) : request ∈ request.parts :=
  List.mem_append_right request.under (List.mem_singleton_self request)

-- The count of a pool: zero and all numbers that are taken.
def count (held : List PoolRequest) : Nat :=
  1 + (held.map slots).sum

-- The number of a request comes after those of all that stand in front of it.
def numberIn (held : List PoolRequest) (request : PoolRequest) : Nat :=
  count (held.takeWhile (· ≠ request))

def indexIn (held : List PoolRequest) (request : PoolRequest) : UInt16 :=
  UInt16.ofNat (numberIn held request)

-- A part comes last, unless it is there already.
def place (held : List PoolRequest) (part : PoolRequest) : List PoolRequest :=
  if part ∈ held then held else held ++ [part]

-- The same, unless the count would then be too great for two bytes.
def takeIn (held : List PoolRequest) (part : PoolRequest) : List PoolRequest :=
  if count (place held part) ≤ 0xFFFF then place held part else held

theorem count_append (front back : List PoolRequest) :
    count (front ++ back) = count front + (back.map slots).sum := by
  simp only [count, List.map_append, List.sum_append]
  omega

theorem numberIn_cons (first : PoolRequest) (held : List PoolRequest) (request : PoolRequest) :
    numberIn (first :: held) request =
      if first = request then 1 else first.slots + numberIn held request := by
  unfold numberIn
  by_cases hfirst : first = request
  · simp [hfirst, count]
  · simp only [hfirst, if_false, List.takeWhile_cons, count, ne_eq, not_false_eq_true, decide_true,
      if_true, List.map_cons, List.sum_cons]
    omega

theorem one_le_numberIn (held : List PoolRequest) (request : PoolRequest) :
    1 ≤ numberIn held request := by
  unfold numberIn count
  omega

theorem numberIn_append_of_mem {held : List PoolRequest} {request : PoolRequest}
    (h : request ∈ held) (more : List PoolRequest) :
    numberIn (held ++ more) request = numberIn held request := by
  induction held with
  | nil => cases h
  | cons first held ih =>
      rw [List.cons_append, numberIn_cons, numberIn_cons]
      by_cases hfirst : first = request
      · rw [if_pos hfirst, if_pos hfirst]
      · have hrest := (List.mem_cons.mp h).resolve_left (Ne.symm hfirst)
        rw [if_neg hfirst, if_neg hfirst, ih hrest]

theorem numberIn_append_self {held : List PoolRequest} {request : PoolRequest}
    (h : request ∉ held) : numberIn (held ++ [request]) request = count held := by
  have hfront : (held ++ [request]).takeWhile (· ≠ request) = held := by
    rw [List.takeWhile_append_of_pos]
    · simp
    · intro other hother
      exact decide_eq_true fun heq => h (heq ▸ hother)
  rw [numberIn, hfront]

theorem numberIn_add_slots_le {held : List PoolRequest} {request : PoolRequest}
    (h : request ∈ held) : numberIn held request + request.slots ≤ count held := by
  induction held with
  | nil => cases h
  | cons first held ih =>
      have hcount : count (first :: held) = first.slots + count held := by
        simp only [count, List.map_cons, List.sum_cons]
        omega
      have hpos : 1 ≤ count held := Nat.le_add_right 1 _
      rw [numberIn_cons, hcount]
      by_cases hfirst : first = request
      · rw [if_pos hfirst, hfirst]
        omega
      · have hrest := ih ((List.mem_cons.mp h).resolve_left (Ne.symm hfirst))
        rw [if_neg hfirst]
        omega

-- Whoever comes first, the other one's number is greater.
theorem numberIn_inj {held : List PoolRequest} {request other : PoolRequest}
    (hrequest : request ∈ held) (hother : other ∈ held)
    (h : numberIn held request = numberIn held other) : request = other := by
  induction held with
  | nil => cases hrequest
  | cons first held ih =>
      have hslots := first.slots_pos
      have hone := one_le_numberIn held request
      have hone' := one_le_numberIn held other
      rw [numberIn_cons, numberIn_cons] at h
      by_cases hfirst : first = request
      · by_cases hfirst' : first = other
        · exact hfirst.symm.trans hfirst'
        · rw [if_pos hfirst, if_neg hfirst'] at h
          omega
      · by_cases hfirst' : first = other
        · rw [if_neg hfirst, if_pos hfirst'] at h
          omega
        · rw [if_neg hfirst, if_neg hfirst'] at h
          exact ih ((List.mem_cons.mp hrequest).resolve_left (Ne.symm hfirst))
            ((List.mem_cons.mp hother).resolve_left (Ne.symm hfirst')) (by omega)

theorem toNat_indexIn {held : List PoolRequest} {request : PoolRequest} (h : request ∈ held)
    (hroom : count held ≤ 0xFFFF) : (indexIn held request).toNat = numberIn held request := by
  have hle := numberIn_add_slots_le h
  rw [indexIn, UInt16.toNat_ofNat']
  omega

theorem indexIn_inj {held : List PoolRequest} {request other : PoolRequest}
    (hrequest : request ∈ held) (hother : other ∈ held) (hroom : count held ≤ 0xFFFF)
    (h : indexIn held request = indexIn held other) : request = other := by
  apply numberIn_inj hrequest hother
  rw [← toNat_indexIn hrequest hroom, ← toNat_indexIn hother hroom, h]

theorem prefix_place (held : List PoolRequest) (part : PoolRequest) : held <+: place held part := by
  unfold place
  split
  · exact List.prefix_rfl
  · exact List.prefix_append held [part]

theorem prefix_takeIn (held : List PoolRequest) (part : PoolRequest) :
    held <+: takeIn held part := by
  unfold takeIn
  split
  · exact prefix_place held part
  · exact List.prefix_rfl

theorem prefix_foldl_takeIn (held parts : List PoolRequest) : held <+: parts.foldl takeIn held := by
  induction parts generalizing held with
  | nil => exact List.prefix_rfl
  | cons part parts ih => exact (prefix_takeIn held part).trans (ih (takeIn held part))

theorem prefix_foldl_place (held parts : List PoolRequest) : held <+: parts.foldl place held := by
  induction parts generalizing held with
  | nil => exact List.prefix_rfl
  | cons part parts ih => exact (prefix_place held part).trans (ih (place held part))

theorem count_le_of_isPrefix {held more : List PoolRequest} (h : held <+: more) :
    count held ≤ count more := by
  obtain ⟨back, rfl⟩ := h
  rw [count_append]
  omega

theorem indexIn_of_isPrefix {held more : List PoolRequest} {request : PoolRequest}
    (h : held <+: more) (hmem : request ∈ held) : indexIn more request = indexIn held request := by
  obtain ⟨back, rfl⟩ := h
  rw [indexIn, numberIn_append_of_mem hmem, indexIn]

theorem place_of_mem {held : List PoolRequest} {part : PoolRequest} (h : part ∈ held) :
    place held part = held :=
  if_pos h

theorem place_of_notMem {held : List PoolRequest} {part : PoolRequest} (h : part ∉ held) :
    place held part = held ++ [part] :=
  if_neg h

theorem count_place_of_notMem {held : List PoolRequest} {part : PoolRequest} (h : part ∉ held) :
    count (place held part) = count held + part.slots := by
  rw [place_of_notMem h, count_append, List.map_singleton, List.sum_singleton]

theorem mem_place {held : List PoolRequest} {part other : PoolRequest} :
    other ∈ place held part ↔ other ∈ held ∨ other = part := by
  unfold place
  split
  · rename_i hmem
    constructor
    · exact Or.inl
    · rintro (h | rfl)
      · exact h
      · exact hmem
  · rw [List.mem_append, List.mem_singleton]

theorem mem_foldl_place {part : PoolRequest} {parts : List PoolRequest} (h : part ∈ parts)
    (held : List PoolRequest) : part ∈ parts.foldl place held := by
  induction parts generalizing held with
  | nil => cases h
  | cons first parts ih =>
      rcases List.mem_cons.mp h with rfl | h
      · have hplaced : part ∈ place held part := mem_place.mpr (Or.inr rfl)
        exact (prefix_foldl_place (place held part) parts).subset hplaced
      · exact ih h (place held first)

-- All that taking in a part can do.

theorem takeIn_of_mem {held : List PoolRequest} {part : PoolRequest} (h : part ∈ held) :
    takeIn held part = held := by
  rw [takeIn, place_of_mem h, ite_self]

theorem takeIn_of_room {held : List PoolRequest} {part : PoolRequest} (hnew : part ∉ held)
    (hroom : count held + part.slots ≤ 0xFFFF) : takeIn held part = held ++ [part] := by
  rw [takeIn, count_place_of_notMem hnew, if_pos hroom, place_of_notMem hnew]

theorem takeIn_of_full {held : List PoolRequest} {part : PoolRequest} (hnew : part ∉ held)
    (hfull : 0xFFFF < count held + part.slots) : takeIn held part = held := by
  rw [takeIn, count_place_of_notMem hnew, if_neg (Nat.not_le.mpr hfull)]

theorem mem_or_eq_of_mem_takeIn {held : List PoolRequest} {part other : PoolRequest}
    (h : other ∈ takeIn held part) : other ∈ held ∨ other = part := by
  unfold takeIn at h
  split at h
  · exact mem_place.mp h
  · exact .inl h

-- A part that has no room has none later on.
theorem notMem_foldl_takeIn {held : List PoolRequest} {part : PoolRequest} (hnew : part ∉ held)
    (hfull : 0xFFFF < count held + part.slots) (parts : List PoolRequest) :
    part ∉ parts.foldl takeIn held := by
  induction parts generalizing held with
  | nil => exact hnew
  | cons first parts ih =>
      have hgrown := count_le_of_isPrefix (prefix_takeIn held first)
      apply ih
      · intro hmem
        by_cases heq : part = first
        · rw [← heq, takeIn_of_full hnew hfull] at hmem
          exact hnew hmem
        · exact (mem_or_eq_of_mem_takeIn hmem).elim hnew heq
      · omega

-- What was not taken in has no room in the end either.
theorem full_of_notMem_foldl_takeIn {held parts : List PoolRequest} {part : PoolRequest}
    (hpart : part ∈ parts) (h : part ∉ parts.foldl takeIn held) :
    0xFFFF < count (parts.foldl takeIn held) + part.slots := by
  induction parts generalizing held with
  | nil => cases hpart
  | cons first parts ih =>
      rw [List.foldl_cons] at h ⊢
      rcases List.mem_cons.mp hpart with rfl | hpart
      · have hgrown := prefix_foldl_takeIn (takeIn held part) parts
        have hnew : part ∉ takeIn held part := fun hmem => h (hgrown.subset hmem)
        have hheld : part ∉ held := fun hmem => hnew ((prefix_takeIn held part).subset hmem)
        have hfull : ¬count held + part.slots ≤ 0xFFFF := by
          intro hroom
          rw [takeIn_of_room hheld hroom] at hnew
          exact hnew (List.mem_append_right held (.head _))
        have hle := count_le_of_isPrefix ((prefix_takeIn held part).trans hgrown)
        omega
      · exact ih hpart h

-- If all parts have come in then there was room for each.
theorem foldl_takeIn_of_forall_mem {held parts : List PoolRequest}
    (h : ∀ part ∈ parts, part ∈ parts.foldl takeIn held) :
    parts.foldl takeIn held = parts.foldl place held := by
  induction parts generalizing held with
  | nil => rfl
  | cons part parts ih =>
      obtain ⟨hpart, hparts⟩ := List.forall_mem_cons.mp h
      have hstep : takeIn held part = place held part := by
        by_cases hmem : part ∈ held
        · rw [takeIn_of_mem hmem, place_of_mem hmem]
        · have hroom : count held + part.slots ≤ 0xFFFF := by
            by_contra hfull
            exact notMem_foldl_takeIn hmem (Nat.not_le.mp hfull) (part :: parts) hpart
          rw [takeIn_of_room hmem hroom, place_of_notMem hmem]
      rw [List.foldl_cons] at hparts ⊢
      rw [List.foldl_cons, ← hstep]
      exact ih hparts

theorem foldl_takeIn_of_count_le {held parts : List PoolRequest}
    (h : count (parts.foldl place held) ≤ 0xFFFF) :
    parts.foldl takeIn held = parts.foldl place held := by
  induction parts generalizing held with
  | nil => rfl
  | cons part parts ih =>
      have hle := count_le_of_isPrefix (prefix_foldl_place (place held part) parts)
      have hstep : takeIn held part = place held part := if_pos (Nat.le_trans hle h)
      rw [List.foldl_cons, List.foldl_cons, hstep]
      exact ih h

theorem foldl_takeIn_of_full {held : List PoolRequest} (h : 0xFFFF < count held + 1)
    (parts : List PoolRequest) : parts.foldl takeIn held = held := by
  induction parts with
  | nil => rfl
  | cons part parts ih =>
      have hslots := part.slots_pos
      have hstep : takeIn held part = held := by
        by_cases hmem : part ∈ held
        · exact takeIn_of_mem hmem
        · exact takeIn_of_full hmem (by omega)
      rw [List.foldl_cons, hstep, ih]

end PoolRequest

end ApiUnion
