import ApiUnion.Proofs.ClassFile.Numbering

-- Reading back a pool that a run of requests has built. Every number that was given out stands for
-- what was asked for, whatever was asked or refused in between.

namespace ApiUnion

open Reader

namespace PoolRequest

theorem length_layout_map (held more : List PoolRequest) :
    (Pool.layout (more.map (entryIn held))).length = count more := by
  induction more with
  | nil => rfl
  | cons request more ih =>
      have hslots := slots_entryIn held request
      simp only [Pool.layout, count, List.length_cons, List.map_cons, List.flatMap_cons,
        List.length_append, PoolEntry.length_numbered, List.sum_cons] at ih ⊢
      omega

-- The numbers of a thing come after all that are taken in front of it.
theorem exists_layout_map_eq (held : List PoolRequest) {more : List PoolRequest}
    {request : PoolRequest} (h : request ∈ more) :
    ∃ front back, Pool.layout (more.map (entryIn held)) =
        front ++ ((entryIn held request).numbered ++ back) ∧
      front.length = numberIn more request := by
  obtain ⟨before, after, rfl, hnew⟩ := List.eq_append_cons_of_mem h
  refine ⟨Pool.layout (before.map (entryIn held)),
    (after.map (entryIn held)).flatMap PoolEntry.numbered, ?_, ?_⟩
  · rw [List.map_append, Pool.layout_append, List.map_cons, List.flatMap_cons]
  · rw [length_layout_map, List.append_cons, numberIn_append_of_mem (by simp),
      numberIn_append_self hnew]

namespace Holds

variable {builder : PoolBuilder} {held : List PoolRequest} {request other : PoolRequest}

theorem layout_numberIn (h : Holds builder held) (hmem : request ∈ held) :
    (Pool.layout builder.entries.toList)[numberIn held request]? = some (entryIn held request) := by
  obtain ⟨front, back, hlayout, hlength⟩ := exists_layout_map_eq held hmem
  rw [h.entries, hlayout, ← hlength, List.getElem?_append_right (Nat.le_refl _), Nat.sub_self]
  unfold PoolEntry.numbered
  split <;> rfl

theorem layout_second (h : Holds builder held) (hmem : request ∈ held) (hwide : request.slots = 2) :
    (Pool.layout builder.entries.toList)[numberIn held request + 1]? = some .unusable := by
  obtain ⟨front, back, hlayout, hlength⟩ := exists_layout_map_eq held hmem
  have hwide' : (entryIn held request).isWide := by
    rw [← slots_entryIn held request, PoolEntry.slots] at hwide
    by_contra hwide'
    rw [if_neg hwide'] at hwide
    omega
  rw [h.entries, hlayout, ← hlength, List.getElem?_append_right (Nat.le_add_right _ 1),
    Nat.add_sub_cancel_left, PoolEntry.numbered, if_pos hwide']
  rfl

theorem sound (h : Holds builder held) : builder.Sound where
  next_eq := by rw [h.next, h.entries, length_layout_map]
  next_le := h.next ▸ h.room
  usable := by
    intro hmem
    rw [h.entries] at hmem
    obtain ⟨request, _, hrequest⟩ := List.mem_map.mp hmem
    exact entryIn_ne_unusable held request hrequest
  numbered := by
    intro entry number hnumber
    obtain ⟨request, hmem, rfl, rfl⟩ := (h.numbers entry number).mp hnumber
    rw [toNat_indexIn hmem h.room]
    exact ⟨h.layout_numberIn hmem, entryIn_ne_unusable held request⟩

-- The number after that of a long or double stands for nothing, so it is nobody's.
theorem numberIn_ne_second (h : Holds builder held) (hmem : request ∈ held) (hother : other ∈ held)
    (hwide : request.slots = 2) : numberIn held other ≠ numberIn held request + 1 := by
  intro heq
  have hentry := h.layout_numberIn hother
  rw [heq, h.layout_second hmem hwide] at hentry
  exact entryIn_ne_unusable held other (Option.some.inj hentry).symm

theorem toNat_indexIn_add_one (h : Holds builder held) (hmem : request ∈ held)
    (hwide : request.slots = 2) :
    (indexIn held request + 1).toNat = numberIn held request + 1 := by
  have hle := numberIn_add_slots_le hmem
  have hroom := h.room
  have hindex := toNat_indexIn hmem h.room
  rw [UInt16.toNat_add, hindex, UInt16.toNat_one]
  omega

-- Only the texts can be too long to be written.
theorem checkLengths_iff (h : Holds builder held) :
    builder.checkLengths = .ok () ↔
      ∀ text, utf8 text ∈ held → (ModifiedUtf8.encode text).length ≤ 0xFFFF := by
  constructor
  · intro hlengths text hmem
    have hentry : PoolEntry.utf8 text ∈ builder.entries.toList := by
      rw [h.entries]
      exact List.mem_map_of_mem hmem
    exact builder.writable_of_checkLengths h.sound hlengths _ hentry
  · intro hfits
    refine if_pos (Array.all_eq_true_iff_forall_mem.mpr ?_)
    intro entry hentry
    rw [← Array.mem_toList_iff, h.entries] at hentry
    obtain ⟨request, hmem, rfl⟩ := List.mem_map.mp hentry
    cases request with
    | utf8 text => exact decide_eq_true (hfits text hmem)
    | _ => rfl

end Holds

def Resolves (pool : Pool) (number : UInt16) : PoolRequest → Prop
  | utf8 text => pool.text number = .ok text
  | «class» name => pool.className number = .ok name
  | string text => ∃ index, pool.get number = .ok (.string index) ∧ pool.text index = .ok text
  | integer value => pool.get number = .ok (.integer value)
  | float bits => pool.get number = .ok (.float bits)
  | long value => pool.get number = .ok (.long value)
  | double bits => pool.get number = .ok (.double bits)
  | nameAndType name descriptor => pool.nameAndType number = .ok (name, descriptor)
  | methodref owner name descriptor =>
    ∃ first second, pool.get number = .ok (.methodref first second) ∧
      pool.className first = .ok owner ∧ pool.nameAndType second = .ok (name, descriptor)

section

variable {pool : Pool} {held : List PoolRequest}
  (hget : ∀ request ∈ held, pool.get (indexIn held request) = .ok (entryIn held request))

include hget

theorem text_indexIn {text : String} (h : utf8 text ∈ held) :
    pool.text (indexIn held (utf8 text)) = .ok text := by
  rw [Pool.text, hget _ h]
  rfl

variable (hclosed : Closed held)

include hclosed

theorem className_indexIn {name : String} (h : .class name ∈ held) :
    pool.className (indexIn held (.class name)) = .ok name := by
  have hname := text_indexIn hget (hclosed _ h (.head _))
  rw [Pool.className, hget _ h]
  exact hname

theorem nameAndType_indexIn {name descriptor : String} (h : nameAndType name descriptor ∈ held) :
    pool.nameAndType (indexIn held (nameAndType name descriptor)) = .ok (name, descriptor) := by
  have hname := text_indexIn hget (hclosed _ h (.head _))
  have hdescriptor := text_indexIn hget (hclosed _ h (.tail _ (.head _)))
  rw [Pool.nameAndType, hget _ h]
  show (pool.text _).bind (fun name =>
    (pool.text _).bind fun descriptor => .ok (name, descriptor)) = _
  rw [hname, hdescriptor]
  rfl

theorem resolves_indexIn {request : PoolRequest} (h : request ∈ held) :
    Resolves pool (indexIn held request) request := by
  cases request with
  | utf8 text => exact text_indexIn hget h
  | «class» name => exact className_indexIn hget hclosed h
  | string text =>
      have htext := text_indexIn hget (hclosed _ h (.head _))
      exact ⟨_, hget _ h, htext⟩
  | integer | float | long | double => exact hget _ h
  | nameAndType name descriptor => exact nameAndType_indexIn hget hclosed h
  | methodref owner name descriptor =>
      have hunder := hclosed _ h
      have howner := className_indexIn hget hclosed (hunder (class_mem_under ..))
      have hmember := nameAndType_indexIn hget hclosed (hunder (nameAndType_mem_under ..))
      exact ⟨_, _, hget _ h, howner, hmember⟩

end

-- The builder after these requests. A refused one may have left parts behind.
def built (requests : List PoolRequest) : PoolBuilder :=
  requests.foldl (fun builder request => (request.intern builder).2) .empty

def takenIn (requests : List PoolRequest) : List PoolRequest :=
  (requests.flatMap parts).foldl takeIn []

-- The request is one of these, and it succeeded with the number at its turn.
def Answered (requests : List PoolRequest) (request : PoolRequest) (number : UInt16) : Prop :=
  ∃ before after, requests = before ++ request :: after ∧
    (request.intern (built before)).1 = .ok number

theorem holds_built (requests : List PoolRequest) : Holds (built requests) (takenIn requests) := by
  suffices hrun : ∀ (builder : PoolBuilder) (held : List PoolRequest), Holds builder held →
      Holds (requests.foldl (fun builder request => (request.intern builder).2) builder)
        ((requests.flatMap parts).foldl takeIn held) from hrun .empty [] holds_empty
  induction requests with
  | nil => exact fun _ _ h => h
  | cons request requests ih =>
      intro builder held h
      rw [List.foldl_cons, List.flatMap_cons, List.foldl_append]
      exact ih _ _ (serves held request builder h).1

theorem prefix_takenIn (before after : List PoolRequest) :
    takenIn before <+: takenIn (before ++ after) := by
  rw [takenIn, takenIn, List.flatMap_append, List.foldl_append]
  exact prefix_foldl_takeIn _ _

theorem answer_built (requests : List PoolRequest) (request : PoolRequest) :
    (request.intern (built requests)).1 = answerIn (takenIn (requests ++ [request])) request := by
  rw [takenIn, List.flatMap_append, List.foldl_append, List.flatMap_singleton]
  exact (serves (takenIn requests) request (built requests) (holds_built requests)).2

theorem Answered.mem {requests : List PoolRequest} {request : PoolRequest} {number : UInt16}
    (h : Answered requests request number) :
    request ∈ takenIn requests ∧ indexIn (takenIn requests) request = number := by
  obtain ⟨before, after, rfl, hrun⟩ := h
  rw [answer_built, answerIn] at hrun
  split at hrun
  · rename_i hmem
    have hgrown := prefix_takenIn (before ++ [request]) after
    rw [← List.append_cons] at hgrown
    exact ⟨hgrown.subset hmem, (indexIn_of_isPrefix hgrown hmem).trans (Except.ok.inj hrun)⟩
  · cases hrun

-- A request is refused for want of room alone. If it was taken in, then all its parts were.
theorem intern_built_eq_error_iff (requests : List PoolRequest) (request : PoolRequest)
    (error : ClassFileError) :
    (request.intern (built requests)).1 = .error error ↔
      error = .poolOverflow ∧ 0xFFFF < count (request.parts.foldl place (takenIn requests)) := by
  have hheld := holds_built (requests ++ [request])
  have htaken : takenIn (requests ++ [request]) =
      request.parts.foldl takeIn (takenIn requests) := by
    rw [takenIn, List.flatMap_append, List.foldl_append, List.flatMap_singleton, takenIn]
  rw [answer_built, answerIn]
  by_cases hmem : request ∈ takenIn (requests ++ [request])
  · have hparts : request.parts ⊆ takenIn (requests ++ [request]) := List.append_subset.mpr
      ⟨hheld.closed request hmem, List.cons_subset.mpr ⟨hmem, List.nil_subset _⟩⟩
    have hroom := hheld.room
    rw [htaken] at hparts hroom
    rw [foldl_takeIn_of_forall_mem fun part hpart => hparts hpart] at hroom
    rw [if_pos hmem]
    constructor
    · intro h
      cases h
    · rintro ⟨_, hfull⟩
      omega
  · have hfull : 0xFFFF < count (request.parts.foldl place (takenIn requests)) := by
      by_contra hroom
      rw [htaken, foldl_takeIn_of_count_le (Nat.not_lt.mp hroom)] at hmem
      exact hmem (mem_foldl_place request.mem_parts _)
    rw [if_neg hmem]
    constructor
    · intro h
      exact ⟨(Except.error.inj h).symm, hfull⟩
    · rintro ⟨rfl, _⟩
      rfl

-- What a number has to be in the pool that is read back.
structure Found (pool : Pool) (request : PoolRequest) (number : UInt16) : Prop where
  ne_zero : number ≠ 0
  resolves : Resolves pool number request
  second : request.slots = 2 → pool.get (number + 1) = .error (.invalidPoolIndex (number + 1))

theorem Answered.found {requests : List PoolRequest} {request : PoolRequest} {number : UInt16}
    (h : Answered requests request number) :
    Found ⟨(Pool.layout (built requests).entries.toList).toArray⟩ request number := by
  have hheld := holds_built requests
  have hbacks := (built requests).backs_layout hheld.sound
  obtain ⟨hmem, rfl⟩ := h.mem
  refine ⟨?_, ?_, fun hwide => ?_⟩
  · intro hzero
    have hpos := one_le_numberIn (takenIn requests) request
    rw [← toNat_indexIn hmem hheld.room, hzero, UInt16.toNat_zero] at hpos
    omega
  · refine resolves_indexIn (fun other hother => ?_) hheld.closed hmem
    exact hbacks.get _ _ ((hheld.numbers _ _).mpr ⟨other, hother, rfl, rfl⟩)
  · have hsecond := hheld.layout_second hmem hwide
    rw [← hheld.toNat_indexIn_add_one hmem hwide] at hsecond
    simp only [Pool.get, List.getElem?_toArray, hsecond]

structure Faithful (requests : List PoolRequest) : Prop where
  same : ∀ request other number number', Answered requests request number →
    Answered requests other number' → (number = number' ↔ request = other)
  apart : ∀ request other number number', Answered requests request number →
    Answered requests other number' → request.slots = 2 → number' ≠ number + 1
  refused : ∀ (request : PoolRequest) (error : ClassFileError),
    (request.intern (built requests)).1 = .error error ↔
      error = .poolOverflow ∧ 0xFFFF < count (request.parts.foldl place (takenIn requests))
  count_takenIn : (built requests).next = count (takenIn requests)
  count_entries :
    (built requests).next = 1 + ((built requests).entries.toList.map PoolEntry.slots).sum
  count_le : (built requests).next ≤ 0xFFFF
  written : (built requests).bytes.take 2 = Bytes.u2 (UInt16.ofNat (built requests).next)
  checked : (built requests).checkLengths = .ok () ↔
    ∀ text, utf8 text ∈ takenIn requests → (ModifiedUtf8.encode text).length ≤ 0xFFFF
  read : (built requests).checkLengths = .ok () →
    ∃ pool, Reads Pool.read pool (built requests).bytes ∧
      pool.entries.size = (built requests).next ∧ pool.get 0 = .error (.invalidPoolIndex 0) ∧
      ∀ request number, Answered requests request number → Found pool request number

theorem requests_faithful (requests : List PoolRequest) : Faithful requests := by
  have hheld := holds_built requests
  constructor
  case same =>
    intro request other number number' hnumber hnumber'
    obtain ⟨hmem, rfl⟩ := hnumber.mem
    obtain ⟨hmem', rfl⟩ := hnumber'.mem
    constructor
    · exact indexIn_inj hmem hmem' hheld.room
    · exact congrArg (indexIn (takenIn requests))
  case apart =>
    intro request other number number' hnumber hnumber' hwide heq
    obtain ⟨hmem, rfl⟩ := hnumber.mem
    obtain ⟨hmem', rfl⟩ := hnumber'.mem
    apply hheld.numberIn_ne_second hmem hmem' hwide
    rw [← hheld.toNat_indexIn_add_one hmem hwide, ← heq, toNat_indexIn hmem' hheld.room]
  case refused => exact intern_built_eq_error_iff requests
  case count_takenIn => exact hheld.next
  case count_entries =>
    have hslots : PoolEntry.slots ∘ entryIn (takenIn requests) = slots :=
      funext (slots_entryIn (takenIn requests))
    rw [hheld.next, hheld.entries, List.map_map, hslots, count]
  case count_le => exact hheld.next ▸ hheld.room
  case written => rfl
  case checked => exact hheld.checkLengths_iff
  case read =>
    intro hlengths
    refine ⟨⟨(Pool.layout (built requests).entries.toList).toArray⟩,
      (built requests).reads_layout hheld.sound hlengths, ?_, rfl, ?_⟩
    · rw [hheld.sound.next_eq, List.size_toArray]
    · intro request number hnumber
      exact hnumber.found

-- The text comes once, and the long takes two numbers.
example :
    let held := takenIn [.utf8 "A", .long 7, .class "B", .utf8 "A"]
    held.map (numberIn held) = [1, 2, 4, 5] ∧ count held = 6 := by
  decide

end PoolRequest

end ApiUnion
