import ApiUnion.Proofs.ClassFile.Requests

-- The numbers that a pool gives out over a run of requests, some of them refused. What a builder
-- keeps is fixed by the list of what it holds, and one request takes its parts into that list, one
-- after the other, as far as there is room.

namespace ApiUnion

open Reader

namespace PoolRequest

-- What stands in a pool for a request. Whatever it refers to goes by its number there.
def entryIn (held : List PoolRequest) : PoolRequest → PoolEntry
  | utf8 text => .utf8 text
  | «class» name => .class (indexIn held (utf8 name))
  | string text => .string (indexIn held (utf8 text))
  | integer value => .integer value
  | float bits => .float bits
  | long value => .long value
  | double bits => .double bits
  | nameAndType name descriptor =>
    .nameAndType (indexIn held (utf8 name)) (indexIn held (utf8 descriptor))
  | methodref owner name descriptor =>
    .methodref (indexIn held (.class owner)) (indexIn held (nameAndType name descriptor))

theorem slots_entryIn (held : List PoolRequest) (request : PoolRequest) :
    (entryIn held request).slots = request.slots := by
  cases request <;> rfl

theorem entryIn_ne_unusable (held : List PoolRequest) (request : PoolRequest) :
    entryIn held request ≠ .unusable := by
  cases request <;> simp [entryIn]

-- Numbers once given stay, so later requests leave an entry as it is.
theorem entryIn_of_isPrefix {held more : List PoolRequest} {request : PoolRequest}
    (h : held <+: more) (hunder : request.under ⊆ held) :
    entryIn more request = entryIn held request := by
  cases request with
  | utf8 | integer | float | long | double => rfl
  | «class» name =>
      have hname := indexIn_of_isPrefix h (hunder (.head _))
      rw [entryIn, hname, entryIn]
  | string text =>
      have htext := indexIn_of_isPrefix h (hunder (.head _))
      rw [entryIn, htext, entryIn]
  | nameAndType name descriptor =>
      have hname := indexIn_of_isPrefix h (hunder (.head _))
      have hdescriptor := indexIn_of_isPrefix h (hunder (.tail _ (.head _)))
      rw [entryIn, hname, hdescriptor, entryIn]
  | methodref owner name descriptor =>
      have howner := indexIn_of_isPrefix h (hunder (class_mem_under owner name descriptor))
      have hmember := indexIn_of_isPrefix h (hunder (nameAndType_mem_under owner name descriptor))
      rw [entryIn, howner, hmember, entryIn]

-- Different things have different parts, and different parts have different numbers.
theorem entryIn_inj {held : List PoolRequest} {request other : PoolRequest}
    (hroom : count held ≤ 0xFFFF) (hunder : request.under ⊆ held) (hunder' : other.under ⊆ held)
    (h : entryIn held request = entryIn held other) : request = other := by
  cases request <;> cases other <;> simp only [entryIn, reduceCtorEq] at h
  case utf8.utf8 => rw [PoolEntry.utf8.inj h]
  case integer.integer => rw [PoolEntry.integer.inj h]
  case float.float => rw [PoolEntry.float.inj h]
  case long.long => rw [PoolEntry.long.inj h]
  case double.double => rw [PoolEntry.double.inj h]
  case class.class =>
    have hname := indexIn_inj (hunder (.head _)) (hunder' (.head _)) hroom (PoolEntry.class.inj h)
    rw [PoolRequest.utf8.inj hname]
  case string.string =>
    have htext := indexIn_inj (hunder (.head _)) (hunder' (.head _)) hroom (PoolEntry.string.inj h)
    rw [PoolRequest.utf8.inj htext]
  case nameAndType.nameAndType =>
    obtain ⟨hname, hdescriptor⟩ := PoolEntry.nameAndType.inj h
    have hname := indexIn_inj (hunder (.head _)) (hunder' (.head _)) hroom hname
    have hdescriptor := indexIn_inj (hunder (.tail _ (.head _))) (hunder' (.tail _ (.head _)))
      hroom hdescriptor
    rw [PoolRequest.utf8.inj hname, PoolRequest.utf8.inj hdescriptor]
  case methodref.methodref =>
    obtain ⟨howner, hmember⟩ := PoolEntry.methodref.inj h
    have howner := indexIn_inj (hunder (class_mem_under ..)) (hunder' (class_mem_under ..)) hroom
      howner
    have hmember := indexIn_inj (hunder (nameAndType_mem_under ..))
      (hunder' (nameAndType_mem_under ..)) hroom hmember
    obtain ⟨rfl, rfl⟩ := PoolRequest.nameAndType.inj hmember
    rw [PoolRequest.class.inj howner]

-- All that the held things refer to is held as well.
def Closed (held : List PoolRequest) : Prop :=
  ∀ request ∈ held, request.under ⊆ held

theorem Closed.append_self {held : List PoolRequest} {request : PoolRequest} (h : Closed held)
    (hunder : request.under ⊆ held) : Closed (held ++ [request]) := by
  intro other hother
  apply List.Subset.trans _ (List.subset_append_left held [request])
  rcases List.mem_append.mp hother with hother | hother
  · exact h other hother
  · rwa [List.mem_singleton.mp hother]

-- One more thing has the number that the count was, and the others keep theirs.
theorem exists_mem_append_self_iff {held : List PoolRequest} {request : PoolRequest}
    (hclosed : Closed held) (hunder : request.under ⊆ held) (hnew : request ∉ held)
    (entry : PoolEntry) (number : UInt16) :
    (∃ other ∈ held ++ [request], entryIn (held ++ [request]) other = entry ∧
        indexIn (held ++ [request]) other = number) ↔
      (∃ other ∈ held, entryIn held other = entry ∧ indexIn held other = number) ∨
        (entryIn held request = entry ∧ UInt16.ofNat (count held) = number) := by
  have hprefix := List.prefix_append held [request]
  have hself : entryIn (held ++ [request]) request = entryIn held request :=
    entryIn_of_isPrefix hprefix hunder
  have hindex : indexIn (held ++ [request]) request = UInt16.ofNat (count held) := by
    rw [indexIn, numberIn_append_self hnew]
  constructor
  · rintro ⟨other, hother, hentry, hnumber⟩
    rcases List.mem_append.mp hother with hother | hother
    · rw [entryIn_of_isPrefix hprefix (hclosed other hother)] at hentry
      rw [indexIn_of_isPrefix hprefix hother] at hnumber
      exact .inl ⟨other, hother, hentry, hnumber⟩
    · rw [List.mem_singleton.mp hother] at hentry hnumber
      exact .inr ⟨hself ▸ hentry, hindex ▸ hnumber⟩
  · rintro (⟨other, hother, hentry, hnumber⟩ | ⟨hentry, hnumber⟩)
    · rw [← entryIn_of_isPrefix hprefix (hclosed other hother)] at hentry
      rw [← indexIn_of_isPrefix hprefix hother] at hnumber
      exact ⟨other, List.mem_append_left [request] hother, hentry, hnumber⟩
    · exact ⟨request, List.mem_append_right held (.head _), hself.trans hentry,
        hindex.trans hnumber⟩

-- The builder of a pool that holds just these.
structure Holds (builder : PoolBuilder) (held : List PoolRequest) : Prop where
  entries : builder.entries.toList = held.map (entryIn held)
  next : builder.next = count held
  room : count held ≤ 0xFFFF
  closed : Closed held
  numbers : ∀ (entry : PoolEntry) (number : UInt16), builder.numbers[entry]? = some number ↔
    ∃ request ∈ held, entryIn held request = entry ∧ indexIn held request = number

-- A request is refused when what it asks for was not taken in.
def answerIn (held : List PoolRequest) (request : PoolRequest) : Except ClassFileError UInt16 :=
  if request ∈ held then .ok (indexIn held request) else .error .poolOverflow

theorem holds_empty : Holds .empty [] where
  entries := rfl
  next := rfl
  room := by decide
  closed := by
    intro request h
    cases h
  numbers := by simp [PoolBuilder.empty]

namespace Holds

variable {builder : PoolBuilder} {held : List PoolRequest} {request : PoolRequest}

theorem push (h : Holds builder held) (hnew : request ∉ held) (hunder : request.under ⊆ held)
    (hroom : count held + request.slots ≤ 0xFFFF) :
    Holds (builder.push (entryIn held request)) (held ++ [request]) := by
  have hprefix := List.prefix_append held [request]
  have hcount : count (held ++ [request]) = count held + request.slots := by
    rw [count_append, List.map_singleton, List.sum_singleton]
  have hself : entryIn (held ++ [request]) request = entryIn held request :=
    entryIn_of_isPrefix hprefix hunder
  have hold : ∀ other ∈ held, entryIn (held ++ [request]) other = entryIn held other :=
    fun other hother => entryIn_of_isPrefix hprefix (h.closed other hother)
  refine ⟨?_, ?_, hcount ▸ hroom, h.closed.append_self hunder, fun entry number => ?_⟩
  · rw [PoolBuilder.push, Array.toList_push, h.entries, List.map_append, List.map_singleton, hself,
      List.map_congr_left hold]
  · rw [hcount, ← h.next, ← slots_entryIn held request, PoolBuilder.push]
  · rw [exists_mem_append_self_iff h.closed hunder hnew]
    simp only [PoolBuilder.push, Std.HashMap.getElem?_insert, beq_iff_eq, h.next]
    by_cases hentry : entryIn held request = entry
    · rw [if_pos hentry, Option.some_inj]
      constructor
      · intro hnumber
        exact .inr ⟨hentry, hnumber⟩
      · rintro (⟨other, hother, hentry', -⟩ | ⟨-, hnumber⟩)
        · have heq := entryIn_inj h.room (h.closed other hother) hunder (hentry'.trans hentry.symm)
          exact absurd (heq ▸ hother) hnew
        · exact hnumber
    · rw [if_neg hentry, h.numbers]
      constructor
      · exact .inl
      · rintro (hold | ⟨hentry', -⟩)
        · exact hold
        · exact absurd hentry' hentry

-- An entry that is there has its number, one that is not gets the next one or is refused.
theorem intern (h : Holds builder held) (hunder : request.under ⊆ held) :
    Holds (PoolBuilder.intern (entryIn held request) builder).2 (takeIn held request) ∧
      (PoolBuilder.intern (entryIn held request) builder).1 =
        answerIn (takeIn held request) request := by
  by_cases hmem : request ∈ held
  · have hknown := (h.numbers _ _).mpr ⟨request, hmem, rfl, rfl⟩
    rw [takeIn_of_mem hmem, PoolBuilder.intern, hknown, answerIn, if_pos hmem]
    exact ⟨h, rfl⟩
  · have hunknown : builder.numbers[entryIn held request]? = none := by
      apply Option.eq_none_iff_forall_ne_some.mpr
      intro number hnumber
      obtain ⟨other, hother, heq, _⟩ := (h.numbers _ _).mp hnumber
      have hsame := entryIn_inj h.room (h.closed other hother) hunder heq
      exact hmem (hsame ▸ hother)
    rw [PoolBuilder.intern, hunknown, slots_entryIn, h.next]
    by_cases hroom : count held + request.slots ≤ 0xFFFF
    · have hin : request ∈ held ++ [request] := List.mem_append_right held (.head _)
      rw [takeIn_of_room hmem hroom, answerIn, if_pos hin, indexIn, numberIn_append_self hmem]
      dsimp only
      rw [if_pos hroom]
      exact ⟨h.push hmem hunder hroom, rfl⟩
    · rw [takeIn_of_full hmem (Nat.not_le.mp hroom), answerIn, if_neg hmem]
      dsimp only
      rw [if_neg hroom]
      exact ⟨h, rfl⟩

end Holds

-- On a builder that holds these, the request takes the parts in and answers for the last of them.
def Serves (held parts : List PoolRequest) (request : Interning UInt16) (what : PoolRequest) :
    Prop :=
  ∀ builder, Holds builder held →
    Holds (request builder).2 (parts.foldl takeIn held) ∧
      (request builder).1 = answerIn (parts.foldl takeIn held) what

namespace Serves

variable {held parts more : List PoolRequest} {first : Interning UInt16}
  {next : UInt16 → Interning UInt16} {part what : PoolRequest}

theorem intern (hunder : what.under ⊆ held) :
    Serves held [what] (PoolBuilder.intern (entryIn held what)) what :=
  fun _ h => h.intern hunder

-- After a refusal nothing more is asked for. Nothing more would be taken in either, as there is no
-- room for a single number then.
theorem bind (hfirst : Serves held parts first part) (hpart : part ∈ parts)
    (hslots : part.slots = 1) (hunder : part ∈ what.under)
    (hnext : Closed (parts.foldl takeIn held) → part ∈ parts.foldl takeIn held →
      Serves (parts.foldl takeIn held) more (next (indexIn (parts.foldl takeIn held) part)) what) :
    Serves held (parts ++ more) (first >>= next) what := by
  intro builder h
  obtain ⟨hbetween, hanswer⟩ := hfirst builder h
  rw [List.foldl_append, Interning.bind_apply]
  cases hrun : first builder with
  | mk result between =>
      rw [hrun] at hbetween hanswer
      rw [answerIn] at hanswer
      by_cases hmem : part ∈ parts.foldl takeIn held
      · rw [if_pos hmem] at hanswer
        subst hanswer
        exact hnext hbetween.closed hmem between hbetween
      · rw [if_neg hmem] at hanswer
        subst hanswer
        have hfull := full_of_notMem_foldl_takeIn hpart hmem
        rw [hslots] at hfull
        have hwhat : what ∉ parts.foldl takeIn held :=
          fun hwhat => hmem (hbetween.closed what hwhat hunder)
        rw [foldl_takeIn_of_full hfull, answerIn, if_neg hwhat]
        exact ⟨hbetween, rfl⟩

end Serves

theorem serves_utf8 (held : List PoolRequest) (text : String) :
    Serves held [utf8 text] (PoolBuilder.utf8 text) (utf8 text) :=
  .intern (List.nil_subset held)

theorem serves_class (held : List PoolRequest) (name : String) :
    Serves held [utf8 name, .class name] (PoolBuilder.class name) (.class name) := by
  apply (serves_utf8 held name).bind (.head _) rfl (.head _)
  intro _ hname
  exact .intern (List.cons_subset.mpr ⟨hname, List.nil_subset _⟩)

theorem serves_string (held : List PoolRequest) (text : String) :
    Serves held [utf8 text, string text] (PoolBuilder.string text) (string text) := by
  apply (serves_utf8 held text).bind (.head _) rfl (.head _)
  intro _ htext
  exact .intern (List.cons_subset.mpr ⟨htext, List.nil_subset _⟩)

-- The first part has the same number before and after the second one.
theorem serves_nameAndType (held : List PoolRequest) (name descriptor : String) :
    Serves held [utf8 name, utf8 descriptor, nameAndType name descriptor]
      (PoolBuilder.nameAndType name descriptor) (nameAndType name descriptor) := by
  apply (serves_utf8 held name).bind (.head _) rfl (.head _)
  intro _ hname
  apply (serves_utf8 _ descriptor).bind (.head _) rfl (.tail _ (.head _))
  intro _ hdescriptor
  have hgrown := prefix_foldl_takeIn ([utf8 name].foldl takeIn held) [utf8 descriptor]
  rw [← indexIn_of_isPrefix hgrown hname]
  have hunder := List.cons_subset.mpr
    ⟨hgrown.subset hname, List.cons_subset.mpr ⟨hdescriptor, List.nil_subset _⟩⟩
  exact .intern hunder

theorem serves_methodref (held : List PoolRequest) (owner name descriptor : String) :
    Serves held (methodref owner name descriptor).parts
      (PoolBuilder.methodref owner name descriptor) (methodref owner name descriptor) := by
  apply (serves_class held owner).bind (.tail _ (.head _)) rfl (class_mem_under owner _ _)
  intro _ howner
  apply (serves_nameAndType _ name descriptor).bind (List.mem_of_getLast? rfl) rfl
    (nameAndType_mem_under _ name descriptor)
  intro hclosed hmember
  have hgrown := prefix_foldl_takeIn ([utf8 owner, .class owner].foldl takeIn held)
    [utf8 name, utf8 descriptor, nameAndType name descriptor]
  have howner' := hgrown.subset howner
  rw [← indexIn_of_isPrefix hgrown howner]
  have hunder : (methodref owner name descriptor).under ⊆ _ :=
    List.append_subset.mpr
      ⟨List.append_subset.mpr
          ⟨hclosed _ howner', List.cons_subset.mpr ⟨howner', List.nil_subset _⟩⟩,
        List.append_subset.mpr
          ⟨hclosed _ hmember, List.cons_subset.mpr ⟨hmember, List.nil_subset _⟩⟩⟩
  exact .intern hunder

theorem serves (held : List PoolRequest) (request : PoolRequest) :
    Serves held request.parts request.intern request := by
  cases request with
  | utf8 text => exact serves_utf8 held text
  | «class» name => exact serves_class held name
  | string text => exact serves_string held text
  | integer | float | long | double => exact .intern (List.nil_subset held)
  | nameAndType name descriptor => exact serves_nameAndType held name descriptor
  | methodref owner name descriptor => exact serves_methodref held owner name descriptor

end PoolRequest

end ApiUnion
