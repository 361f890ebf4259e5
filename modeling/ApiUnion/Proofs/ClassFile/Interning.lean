import ApiUnion.ClassFile.ElementBytes
import ApiUnion.Proofs.ClassFile.Pool

-- Writers intern what they refer to. The pool only grows meanwhile, so numbers that were given out
-- stay good to the end.

namespace ApiUnion

open Reader

namespace PoolBuilder

-- The number of an entry is where the layout of all entries has it.
structure Sound (builder : PoolBuilder) : Prop where
  next_eq : builder.next = (Pool.layout builder.entries.toList).length
  next_le : builder.next ≤ 0xFFFF
  usable : PoolEntry.unusable ∉ builder.entries.toList
  numbered : ∀ (entry : PoolEntry) (number : UInt16), builder.numbers[entry]? = some number →
    (Pool.layout builder.entries.toList)[number.toNat]? = some entry ∧ entry ≠ .unusable

-- Numbers once given stay.
def Grows (before after : PoolBuilder) : Prop :=
  ∀ (entry : PoolEntry) (number : UInt16),
    before.numbers[entry]? = some number → after.numbers[entry]? = some number

-- The pool has every entry under its number, and none under zero.
structure Backs (pool : Pool) (builder : PoolBuilder) : Prop where
  get : ∀ (entry : PoolEntry) (number : UInt16),
    builder.numbers[entry]? = some number → pool.get number = .ok entry
  get_zero : pool.get 0 = .error (.invalidPoolIndex 0)

theorem Grows.refl (builder : PoolBuilder) : Grows builder builder :=
  fun _ _ h => h

theorem Grows.trans {a b c : PoolBuilder} (hab : Grows a b) (hbc : Grows b c) : Grows a c :=
  fun entry number h => hbc entry number (hab entry number h)

theorem Backs.mono {pool : Pool} {before after : PoolBuilder} (hgrows : Grows before after)
    (h : Backs pool after) : Backs pool before where
  get entry number hnumber := h.get entry number (hgrows entry number hnumber)
  get_zero := h.get_zero

theorem sound_empty : Sound empty where
  next_eq := rfl
  next_le := by decide
  usable := by simp [empty]
  numbered := by simp [empty]

theorem layout_push (builder : PoolBuilder) (entry : PoolEntry) :
    Pool.layout (builder.push entry).entries.toList =
      Pool.layout builder.entries.toList ++ entry.numbered := by
  simp [push, Pool.layout_append]

theorem sound_push (builder : PoolBuilder) (entry : PoolEntry) (h : Sound builder)
    (husable : entry ≠ .unusable) (hroom : builder.next + entry.slots ≤ 0xFFFF) :
    Sound (builder.push entry) where
  next_eq := by
    rw [layout_push, List.length_append, entry.length_numbered, ← h.next_eq]
    rfl
  next_le := hroom
  usable := by
    have hold := h.usable
    simp only [push, Array.toList_push, List.mem_append, List.mem_singleton, not_or]
    exact ⟨hold, Ne.symm husable⟩
  numbered := by
    intro other number hnumber
    rw [layout_push]
    simp only [push, Std.HashMap.getElem?_insert] at hnumber
    split at hnumber
    · rename_i heq
      rw [beq_iff_eq] at heq
      subst heq
      obtain rfl := Option.some.inj hnumber
      have hpos := entry.slots_pos
      have hindex : (UInt16.ofNat builder.next).toNat =
          (Pool.layout builder.entries.toList).length := by
        rw [← h.next_eq]
        simp only [UInt16.toNat_ofNat']
        omega
      refine ⟨?_, husable⟩
      rw [hindex, List.getElem?_append_right (Nat.le_refl _), Nat.sub_self]
      unfold PoolEntry.numbered
      split <;> rfl
    · obtain ⟨hget, hother⟩ := h.numbered other number hnumber
      have hlt := (List.getElem?_eq_some_iff.mp hget).1
      exact ⟨by rw [List.getElem?_append_left hlt, hget], hother⟩

theorem grows_push (builder : PoolBuilder) (entry : PoolEntry)
    (hnew : builder.numbers[entry]? = none) : Grows builder (builder.push entry) := by
  intro other number h
  have hne : entry ≠ other := by
    rintro rfl
    rw [hnew] at h
    cases h
  simp only [push, Std.HashMap.getElem?_insert]
  rw [if_neg (by simpa using hne)]
  exact h

-- All that interning an entry does: it gives a number that stands for the entry from then on.
theorem intern_ok (entry : PoolEntry) (before after : PoolBuilder) (number : UInt16)
    (h : Sound before) (husable : entry ≠ .unusable)
    (hrun : intern entry before = (.ok number, after)) :
    Sound after ∧ Grows before after ∧ after.numbers[entry]? = some number := by
  unfold intern at hrun
  split at hrun
  · rename_i known hknown
    obtain ⟨hnumber, rfl⟩ := Prod.mk.inj hrun
    obtain rfl := Except.ok.inj hnumber
    exact ⟨h, Grows.refl _, hknown⟩
  · rename_i hnew
    split at hrun
    · rename_i hroom
      obtain ⟨hnumber, rfl⟩ := Prod.mk.inj hrun
      obtain rfl := Except.ok.inj hnumber
      exact ⟨sound_push before entry h husable hroom, grows_push before entry hnew,
        by simp [push]⟩
    · cases (Prod.mk.inj hrun).1

theorem writable_of_checkLengths (builder : PoolBuilder) (h : Sound builder)
    (hlengths : builder.checkLengths = .ok ()) :
    ∀ entry ∈ builder.entries.toList, entry.Writable := by
  intro entry hentry
  simp only [checkLengths] at hlengths
  split at hlengths
  · rename_i hall
    have hfits := Array.all_eq_true_iff_forall_mem.mp hall entry (by simpa using hentry)
    cases entry with
    | utf8 text => simpa [PoolEntry.Writable] using hfits
    | unusable => exact h.usable hentry
    | _ => trivial
  · cases hlengths

-- The pool that a sound builder writes is read back with all its entries under their numbers.
theorem reads_layout (builder : PoolBuilder) (h : Sound builder)
    (hlengths : builder.checkLengths = .ok ()) :
    Reads Pool.read ⟨(Pool.layout builder.entries.toList).toArray⟩ builder.bytes := by
  have hwritable := writable_of_checkLengths builder h hlengths
  have hlength : (Pool.layout builder.entries.toList).length ≤ 0xFFFF := h.next_eq ▸ h.next_le
  have hreads := Pool.reads_read builder.entries.toList hwritable hlength
  rwa [← h.next_eq] at hreads

theorem backs_layout (builder : PoolBuilder) (h : Sound builder) :
    Backs ⟨(Pool.layout builder.entries.toList).toArray⟩ builder := by
  refine ⟨?_, rfl⟩
  intro entry number hnumber
  obtain ⟨hget, husable⟩ := h.numbered entry number hnumber
  simp only [Pool.get, List.getElem?_toArray, hget]

theorem reads_bytes (builder : PoolBuilder) (h : Sound builder)
    (hlengths : builder.checkLengths = .ok ()) :
    ∃ pool, Reads Pool.read pool builder.bytes ∧ Backs pool builder :=
  ⟨_, reads_layout builder h hlengths, backs_layout builder h⟩

end PoolBuilder

namespace Interning

open PoolBuilder

variable {α β : Type}

theorem pure_apply (a : α) (builder : PoolBuilder) :
    (Pure.pure a : Interning α) builder = (.ok a, builder) := rfl

theorem bind_apply (request : Interning α) (next : α → Interning β) (before : PoolBuilder) :
    (request >>= next) before = match request before with
      | (.ok a, between) => next a between
      | (.error error, between) => (.error error, between) := by
  show (ExceptT.bindCont next (request before).1) (request before).2 = _
  cases request before with
  | mk result between => cases result <;> rfl

-- Whenever the request succeeds on a sound builder, the builder stays sound and only grows, and the
-- answer is right in every pool that has what the builder then has.
def Yields (request : Interning α) (right : Pool → α → Prop) : Prop :=
  ∀ (before : PoolBuilder) (a : α) (after : PoolBuilder), before.Sound →
    request before = (.ok a, after) →
      after.Sound ∧ before.Grows after ∧ ∀ pool, Backs pool after → right pool a

namespace Yields

theorem pure {right : Pool → α → Prop} (a : α) (h : ∀ pool, right pool a) :
    Yields (Pure.pure a) right := by
  intro before b after hsound hrun
  obtain ⟨hb, rfl⟩ := Prod.mk.inj hrun
  obtain rfl := Except.ok.inj hb
  exact ⟨hsound, Grows.refl _, fun pool _ => h pool⟩

theorem throw (error : ClassFileError) (right : Pool → α → Prop) :
    Yields (throw error : Interning α) right := by
  intro before a after _ hrun
  cases (Prod.mk.inj hrun).1

theorem mono {request : Interning α} {right weaker : Pool → α → Prop} (h : Yields request right)
    (hweaker : ∀ pool a, right pool a → weaker pool a) : Yields request weaker := by
  intro before a after hsound hrun
  obtain ⟨hafter, hgrows, hright⟩ := h before a after hsound hrun
  exact ⟨hafter, hgrows, fun pool hbacks => hweaker pool a (hright pool hbacks)⟩

-- What the first request found out still holds after the second, as the builder only grows.
theorem bind {request : Interning α} {next : α → Interning β} {first : Pool → α → Prop}
    {right : Pool → β → Prop} (h : Yields request first)
    (hnext : ∀ a, Yields (next a) fun pool b => first pool a → right pool b) :
    Yields (request >>= next) right := by
  intro before b after hsound hrun
  rw [bind_apply] at hrun
  split at hrun
  · rename_i a between hfirst
    obtain ⟨hbetween, hgrows, hright⟩ := h before a between hsound hfirst
    obtain ⟨hafter, hgrows', hright'⟩ := hnext a between b after hbetween hrun
    exact ⟨hafter, hgrows.trans hgrows',
      fun pool hbacks => hright' pool hbacks (hright pool (hbacks.mono hgrows'))⟩
  · cases (Prod.mk.inj hrun).1

theorem intern (entry : PoolEntry) (h : entry ≠ .unusable) :
    Yields (PoolBuilder.intern entry) fun pool number =>
      pool.get number = .ok entry ∧ number ≠ 0 := by
  intro before number after hsound hrun
  obtain ⟨hafter, hgrows, hnumber⟩ := intern_ok entry before after number hsound h hrun
  refine ⟨hafter, hgrows, fun pool hbacks => ?_⟩
  have hget := hbacks.get entry number hnumber
  refine ⟨hget, ?_⟩
  rintro rfl
  rw [hbacks.get_zero] at hget
  cases hget

theorem utf8 (text : String) :
    Yields (PoolBuilder.utf8 text) fun pool number =>
      pool.text number = .ok text ∧ number ≠ 0 := by
  refine (intern (.utf8 text) (by simp)).mono ?_
  intro pool number h
  refine ⟨?_, h.2⟩
  unfold Pool.text
  rw [h.1]
  rfl

theorem «class» (name : String) :
    Yields (PoolBuilder.class name) fun pool number =>
      pool.className number = .ok name ∧ number ≠ 0 := by
  refine (utf8 name).bind fun index => (intern (.class index) (by simp)).mono ?_
  intro pool number h hname
  refine ⟨?_, h.2⟩
  unfold Pool.className
  rw [h.1]
  exact hname.1

theorem string (text : String) :
    Yields (PoolBuilder.string text) fun pool number =>
      ∃ index, pool.get number = .ok (.string index) ∧ pool.text index = .ok text := by
  refine (utf8 text).bind fun index => (intern (.string index) (by simp)).mono ?_
  intro pool number h htext
  exact ⟨index, h.1, htext.1⟩

theorem nameAndType (name descriptor : String) :
    Yields (PoolBuilder.nameAndType name descriptor) fun pool number =>
      pool.nameAndType number = .ok (name, descriptor) ∧ number ≠ 0 := by
  refine (utf8 name).bind fun first => (utf8 descriptor).bind fun second =>
    (intern (.nameAndType first second) (by simp)).mono ?_
  intro pool number h hdescriptor hname
  refine ⟨?_, h.2⟩
  unfold Pool.nameAndType
  rw [h.1]
  show (pool.text first).bind (fun name =>
    (pool.text second).bind fun descriptor => .ok (name, descriptor)) = _
  rw [hname.1, hdescriptor.1]
  rfl

theorem methodref (owner name descriptor : String) :
    Yields (PoolBuilder.methodref owner name descriptor) fun _ _ => True :=
  («class» owner).bind fun first => (nameAndType name descriptor).bind fun second =>
    (intern (.methodref first second) (by simp)).mono fun _ _ _ _ _ => trivial

-- A name that is there is never under zero, so zero can stand for none.
theorem class? (name : Option String) :
    Yields (PoolBuilder.class? name) fun pool number => pool.className? number = .ok name := by
  cases name with
  | none => exact pure 0 fun pool => rfl
  | some name =>
      refine («class» name).mono fun pool number h => ?_
      unfold Pool.className?
      rw [if_neg h.2, h.1]
      rfl

theorem utf8? (text : Option String) :
    Yields (PoolBuilder.utf8? text) fun pool number => pool.text? number = .ok text := by
  cases text with
  | none => exact pure 0 fun pool => rfl
  | some text =>
      refine (utf8 text).mono fun pool number h => ?_
      unfold Pool.text?
      rw [if_neg h.2, h.1]
      rfl

theorem length (count : Nat) (what : String) :
    Yields (Interning.length count what) fun _ bytes =>
      ∃ number : UInt16, bytes = Bytes.u2 number ∧ number.toNat = count := by
  unfold Interning.length
  split
  · rename_i hfits
    refine pure _ fun pool => ⟨UInt16.ofNat count, rfl, ?_⟩
    simp only [UInt16.toNat_ofNat']
    omega
  · exact throw _ _

theorem u2 {request : Interning UInt16} {right : Pool → UInt16 → Prop} (h : Yields request right) :
    Yields (Interning.u2 request) fun pool bytes =>
      ∃ number, bytes = Bytes.u2 number ∧ right pool number :=
  h.bind fun number => pure _ fun _ hnumber => ⟨number, rfl, hnumber⟩

theorem mapM {right : α → Pool → β → Prop} (items : List α) (request : α → Interning β)
    (h : ∀ item ∈ items, Yields (request item) (right item)) :
    Yields (items.mapM request) fun pool answers =>
      List.Forall₂ (fun item answer => right item pool answer) items answers := by
  induction items with
  | nil =>
      rw [List.mapM_nil]
      exact pure [] fun pool => .nil
  | cons item items ih =>
      rw [List.mapM_cons]
      refine (h item (by simp)).bind fun answer => ?_
      refine (ih fun other hother => h other (by simp [hother])).bind fun answers => ?_
      exact pure _ fun pool hanswers hanswer => .cons hanswer hanswers

theorem each {right : α → Pool → List UInt8 → Prop} (items : List α)
    (write : α → Interning (List UInt8)) (h : ∀ item ∈ items, Yields (write item) (right item)) :
    Yields (Interning.each items write) fun pool bytes =>
      ∃ pieces, bytes = pieces.flatten ∧
        List.Forall₂ (fun item piece => right item pool piece) items pieces :=
  (mapM items write h).bind fun pieces => pure _ fun _ hpieces => ⟨pieces, rfl, hpieces⟩

end Yields

end Interning

end ApiUnion
