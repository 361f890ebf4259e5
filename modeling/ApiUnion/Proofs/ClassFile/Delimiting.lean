import ApiUnion.ClassFile.Binary
import ApiUnion.Proofs.ClassFile.Bytes

-- Class files tell where they end. What a reader finds is settled by the bytes that it takes: it
-- finds the same in front of whatever follows, and every input that stops short of them ends
-- unexpectedly.

namespace ApiUnion

namespace Reader

variable {α β : Type}

-- Input that stops short of these bytes ends before the reader is done.
def Wants (read : Reader α) (bytes : List UInt8) : Prop :=
  ∀ front back, front ++ back = bytes → back ≠ [] → read front = .error .unexpectedEnd

-- Wherever the reader finds something, it took some bytes off the front, no more and no less.
def Delimits (read : Reader α) : Prop :=
  ∀ input value rest, read input = .ok (value, rest) →
    ∃ bytes, input = bytes ++ rest ∧ Reads read value bytes ∧ Wants read bytes

theorem bind_eq_error {read : Reader α} (next : α → Reader β) {input : List UInt8}
    {error : ClassFileError} (h : read input = .error error) :
    (read >>= next) input = .error error := by
  show (read input).bind _ = _
  rw [h]
  rfl

theorem bind_eq_of_ok {read : Reader α} (next : α → Reader β) {input rest : List UInt8} {value : α}
    (h : read input = .ok (value, rest)) : (read >>= next) input = next value rest := by
  show (read input).bind _ = _
  rw [h]
  rfl

namespace Wants

theorem nil (read : Reader α) : Wants read [] := by
  intro front back hsplit hback
  exact absurd (List.append_eq_nil_iff.mp hsplit).2 hback

-- The input stops within what the first reader takes, or within what the second does.
theorem bind {read : Reader α} {next : α → Reader β} {value : α} {xs ys : List UInt8}
    (hread : Reads read value xs) (hxs : Wants read xs) (hys : Wants (next value) ys) :
    Wants (read >>= next) (xs ++ ys) := by
  intro front back hsplit hback
  rcases List.append_eq_append_iff.mp hsplit with ⟨missing, rfl, rfl⟩ | ⟨more, rfl, rfl⟩
  · by_cases hmissing : missing = []
    · subst hmissing
      rw [List.append_nil] at hread
      have hfront := hread []
      rw [List.append_nil] at hfront
      rw [bind_eq_of_ok next hfront]
      exact hys [] ys rfl hback
    · exact bind_eq_error next (hxs front missing rfl hmissing)
  · rw [bind_eq_of_ok next (hread more)]
    exact hys more back rfl hback

end Wants

namespace Delimits

theorem pure (value : α) : Delimits (Pure.pure value : Reader α) := by
  intro input found rest h
  cases h
  exact ⟨[], rfl, Reads.pure value, Wants.nil _⟩

theorem fail (error : ClassFileError) : Delimits (Reader.fail error : Reader α) := by
  intro input value rest h
  cases h

theorem bind {read : Reader α} {next : α → Reader β} (hread : Delimits read)
    (hnext : ∀ value, Delimits (next value)) : Delimits (read >>= next) := by
  intro input found rest h
  cases hfirst : read input with
  | error error =>
      rw [bind_eq_error next hfirst] at h
      cases h
  | ok first =>
      rw [bind_eq_of_ok next hfirst] at h
      obtain ⟨xs, hinput, hreads, hwants⟩ := hread input first.1 first.2 hfirst
      obtain ⟨ys, hrest, hreads', hwants'⟩ := hnext first.1 first.2 found rest h
      exact ⟨xs ++ ys, by rw [hinput, hrest, List.append_assoc], hreads.bind hreads',
        Wants.bind hreads hwants hwants'⟩

theorem take (count : Nat) : Delimits (Reader.take count) := by
  intro input value rest h
  have hread : (if (input.take count).length = count then
      (.ok (input.take count, input.drop count) : Except ClassFileError _)
      else .error .unexpectedEnd) = .ok (value, rest) := h
  split at hread
  · rename_i hlength
    obtain ⟨rfl, rfl⟩ := Prod.mk.inj (Except.ok.inj hread)
    refine ⟨input.take count, (List.take_append_drop count input).symm,
      Reads.take _ count hlength, fun front back hsplit hback => ?_⟩
    have hshort : front.length < count := by
      have hsum := congrArg List.length hsplit
      have hpositive := List.length_pos_iff.mpr hback
      rw [List.length_append, hlength] at hsum
      omega
    have htaken : (front.take count).length ≠ count := by
      rw [List.length_take]
      omega
    exact if_neg htaken
  · cases hread

theorem u1 : Delimits Reader.u1 :=
  (take 1).bind fun _ => pure _

theorem u2 : Delimits Reader.u2 :=
  (take 2).bind fun _ => pure _

theorem u4 : Delimits Reader.u4 :=
  (take 4).bind fun _ => pure _

theorem u8 : Delimits Reader.u8 :=
  (take 8).bind fun _ => pure _

-- A value that is looked up somewhere else takes nothing off the input.
theorem lift (result : Except ClassFileError α) : Delimits (Reader.lift result) := by
  intro input value rest h
  cases result with
  | error error => cases h
  | ok found =>
      cases h
      exact ⟨[], rfl, Reads.lift rfl, Wants.nil _⟩

theorem pooled (find : UInt16 → Except ClassFileError α) : Delimits (Reader.pooled find) :=
  u2.bind fun index => lift (find index)

theorem timesAfter {item : Reader α} (hitem : Delimits item) (count : Nat) (found : List α) :
    Delimits (Reader.timesAfter item count found) := by
  induction count generalizing found with
  | zero => exact pure found.reverse
  | succ count ih =>
      have hstep : Reader.timesAfter item (count + 1) found =
          item >>= fun value => Reader.timesAfter item count (value :: found) := by
        funext input
        cases hfirst : item input with
        | error error => rw [bind_eq_error _ hfirst, Reader.timesAfter, hfirst]
        | ok first => rw [bind_eq_of_ok _ hfirst, Reader.timesAfter, hfirst]
      rw [hstep]
      exact hitem.bind fun value => ih (value :: found)

theorem times {item : Reader α} (hitem : Delimits item) (count : Nat) :
    Delimits (Reader.times count item) :=
  hitem.timesAfter count []

-- All that is read of a whole input is read of no part of it, and leaves over what is added.
theorem within {read : Reader α} (hread : Delimits read) {bytes : List UInt8} {what : String}
    {value : α} (h : Reader.within bytes what read = .ok value) :
    (∀ front back, front ++ back = bytes → back ≠ [] →
      Reader.within front what read = .error .unexpectedEnd) ∧
    ∀ more, more ≠ [] → Reader.within (bytes ++ more) what read = .error (.trailingBytes what) := by
  have hall : ∃ found rest, read bytes = .ok (found, rest) ∧ rest = [] := by
    cases hfirst : read bytes with
    | error error =>
        rw [Reader.within, bind_eq_error _ hfirst] at h
        cases h
    | ok first =>
        rw [Reader.within, bind_eq_of_ok _ hfirst] at h
        cases hrest : first.2 with
        | nil => exact ⟨first.1, first.2, rfl, hrest⟩
        | cons byte rest =>
            rw [hrest] at h
            cases h
  obtain ⟨found, rest, hfound, rfl⟩ := hall
  obtain ⟨taken, hbytes, hreads, hwants⟩ := hread bytes found [] hfound
  rw [List.append_nil] at hbytes
  subst hbytes
  constructor
  · intro front back hsplit hback
    rw [Reader.within, bind_eq_error _ (hwants front back hsplit hback)]
  · intro more hmore
    have hleft : (finish what >>= fun _ => Pure.pure found : Reader α) more =
        .error (.trailingBytes what) := by
      obtain ⟨byte, rest, rfl⟩ := List.exists_cons_of_ne_nil hmore
      rfl
    rw [Reader.within, bind_eq_of_ok _ (hreads more), hleft]

end Delimits

end Reader

open Reader

theorem PoolEntry.delimits_readPair (entry : UInt16 → UInt16 → PoolEntry) :
    Delimits (readPair entry) :=
  Delimits.u2.bind fun _ => Delimits.u2.bind fun _ => Delimits.pure _

theorem PoolEntry.delimits_read : Delimits PoolEntry.read := by
  refine Delimits.u1.bind fun tag => ?_
  split
  · refine Delimits.u2.bind fun length => (Delimits.take length.toNat).bind fun encoded => ?_
    split
    · exact Delimits.pure _
    · exact Delimits.fail _
  · exact Delimits.u4.bind fun _ => Delimits.pure _
  · exact Delimits.u4.bind fun _ => Delimits.pure _
  · exact Delimits.u8.bind fun _ => Delimits.pure _
  · exact Delimits.u8.bind fun _ => Delimits.pure _
  · exact Delimits.u2.bind fun _ => Delimits.pure _
  · exact Delimits.u2.bind fun _ => Delimits.pure _
  · exact delimits_readPair _
  · exact delimits_readPair _
  · exact delimits_readPair _
  · exact delimits_readPair _
  · exact Delimits.u1.bind fun _ => Delimits.u2.bind fun _ => Delimits.pure _
  · exact Delimits.u2.bind fun _ => Delimits.pure _
  · exact delimits_readPair _
  · exact delimits_readPair _
  · exact Delimits.u2.bind fun _ => Delimits.pure _
  · exact Delimits.u2.bind fun _ => Delimits.pure _
  · exact Delimits.fail _

theorem Pool.delimits_readEntries (count fuel : Nat) (entries : Array PoolEntry) :
    Delimits (readEntries count fuel entries) := by
  induction fuel generalizing entries with
  | zero => exact Delimits.pure entries
  | succ fuel ih =>
      rw [readEntries]
      split
      · exact PoolEntry.delimits_read.bind fun entry => ih _
      · exact Delimits.pure entries

theorem Pool.delimits_read : Delimits Pool.read :=
  Delimits.u2.bind fun count =>
    (delimits_readEntries count.toNat count.toNat #[.unusable]).bind fun _ => Delimits.pure _

-- The bytes of an attribute are taken as a whole before anything in them is looked at, so only the
-- length in front of them has to be right.
theorem Attribute.delimits_read (pool : Pool) (owner : AttributeOwner) :
    Delimits (read pool owner) := by
  refine (Delimits.pooled pool.text).bind fun name => Delimits.u4.bind fun length =>
    (Delimits.take length.toNat).bind fun info => ?_
  split
  · exact Delimits.lift _
  · exact Delimits.pure _

theorem Attribute.delimits_readAll (pool : Pool) (owner : AttributeOwner) :
    Delimits (readAll pool owner) :=
  Delimits.u2.bind fun count => (delimits_read pool owner).times count.toNat

theorem Member.delimits_read (pool : Pool) (owner : AttributeOwner) :
    Delimits (read pool owner) :=
  Delimits.u2.bind fun _ => (Delimits.pooled pool.text).bind fun _ =>
    (Delimits.pooled pool.text).bind fun _ => (Attribute.delimits_readAll pool owner).bind fun _ =>
      Delimits.pure _

namespace ClassFile

theorem delimits_readBody (minor major : UInt16) (pool : Pool) :
    Delimits (readBody minor major pool) :=
  Delimits.u2.bind fun _ => (Delimits.pooled pool.className).bind fun _ =>
    (Delimits.pooled pool.className?).bind fun _ =>
      Delimits.u2.bind fun interfaces =>
        ((Delimits.pooled pool.className).times interfaces.toNat).bind fun _ =>
      Delimits.u2.bind fun fields =>
        ((Member.delimits_read pool .field).times fields.toNat).bind fun _ =>
      Delimits.u2.bind fun methods =>
        ((Member.delimits_read pool .method).times methods.toNat).bind fun _ =>
      (Attribute.delimits_readAll pool .class).bind fun _ => Delimits.pure _

theorem delimits_read : Delimits read := by
  have hbody : Delimits (do
      let minor ← Reader.u2
      let major ← Reader.u2
      let pool ← Pool.read
      readBody minor major pool) :=
    Delimits.u2.bind fun minor => Delimits.u2.bind fun major =>
      Pool.delimits_read.bind fun pool => delimits_readBody minor major pool
  refine Delimits.u4.bind fun found => ?_
  dsimp only
  split
  · exact (Delimits.fail _).bind fun _ => hbody
  · exact hbody

-- A class file ends where it says: what stops short of it ends unexpectedly, and what goes on
-- behind it has bytes left over.
theorem selfDelimiting_ofBytes {bytes : List UInt8} {file : ClassFile}
    (h : ofBytes bytes = .ok file) :
    (∀ front back, front ++ back = bytes → back ≠ [] →
      ofBytes front = .error .unexpectedEnd) ∧
    ∀ more, more ≠ [] → ofBytes (bytes ++ more) = .error (.trailingBytes "class") :=
  delimits_read.within h

-- A class with one field, the value of which is a long and so takes two numbers of the pool.
def holdingLong : ClassFile where
  access := 0x0001
  name := "p/A"
  superclass := none
  fields := [{ access := 0x0009, name := "x", descriptor := "J", constant := some (.long 7) }]

def bytesHoldingLong : List UInt8 :=
  Bytes.u4 magic ++ Bytes.u2 0 ++ Bytes.u2 52 ++ Bytes.u2 8 ++
    ([.utf8 "p/A", .class 1, .utf8 "x", .utf8 "J", .utf8 "ConstantValue", .long 7].flatMap
      PoolEntry.bytes) ++
    [0, 1, 0, 2, 0, 0, 0, 0, 0, 1, 0, 9, 0, 3, 0, 4, 0, 1, 0, 5, 0, 0, 0, 2, 0, 6, 0, 0, 0, 0]

theorem selfDelimiting_ofBytes_long :
    ofBytes bytesHoldingLong = .ok holdingLong ∧
      ofBytes (bytesHoldingLong.take 50) = .error .unexpectedEnd ∧
      ofBytes (bytesHoldingLong ++ [0]) = .error (.trailingBytes "class") := by
  have hread : ofBytes bytesHoldingLong = .ok holdingLong := by decide +kernel
  obtain ⟨hshort, hlong⟩ := selfDelimiting_ofBytes hread
  refine ⟨hread, ?_, hlong [0] (by decide)⟩
  exact hshort _ (bytesHoldingLong.drop 50) (List.take_append_drop _ _) (by decide +kernel)

end ClassFile

end ApiUnion
