import Mathlib.Algebra.Group.Nat.Defs
import Mathlib.Data.List.Forall2
import ApiUnion.ClassFile.Bytes

-- Readers and the bytes that they read: one law for each reader, which says what it makes of the
-- bytes that were written for it.

namespace ApiUnion

namespace Bytes

@[simp] theorem length_bigEndian (width n : Nat) : (bigEndian width n).length = width := by
  induction width generalizing n with
  | zero => rfl
  | succ width ih => simp [bigEndian, ih]

@[simp] theorem length_u2 (n : UInt16) : (u2 n).length = 2 := length_bigEndian 2 _

@[simp] theorem length_u4 (n : UInt32) : (u4 n).length = 4 := length_bigEndian 4 _

@[simp] theorem length_u8 (n : UInt64) : (u8 n).length = 8 := length_bigEndian 8 _

-- Only the bits of `n` within the width count.
theorem foldl_bigEndian (width n acc : Nat) :
    (bigEndian width n).foldl (fun n byte => n * 0x100 + byte.toNat) acc =
      acc * 0x100 ^ width + n % 0x100 ^ width := by
  induction width generalizing n with
  | zero => simp [bigEndian, Nat.mod_one]
  | succ width ih =>
      have hbyte : (UInt8.ofNat n).toNat = n % 0x100 := by simp
      have hdigits : n % 0x100 ^ (width + 1) = n % 0x100 + 0x100 * (n / 0x100 % 0x100 ^ width) := by
        rw [Nat.pow_succ, Nat.mul_comm, Nat.mod_mul]
      rw [bigEndian, List.foldl_append, ih, List.foldl_cons, List.foldl_nil, hbyte, hdigits,
        Nat.pow_succ, ← Nat.mul_assoc]
      omega

theorem toNat_bigEndian (width n : Nat) (h : n < 0x100 ^ width) :
    toNat (bigEndian width n) = n := by
  rw [toNat, foldl_bigEndian, Nat.zero_mul, Nat.zero_add, Nat.mod_eq_of_lt h]

end Bytes

namespace Reader

variable {α β : Type}

-- The reader takes exactly these bytes off the front of any input, and finds the value in them.
def Reads (read : Reader α) (value : α) (bytes : List UInt8) : Prop :=
  ∀ rest, read (bytes ++ rest) = .ok (value, rest)

namespace Reads

theorem pure (value : α) : Reads (Pure.pure value) value [] := by
  intro rest
  rfl

theorem bind {read : Reader α} {next : α → Reader β} {a : α} {b : β} {xs ys : List UInt8}
    (hread : Reads read a xs) (hnext : Reads (next a) b ys) :
    Reads (read >>= next) b (xs ++ ys) := by
  intro rest
  show (read (xs ++ ys ++ rest)).bind (fun result => next result.1 result.2) = _
  rw [List.append_assoc, hread (ys ++ rest)]
  exact hnext rest

-- A step that takes nothing off the input leaves the bytes as they are.
theorem bind_nil {read : Reader α} {next : α → Reader β} {a : α} {b : β} {xs : List UInt8}
    (hread : Reads read a xs) (hnext : Reads (next a) b []) : Reads (read >>= next) b xs := by
  have h := hread.bind hnext
  rw [List.append_nil] at h
  exact h

-- The last step of a record only puts together what was read.
theorem bind_pure {read : Reader α} {a : α} {xs : List UInt8} (f : α → β)
    (hread : Reads read a xs) : Reads (read >>= fun a => Pure.pure (f a)) (f a) xs := by
  intro rest
  show (read (xs ++ rest)).bind (fun result => .ok (f result.1, result.2)) = _
  rw [hread rest]
  rfl

theorem map {read : Reader α} {a : α} {xs : List UInt8} (f : α → β) (hread : Reads read a xs) :
    Reads (f <$> read) (f a) xs := by
  intro rest
  show (read (xs ++ rest)).map (fun result => (f result.1, result.2)) = _
  rw [hread rest]
  rfl

theorem take (bytes : List UInt8) (count : Nat) (h : bytes.length = count) :
    Reads (Reader.take count) bytes bytes := by
  intro rest
  subst h
  simp [Reader.take]

theorem u1 (n : UInt8) : Reads Reader.u1 n (Bytes.u1 n) := by
  have h := (take (Bytes.u1 n) 1 rfl).bind_pure fun bytes => UInt8.ofNat (Bytes.toNat bytes)
  have hn : UInt8.ofNat (Bytes.toNat (Bytes.u1 n)) = n := by simp [Bytes.u1, Bytes.toNat]
  rw [hn] at h
  exact h

theorem u2 (n : UInt16) : Reads Reader.u2 n (Bytes.u2 n) := by
  have h := (take (Bytes.u2 n) 2 (by simp)).bind_pure fun bytes => UInt16.ofNat (Bytes.toNat bytes)
  have hn : Bytes.toNat (Bytes.u2 n) = n.toNat := Bytes.toNat_bigEndian 2 _ n.toNat_lt
  rw [hn, UInt16.ofNat_toNat] at h
  exact h

theorem u4 (n : UInt32) : Reads Reader.u4 n (Bytes.u4 n) := by
  have h := (take (Bytes.u4 n) 4 (by simp)).bind_pure fun bytes => UInt32.ofNat (Bytes.toNat bytes)
  have hn : Bytes.toNat (Bytes.u4 n) = n.toNat := Bytes.toNat_bigEndian 4 _ n.toNat_lt
  rw [hn, UInt32.ofNat_toNat] at h
  exact h

theorem u8 (n : UInt64) : Reads Reader.u8 n (Bytes.u8 n) := by
  have h := (take (Bytes.u8 n) 8 (by simp)).bind_pure fun bytes => UInt64.ofNat (Bytes.toNat bytes)
  have hn : Bytes.toNat (Bytes.u8 n) = n.toNat := Bytes.toNat_bigEndian 8 _ n.toNat_lt
  rw [hn, UInt64.ofNat_toNat] at h
  exact h

theorem lift {result : Except ClassFileError α} {value : α} (h : result = .ok value) :
    Reads (Reader.lift result) value [] := by
  intro rest
  subst h
  rfl

-- The values found so far stand in reverse, so they are turned around before those to come.
theorem timesAfter {item : Reader α} {values : List α} {pieces : List (List UInt8)}
    (h : List.Forall₂ (Reads item) values pieces) (found : List α) :
    Reads (Reader.timesAfter item values.length found) (found.reverse ++ values)
      pieces.flatten := by
  induction h generalizing found with
  | nil =>
      intro rest
      simp [Reader.timesAfter]
  | @cons value piece values pieces hvalue _ ih =>
      intro rest
      rw [List.length_cons, List.flatten_cons, List.append_assoc, Reader.timesAfter, hvalue]
      simpa using ih (value :: found) rest

theorem times {item : Reader α} {values : List α} {pieces : List (List UInt8)}
    (h : List.Forall₂ (Reads item) values pieces) :
    Reads (Reader.times values.length item) values pieces.flatten :=
  timesAfter h []

end Reads

-- A reader that takes all of its bytes leaves nothing over.
theorem within_of_reads {read : Reader α} {value : α} {bytes : List UInt8} (what : String)
    (h : Reads read value bytes) : within bytes what read = .ok value := by
  have hread : read bytes = .ok (value, []) := by
    have := h []
    rwa [List.append_nil] at this
  have hall : (do let value ← read; finish what; Pure.pure value : Reader α) bytes =
      .ok (value, []) := by
    show (read bytes).bind _ = _
    rw [hread]
    rfl
  unfold within
  rw [hall]

end Reader

end ApiUnion
