import ApiUnion.ClassFile.Pool
import ApiUnion.Proofs.ClassFile.Bytes
import ApiUnion.Proofs.Text.ModifiedUtf8

-- Entries of constant pools and their layout, in which a long or a double takes up a second slot.

namespace ApiUnion

open Reader

namespace PoolEntry

-- The entries that can be written: those that refer to something, with texts whose length fits.
def Writable : PoolEntry → Prop
  | utf8 text => (ModifiedUtf8.encode text).length ≤ 0xFFFF
  | unusable => False
  | _ => True

-- What stands under the numbers of an entry.
def numbered (entry : PoolEntry) : List PoolEntry :=
  if entry.isWide then [entry, .unusable] else [entry]

theorem length_numbered (entry : PoolEntry) : entry.numbered.length = entry.slots := by
  unfold numbered slots
  split <;> rfl

theorem slots_pos (entry : PoolEntry) : 0 < entry.slots := by
  unfold slots
  split <;> omega

theorem reads_readPair (entry : UInt16 → UInt16 → PoolEntry) (a b : UInt16) :
    Reads (readPair entry) (entry a b) (Bytes.u2 a ++ Bytes.u2 b) :=
  (Reads.u2 a).bind ((Reads.u2 b).bind_pure (entry a))

theorem reads_utf8 (text : String) (h : (ModifiedUtf8.encode text).length ≤ 0xFFFF) :
    Reads read (utf8 text) (utf8 text).bytes := by
  have hlength : (UInt16.ofNat (ModifiedUtf8.encode text).length).toNat =
      (ModifiedUtf8.encode text).length := by
    simp only [UInt16.toNat_ofNat']
    omega
  have htake := Reads.take (ModifiedUtf8.encode text) _ hlength.symm
  have htext := ModifiedUtf8.decode?_encode text
  simp only [bytes, List.append_assoc]
  refine (Reads.u1 1).bind ((Reads.u2 _).bind ?_)
  intro rest
  show ((Reader.take _) (ModifiedUtf8.encode text ++ rest)).bind _ = _
  rw [htake rest]
  simp only [Except.bind, htext]
  rfl

-- The tag decides how the payload is read, so there is one case for each tag.
theorem reads_bytes (entry : PoolEntry) (h : entry.Writable) : Reads read entry entry.bytes := by
  cases entry with
  | utf8 text => exact reads_utf8 text h
  | integer value =>
      have hvalue : value.toUInt32.toInt32 = value := rfl
      have hpayload := (Reads.u4 value.toUInt32).bind_pure fun bits => integer bits.toInt32
      rw [hvalue] at hpayload
      exact (Reads.u1 3).bind hpayload
  | float bits => exact (Reads.u1 4).bind ((Reads.u4 bits).bind_pure float)
  | long value =>
      have hvalue : value.toUInt64.toInt64 = value := rfl
      have hpayload := (Reads.u8 value.toUInt64).bind_pure fun bits => long bits.toInt64
      rw [hvalue] at hpayload
      exact (Reads.u1 5).bind hpayload
  | double bits => exact (Reads.u1 6).bind ((Reads.u8 bits).bind_pure double)
  | «class» name => exact (Reads.u1 7).bind ((Reads.u2 name).bind_pure PoolEntry.class)
  | string text => exact (Reads.u1 8).bind ((Reads.u2 text).bind_pure string)
  | fieldref owner member =>
      simp only [bytes, List.append_assoc]
      exact (Reads.u1 9).bind (reads_readPair fieldref owner member)
  | methodref owner member =>
      simp only [bytes, List.append_assoc]
      exact (Reads.u1 10).bind (reads_readPair methodref owner member)
  | interfaceMethodref owner member =>
      simp only [bytes, List.append_assoc]
      exact (Reads.u1 11).bind (reads_readPair interfaceMethodref owner member)
  | nameAndType name descriptor =>
      simp only [bytes, List.append_assoc]
      exact (Reads.u1 12).bind (reads_readPair nameAndType name descriptor)
  | methodHandle kind reference =>
      simp only [bytes, List.append_assoc]
      exact (Reads.u1 15).bind ((Reads.u1 kind).bind ((Reads.u2 reference).bind_pure _))
  | methodType descriptor => exact (Reads.u1 16).bind ((Reads.u2 descriptor).bind_pure methodType)
  | dynamic bootstrap member =>
      simp only [bytes, List.append_assoc]
      exact (Reads.u1 17).bind (reads_readPair dynamic bootstrap member)
  | invokeDynamic bootstrap member =>
      simp only [bytes, List.append_assoc]
      exact (Reads.u1 18).bind (reads_readPair invokeDynamic bootstrap member)
  | module name => exact (Reads.u1 19).bind ((Reads.u2 name).bind_pure module)
  | package name => exact (Reads.u1 20).bind ((Reads.u2 name).bind_pure package)
  | unusable => exact False.elim h

end PoolEntry

namespace Pool

-- What stands under each number, from zero on.
def layout (entries : List PoolEntry) : List PoolEntry :=
  .unusable :: entries.flatMap PoolEntry.numbered

theorem layout_append (entries more : List PoolEntry) :
    layout (entries ++ more) = layout entries ++ more.flatMap PoolEntry.numbered := by
  simp [layout]

theorem length_le_numbered (entries : List PoolEntry) :
    entries.length ≤ (entries.flatMap PoolEntry.numbered).length := by
  induction entries with
  | nil => simp
  | cons entry entries ih =>
      have hslots := entry.length_numbered
      have hpos := entry.slots_pos
      simp only [List.length_cons, List.flatMap_cons, List.length_append]
      omega

theorem push_eq_append_numbered (found : Array PoolEntry) (entry : PoolEntry) :
    (if entry.isWide then (found.push entry).push .unusable else found.push entry) =
      found ++ entry.numbered.toArray := by
  apply Array.toList_inj.mp
  rw [PoolEntry.numbered]
  split <;> simp

-- Every entry takes a number at least, so the entries still to come need no more fuel than numbers.
theorem reads_readEntries (entries : List PoolEntry) (count fuel : Nat) (found : Array PoolEntry)
    (hwritable : ∀ entry ∈ entries, entry.Writable)
    (hcount : found.size + (entries.flatMap PoolEntry.numbered).length = count)
    (hfuel : entries.length ≤ fuel) :
    Reads (readEntries count fuel found)
      (found ++ (entries.flatMap PoolEntry.numbered).toArray)
      (entries.flatMap PoolEntry.bytes) := by
  induction entries generalizing fuel found with
  | nil =>
      have hfull : ¬found.size < count := by
        simp only [List.flatMap_nil, List.length_nil] at hcount
        omega
      have hread : readEntries count fuel found = pure found := by
        cases fuel with
        | zero => rfl
        | succ fuel => rw [readEntries, if_neg hfull]
      rw [hread]
      simpa using Reads.pure found
  | cons entry entries ih =>
      cases fuel with
      | zero => simp at hfuel
      | succ fuel =>
          have hslots := entry.length_numbered
          have hpos := entry.slots_pos
          simp only [List.flatMap_cons, List.length_append] at hcount
          have hroom : found.size < count := by omega
          have hsize : (found ++ entry.numbered.toArray).size =
              found.size + entry.numbered.length := by simp
          have hrest := ih fuel (found ++ entry.numbered.toArray)
            (fun other hother => hwritable other (List.mem_cons_of_mem _ hother)) (by omega)
            (Nat.le_of_succ_le_succ hfuel)
          have hentry := entry.reads_bytes (hwritable entry List.mem_cons_self)
          rw [readEntries, if_pos hroom, List.flatMap_cons, List.flatMap_cons,
            ← List.append_toArray, ← Array.append_assoc]
          rw [← push_eq_append_numbered] at hrest ⊢
          exact hentry.bind hrest

theorem reads_read (entries : List PoolEntry)
    (hwritable : ∀ entry ∈ entries, entry.Writable)
    (hlength : (layout entries).length ≤ 0xFFFF) :
    Reads read ⟨(layout entries).toArray⟩
      (Bytes.u2 (UInt16.ofNat (layout entries).length) ++ entries.flatMap PoolEntry.bytes) := by
  have hcount : (UInt16.ofNat (layout entries).length).toNat = (layout entries).length := by
    simp only [UInt16.toNat_ofNat']
    omega
  have hfuel : entries.length ≤ (layout entries).length := by
    have hle := length_le_numbered entries
    simp only [layout, List.length_cons]
    omega
  have hentries := reads_readEntries entries (layout entries).length (layout entries).length
    #[.unusable] hwritable (by simp [layout, Nat.add_comm]) hfuel
  unfold read
  refine (Reads.u2 _).bind ?_
  rw [hcount]
  have hpool := hentries.bind_pure Pool.mk
  simpa [layout] using hpool

end Pool

end ApiUnion
