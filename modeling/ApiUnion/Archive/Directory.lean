import ApiUnion.Archive.Extra
import ApiUnion.Table

-- Directories of archives. The end record tells where the directory begins and how many rows it
-- has, or leads to a wide record that does. Each row leads to the header of an entry. Bytes may
-- stand in front of an archive; then all offsets are shifted by their number.

namespace ApiUnion.Archive

def endSignature : Nat := 0x06054b50

def wideEndSignature : Nat := 0x06064b50

def locatorSignature : Nat := 0x07064b50

def rowSignature : Nat := 0x02014b50

-- Where a directory begins, and how many rows it has.
structure Directory where
  offset : Nat
  shift : Nat
  count : Nat
  isOneVolume : Bool
deriving DecidableEq, Repr

-- What an end record says. The second count is of rows on all volumes.
structure EndRecord where
  place : Nat
  volume : Nat
  directoryVolume : Nat
  count : Nat
  totalCount : Nat
  offset : Nat
deriving DecidableEq, Repr

-- An end record and the comment behind it.
def endRecordAt? (bytes : List UInt8) (place : Nat) : Option EndRecord := do
  let number (at_ width : Nat) : Option Nat := field? bytes (place + at_) width
  let _ ← slice? bytes (place + 22) (← number 20 2)
  pure ⟨place, ← number 4 2, ← number 6 2, ← number 8 2, ← number 10 2, ← number 16 4⟩

-- The directory begins with the first row behind the offset. Without rows, it ends with the record.
def EndRecord.directory? (bytes : List UInt8) (ending : EndRecord) : Option Directory := do
  let isOneVolume := decide (ending.volume = ending.directoryVolume)
  if ending.totalCount = 0 then
    pure ⟨max ending.offset ending.place, ending.place - ending.offset, ending.count, isOneVolume⟩
  else
    let rows := (offsetsOf rowSignature bytes).reverse
    let first ← rows.find? fun row => ending.offset ≤ row && row < ending.place
    pure ⟨first, first - ending.offset, ending.count, isOneVolume⟩

-- Where a wide record should be, and the volume of the directory. It stands right before the end
-- record, and counts if that has no room for the number of rows or for the offset.
structure Locator where
  place : Nat
  volume : Nat
  offset : Nat
  volumes : Nat
deriving DecidableEq, Repr

def EndRecord.locator? (bytes : List UInt8) (ending : EndRecord) : Option Locator := do
  let place := ending.place - 20
  if ending.place < 20 || (← field? bytes place 4) ≠ locatorSignature then none
  else if ending.totalCount ≠ 0xffff && ending.offset ≠ 0xffffffff then none
  else
    pure ⟨place, ← field? bytes (place + 4) 4, ← field? bytes (place + 8) 8,
      ← field? bytes (place + 16) 4⟩

-- A wide record ends where the locator begins, and there is room for its directory before it.
def Locator.directoryAt? (bytes : List UInt8) (locator : Locator) (place : Nat) :
    Option Directory := do
  let number (at_ width : Nat) : Option Nat := field? bytes (place + at_) width
  let length ← number 4 8
  let made ← number 12 2
  let needed ← number 14 2
  let volume ← number 16 4
  let directoryVolume ← number 20 4
  let count ← number 24 8
  let totalCount ← number 32 8
  let offset ← number 48 8
  let shift := place - locator.offset
  if 44 ≤ length && place + length + 12 = locator.place && directoryVolume = locator.volume &&
      46 * totalCount + offset ≤ place then
    pure ⟨offset + shift, shift, totalCount,
      volume = directoryVolume && count ≤ totalCount && needed ≤ made⟩
  else none

-- The first wide record between its offset and the locator that fits.
def Locator.directory? (bytes : List UInt8) (locator : Locator) : Option Directory :=
  let places := (offsetsOf wideEndSignature bytes).reverse.filter fun place =>
    locator.offset ≤ place && place < locator.place
  if locator.volumes ≤ 1 then places.findSome? (locator.directoryAt? bytes) else none

def directoryAt? (bytes : List UInt8) (place : Nat) : Option Directory := do
  let ending ← endRecordAt? bytes place
  match ending.locator? bytes with
  | some locator => locator.directory? bytes
  | none => ending.directory? bytes

-- A file that was archived under a system that marks links by the high bits of the mode.
def isLinkMode (system attributes : Nat) : Bool :=
  system = 3 && (attributes / 0x10000) &&& 0xa000 = 0xa000

-- A row of the directory, and the offset behind it. Its header stands before the directory.
def Directory.row? (bytes : List UInt8) (directory : Directory) (place : Nat) :
    Option (Entry × Nat) := do
  let number (at_ width : Nat) : Option Nat := field? bytes (place + at_) width
  let nameLength ← number 28 2
  let extraLength ← number 30 2
  let commentLength ← number 32 2
  let nameBytes ← slice? bytes (place + 46) nameLength
  let extra ← slice? bytes (place + 46 + nameLength) extraLength
  let comment ← slice? bytes (place + 46 + nameLength + extraLength) commentLength
  let flags ← number 8 2
  let isUnicode := flags &&& 0x800 ≠ 0
  let given : Entry := {
    name := nameOf isUnicode nameBytes
    nameBytes
    comment := nameOf isUnicode comment
    isEncrypted := flags &&& 1 ≠ 0
    hasCipher := false
    method := .ofCode (← number 10 2)
    checksum := UInt32.ofNat (← number 16 4)
    storedSize := ← number 20 4
    size := ← number 24 4
    header := ← number 42 4
    isLink := isLinkMode ((← number 4 2) / 0x100) (← number 38 4) }
  let entry ← given.extended? extra
  let entry := { entry with header := entry.header + directory.shift }
  if (← number 0 4) = rowSignature && (entry.method ≠ .ciphered || entry.hasCipher) &&
      entry.header < directory.offset then
    pure (entry, place + 46 + nameLength + extraLength + commentLength)
  else none

private def Directory.rowsFrom? (bytes : List UInt8) (directory : Directory) :
    Nat → Nat → List Entry → Option (List Entry)
  | 0, _, found => some found.reverse
  | count + 1, place, found => do
    let (entry, place) ← directory.row? bytes place
    rowsFrom? bytes directory count place (entry :: found)

-- An entry in the place of one with the same name hides it.
private def distinctEntries (entries : List Entry) : List Entry :=
  (Table.ofRows (entries.map fun entry => (entry.name, entry))).values

def Directory.entries? (bytes : List UInt8) (directory : Directory) : Option (List Entry) :=
  if directory.isOneVolume then
    (directory.rowsFrom? bytes directory.count directory.offset []).map distinctEntries
  else none

-- The entries of an archive in the order of its directory, if the bytes are an archive. The last
-- end record that leads to a directory counts.
def entries? (bytes : List UInt8) : Option (List Entry) :=
  (offsetsOf endSignature bytes).findSome? fun place =>
    directoryAt? bytes place >>= Directory.entries? bytes

end ApiUnion.Archive
