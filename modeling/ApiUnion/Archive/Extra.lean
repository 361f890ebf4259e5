import ApiUnion.Archive.Entry

-- Extra fields of entries: sizes that need eight bytes, times, ciphers, and names and comments in
-- Unicode. Each has a number for its kind and one for its length. What a field says takes the place
-- of what the row of the directory says.

namespace ApiUnion.Archive

-- Why fields are not read on: bytes are missing, which is put up with, or a field makes no sense.
inductive ExtraStop
  | missing
  | malformed
deriving DecidableEq, Repr

-- A reader of fields goes on from the entry so far and the bytes that are left. What it has changed
-- before bytes are missing stays changed.
abbrev ExtraReader (α : Type) := EStateM ExtraStop (Entry × List UInt8) α

namespace ExtraReader

def take (count : Nat) : ExtraReader (List UInt8) := do
  let (entry, left) ← get
  if left.length < count then throw .missing
  else
    set (entry, left.drop count)
    pure (left.take count)

def number (width : Nat) : ExtraReader Nat :=
  Archive.number <$> take width

def demand (holds : Bool) : ExtraReader Unit :=
  if holds then pure () else throw .malformed

def entry : ExtraReader Entry :=
  Prod.fst <$> get

def change (f : Entry → Entry) : ExtraReader Unit :=
  modify fun (entry, left) => (f entry, left)

-- The number that stands in a row for one that needs more than four bytes.
def tooWide : Nat := 0xffffffff

-- A number of eight bytes, if it is wanted, and how many bytes it takes.
private def wide (isWanted : Bool) (place : Nat → Entry → Entry) : ExtraReader Nat := do
  if isWanted then
    let n ← number 8
    change (place n)
    pure 8
  else pure 0

-- Numbers stand here that are too wide for the row, or all three of them.
def sizes (length : Nat) : ExtraReader Unit := do
  let isWanted (n : Nat) : Bool := 24 ≤ length || n = tooWide
  let first ← wide (isWanted (← entry).size) fun size entry => { entry with size }
  let second ← wide (isWanted (← entry).storedSize) fun storedSize entry => { entry with storedSize }
  let third ← wide (isWanted (← entry).header) fun header entry => { entry with header }
  demand (first + second + third ≤ length)
  let _ ← take (length - (first + second + third))

-- Three times of eight bytes, as one part under a number of its own.
def fileTimes (length : Nat) : ExtraReader Unit := do
  demand (length = 32)
  let _ ← take 4
  demand ((← number 2) = 1)
  demand ((← number 2) = 24)
  let _ ← take 24

def bitCount (n : Nat) : Nat :=
  ((List.range 8).filter n.testBit).length

-- Times of four bytes, as many as there are flags, or the first alone.
def times (length : Nat) : ExtraReader Unit := do
  let flags ← number 1
  demand (length = 5 || length = 1 + 4 * bitCount flags)
  if flags.testBit 0 || length = 5 then
    let _ ← take 4
  if flags.testBit 1 && 5 < length then
    let _ ← take 4
  if flags.testBit 2 && 5 < length then
    let _ ← take 4

-- The maker, the version and the strength of a cipher, and the method below it.
def cipher (length : Nat) : ExtraReader Unit := do
  demand (length = 7)
  let version ← number 2
  let maker ← number 2
  let strength ← number 1
  let method ← number 2
  demand (maker = 0x4541 && [1, 2].contains version && [1, 2, 3].contains strength)
  change fun entry => { entry with hasCipher := true, method := .ofCode method }

-- A text in Unicode that takes the place of another, given by its check sum.
private def text (length : Nat) (replaced : Entry → List UInt8) :
    ExtraReader (List UInt8 × String) := do
  let _ ← take 1
  let sum ← number 4
  demand (5 ≤ length)
  let content ← take (length - 5)
  demand ((checksum (replaced (← entry))).toNat = sum)
  match String.fromUTF8? ⟨content.toArray⟩ with
  | some text => pure (content, text)
  | none => throw .malformed

def unicodeName (length : Nat) : ExtraReader Unit := do
  let (nameBytes, name) ← text length Entry.nameBytes
  change fun entry => { entry with name, nameBytes }

def unicodeComment (length : Nat) : ExtraReader Unit := do
  let (_, comment) ← text length fun entry => entry.comment.toUTF8.data.toList
  change fun entry => { entry with comment }

-- One field. Those of other kinds are skipped.
def field : ExtraReader Unit := do
  let kind ← number 2
  let length ← number 2
  match kind with
  | 0x0001 => sizes length
  | 0x000a => fileTimes length
  | 0x5455 => times length
  | 0x6375 => unicodeComment length
  | 0x7075 => unicodeName length
  | 0x9901 => cipher length
  | _ => let _ ← take length

-- Every field takes a byte, so the number of bytes bounds the steps.
private def fields : Nat → ExtraReader Unit
  | 0 => pure ()
  | fuel + 1 => do
    if (← get).2.isEmpty then pure ()
    else
      field
      fields fuel

end ExtraReader

-- An entry with what its extra fields say.
def Entry.extended? (entry : Entry) (extra : List UInt8) : Option Entry :=
  match (ExtraReader.fields extra.length).run (entry, extra) with
  | .ok _ (entry, _) => some entry
  | .error .missing (entry, _) => some entry
  | .error .malformed _ => none

end ApiUnion.Archive
