import SharedExchange.Signature

/-! # The latest record

A cell that holds the latest of a series of records. The object has two slots: the *active* one is
complete and is what readers see, and a writer works in the other and then makes it the active one.
Each slot has a sequence count that is odd while the slot is being written, and the cell counts the
records published (its *generation*).

* `beginWrite` starts a write with a copy of the current record, `editSlot` changes it in place, and
  `publish` makes it the current record. `write` is the three together.
* `read?` is the current record. A reader that finds the active slot under construction goes on
  looking; `none` says that nothing it can see will end that. -/

namespace SharedExchange

/-- The size and alignment of a type of records. -/
structure RecordType where
  size : Nat
  alignment : Nat
deriving DecidableEq, Inhabited

/-- One party's handle on a cell. -/
structure LatestRecord where
  attachment : Attachment
  type : RecordType
  /-- Where the first slot starts in the object. -/
  slotsStart : UInt64
  /-- The generation when the handle last read, or was made. -/
  lastSeen : UInt64

namespace LatestRecord

/-- Cells are told by this magic number and have a header of 640 bytes. -/
def signature : Signature := ⟨0x44425546, 640⟩

/-! Where each word of the header stands. -/

def recordSizeAt : Nat := 8
def alignmentAt : Nat := 16
def slotsStartAt : Nat := 24
def activeAt : Nat := 128
def generationAt : Nat := 256
def sequenceAt (slot : Nat) : Nat := 384 + 128 * slot

/-- Round up to a multiple. -/
def roundUp (n multiple : Nat) : Nat := (n + multiple - 1) / multiple * multiple

/-- Where a slot lies in the object. -/
def slotAt (c : LatestRecord) (slot : Nat) : Nat := c.slotsStart.toNat + c.type.size * slot

/-- Where the slots of a fresh cell start. -/
def freshSlotsStart (type : RecordType) : Nat :=
  roundUp signature.headerSize (max type.alignment 64)

/-- The contents of a fresh cell: both slots hold the first record. -/
def format (type : RecordType) (first : List UInt8) (m : Memory) : Memory :=
  let start := freshSlotsStart type
  let header := (((signature.write m).store64 recordSizeAt (UInt64.ofNat type.size)).store64
    alignmentAt (UInt64.ofNat type.alignment)).store64 slotsStartAt (UInt64.ofNat start)
  (header.store start first).store (start + type.size) first

/-- The bytes that a cell for records of a type takes. -/
def wholeSize (type : RecordType) : Nat := freshSlotsStart type + 2 * max type.size 1

/-- Make a cell with its first record. -/
def create (name : String) (type : RecordType) (first : List UInt8) (d : Directory) :
    Except Failure LatestRecord × Directory :=
  d.lay name (wholeSize type) (fun a => ⟨a, type, UInt64.ofNat (freshSlotsStart type), 0⟩)
    (format type first)

/-- The handle on a cell for records of a type, by the header of its object. -/
def ofHeader (type : RecordType) (a : Attachment) (m : Memory) : Except Failure LatestRecord := do
  signature.check m
  let size := m.load64 recordSizeAt
  if size.toNat ≠ type.size ∨ (m.load64 alignmentAt).toNat ≠ type.alignment then
    throw (.refused (.wrongLayout type.size size.toNat))
  let start := m.load64 slotsStartAt
  -- the end is worked out for the comparison, and for the fault of a start that is not aligned
  let needed ← checked (start.toNat + 2 * type.size)
  if start.toNat % type.alignment ≠ 0 ∨ m.size < needed then
    throw (.refused (.wrongLayout needed m.size))
  return ⟨a, type, start, m.load64 generationAt⟩

/-- Find a cell that somebody else made for the same type of records. -/
def attach (name : String) (type : RecordType) (d : Directory) :
    Except Failure LatestRecord × Directory :=
  d.examine name (ofHeader type)

/-- The slot that holds the current record. -/
def active (m : Memory) : Nat := (m.load32 activeAt).toNat

/-- How many records were published after the first. -/
def generation (m : Memory) : UInt64 := m.load64 generationAt

/-- Whether a record was published since the handle last read. -/
def hasUpdate (c : LatestRecord) (m : Memory) : Bool := generation m != c.lastSeen

/-! ## Writing -/

/-- A write under way, in the slot that is not active. -/
structure Draft where
  slot : Nat

/-- Start a write: mark the other slot as under construction and copy the current record into
it. -/
def beginWrite (c : LatestRecord) (m : Memory) : Draft × Memory :=
  let target := active m ^^^ 1
  let marked := m.modify64 (sequenceAt target) (· + 1)
  (⟨target⟩, marked.store (c.slotAt target) (marked.slice (c.slotAt (active m)) c.type.size))

/-- The record of a write under way. -/
def draftRecord (c : LatestRecord) (draft : Draft) (m : Memory) : List UInt8 :=
  m.slice (c.slotAt draft.slot) c.type.size

/-- Change some bytes of the record of a write under way. -/
def editSlot (c : LatestRecord) (draft : Draft) (offset : Nat) (bytes : List UInt8) (m : Memory) :
    Memory :=
  m.store (c.slotAt draft.slot + offset) bytes

/-- Make the record of a write under way the current one. -/
def publish (draft : Draft) (m : Memory) : Memory :=
  let complete := m.modify64 (sequenceAt draft.slot) (· + 1)
  (complete.store32 activeAt (UInt32.ofNat draft.slot)).modify64 generationAt (· + 1)

/-- Publish a record. -/
def write (c : LatestRecord) (record : List UInt8) (m : Memory) : Memory :=
  let (draft, m) := c.beginWrite m
  publish draft (c.editSlot draft 0 record m)

/-! ## Reading -/

/-- The current record, unless its slot is under construction. -/
def read? (c : LatestRecord) (m : Memory) : Option (List UInt8) × LatestRecord :=
  let slot := active m
  if m.load64 (sequenceAt slot) % 2 = 1 then (none, c)
  else (some (m.slice (c.slotAt slot) c.type.size), { c with lastSeen := generation m })

/-- What a function of the current record says of it. It looks at the record in its slot. -/
def readWith? {α : Type} (c : LatestRecord) (visit : List UInt8 → α) (m : Memory) :
    Option α × LatestRecord :=
  let (record, c) := c.read? m
  (record.map visit, c)

/-- The current record if it is new to the handle, else the record already at hand; and whether it
was new. -/
def readUpdate? (c : LatestRecord) (atHand : List UInt8) (m : Memory) :
    Option (Bool × List UInt8) × LatestRecord :=
  if c.hasUpdate m then
    let (record, c) := c.read? m
    (record.map fun record => (true, record), c)
  else (some (false, atHand), c)

end LatestRecord
end SharedExchange
