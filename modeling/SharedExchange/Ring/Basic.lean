import SharedExchange.Ring.Message
import SharedExchange.Text.Quoted
import SharedExchange.Waiting

/-! # Message rings

A ring is a fixed number of message slots in a shared object, used in turn. The object counts the
messages ever sent and the messages ever received; the difference is what is pending, and the slot
of a message is its number modulo the capacity.

A handle remembers the count of the other side as it last saw it. The receive count only ever makes
more room and the send count only ever more messages, so an old copy is safe to trust when it says
"go on"; only when it says "stop" is the count read again.

This module has the layout, the handle, and how a ring is made and found; `Ring.Exchange` sends and
receives. -/

namespace SharedExchange

/-- One party's handle on a ring. -/
structure Ring where
  attachment : Attachment
  /-- The number of slots. -/
  capacity : UInt64
  /-- The receive count when the handle last looked. -/
  knownReceived : UInt64
  /-- The send count when the handle last looked. -/
  knownSent : UInt64
  patience : Patience

namespace Ring

/-- Rings are told by this magic number and have a header of 384 bytes. -/
def signature : Signature := ⟨0x52494e47, 384⟩

/-- The size of a slot. -/
def slotSize : Nat := 256

/-- The number of slots of a ring that does not ask for another. -/
def standardCapacity : UInt64 := 256

/-! Where each word of the header stands. -/

def capacityAt : Nat := 8
def slotSizeAt : Nat := 16
def sentAt : Nat := 128
def receivedAt : Nat := 256

/-- The slot of the message with a number. -/
def slot (r : Ring) (number : UInt64) : Nat :=
  signature.headerSize + slotSize * (number % r.capacity).toNat

/-- The bytes that a ring with so many slots takes. -/
def wholeSize (capacity : UInt64) : Nat := signature.headerSize + slotSize * capacity.toNat

/-- The contents of a fresh ring. -/
def format (capacity : UInt64) (m : Memory) : Memory :=
  ((signature.write m).store64 capacityAt capacity).store64 slotSizeAt (UInt64.ofNat slotSize)

/-- Make a ring. -/
def create (name : String) (capacity : UInt64) (patience : Patience) (d : Directory) :
    Except Failure Ring × Directory :=
  if capacity.toNat.isPowerOfTwo then
    d.lay name (wholeSize capacity) (fun a => ⟨a, capacity, 0, 0, patience⟩) (format capacity)
  else (.error (.refused (.capacityNotPowerOfTwo capacity.toNat)), d)

/-- The handle on a ring, by the header of its object. -/
def ofHeader (patience : Patience) (a : Attachment) (m : Memory) : Except Failure Ring := do
  signature.check m
  if m.load64 slotSizeAt ≠ UInt64.ofNat slotSize then
    throw (.refused (.wrongLayout slotSize (m.load64 slotSizeAt).toNat))
  let capacity := m.load64 capacityAt
  let needed ← checked (wholeSize capacity)
  if ¬capacity.toNat.isPowerOfTwo ∨ m.size < needed then
    throw (.refused (.wrongLayout needed m.size))
  return ⟨a, capacity, m.load64 receivedAt, m.load64 sentAt, patience⟩

/-- Find a ring that somebody else made. -/
def attach (name : String) (patience : Patience) (d : Directory) :
    Except Failure Ring × Directory :=
  d.examine name (ofHeader patience)

/-- How many messages are pending. -/
def pending (m : Memory) : Nat := (m.load64 sentAt).toNat - (m.load64 receivedAt).toNat

/-- Whether no message is pending. -/
def isEmpty (m : Memory) : Bool := pending m == 0

/-- A one-line description of a ring. -/
def describe (r : Ring) (m : Memory) : String :=
  "Channel \x7b name: " ++ Text.quoted r.attachment.name ++
    s!", capacity: {r.capacity}, len: {pending m} \x7d"

end Ring
end SharedExchange
