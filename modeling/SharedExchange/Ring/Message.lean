import SharedExchange.Pool.Basic

/-! # Messages

A message is a label and a body: up to 240 bytes in its slot of the ring, or a reference to a block
of a companion pool. `toBytes` is what sending writes into a slot; it writes only as much as the
body needs, and what an earlier message left behind it stays there. `load` reads a slot. -/

namespace SharedExchange

/-- What a message says about itself. -/
structure Label where
  /-- A small category. -/
  domain : UInt8
  /-- The type of the message. -/
  code : UInt32
  /-- What ties an answer to its request. -/
  request : UInt64
deriving DecidableEq, Inhabited

/-- What a message carries. -/
inductive Body where
  | inline (bytes : List UInt8)
  | pooled (block : BlockRef)
deriving DecidableEq, Inhabited

/-- A message. -/
structure Message where
  label : Label
  body : Body
deriving DecidableEq, Inhabited

/-- The longest body that fits into a slot. -/
def inlineLimit : Nat := 240

namespace Body

/-- The mark of the kind of a body. -/
def mark : Body → UInt8
  | inline _ => 0
  | pooled _ => 1

/-- The bytes of a body in a slot. -/
def toBytes : Body → List UInt8
  | inline bytes => bytes
  | pooled b => LittleEndian.toBytes 8 b.offset.toNat ++ LittleEndian.toBytes 8 b.size.toNat

end Body

namespace Message

/-- What sending writes into a slot: category, mark, length of the body, type, request, body. -/
def toBytes (msg : Message) : List UInt8 :=
  [msg.label.domain, msg.body.mark] ++ (LittleEndian.toBytes 2 msg.body.toBytes.length ++
    (LittleEndian.toBytes 4 msg.label.code.toNat ++
      (LittleEndian.toBytes 8 msg.label.request.toNat ++ msg.body.toBytes)))

/-- The message in a slot. A length beyond the slot is cut to the slot. -/
def load (slot : Nat) (m : Memory) : Message :=
  { label :=
      { domain := m.get slot
        code := m.load32 (slot + 4)
        request := m.load64 (slot + 8) }
    body :=
      if m.get (slot + 1) = 1 then .pooled ⟨m.load64 (slot + 16), m.load64 (slot + 24)⟩
      else .inline (m.slice (slot + 16) (min (m.load 2 (slot + 2)) inlineLimit)) }

end Message
end SharedExchange
