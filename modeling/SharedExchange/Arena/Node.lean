import SharedExchange.Arena.Layout
import SharedExchange.Bytes.Memory
import SharedExchange.Fault

/-! # Reading an arena in place

A `Node` is a place in an arena whose header has been checked: it is aligned, its kind is known, and
its payload lies inside the used part. References are followed only backwards, so following them
ends. The accessors answer nothing when the node is of another kind or what they find is damaged. -/

namespace SharedExchange

/-- The used part of the arena of a region. -/
structure Arena where
  memory : Memory
  /-- Where the arena starts in the object. -/
  start : Nat
  /-- How many bytes of the arena are in use. -/
  used : Nat

/-- A node of an arena. -/
structure Node where
  arena : Arena
  offset : Nat
  kind : Kind
  /-- The children of a container, the bytes of a text, the components of a float shape. -/
  length : Nat

namespace Arena

/-- The bytes at an offset. -/
def slice (a : Arena) (offset count : Nat) : List UInt8 := a.memory.slice (a.start + offset) count

/-- The 64-bit word at an offset, if it lies inside the used part. -/
def word? (a : Arena) (offset : Nat) : Option Nat :=
  if offset + 8 ≤ a.used then some (a.memory.load 8 (a.start + offset)) else none

/-- The room that the payload of a node takes, from its header alone. -/
def payloadRoom : Kind → (length : Nat) → Nat
  | .null, _ => 0
  | .text, length => padded length
  | .seq _, length => 8 * length
  | .dict _, length => 16 * length
  | .floats shape, _ => padded (4 * shape.size)
  | .bool, _ | .integer _, _ | .float32, _ | .float64, _ => 8

/-- The node at an offset. -/
def node (a : Arena) (offset : Nat) : Except Fault Node := do
  let corrupt (damage : Corruption) : Fault := .arenaCorrupt offset damage
  if offset % 8 ≠ 0 then throw (corrupt .misalignedNode)
  if a.used < offset + headerSize then throw (corrupt .headerOutside)
  match Kind.ofByte? (a.memory.get (a.start + offset)) with
  | none => throw (corrupt .unknownTag)
  | some kind =>
    let length := a.memory.load 4 (a.start + offset + 4)
    if kind.componentCount?.any (· != length) then throw (corrupt .componentCount)
    if a.used < offset + headerSize + payloadRoom kind length then
      throw (corrupt .payloadOutside)
    return ⟨a, offset, kind, length⟩

end Arena

namespace Node

/-- Where the payload starts. -/
def payload (n : Node) : Nat := n.offset + Arena.headerSize

/-- The first word of the payload. -/
def word (n : Node) : Nat := (n.arena.word? n.payload).getD 0

/-- The node that a reference means: one in front of this node. -/
def child (n : Node) (reference : Nat) : Except Fault Node :=
  if n.offset ≤ reference then .error (.arenaCorrupt reference .forwardReference)
  else n.arena.node reference

/-! ## Scalars and texts -/

def isNull (n : Node) : Bool := n.kind == .null

def toBool? (n : Node) : Option Bool :=
  if n.kind = .bool then some (n.word != 0) else none

/-- A 64-bit word read with sign. -/
def signedWord (word : Nat) : Int := (BitVec.ofNat 64 word).toInt

/-- The number in an integer node, if it fits into 64 bits with sign. -/
def toInt? (n : Node) : Option Int :=
  match n.kind with
  | .integer .uint64 => if n.word < 0x8000000000000000 then some n.word else none
  | .integer _ => some (signedWord n.word)
  | _ => none

/-- Any number as the bit pattern of the nearest double. -/
def toDouble? (n : Node) : Option Nat :=
  match n.kind with
  | .float32 => some (Binary.widen (n.word % UInt32.size))
  | .float64 => some n.word
  | .integer .uint64 => some (Binary.double.ofNat n.word)
  | _ => n.toInt?.map Binary.double.ofInt

def toText? (n : Node) : Option String :=
  if n.kind = .text then Utf8.decode? (n.arena.slice n.payload n.length) else none

/-- The bit pattern of a float component. -/
def component (n : Node) (i : Nat) : UInt32 :=
  n.arena.memory.load32 (n.arena.start + n.payload + 4 * i)

/-- The components of a float shape, if they lie where floats may be read in place. -/
def components? (n : Node) : Option (List UInt32) :=
  match n.kind with
  | .floats shape =>
    if (n.arena.start + n.payload) % 4 = 0 then
      some ((List.range shape.size).map n.component)
    else none
  | _ => none

/-! ## Children -/

/-- How many children the node has as a sequence. -/
def itemCount (n : Node) : Nat :=
  match n.kind with
  | .seq _ => n.length
  | _ => 0

/-- How many children the node has as a keyed container. -/
def entryCount (n : Node) : Nat :=
  match n.kind with
  | .dict _ => n.length
  | _ => 0

/-- An item of a sequence. -/
def item? (n : Node) (i : Nat) : Option Node :=
  if i < n.itemCount then
    (n.arena.word? (n.payload + 8 * i)).bind fun reference => (n.child reference).toOption
  else none

/-- The references to key and value of an entry. -/
def entryReferences? (n : Node) (i : Nat) : Option (Nat × Nat) := do
  let key ← n.arena.word? (n.payload + 16 * i)
  let value ← n.arena.word? (n.payload + 16 * i + 8)
  return (key, value)

/-- Key and value of an entry. -/
def entry? (n : Node) (i : Nat) : Option (String × Node) := do
  let (keyReference, valueReference) ← n.entryReferences? i
  let key ← (n.child keyReference).toOption
  let value ← (n.child valueReference).toOption
  return (← key.toText?, value)

/-- Look for a key between two positions, halving their distance each time. -/
def search (n : Node) (key : String) : (steps low high : Nat) → Option Node
  | 0, _, _ => none
  | steps + 1, low, high =>
    if low < high then
      let middle := low + (high - low) / 2
      match n.entry? middle with
      | none => none
      | some (found, value) =>
        match Utf8.order found key with
        | .eq => some value
        | .lt => n.search key steps (middle + 1) high
        | .gt => n.search key steps low middle
    else none

/-- The value under a key of a keyed container. The keys are taken to be ascending. -/
def lookup? (n : Node) (key : String) : Option Node :=
  n.search key (n.entryCount + 1) 0 n.entryCount

/-- The items of a sequence that can be read. -/
def items (n : Node) : List Node := (List.range n.itemCount).filterMap n.item?

/-- The entries of a keyed container that can be read. -/
def entries (n : Node) : List (String × Node) := (List.range n.entryCount).filterMap n.entry?

/-- A one-line description of a node. -/
def describe (n : Node) : String :=
  s!"SharedNode \x7b offset: {n.offset}, tag: {n.kind.label}, len: {n.length} \x7d"

end Node
end SharedExchange
