import Std.Data.TreeMap
import SharedExchange.Value.Basic

/-! # Nodes in an arena

An arena holds one value as a run of nodes. A node is eight bytes of header and a payload rounded up
to eight bytes, and refers to other nodes by their offsets from the start of the arena. A text or
container that a value holds in several places is one node of the arena, unless it is seen under
different kinds.

This module has the room a value needs: `payloadSize` is that of one node, and `requiredSize` that
of the whole value. -/

namespace SharedExchange.Arena

/-- The size of the header of a node. -/
def headerSize : Nat := 8

/-- Round up to a multiple of eight. -/
def padded (n : Nat) : Nat := (n + 7) / 8 * 8

/-- The room for the payload of a value: a word for a scalar, the bytes of a text, the components
of a float shape, a word per item, two words per entry. -/
def payloadSize : Value → Nat
  | .null => 0
  | .text _ s => padded (Utf8.size s)
  | .seq _ _ items => 8 * items.length
  | .dict _ _ entries => 16 * entries.length
  | .floats shape _ => padded (4 * shape.size)
  | .bool _ | .integer _ _ | .float32 _ | .float64 _ => 8

/-- The room for the key of an entry, which is a text node of its own. -/
def keySize (key : String) : Nat := headerSize + padded (Utf8.size key)

/-- A node seen under a kind, as a single number. -/
def shareKey (node : NodeId) (kind : Kind) : Nat := 32 * node + kind.byte.toNat

/-- The nodes met so far, each with its kind. -/
abbrev Met := Std.TreeMap Nat Unit

mutual

/-- The room a value takes behind the nodes met so far, and the nodes met then. -/
def measure (v : Value) (met : Met) : Nat × Met :=
  match v with
  | .text node s =>
    let key := shareKey node .text
    if met.contains key then (0, met)
    else (headerSize + padded (Utf8.size s), met.insert key ())
  | .seq kind node items =>
    let key := shareKey node (.seq kind)
    if met.contains key then (0, met)
    else
      let (inner, met) := measureItems items (met.insert key ())
      (headerSize + 8 * items.length + inner, met)
  | .dict kind node entries =>
    let key := shareKey node (.dict kind)
    if met.contains key then (0, met)
    else
      let (inner, met) := measureEntries entries (met.insert key ())
      (headerSize + 16 * entries.length + inner, met)
  | v => (headerSize + payloadSize v, met)

/-- The room items take behind the nodes met so far, and the nodes met then. -/
def measureItems : List Value → Met → Nat × Met
  | [], met => (0, met)
  | v :: items, met =>
    let (first, met) := measure v met
    let (rest, met) := measureItems items met
    (first + rest, met)

/-- The room entries take behind the nodes met so far, and the nodes met then. -/
def measureEntries : List (String × Value) → Met → Nat × Met
  | [], met => (0, met)
  | (key, v) :: entries, met =>
    let (first, met) := measure v met
    let (rest, met) := measureEntries entries met
    (keySize key + first + rest, met)

end

/-- The bytes of an arena that a value needs; what it holds in several places counts once. -/
def requiredSize (v : Value) : Nat := (measure v ∅).1

end SharedExchange.Arena
