import Std.Data.TreeMap
import SharedExchange.Number.Binary
import SharedExchange.Text.Utf8
import SharedExchange.Value.Kind

/-! # Values

An immutable tree of scalars, texts, sequences and keyed containers. Texts and containers are
*nodes*: each carries a number that tells it from every other node ever made, so that two places of
a value (or of two values) can be seen to share one node. Whoever makes a node chooses a number not
used before; an operation that makes several nodes takes the first of a run of unused numbers.

The entries of a keyed container are kept in ascending order of their keys' bytes, each key once.

* `child?` and `follow` go down by key or position, `lookup?` and `item?` by one of them alone.
* `levels` is how far the deepest node lies below the root. -/

namespace SharedExchange

/-- Nodes are told apart by a number. -/
abbrev NodeId := Nat

/-- An immutable value. -/
inductive Value where
  | null
  | bool (b : Bool)
  | integer (kind : IntegerKind) (bits : BitVec kind.width)
  | float32 (bits : UInt32)
  | float64 (bits : UInt64)
  /-- Components as bit patterns. -/
  | floats (shape : Shape) (components : Vector UInt32 shape.size)
  | text (node : NodeId) (s : String)
  | seq (kind : SeqKind) (node : NodeId) (items : List Value)
  | dict (kind : DictKind) (node : NodeId) (entries : List (String × Value))

namespace Value

instance : Inhabited Value := ⟨null⟩

/-- The kind of a value. -/
def kind : Value → Kind
  | null => .null
  | bool _ => .bool
  | integer kind _ => .integer kind
  | float32 _ => .float32
  | float64 _ => .float64
  | floats shape _ => .floats shape
  | text _ _ => .text
  | seq kind _ _ => .seq kind
  | dict kind _ _ => .dict kind

/-- The node of a text or container. -/
def node? : Value → Option NodeId
  | text node _ | seq _ node _ | dict _ node _ => some node
  | _ => none

/-! ## Reading a value -/

def isNull : Value → Bool
  | null => true
  | _ => false

def toBool? : Value → Option Bool
  | bool b => some b
  | _ => none

/-- The number in an integer value, if it fits into 64 bits with sign. -/
def toInt? : Value → Option Int
  | integer kind bits =>
    let n := kind.toInt bits
    if n < 0x8000000000000000 then some n else none
  | _ => none

/-- Any number as the bit pattern of the nearest double. -/
def toDouble? : Value → Option Nat
  | integer kind bits => some (Binary.double.ofInt (kind.toInt bits))
  | float32 bits => some (Binary.widen bits.toNat)
  | float64 bits => some bits.toNat
  | _ => none

def toText? : Value → Option String
  | text _ s => some s
  | _ => none

/-- The components of a float shape, as bit patterns. -/
def components? : Value → Option (List UInt32)
  | floats _ components => some components.toList
  | _ => none

/-- The items of a sequence. -/
def items? : Value → Option (List Value)
  | seq _ _ items => some items
  | _ => none

/-- The entries of a keyed container. -/
def entries? : Value → Option (List (String × Value))
  | dict _ _ entries => some entries
  | _ => none

/-- How many children a value has; a scalar has none. -/
def size : Value → Nat
  | seq _ _ items => items.length
  | dict _ _ entries => entries.length
  | _ => 0

/-- The child under a key of a keyed container. -/
def lookup? (v : Value) (key : String) : Option Value :=
  v.entries?.bind (List.lookup key)

/-- The child at a position of a sequence. -/
def item? (v : Value) (i : Nat) : Option Value :=
  v.items?.bind fun items => items[i]?

/-- A position written in decimal, with at most a plus sign in front, that fits into 64 bits. -/
def position? (segment : String) : Option Nat :=
  let digits := match segment.toList with
    | '+' :: rest => rest
    | characters => characters
  if digits.isEmpty || !digits.all Char.isDigit then none else
  let n := digits.foldl (fun n c => 10 * n + (c.toNat - '0'.toNat)) 0
  if n < UInt64.size then some n else none

/-- One step down: by key in a keyed container, by written position in a sequence. -/
def child? (v : Value) (segment : String) : Option Value :=
  match v with
  | dict _ _ _ => v.lookup? segment
  | seq _ _ _ => (position? segment).bind v.item?
  | _ => none

/-- The value at the end of a path. -/
def follow (v : Value) : List String → Option Value
  | [] => some v
  | segment :: path => (v.child? segment).bind fun child => child.follow path

/-! ## Depth -/

mutual

/-- How far the deepest node lies below the root. -/
def levels : Value → Nat
  | seq _ _ items => itemLevels items
  | dict _ _ entries => entryLevels entries
  | _ => 0

/-- How far the deepest node lies below the parent of the items. -/
def itemLevels : List Value → Nat
  | [] => 0
  | v :: items => max (v.levels + 1) (itemLevels items)

/-- How far the deepest node lies below the parent of the entries. -/
def entryLevels : List (String × Value) → Nat
  | [] => 0
  | (_, v) :: entries => max (v.levels + 1) (entryLevels entries)

end

end Value
end SharedExchange
