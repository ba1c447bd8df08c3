import SharedExchange.Arena.Layout
import SharedExchange.Bytes.Memory
import SharedExchange.Fault

/-! # Writing an arena

A value is written node by node, each behind the last one and behind everything it refers to: the
items of a sequence in their order, the entries of a keyed container in theirs with each key in
front of its value, and then the container itself. A node met again under the same kind is not
written again; keys always are.

`Writer.put` answers the offset of the value's node. When the room runs out it stops, and the nodes
written until then stay where they are. -/

namespace SharedExchange.Arena

/-- Whether the room is checked for every node or was made sure of beforehand. -/
inductive BuildMode where
  | checked
  | fast
deriving DecidableEq, Inhabited

/-- The name of a build mode. -/
def BuildMode.label : BuildMode → String
  | checked => "Checked"
  | fast => "Fast"

/-- Where the nodes go. -/
structure Site where
  /-- Where the arena starts in the object. -/
  start : Nat
  /-- How many bytes the arena has. -/
  capacity : Nat
  mode : BuildMode

/-- An arena being written. -/
structure Writer where
  memory : Memory
  /-- How many bytes of the arena are taken. -/
  cursor : Nat
  /-- How many nodes were written. -/
  nodes : Nat
  /-- Where each node met so far was written. -/
  placed : Std.TreeMap Nat Nat

namespace Writer

/-- The bytes of a node: its kind, its length, its payload. -/
def nodeBytes (kind : Kind) (length : Nat) (payload : List UInt8) : List UInt8 :=
  [kind.byte, 0, 0, 0] ++ (LittleEndian.toBytes 4 length ++ payload)

/-- Write a node behind the last one. -/
def add (site : Site) (kind : Kind) (length : Nat) (payload : List UInt8) (w : Writer) :
    Except Fault Nat × Writer :=
  let size := headerSize + padded payload.length
  if site.mode = .checked ∧ site.capacity - w.cursor < size then
    (.error (.arenaExhausted size (site.capacity - w.cursor)), w)
  else
    (.ok w.cursor,
      { w with
        memory := w.memory.store (site.start + w.cursor) (nodeBytes kind length payload)
        cursor := w.cursor + size
        nodes := w.nodes + 1 })

/-- Remember where a node was written. -/
def remember (key : Nat) : Except Fault Nat × Writer → Except Fault Nat × Writer
  | (.ok offset, w) => (.ok offset, { w with placed := w.placed.insert key offset })
  | (.error fault, w) => (.error fault, w)

/-- Write a text, shared or not. -/
def addText (site : Site) (s : String) (w : Writer) : Except Fault Nat × Writer :=
  w.add site .text (Utf8.size s) (Utf8.encode s)

/-- The bytes of references to nodes. -/
def references (offsets : List Nat) : List UInt8 :=
  offsets.flatMap fun offset => LittleEndian.toBytes 8 offset

/-- The word that stands for a number or truth value: integers are widened with their sign. -/
def scalarWord : Value → UInt64
  | .bool b => if b then 1 else 0
  | .integer kind bits => kind.toWord bits
  | .float32 bits => bits.toUInt64
  | .float64 bits => bits
  | _ => 0

mutual

/-- Write a value, and answer the offset of its node. -/
def put (site : Site) (v : Value) (w : Writer) : Except Fault Nat × Writer :=
  match v with
  | .null => w.add site .null 0 []
  | .text node s =>
    let key := shareKey node .text
    match w.placed[key]? with
    | some offset => (.ok offset, w)
    | none => remember key (w.addText site s)
  | .seq kind node items =>
    let key := shareKey node (.seq kind)
    match w.placed[key]? with
    | some offset => (.ok offset, w)
    | none =>
      match putItems site items w with
      | (.error fault, w) => (.error fault, w)
      | (.ok offsets, w) =>
        remember key (w.add site (.seq kind) items.length (references offsets))
  | .dict kind node entries =>
    let key := shareKey node (.dict kind)
    match w.placed[key]? with
    | some offset => (.ok offset, w)
    | none =>
      match putEntries site entries w with
      | (.error fault, w) => (.error fault, w)
      | (.ok offsets, w) =>
        remember key (w.add site (.dict kind) entries.length (references offsets))
  | .floats shape components =>
    w.add site (.floats shape) shape.size
      (components.toList.flatMap fun component => LittleEndian.toBytes 4 component.toNat)
  | v => w.add site v.kind 0 (LittleEndian.toBytes 8 (scalarWord v).toNat)

/-- Write items, and answer the offsets of their nodes. -/
def putItems (site : Site) : List Value → Writer → Except Fault (List Nat) × Writer
  | [], w => (.ok [], w)
  | v :: items, w =>
    match put site v w with
    | (.error fault, w) => (.error fault, w)
    | (.ok offset, w) =>
      match putItems site items w with
      | (.error fault, w) => (.error fault, w)
      | (.ok offsets, w) => (.ok (offset :: offsets), w)

/-- Write entries, and answer the offsets of keys and values by turns. -/
def putEntries (site : Site) : List (String × Value) → Writer → Except Fault (List Nat) × Writer
  | [], w => (.ok [], w)
  | (key, v) :: entries, w =>
    match w.addText site key with
    | (.error fault, w) => (.error fault, w)
    | (.ok keyOffset, w) =>
      match put site v w with
      | (.error fault, w) => (.error fault, w)
      | (.ok offset, w) =>
        match putEntries site entries w with
        | (.error fault, w) => (.error fault, w)
        | (.ok offsets, w) => (.ok (keyOffset :: offset :: offsets), w)

end

end Writer
end SharedExchange.Arena
