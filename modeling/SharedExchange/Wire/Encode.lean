import SharedExchange.Bytes.LittleEndian
import SharedExchange.Fault
import SharedExchange.Value.Basic

/-! # The wire form: writing

A value is one byte for its kind and then its payload: numbers little-endian, a text behind its
length, a sequence behind its count, and a keyed container behind its count with each key in front
of its value, keys ascending. Lengths and counts take four bytes, and only their low 32 bits are
written.

* `wire` is the form itself and `wireLength` its length.
* `measure` also counts levels and refuses a value that nests deeper than a reader will follow;
  `encode` and `encodeInto` measure first, so that a refused value leaves nothing half written. -/

namespace SharedExchange.Value

/-- How many levels below the root the wire form may have. -/
def nestingLimit : Nat := 128

/-- The wire form of a text: its length in bytes and the bytes. -/
def wireText (s : String) : List UInt8 :=
  LittleEndian.toBytes 4 (Utf8.size s) ++ Utf8.encode s

mutual

/-- The wire form of a value. -/
def wire : Value → List UInt8
  | null => [Kind.null.byte]
  | bool b => [Kind.bool.byte, if b then 1 else 0]
  | integer kind bits => (Kind.integer kind).byte :: LittleEndian.toBytes kind.bytes bits.toNat
  | float32 bits => Kind.float32.byte :: LittleEndian.toBytes 4 bits.toNat
  | float64 bits => Kind.float64.byte :: LittleEndian.toBytes 8 bits.toNat
  | floats shape components =>
    (Kind.floats shape).byte ::
      components.toList.flatMap fun component => LittleEndian.toBytes 4 component.toNat
  | text _ s => Kind.text.byte :: wireText s
  | seq kind _ items =>
    (Kind.seq kind).byte :: (LittleEndian.toBytes 4 items.length ++ wireItems items)
  | dict kind _ entries =>
    (Kind.dict kind).byte :: (LittleEndian.toBytes 4 entries.length ++ wireEntries entries)

/-- The wire forms of items, one after the other. -/
def wireItems : List Value → List UInt8
  | [] => []
  | v :: items => v.wire ++ wireItems items

/-- The wire forms of entries, each key in front of its value. -/
def wireEntries : List (String × Value) → List UInt8
  | [] => []
  | (key, v) :: entries => wireText key ++ (v.wire ++ wireEntries entries)

end

/-- The length of the wire form of a value without children. -/
def scalarLength : Value → Nat
  | null => 1
  | bool _ => 2
  | integer kind _ => 1 + kind.bytes
  | float32 _ => 5
  | float64 _ => 9
  | floats shape _ => 1 + 4 * shape.size
  | text _ s => 5 + Utf8.size s
  | seq _ _ _ | dict _ _ _ => 5

mutual

/-- The length of the wire form. -/
def wireLength : Value → Nat
  | seq _ _ items => 5 + itemLengths items
  | dict _ _ entries => 5 + entryLengths entries
  | v => v.scalarLength

/-- The length of the wire forms of items together. -/
def itemLengths : List Value → Nat
  | [] => 0
  | v :: items => v.wireLength + itemLengths items

/-- The length of the wire forms of entries together. -/
def entryLengths : List (String × Value) → Nat
  | [] => 0
  | (key, v) :: entries => 4 + Utf8.size key + v.wireLength + entryLengths entries

end

mutual

/-- The length of the wire form of a value that lies `depth` levels below the root, unless a part
of it lies too deep. -/
def measure (depth : Nat) (v : Value) : Except Fault Nat :=
  if nestingLimit < depth then .error (.nestingTooDeep nestingLimit) else
  match v with
  | seq _ _ items => return 5 + (← measureItems (depth + 1) items)
  | dict _ _ entries => return 5 + (← measureEntries (depth + 1) entries)
  | v => .ok v.scalarLength

/-- The measure of items together. -/
def measureItems (depth : Nat) : List Value → Except Fault Nat
  | [] => .ok 0
  | v :: items => return (← v.measure depth) + (← measureItems depth items)

/-- The measure of entries together. -/
def measureEntries (depth : Nat) : List (String × Value) → Except Fault Nat
  | [] => .ok 0
  | (key, v) :: entries =>
    return 4 + Utf8.size key + (← v.measure depth) + (← measureEntries depth entries)

end

/-- The wire form, unless the value nests too deep. -/
def encode (v : Value) : Except Fault (List UInt8) := do
  let _ ← v.measure 0
  return v.wire

/-- The wire form over the front of a buffer of fixed length, with the number of bytes written. On
any fault the buffer stays as it was. -/
def encodeInto (v : Value) (buffer : List UInt8) : Except Fault Nat × List UInt8 :=
  match v.measure 0 with
  | .error fault => (.error fault, buffer)
  | .ok needed =>
    if buffer.length < needed then (.error (.bufferOverflow buffer.length needed), buffer)
    else
      let bytes := v.wire
      (.ok bytes.length, bytes ++ buffer.drop bytes.length)

end SharedExchange.Value
