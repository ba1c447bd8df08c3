import SharedExchange.Wire.Encode

/-! # The wire form: reading

Reading takes a value off the front of its input and refuses everything that writing cannot
produce: an unknown kind, a text that is not UTF-8, keys that are not strictly ascending, a value
that nests too deep, and input that ends early. A count is believed only if the rest of the input
could hold that many entries.

The nodes of the value read are new: a text or container that starts at offset `i` of the input
becomes the node `node + i`. -/

namespace SharedExchange

/-- What is left of the input, and how much was read before it. -/
structure Input where
  rest : List UInt8
  offset : Nat

/-- Whether there are at least `n` bytes; looks at no more than that many. -/
def Input.holds (input : Input) : Nat → Bool
  | 0 => true
  | n + 1 => !(input.rest.drop n).isEmpty

/-- Whether there are enough bytes is looked up without counting them all. -/
theorem Input.holds_iff (input : Input) (n : Nat) :
    input.holds n = true ↔ n ≤ input.rest.length := by
  cases n with
  | zero => simp [holds]
  | succ n =>
    rw [holds, Bool.not_eq_true', List.isEmpty_eq_false_iff, ne_eq, List.drop_eq_nil_iff]
    omega

namespace Input

/-- The next `n` bytes. -/
def take (input : Input) (n : Nat) : Except Fault (List UInt8 × Input) :=
  if input.holds n then .ok (input.rest.take n, ⟨input.rest.drop n, input.offset + n⟩)
  else .error (.inputTruncated input.offset n)

/-- The number in the next `width` bytes. -/
def number (input : Input) (width : Nat) : Except Fault (Nat × Input) := do
  let (bytes, input) ← input.take width
  return (LittleEndian.ofBytes bytes, input)

/-- A text behind its length. A fault about its bytes names the place where they start. -/
def text (input : Input) : Except Fault (String × Input) := do
  let (length, input) ← input.number 4
  let (bytes, rest) ← input.take length
  match Utf8.decode? bytes with
  | some s => return (s, rest)
  | none => throw (.textNotUtf8 input.offset)

/-- A count of entries that take at least `width` bytes each. A count that cannot be true is
reported at the place where it stands. -/
def count (input : Input) (width : Nat) : Except Fault (Nat × Input) := do
  let (n, rest) ← input.number 4
  if rest.holds (n * width) then return (n, rest)
  else throw (.inputTruncated input.offset (n * width))

/-- The next `n` four-byte words. -/
def words (input : Input) : (n : Nat) → Except Fault (Vector UInt32 n × Input)
  | 0 => .ok (#v[], input)
  | n + 1 => do
    let (front, input) ← input.words n
    let (word, input) ← input.number 4
    return (front.push (UInt32.ofNat word), input)

/-- The next `n` items, each read by `read`. -/
def items (read : Input → Except Fault (Value × Input)) :
    (n : Nat) → Input → Except Fault (List Value × Input)
  | 0, input => .ok ([], input)
  | n + 1, input => do
    let (v, input) ← read input
    let (rest, input) ← items read n input
    return (v :: rest, input)

/-- A key has to come after the key before it. -/
def checkKey (last : Option String) (key : String) : Except Fault Unit :=
  match last with
  | none => .ok ()
  | some last =>
    match Utf8.order last key with
    | .lt => .ok ()
    | .eq => .error (.keyRepeated key)
    | .gt => .error (.keysUnordered key)

/-- The next `n` entries, behind an entry with the key `last`. -/
def entries (read : Input → Except Fault (Value × Input)) :
    (n : Nat) → (last : Option String) → Input →
      Except Fault (List (String × Value) × Input)
  | 0, _, input => .ok ([], input)
  | n + 1, last, input => do
    let (key, input) ← input.text
    checkKey last key
    let (v, input) ← read input
    let (rest, input) ← entries read n (some key) input
    return ((key, v) :: rest, input)

/-- The next value, which may have one level less than `levels` below it. -/
def value (node : NodeId) : (levels : Nat) → Input → Except Fault (Value × Input)
  | 0, _ => .error (.nestingTooDeep Value.nestingLimit)
  | levels + 1, input => do
    let here := node + input.offset
    let (byte, input) ← input.number 1
    match Kind.ofByte? (UInt8.ofNat byte) with
    | none => throw (.tagUnknown byte)
    | some .null => return (.null, input)
    | some .bool =>
      let (n, input) ← input.number 1
      return (.bool (n != 0), input)
    | some (.integer kind) =>
      let (n, input) ← input.number kind.bytes
      return (.integer kind (BitVec.ofNat _ n), input)
    | some .float32 =>
      let (n, input) ← input.number 4
      return (.float32 (UInt32.ofNat n), input)
    | some .float64 =>
      let (n, input) ← input.number 8
      return (.float64 (UInt64.ofNat n), input)
    | some (.floats shape) =>
      let (components, input) ← input.words shape.size
      return (.floats shape components, input)
    | some .text =>
      let (s, input) ← input.text
      return (.text here s, input)
    | some (.seq kind) =>
      let (n, input) ← input.count 1
      let (children, input) ← items (value node levels) n input
      return (.seq kind here children, input)
    | some (.dict kind) =>
      let (n, input) ← input.count 5
      let (children, input) ← entries (value node levels) n none input
      return (.dict kind here children, input)

end Input

namespace Value

/-- The value at the front of some bytes, and how many bytes it takes. -/
def decodeFront (node : NodeId) (bytes : List UInt8) : Except Fault (Value × Nat) := do
  let (v, input) ← Input.value node (nestingLimit + 1) ⟨bytes, 0⟩
  return (v, input.offset)

/-- The value that takes all of some bytes. -/
def decode (node : NodeId) (bytes : List UInt8) : Except Fault Value := do
  let (v, used) ← decodeFront node bytes
  if used < bytes.length then throw (.bytesLeftOver (bytes.length - used))
  return v

end Value
end SharedExchange
