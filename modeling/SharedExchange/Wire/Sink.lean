import SharedExchange.Wire.Encode

/-! # The wire form: piece by piece

The wire form is put down in pieces: the byte of the kind, then a number, a length, a count or the
bytes of a text at a time (`Value.write`). Where the pieces go is a matter of the sink: behind what
a list holds already (`growing`), or over the bytes of a buffer of fixed length, from a position on
(`Cursor.put?`). A piece that does not fit there is the end of the program, which `none` stands
for; nothing but the measure that was taken before keeps that from happening. -/

namespace SharedExchange

variable {σ : Type}

/-- Putting a piece behind what is there. -/
def growing (piece out : List UInt8) : Option (List UInt8) := some (out ++ piece)

/-- A buffer of fixed length, and how much of it has been written over. -/
@[ext] structure Cursor where
  buffer : List UInt8
  position : Nat
  inside : position ≤ buffer.length

/-- The front of a buffer of which nothing has been written over. -/
def Cursor.start (buffer : List UInt8) : Cursor := ⟨buffer, 0, Nat.zero_le _⟩

/-- A fresh cursor has the buffer as it is. -/
@[simp] theorem Cursor.start_buffer (buffer : List UInt8) : (start buffer).buffer = buffer := rfl

/-- A fresh cursor stands at the front. -/
@[simp] theorem Cursor.start_position (buffer : List UInt8) : (start buffer).position = 0 := rfl

/-- Put a piece over the bytes at the position, which moves behind it. -/
def Cursor.put? (piece : List UInt8) (c : Cursor) : Option Cursor :=
  if h : c.position + piece.length ≤ c.buffer.length then
    some
      { buffer := c.buffer.take c.position ++ piece ++ c.buffer.drop (c.position + piece.length)
        position := c.position + piece.length
        inside := by
          simp only [List.length_append, List.length_take, List.length_drop]
          omega }
  else none

namespace Value

/-- Put a text down: its length and its bytes. -/
def writeText (put : List UInt8 → σ → Option σ) (s : String) (out : σ) : Option σ := do
  let out ← put (LittleEndian.toBytes 4 (Utf8.size s)) out
  put (Utf8.encode s) out

mutual

/-- Put the wire form of a value down. -/
def write (put : List UInt8 → σ → Option σ) (v : Value) (out : σ) : Option σ := do
  let out ← put [v.kind.byte] out
  match v with
  | null => return out
  | bool b => put [if b then 1 else 0] out
  | integer kind bits => put (LittleEndian.toBytes kind.bytes bits.toNat) out
  | float32 bits => put (LittleEndian.toBytes 4 bits.toNat) out
  | float64 bits => put (LittleEndian.toBytes 8 bits.toNat) out
  | floats _ components =>
    components.toList.foldlM (fun out word => put (LittleEndian.toBytes 4 word.toNat) out) out
  | text _ s => writeText put s out
  | seq _ _ items => do
    let out ← put (LittleEndian.toBytes 4 items.length) out
    writeItems put items out
  | dict _ _ entries => do
    let out ← put (LittleEndian.toBytes 4 entries.length) out
    writeEntries put entries out

/-- Put the wire forms of items down, one after the other. -/
def writeItems (put : List UInt8 → σ → Option σ) : List Value → σ → Option σ
  | [], out => some out
  | v :: items, out => do
    let out ← v.write put out
    writeItems put items out

/-- Put the wire forms of entries down, each key in front of its value. -/
def writeEntries (put : List UInt8 → σ → Option σ) : List (String × Value) → σ → Option σ
  | [], out => some out
  | (key, v) :: entries, out => do
    let out ← writeText put key out
    let out ← v.write put out
    writeEntries put entries out

end

end Value
end SharedExchange
