import SharedExchange.Pool.Basic

/-! # Blocks of a pool

* `allocate` takes the block freed last of the smallest class that fits, else cuts a new one above
  the bump cursor, else takes the block freed last of the next larger class that has one.
* `deallocate` puts a block on the stack of its class.
* `read`, `write` and `edit` reach the bytes of a block.

A block is named by a `BlockRef` that may come from anywhere, so each of these first finds the block
that the reference means (`locate?`): it starts at a multiple of the smallest block below the bump
cursor, has a power of two for its size, ends at or below the cursor, and holds what the reference
asks for. -/

namespace SharedExchange.Pool

/-! ## Stacks of freed blocks -/

/-- Take the top block off the stack of a class. -/
def pop? (p : Pool) (sizeClass : Nat) (m : Memory) : Option (UInt64 × Memory) :=
  let top := m.load64 (headAt sizeClass)
  if top = nil then none
  else some (top, m.store64 (headAt sizeClass) (m.load64 (p.linkAt top)))

/-- Put a block on top of the stack of a class. -/
def push (p : Pool) (sizeClass : Nat) (start : UInt64) (m : Memory) : Memory :=
  (m.store64 (p.linkAt start) (m.load64 (headAt sizeClass))).store64 (headAt sizeClass) start

/-! ## Allocation -/

/-- Cut a new block of a class above the bump cursor, and count it. -/
def cut? (p : Pool) (sizeClass : Nat) (m : Memory) : Option (UInt64 × Memory) :=
  let start := m.load64 bumpAt
  let beyond := start + classSize sizeClass
  if p.size < beyond then none
  else
    let counted := (m.store64 bumpAt beyond).modify64 bumpAllocationsAt (· + 1)
    let headed := counted.store64 (p.blockAt start) (classSize sizeClass)
    some (start, headed.store64 (p.linkAt start) nil)

/-- Take the top block off the first stack above a class that has one. -/
def popLarger? (p : Pool) (sizeClass : Nat) (m : Memory) : Option (UInt64 × Memory) :=
  (List.range' (sizeClass + 1) (classCount - (sizeClass + 1))).findSome? fun c => p.pop? c m

/-- Count a request served by a freed block. -/
def countHit : UInt64 × Memory → UInt64 × Memory
  | (start, m) => (start, m.modify64 cacheHitsAt (· + 1))

/-- Find a block for a request of a class: freed of that class, new, or freed of a larger class. -/
def place? (p : Pool) (sizeClass : Nat) (m : Memory) : Option (UInt64 × Memory) :=
  match p.pop? sizeClass m with
  | some found => some (countHit found)
  | none =>
    match p.cut? sizeClass m with
    | some found => some found
    | none => (p.popLarger? sizeClass m).map countHit

/-- The class of a request for `n` bytes, if the pool could ever serve it. -/
def requestClass? (p : Pool) (n : UInt64) : Option Nat :=
  let total := n.toNat + blockHeader
  if p.size.toNat < total then none
  else if sizeClass total < classCount then some (sizeClass total) else none

/-- Hand out a block of at least `n` bytes. -/
def allocate (p : Pool) (n : UInt64) (m : Memory) : Except Fault BlockRef × Memory :=
  match (p.requestClass? n).bind fun c => p.place? c m with
  | none => (.error (.poolExhausted n.toNat (p.untouched m).toNat), m)
  | some (start, m) =>
    let counted := m.modify64 allocationsAt (· + 1)
    (.ok ⟨start + UInt64.ofNat blockHeader, n⟩,
      counted.modify64 allocatedBytesAt (· + p.blockSize start counted))

/-! ## References to blocks -/

/-- The start of the block that a reference means. -/
def locate? (p : Pool) (b : BlockRef) (m : Memory) : Option UInt64 :=
  if b.offset.toNat < blockHeader then none else
  let start := b.offset - UInt64.ofNat blockHeader
  let bump := m.load64 bumpAt
  if start.toNat % minBlock != 0 || bump ≤ start then none else
  let size := p.blockSize start m
  if ¬size.toNat.isPowerOfTwo ∨ size.toNat < minBlock ∨ bump < start + size ∨
      size.toNat - blockHeader < b.size.toNat then none
  else some start

/-- The start of the block that a reference means, or the refusal of the reference. -/
def locate (p : Pool) (b : BlockRef) (m : Memory) : Except Fault UInt64 :=
  match p.locate? b m with
  | some start => .ok start
  | none => .error (.unknownBlock b.offset.toNat b.size.toNat)

/-- Put a block on the stack of its class. A size that is a power of two has a class, but there may
be no stack for it. -/
def deallocate (p : Pool) (b : BlockRef) (m : Memory) : Except Failure Unit × Memory :=
  match p.locate b m with
  | .error fault => (.error (.refused fault), m)
  | .ok start =>
    let size := p.blockSize start m
    if classCount ≤ sizeClass size.toNat then (.error (.crashed .outOfBounds), m)
    else
      let freed := (p.push (sizeClass size.toNat) start m).modify64 deallocationsAt (· + 1)
      (.ok (), freed.modify64 freedBytesAt (· + size))

/-- Where the bytes of a block lie in the object. -/
def bytesAt (p : Pool) (b : BlockRef) : Nat := p.blockAt b.offset

/-- The bytes of a block. -/
def read (p : Pool) (b : BlockRef) (m : Memory) : Except Fault (List UInt8) := do
  let _ ← p.locate b m
  return m.slice (p.bytesAt b) b.size.toNat

/-- Copy bytes into the front of a block. -/
def write (p : Pool) (b : BlockRef) (bytes : List UInt8) (m : Memory) :
    Except Fault Unit × Memory :=
  match p.locate b m with
  | .error fault => (.error fault, m)
  | .ok _ =>
    if b.size.toNat < bytes.length then
      (.error (.bufferOverflow b.size.toNat bytes.length), m)
    else (.ok (), m.store (p.bytesAt b) bytes)

/-- Let `f` change the bytes of a block in place; what `f` answers is the answer. Only as many
bytes as the block has are kept. -/
def edit {α : Type} (p : Pool) (b : BlockRef) (f : List UInt8 → Except Fault α × List UInt8)
    (m : Memory) : Except Fault α × Memory :=
  match p.read b m with
  | .error fault => (.error fault, m)
  | .ok bytes =>
    let (answer, bytes) := f bytes
    (answer, m.store (p.bytesAt b) (bytes.take b.size.toNat))

/-- Overwrite some bytes inside a block. The answer is all its bytes, or nothing when the new ones
do not fit, which changes nothing. -/
def patch (p : Pool) (b : BlockRef) (start : Nat) (bytes : List UInt8) (m : Memory) :
    Except Fault (Option (List UInt8)) × Memory :=
  p.edit b (fun old =>
    if old.length < start + bytes.length then (.ok none, old)
    else
      let new := old.take start ++ bytes ++ old.drop (start + bytes.length)
      (.ok (some new), new)) m

/-- Hand out a block that starts with the given bytes. -/
def allocateWith (p : Pool) (bytes : List UInt8) (m : Memory) : Except Fault BlockRef × Memory :=
  match p.allocate (UInt64.ofNat bytes.length) m with
  | (.error fault, m) => (.error fault, m)
  | (.ok b, m) =>
    match p.write b bytes m with
    | (.error fault, m) => (.error fault, m)
    | (.ok (), m) => (.ok b, m)

end SharedExchange.Pool
