import SharedExchange.Text.Hexadecimal

/-! # Faults

Everything an operation of the exchange can refuse, one constructor per cause, with the wording in
one place (`Fault.message`) and a coarse `Category` for callers that only want to know whether to
retry. Numbers in a fault are plain naturals: they are reported, not computed with.

A fault is an answer. An operation may also break off without one, when a number does not fit into a
word or a table has no such place (`Crash`): then its caller is told nothing, and nothing is done
any more but letting go of what it holds. A `Failure` is either. -/

namespace SharedExchange

/-- Why the operating system refused a request about a named object. -/
inductive OsCause where
  /-- A size no file can have. -/
  | invalidArgument
  /-- No room in the address space. -/
  | outOfMemory
  /-- The name leads to a folder. -/
  | isDirectory
  /-- Any other cause, in the system's own words. -/
  | other (text : String)
deriving DecidableEq, Inhabited

/-- The system's wording of a cause. -/
def OsCause.text : OsCause → String
  | .invalidArgument => "Invalid argument (os error 22)"
  | .outOfMemory => "Cannot allocate memory (os error 12)"
  | .isDirectory => "Is a directory (os error 21)"
  | .other text => text

/-- Which rule about sizes was broken. -/
inductive SizeRule where
  /-- An object has at least one byte. -/
  | emptyObject
  /-- An object is sized by its creator before anybody else maps it. -/
  | unsizedObject
  /-- A pool is cut into whole smallest blocks. -/
  | poolGranularity
  /-- An arena holds at least the header of one node. -/
  | arenaMinimum
  /-- Any other rule, in words. -/
  | other (text : String)
deriving DecidableEq, Inhabited

/-- The wording of a size rule. -/
def SizeRule.text : SizeRule → String
  | .emptyObject => "segment size must be non-zero"
  | .unsizedObject => "segment has not been initialized"
  | .poolGranularity => "pool size must be a non-zero multiple of 64"
  | .arenaMinimum => "arena must hold at least one node"
  | .other text => text

/-- What is wrong with an arena at the place where reading it stopped. -/
inductive Corruption where
  /-- The nodes written take other room than was measured for them. -/
  | sizeDisagrees
  /-- The header claims more bytes in use than the arena has. -/
  | usedExceedsArena
  /-- A node does not start on an eight-byte boundary. -/
  | misalignedNode
  /-- The eight bytes of a node header are not all inside the used part. -/
  | headerOutside
  /-- No kind of value has this tag byte. -/
  | unknownTag
  /-- A float shape comes with another number of components. -/
  | componentCount
  /-- The payload runs past the used part. -/
  | payloadOutside
  /-- A node refers to itself or to a later node. -/
  | forwardReference
  /-- The references nest deeper than there are nodes. -/
  | referenceCycle
  /-- The bytes of a text are not UTF-8. -/
  | textNotUtf8
  /-- A child reference lies outside the used part. -/
  | childOutside
  /-- A key or value reference lies outside the used part. -/
  | entryOutside
  /-- The key of an entry is not a readable text. -/
  | keyNotText
  /-- Any other damage, in words. -/
  | other (text : String)
deriving DecidableEq, Inhabited

/-- The wording of an arena's damage. -/
def Corruption.text : Corruption → String
  | .sizeDisagrees => "arena size disagrees with measured size"
  | .usedExceedsArena => "used bytes exceed arena"
  | .misalignedNode => "misaligned node"
  | .headerOutside => "node header outside arena"
  | .unknownTag => "unknown tag"
  | .componentCount => "wrong component count"
  | .payloadOutside => "payload outside arena"
  | .forwardReference => "forward reference"
  | .referenceCycle => "reference cycle"
  | .textNotUtf8 => "string is not UTF-8"
  | .childOutside => "child table outside arena"
  | .entryOutside => "entry table outside arena"
  | .keyNotText => "map key is not a string"
  | .other text => text

/-- The coarse classes of faults. -/
inductive Category where
  /-- A bad name or size, or an object that is there already or missing. -/
  | configuration
  /-- No room now; a retry may succeed once the peer has moved on. -/
  | capacity
  /-- The object does not hold what was expected of it. -/
  | protocol
  /-- Writing a value to bytes, or reading it back, failed. -/
  | serialization
  /-- The operating system refused. -/
  | system
deriving DecidableEq, Inhabited

/-- Why an operation of the exchange failed. -/
inductive Fault where
  | nameTaken (name : String)
  | nameUnknown (name : String)
  | creationRefused (name : String) (cause : OsCause)
  | openingRefused (name : String) (cause : OsCause)
  | mappingRefused (cause : OsCause)
  | sizingRefused (cause : OsCause)
  | nameTooLong (limit got : Nat)
  | nameMalformed (name : String)
  | capacityNotPowerOfTwo (got : Nat)
  | sizeUnusable (got : Nat) (rule : SizeRule)
  | ringFull
  | poolExhausted (requested available : Nat)
  | arenaExhausted (requested remaining : Nat)
  | wrongMagic (expected got : Nat)
  | wrongVersion (expected got : Nat)
  | wrongLayout (expected got : Nat)
  | payloadTooLarge (limit got : Nat)
  | unknownBlock (offset size : Nat)
  | regionNotReady (state : Nat)
  | regionAlreadyBuilt
  | arenaCorrupt (offset : Nat) (damage : Corruption)
  | bufferOverflow (limit got : Nat)
  | inputTruncated (offset needed : Nat)
  | tagUnknown (tag : Nat)
  | textNotUtf8 (offset : Nat)
  | nestingTooDeep (limit : Nat)
  | bytesLeftOver (count : Nat)
  | keysUnordered (key : String)
  | keyRepeated (key : String)
deriving DecidableEq, Inhabited

namespace Fault

/-- A number in at least `width` digits to the base sixteen, with capital letters. -/
def capitals (width n : Nat) : String := (Hexadecimal.ofNat width n).toUpper

/-- The text shown for a fault. -/
def message : Fault → String
  | nameTaken name => s!"Shared memory '{name}' already exists"
  | nameUnknown name => s!"Shared memory '{name}' does not exist"
  | creationRefused name cause => s!"Failed to create shared memory '{name}': " ++ cause.text
  | openingRefused name cause => s!"Failed to open shared memory '{name}': " ++ cause.text
  | mappingRefused cause => "Failed to map memory: " ++ cause.text
  | sizingRefused cause => "Failed to set shared memory size: " ++ cause.text
  | nameTooLong limit got => s!"Name too long: max {limit} chars, got {got}"
  | nameMalformed name => s!"Invalid shared memory name '{name}'"
  | capacityNotPowerOfTwo got => s!"Capacity must be a non-zero power of two, got {got}"
  | sizeUnusable got rule => s!"Invalid size {got}: " ++ rule.text
  | ringFull => "Ring buffer is full"
  | poolExhausted requested available =>
    s!"Pool exhausted: requested {requested} bytes, {available} bytes left"
  | arenaExhausted requested remaining =>
    s!"Arena exhausted: requested {requested} bytes, {remaining} bytes left"
  | wrongMagic expected got =>
    "Invalid magic number: expected 0x" ++ capitals 8 expected ++ ", got 0x" ++ capitals 8 got
  | wrongVersion expected got => s!"Version mismatch: expected {expected}, got {got}"
  | wrongLayout expected got => s!"Layout mismatch: expected {expected} bytes, segment says {got}"
  | payloadTooLarge limit got =>
    s!"Payload too large for inline slot: max {limit} bytes, got {got} bytes"
  | unknownBlock offset size => s!"Invalid block handle: offset {offset}, size {size}"
  | regionNotReady state => s!"Shared region is not ready (state {state})"
  | regionAlreadyBuilt => "Shared region was already built"
  | arenaCorrupt offset damage => s!"Corrupt shared region at offset {offset}: " ++ damage.text
  | bufferOverflow limit got => s!"Buffer overflow: max {limit} bytes, got {got} bytes"
  | inputTruncated offset needed => s!"Truncated input: needed {needed} bytes at offset {offset}"
  | tagUnknown tag => "Unknown value tag 0x" ++ capitals 2 tag
  | textNotUtf8 offset => s!"Invalid UTF-8 in string at offset {offset}"
  | nestingTooDeep limit => s!"Value nesting exceeds {limit} levels"
  | bytesLeftOver count => s!"{count} trailing bytes after value"
  | keysUnordered key => s!"Keys out of order near '{key}'"
  | keyRepeated key => s!"Duplicate key '{key}'"

/-- The class a fault belongs to. -/
def category : Fault → Category
  | nameTaken _ | nameUnknown _ | nameTooLong _ _ | nameMalformed _ | capacityNotPowerOfTwo _
  | sizeUnusable _ _ => .configuration
  | ringFull | poolExhausted _ _ | arenaExhausted _ _ => .capacity
  | wrongMagic _ _ | wrongVersion _ _ | wrongLayout _ _ | payloadTooLarge _ _ | unknownBlock _ _
  | regionNotReady _ | regionAlreadyBuilt | arenaCorrupt _ _ => .protocol
  | bufferOverflow _ _ | inputTruncated _ _ | tagUnknown _ | textNotUtf8 _ | nestingTooDeep _
  | bytesLeftOver _ | keysUnordered _ | keyRepeated _ => .serialization
  | creationRefused _ _ | openingRefused _ _ | mappingRefused _ | sizingRefused _ => .system

/-- Whether the same call may succeed later, once the peer has made progress. -/
def isCapacity (fault : Fault) : Bool := fault.category == .capacity

/-- The system's cause behind a fault, when there is one. -/
def cause? : Fault → Option OsCause
  | creationRefused _ cause | openingRefused _ cause | mappingRefused cause
  | sizingRefused cause => some cause
  | _ => none

end Fault

/-- Why an operation breaks off. -/
inductive Crash where
  /-- A sum or a product is no number of 64 bits. -/
  | overflow
  /-- A table has no place with this number. -/
  | outOfBounds
deriving DecidableEq, Inhabited

/-- How an operation fails: with a fault, of which its caller is told, or by breaking off. -/
inductive Failure where
  | refused (fault : Fault)
  | crashed (crash : Crash)
deriving DecidableEq, Inhabited

/-- A step that may be refused, on the way of an operation that may also break off. -/
instance : MonadLift (Except Fault) (Except Failure) := ⟨Except.mapError .refused⟩

/-- A number as the outcome of a computation in words, which breaks off if it is too large. Where
the numbers only grow on the way, it is enough to look at the last one. -/
def checked (n : Nat) : Except Failure Nat :=
  if n < UInt64.size then .ok n else .error (.crashed .overflow)

/-- A computation in words has the outcome that is meant if that is a word. -/
theorem checked_eq_ok_iff {n m : Nat} : checked n = .ok m ↔ n < UInt64.size ∧ n = m := by
  rw [checked]
  split
  · next hlt => simp [hlt]
  · next hge => simp [hge]

end SharedExchange
