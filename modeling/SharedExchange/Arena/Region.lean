import SharedExchange.Arena.Copy
import SharedExchange.Arena.Writer
import SharedExchange.Signature
import SharedExchange.Text.Quoted

/-! # Published values

A region is an object that holds one value in an arena. Its maker publishes the value once; from
then on other parties may attach, walk the arena in place or copy the value out.

* A region is `empty`, for a moment `building`, then `ready`, and `tornDown` when its maker lets
  go of it. Only a ready region can be attached to or read.
* `publish` makes sure of the room node by node, or measures the value beforehand. When it fails the
  region is empty again, though nodes already written stay in the arena. -/

namespace SharedExchange

/-- The stages in the life of a region. -/
inductive RegionState where
  | empty
  | building
  | ready
  | tornDown
deriving DecidableEq, Inhabited

namespace RegionState

/-- The word that stands for a stage. -/
def code : RegionState → UInt32
  | empty => 0
  | building => 1
  | ready => 2
  | tornDown => 3

/-- The stage that a word stands for; a word that stands for none means that the region is gone. -/
def ofCode (code : UInt32) : RegionState :=
  if code = 0 then empty else if code = 1 then building else if code = 2 then ready else tornDown

/-- The name of a stage in descriptions. -/
def label : RegionState → String
  | empty => "Empty"
  | building => "Building"
  | ready => "Ready"
  | tornDown => "TornDown"

/-- The word of a state is read as that state. -/
@[simp] theorem ofCode_code (s : RegionState) : ofCode s.code = s := by cases s <;> rfl

end RegionState

/-- One party's handle on a region. -/
structure Region where
  attachment : Attachment
  /-- Where the arena starts in the object. -/
  arenaStart : UInt64
  /-- How many bytes the arena has. -/
  capacity : UInt64

namespace Region

open Arena (BuildMode Site Writer requiredSize)

/-- Regions are told by this magic number and have a header of 56 bytes. -/
def signature : Signature := ⟨0x5256414c, 56⟩

/-- Where the arena of a fresh region starts. -/
def freshArenaStart : UInt64 := 64

/-- The root reference of a region without a value. -/
def noRoot : UInt64 := 0xffffffffffffffff

/-! Where each word of the header stands. -/

def stateAt : Nat := 8
def modeAt : Nat := 12
def arenaStartAt : Nat := 16
def capacityAt : Nat := 24
def usedAt : Nat := 32
def rootAt : Nat := 40
def nodeCountAt : Nat := 48

/-- The word that stands for a build mode. -/
def modeCode : BuildMode → UInt32
  | .checked => 0
  | .fast => 1

/-- The contents of a fresh region. -/
def format (capacity : UInt64) (m : Memory) : Memory :=
  ((((((signature.write m).store32 stateAt RegionState.empty.code).store32 modeAt 0).store64
    arenaStartAt freshArenaStart).store64 capacityAt capacity).store64 usedAt 0).store64
      rootAt noRoot

/-- The capacity of a fresh region: the size asked for, rounded up to a multiple of eight. -/
def freshCapacity (size : UInt64) : UInt64 := UInt64.ofNat (Arena.padded size.toNat)

/-- The bytes that a region with an arena of at least so many bytes takes. A size that is too large
to be rounded up is too large for this number, too. -/
def wholeSize (size : UInt64) : Nat := freshArenaStart.toNat + Arena.padded size.toNat

/-- Make a region with an arena of at least `size` bytes. -/
def create (name : String) (size : UInt64) (d : Directory) : Except Failure Region × Directory :=
  if size.toNat < Arena.headerSize then
    (.error (.refused (.sizeUnusable size.toNat .arenaMinimum)), d)
  else
    d.lay name (wholeSize size) (fun a => ⟨a, freshArenaStart, freshCapacity size⟩)
      (format (freshCapacity size))

/-- The handle on a published region, by the header of its object. -/
def ofHeader (a : Attachment) (m : Memory) : Except Failure Region := do
  signature.check m
  let state := m.load32 stateAt
  if state ≠ RegionState.ready.code then throw (.refused (.regionNotReady state.toNat))
  let start := m.load64 arenaStartAt
  let capacity := m.load64 capacityAt
  let needed ← checked (start.toNat + capacity.toNat)
  if m.size < needed then throw (.refused (.wrongLayout needed m.size))
  return ⟨a, start, capacity⟩

/-- Find a region whose value has been published. -/
def attach (name : String) (d : Directory) : Except Failure Region × Directory :=
  d.examine name ofHeader

/-! ## The header -/

/-- The stage of a region. -/
def state (m : Memory) : RegionState := .ofCode (m.load32 stateAt)

/-- How the arena was built. -/
def mode (m : Memory) : BuildMode := if m.load32 modeAt = 1 then .fast else .checked

/-- How many bytes of the arena are in use. -/
def used (m : Memory) : UInt64 := m.load64 usedAt

/-- How many nodes were written. -/
def nodeCount (m : Memory) : UInt64 := m.load64 nodeCountAt

/-- Move on to another stage. -/
def enter (s : RegionState) (m : Memory) : Memory := m.store32 stateAt s.code

/-- A one-line description of a region. -/
def describe (r : Region) (m : Memory) : String :=
  "SharedRegion \x7b name: " ++ Text.quoted r.attachment.name ++ ", state: " ++ (state m).label ++
    s!", used: {used m}, capacity: {r.capacity} \x7d"

/-! ## Publishing -/

/-- Write a value into the arena. Answers its root and the writer at the end. -/
def build (r : Region) (v : Value) (mode : BuildMode) (m : Memory) :
    Except Fault Nat × Writer :=
  let site : Site := ⟨r.arenaStart.toNat, r.capacity.toNat, mode⟩
  let writer : Writer := ⟨m, 0, 0, ∅⟩
  if mode = .fast ∧ site.capacity < requiredSize v then
    (.error (.arenaExhausted (requiredSize v) site.capacity), writer)
  else
    match Writer.put site v writer with
    | (.error fault, w) => (.error fault, w)
    | (.ok root, w) =>
      if mode = .checked ∧ w.cursor ≠ requiredSize v then
        (.error (.arenaCorrupt w.cursor .sizeDisagrees), w)
      else (.ok root, w)

/-- Publish a value. Only the maker of a region may, and only once. -/
def publish (r : Region) (v : Value) (mode : BuildMode) (m : Memory) :
    Except Fault Unit × Memory :=
  if !r.attachment.owner || m.load32 stateAt ≠ RegionState.empty.code then
    (.error .regionAlreadyBuilt, m)
  else
    match r.build v mode (enter .building m) with
    | (.error fault, w) => (.error fault, enter .empty w.memory)
    | (.ok root, w) =>
      let headed := (((w.memory.store32 modeAt (modeCode mode)).store64 usedAt
        (UInt64.ofNat w.cursor)).store64 rootAt (UInt64.ofNat root)).store64 nodeCountAt
          (UInt64.ofNat w.nodes)
      (.ok (), enter .ready headed)

/-- End a hold. The maker's hold marks the region as torn down and takes its name. -/
def release (r : Region) (d : Directory) : Directory :=
  let object := r.attachment.object
  let d := if r.attachment.owner then d.update object (enter .tornDown (d.memory object)) else d
  d.release r.attachment

/-- Make a region just large enough for a value and publish it there. -/
def ofValue (name : String) (v : Value) (mode : BuildMode) (d : Directory) :
    Except Failure Region × Directory :=
  match checked (max (requiredSize v) Arena.headerSize) with
  | .error failure => (.error failure, d)
  | .ok size =>
    match create name (UInt64.ofNat size) d with
    | (.error failure, d) => (.error failure, d)
    | (.ok r, d) =>
      match d.run r.attachment.object (r.publish v mode) with
      | (.error fault, d) => (.error (.refused fault), r.release d)
      | (.ok (), d) => (.ok r, d)

/-! ## Reading -/

/-- The used part of the arena of a ready region. -/
def arena (r : Region) (m : Memory) : Except Fault Arena := do
  let state := m.load32 stateAt
  if state ≠ RegionState.ready.code then throw (.regionNotReady state.toNat)
  let used := used m
  if r.capacity < used then throw (.arenaCorrupt used.toNat .usedExceedsArena)
  return ⟨m, r.arenaStart.toNat, used.toNat⟩

/-- The node of the published value. -/
def root (r : Region) (m : Memory) : Except Fault Node := do
  (← r.arena m).node (m.load64 rootAt).toNat

/-- A copy of the published value, with new nodes from `node` on. -/
def toValue (r : Region) (node : NodeId) (m : Memory) : Except Fault Value := do
  (← r.arena m).copyOut node (m.load64 rootAt).toNat

end Region
end SharedExchange
