import SharedExchange.Pool.Blocks
import SharedExchange.Ring.Exchange

/-! # The foreign interface

Rings and pools for callers that know only numbers, bytes and null: a handle may be null, a name is
a run of bytes, and instead of faults there are status numbers and truth values. A call on a null
handle changes nothing and answers that it failed. -/

namespace SharedExchange.Foreign

/-- The outcomes of sending. -/
inductive Status where
  | ok
  | full
  | failed
deriving DecidableEq, Inhabited

/-- The number that stands for an outcome. -/
def Status.code : Status → Int
  | .ok => 0
  | .full => 1
  | .failed => -1

/-- The outcome of sending: only a full ring is told apart from other faults. -/
def Status.ofSent : Except Fault Unit → Status
  | .ok () => .ok
  | .error .ringFull => .full
  | .error _ => .failed

/-- The name in a run of bytes, which ends before the first zero byte. -/
def nameOf? (name : Option (List UInt8)) : Option String :=
  name.bind fun bytes => Utf8.decode? (bytes.takeWhile (· != 0))

/-- What a caller is told of an outcome: a fault is null. What breaks off does not come back. -/
def told {α : Type} : Except Failure α → Except Crash (Option α)
  | .ok a => .ok (some a)
  | .error (.refused _) => .ok none
  | .error (.crashed crash) => .error crash

/-- Make or find something by name; null when that is refused. -/
def withName {α : Type} (name : Option (List UInt8)) (d : Directory)
    (make : String → Directory → Except Failure α × Directory) :
    Except Crash (Option α) × Directory :=
  match nameOf? name with
  | none => (.ok none, d)
  | some name =>
    let (answer, d) := make name d
    (told answer, d)

/-! ## Rings -/

/-- Make a ring; capacity zero asks for the standard one. -/
def createRing (name : Option (List UInt8)) (capacity : UInt64) (d : Directory) :
    Except Crash (Option Ring) × Directory :=
  withName name d fun name =>
    Ring.create name (if capacity = 0 then Ring.standardCapacity else capacity) .standard

/-- Find a ring. -/
def attachRing (name : Option (List UInt8)) (d : Directory) :
    Except Crash (Option Ring) × Directory :=
  withName name d fun name => Ring.attach name .standard

/-- End the hold on a ring. -/
def releaseRing (ring : Option Ring) (d : Directory) : Directory :=
  match ring with
  | none => d
  | some r => d.release r.attachment

/-- Send a message through a handle. -/
def sendMessage (ring : Option Ring) (msg : Message) (d : Directory) :
    Status × Option Ring × Directory :=
  match ring with
  | none => (.failed, none, d)
  | some r =>
    let (answer, r, d) := d.runWith r.attachment.object (r.send msg)
    (.ofSent answer, some r, d)

/-- Send `length` bytes. No bytes at all may be given as null. -/
def send (ring : Option Ring) (label : Label) (bytes : Option (List UInt8)) (length : Nat)
    (d : Directory) : Status × Option Ring × Directory :=
  if length = 0 then sendMessage ring ⟨label, .inline []⟩ d
  else
    match bytes with
    | none => (.failed, ring, d)
    | some bytes => sendMessage ring ⟨label, .inline (bytes.take length)⟩ d

/-- Send a reference to a block. -/
def sendBlock (ring : Option Ring) (label : Label) (b : BlockRef) (d : Directory) :
    Status × Option Ring × Directory :=
  sendMessage ring ⟨label, .pooled b⟩ d

/-- What a caller is told about a message. -/
structure MessageInfo where
  label : Label
  /-- The length of the whole inline body, which the caller's buffer may not hold. -/
  length : Nat
  pooled : Bool
  block : BlockRef
deriving DecidableEq, Inhabited

/-- What there is to tell about a message. -/
def MessageInfo.ofMessage (msg : Message) : MessageInfo :=
  match msg.body with
  | .inline bytes => ⟨msg.label, bytes.length, false, ⟨0, 0⟩⟩
  | .pooled b => ⟨msg.label, 0, true, b⟩

/-- The front of a buffer overwritten by as many bytes as the buffer holds. -/
def overwrite (buffer bytes : List UInt8) : List UInt8 :=
  bytes.take buffer.length ++ buffer.drop bytes.length

/-- A buffer with the bytes of a body put into it. -/
def fill (buffer : List UInt8) (body : Body) : List UInt8 :=
  match body with
  | .inline bytes => overwrite buffer bytes
  | .pooled _ => buffer

/-- Take a message. Its body goes into the buffer as far as that reaches; a null buffer is one
without room. -/
def receive (ring : Option Ring) (buffer : List UInt8) (d : Directory) :
    Option (MessageInfo × List UInt8) × Option Ring × Directory :=
  match ring with
  | none => (none, none, d)
  | some r =>
    let (answer, r, d) := d.runWith r.attachment.object fun m =>
      r.receiveWith? (fun msg _ => (MessageInfo.ofMessage msg, fill buffer msg.body)) m
    (answer, some r, d)

/-- What a caller points at: bytes of which the first `length` may be written over. -/
structure Span where
  bytes : List UInt8
  length : Nat
  inside : length ≤ bytes.length

/-- Take a message into the places that the caller points at, each of which may be null. Without a
message both stay as they are. -/
def receiveInto (ring : Option Ring) (info : Option MessageInfo) (buffer : Option Span)
    (d : Directory) : (Bool × Option MessageInfo × Option (List UInt8)) × Option Ring × Directory :=
  let room := buffer.elim [] fun span => span.bytes.take span.length
  let (answer, ring, d) := receive ring room d
  match answer with
  | none => ((false, info, buffer.map Span.bytes), ring, d)
  | some (told, filled) =>
    let written := buffer.map fun span => filled ++ span.bytes.drop filled.length
    ((true, info.map fun _ => told, written), ring, d)

/-- How many messages are pending. -/
def pending (ring : Option Ring) (d : Directory) : Nat :=
  match ring with
  | none => 0
  | some r => Ring.pending (d.memory r.attachment.object)

/-! ## Pools -/

/-- Make a pool. -/
def createPool (name : Option (List UInt8)) (size : UInt64) (d : Directory) :
    Except Crash (Option Pool) × Directory :=
  withName name d fun name => Pool.create name size

/-- Find a pool. -/
def attachPool (name : Option (List UInt8)) (d : Directory) :
    Except Crash (Option Pool) × Directory :=
  withName name d fun name => Pool.attach name

/-- End the hold on a pool. -/
def releasePool (pool : Option Pool) (d : Directory) : Directory :=
  match pool with
  | none => d
  | some p => d.release p.attachment

/-- Hand out a block; the answer is where its bytes start. -/
def allocate (pool : Option Pool) (size : UInt64) (d : Directory) : Option UInt64 × Directory :=
  match pool with
  | none => (none, d)
  | some p =>
    let (answer, d) := d.run p.attachment.object (p.allocate size)
    (answer.toOption.map BlockRef.offset, d)

/-- Hand out a block and write where its bytes start to a place that may be null. The answer says
whether there was one; without, the place stays as it is. -/
def allocateInto (pool : Option Pool) (size : UInt64) (out : Option UInt64) (d : Directory) :
    (Bool × Option UInt64) × Directory :=
  let (offset, d) := allocate pool size d
  match offset with
  | none => ((false, out), d)
  | some offset => ((true, out.map fun _ => offset), d)

/-- Give a block back, and tell whether the reference meant one. -/
def deallocate (pool : Option Pool) (b : BlockRef) (d : Directory) :
    Except Crash Bool × Directory :=
  match pool with
  | none => (.ok false, d)
  | some p =>
    let (answer, d) := d.run p.attachment.object (p.deallocate b)
    ((told answer).map Option.isSome, d)

/-- Let `f` work on the bytes of a block in place; null when the reference means no block. -/
def access {α : Type} (pool : Option Pool) (b : BlockRef) (f : List UInt8 → α × List UInt8)
    (d : Directory) : Option α × Directory :=
  match pool with
  | none => (none, d)
  | some p =>
    let (answer, d) := d.run p.attachment.object fun m =>
      p.edit b (fun bytes => let (a, bytes) := f bytes; (.ok a, bytes)) m
    (answer.toOption, d)

end SharedExchange.Foreign
