import Mathlib.Tactic
import SharedExchange.Proofs.Delivery.Carrying

/-! # Deliveries

A `Delivery` is a ring and the pool beside it with everybody who uses them. Next to the state of the
program it remembers what was sent and what was taken, and for each message which block went over
with it. A block has one owner at any time: it is *on its way* from the moment when a message that
brings it is sent until that message is taken, and otherwise *held* by one of the parties.

`Next` has one case for each thing that a party can do. The parties keep two rules. A block is used
and sent only by who holds it, so none is sent twice; and a message is read as a value only if the
block that it names came with it. -/

namespace SharedExchange

/-- The block that a body names. -/
def Body.block? : Body → Option BlockRef
  | inline _ => none
  | pooled b => some b

/-- A message that was sent. -/
structure Sending where
  message : Message
  /-- The block that goes over with the message. -/
  block : Option BlockRef
  /-- The bytes that the body carries, itself or in the block. -/
  bytes : List UInt8
  /-- The value that the message was made of. -/
  value : Option Value

/-- What a party gets when it takes a message: the message as it is, or the value that it carries,
read with new nodes from `node` on. -/
inductive Receipt
  | message (msg : Message)
  | value (node : NodeId) (answer : Except Failure (Message × Value))

namespace Sending

/-- A message by which nothing goes over. A block that it names may be anyone's. -/
def plain (msg : Message) : Sending :=
  ⟨msg, none, match msg.body with | .inline bytes => bytes | .pooled _ => [], none⟩

/-- The block named by a message goes over with it. -/
def ofBlock (label : Label) (b : BlockRef) (bytes : List UInt8) : Sending :=
  ⟨⟨label, .pooled b⟩, some b, bytes, none⟩

/-- A value in the body that was made for it. -/
def ofValue (label : Label) (v : Value) (body : Body) : Sending :=
  ⟨⟨label, body⟩, body.block?, v.wire, some v⟩

/-- The block that the message names, if any, came with it. -/
def Readable (s : Sending) : Prop := s.message.body.block? = s.block

/-- What the message is read as: its bytes are a value or are refused. -/
def reading (s : Sending) (node : NodeId) : Except Failure (Message × Value) :=
  ((Value.decode node s.bytes).mapError .refused).map fun v => (s.message, v)

/-- What is got for a message: the message that was sent, or what its bytes decode to, which is the
content of the value that it was made of. -/
def Yields (s : Sending) : Receipt → Prop
  | .message msg => msg = s.message
  | .value node answer =>
    answer = s.reading node ∧
      ∀ v ∈ s.value, v.Ordered → v.Fits → ∃ w, answer = .ok (s.message, w) ∧ w.content = v.content

/-- A message that was sent stands for its bytes as long as it is pending. -/
structure Stands (pools : List Pool) (d : Directory) (s : Sending) : Prop where
  inline_eq : ∀ bytes, s.message.body = .inline bytes → s.bytes = bytes
  body_eq : ∀ b ∈ s.block, s.message.body = .pooled b
  contents_eq : ∀ b ∈ s.block, ∀ p ∈ pools,
    p.contents (d.memory p.attachment.object) b = s.bytes
  value_eq : ∀ v ∈ s.value, v.measure 0 = .ok v.wireLength ∧ s.bytes = v.wire ∧ s.Readable

end Sending

/-- A ring and a pool in use. -/
structure Delivery where
  directory : Directory
  /-- The object of the ring. -/
  ring : ObjectId
  parties : Ring.Parties
  /-- The handles on the pool, if there is one. -/
  pools : List Pool
  /-- The blocks that somebody holds. -/
  held : List BlockRef
  /-- The messages that were sent, in order. -/
  sent : List Sending
  /-- What was got for those that were taken, in order. -/
  taken : List Receipt

namespace Delivery

/-- The messages that were sent and not yet taken. -/
def pending (x : Delivery) : List Sending := x.sent.drop x.taken.length

/-- The blocks that pending messages bring. -/
def onWay (x : Delivery) : List BlockRef := x.pending.filterMap Sending.block

/-- The messages of a value that was sent or refused. -/
def posted (label : Label) (v : Value) : Except Fault Body → Except Fault Unit → List Sending
  | .ok body, .ok () => [.ofValue label v body]
  | _, _ => []

/-- One thing that happens. -/
inductive Next : Delivery → Delivery → Prop
  /-- The directory changes, but neither the ring nor the pool. -/
  | elsewhere {x : Delivery} (d : Directory) (hring : d.memory x.ring = x.directory.memory x.ring)
    (hpool : ∀ p ∈ x.pools,
      d.memory p.attachment.object = x.directory.memory p.attachment.object) :
    Next x { x with directory := d }
  /-- Somebody opens the ring and takes over a role. -/
  | openRing {x : Delivery} {name : String} {patience : Patience} {r : Ring} {d : Directory}
    (h : Ring.attach name patience x.directory = (.ok r, d))
    (hobject : r.attachment.object = x.ring) (role : Ring.Role) :
    Next x { x with directory := d, parties := x.parties.replace r role }
  /-- Somebody opens the pool. -/
  | openPool {x : Delivery} {name : String} {p q : Pool} {d : Directory} (hp : p ∈ x.pools)
    (h : Pool.attach name x.directory = (.ok q, d))
    (hobject : q.attachment.object = p.attachment.object) :
    Next x { x with directory := d, pools := q :: x.pools }
  /-- Somebody uses the pool and the blocks that are held. -/
  | usePool {x : Delivery} {p : Pool} (hp : p ∈ x.pools) (action : Pool.Action) {m : Memory}
    {held : List BlockRef}
    (h : p.perform (x.directory.memory p.attachment.object) x.held action = (m, held)) :
    Next x { x with directory := x.directory.update p.attachment.object m, held := held }
  /-- Who holds a block refers to it in another way, for example by fewer of its bytes. -/
  | refer {x : Delivery} {p : Pool} {a b : BlockRef} (hp : p ∈ x.pools) (hb : b ∈ x.held)
    (h : p.locate a (x.directory.memory p.attachment.object) = .ok b.start) :
    Next x { x with held := a :: x.held.erase b }
  /-- A message is sent or refused. -/
  | send {x : Delivery} (msg : Message) {answer : Except Fault Unit} {s : Ring} {d : Directory}
    (h : x.directory.runWith x.ring (x.parties.sender.send msg) = (answer, s, d)) :
    Next x { x with
      directory := d
      parties := x.parties.setSender s
      sent := if answer.isOk then x.sent ++ [.plain msg] else x.sent }
  /-- A block that is held is sent or refused. -/
  | sendBlock {x : Delivery} {p : Pool} {b : BlockRef} (hp : p ∈ x.pools) (hb : b ∈ x.held)
    (label : Label) {answer : Except Fault Unit} {s : Ring} {d : Directory}
    (h : x.directory.runWith x.ring (x.parties.sender.send ⟨label, .pooled b⟩) = (answer, s, d)) :
    Next x { x with
      directory := d
      parties := x.parties.setSender s
      held := if answer.isOk then x.held.erase b else x.held
      sent := if answer.isOk then
        x.sent ++ [.ofBlock label b (p.contents (x.directory.memory p.attachment.object) b)]
        else x.sent }
  /-- A value is sent or refused. The length of its wire form is one that a word can count. -/
  | sendValue {x : Delivery} {pool : Option Pool} (hpool : ∀ p ∈ pool, p ∈ x.pools) (label : Label)
    (v : Value) (hcount : v.wireLength < UInt64.size) {answer : Except Fault Unit} {s : Ring}
    {d : Directory} (h : x.parties.sender.sendValue label v pool x.directory = (answer, s, d)) :
    Next x { x with
      directory := d
      parties := x.parties.setSender s
      sent := x.sent ++ posted label v (Body.ofValue v pool x.directory).1 answer }
  /-- The oldest message is taken with the block that it brings, if there is one. -/
  | receive {x : Delivery} {answer : Option Message} {r : Ring} {d : Directory}
    (h : x.directory.runWith x.ring x.parties.receiver.receive? = (answer, r, d)) :
    Next x { x with
      directory := d
      parties := x.parties.setReceiver r
      held := (x.pending.head?.bind Sending.block).toList ++ x.held
      taken := x.taken ++ (answer.map Receipt.message).toList }
  /-- The oldest message is taken for the value that it carries, if there is one. -/
  | receiveValue {x : Delivery} {p : Pool} (hp : p ∈ x.pools)
    (hfront : ∀ s ∈ x.pending.head?, s.Readable) (node : NodeId)
    {answer : Option (Except Failure (Message × Value))} {r : Ring} {d : Directory}
    (h : x.parties.receiver.receiveValue? (some p) node x.directory = (answer, r, d)) :
    Next x { x with
      directory := d
      parties := x.parties.setReceiver r
      taken := x.taken ++ (answer.map (Receipt.value node)).toList }

/-- A ring and a pool, if there is one, that nobody has used yet. -/
structure Fresh (r : Ring) (pool : Option Pool) (d : Directory) : Prop where
  ring_made : ∃ name capacity patience made made',
    Ring.create name capacity patience made = (.ok r, made') ∧
      d.memory r.attachment.object = made'.memory r.attachment.object
  pool_made : ∀ p ∈ pool, ∃ name size made made', Pool.create name size made = (.ok p, made') ∧
    d.memory p.attachment.object = made'.memory p.attachment.object
  apart : ∀ p ∈ pool, r.attachment.object ≠ p.attachment.object

/-- The maker of the ring is both parties, and nothing was sent. -/
def start (r : Ring) (pool : Option Pool) (d : Directory) : Delivery :=
  ⟨d, r.attachment.object, .alone r, pool.toList, [], [], []⟩

end Delivery
end SharedExchange
