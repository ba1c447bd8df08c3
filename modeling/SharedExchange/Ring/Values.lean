import SharedExchange.Pool.Blocks
import SharedExchange.Ring.Exchange
import SharedExchange.Wire.Decode

/-! # Values as messages

A value travels in its wire form: in the slot when it fits there, else in a block of a companion
pool that the message refers to. The receiver reads the value out of the block and gives the block
back, whether or not its bytes were a value.

Ring and pool are different objects, so these operations work on the whole directory. -/

namespace SharedExchange

/-- The body that carries a value: inline if its wire form fits, else in a block taken from the
pool. -/
def Body.ofValue (v : Value) (pool : Option Pool) (d : Directory) : Except Fault Body × Directory :=
  match v.measure 0 with
  | .error fault => (.error fault, d)
  | .ok length =>
    if length ≤ inlineLimit then
      let (written, buffer) := v.encodeInto (List.replicate inlineLimit 0)
      (written.map fun n => .inline (buffer.take n), d)
    else
      match pool with
      | none => (.error (.payloadTooLarge inlineLimit length), d)
      | some p =>
        d.run p.attachment.object fun m =>
          match p.allocate (UInt64.ofNat length) m with
          | (.error fault, m) => (.error fault, m)
          | (.ok b, m) =>
            let (written, m) := p.edit b v.encodeInto m
            (written.map fun _ => .pooled b, m)

/-- The value that a body carries. A block is given back once it has been read, even if its bytes
are no value. New nodes are numbered from `node` on. -/
def Body.toValue (body : Body) (pool : Option Pool) (node : NodeId) (d : Directory) :
    Except Failure Value × Directory :=
  match body, pool with
  | .inline bytes, _ => (Value.decode node bytes, d)
  | .pooled b, none => (.error (.refused (.unknownBlock b.offset.toNat b.size.toNat)), d)
  | .pooled b, some p =>
    d.run p.attachment.object fun m =>
      match p.read b m with
      | .error fault => (.error (.refused fault), m)
      | .ok bytes =>
        let decoded := Value.decode node bytes
        match p.deallocate b m with
        | (.error failure, m) => (.error failure, m)
        | (.ok (), m) => (decoded, m)

namespace Ring

/-- Send a value. Room in the ring is made sure of first, so that a full ring costs no block. -/
def sendValue (r : Ring) (label : Label) (v : Value) (pool : Option Pool) (d : Directory) :
    Except Fault Unit × Ring × Directory :=
  let (room, r) := r.hasRoom (d.memory r.attachment.object)
  if room then
    match Body.ofValue v pool d with
    | (.error fault, d) => (.error fault, r, d)
    | (.ok body, d) => d.runWith r.attachment.object (r.send ⟨label, body⟩)
  else (.error .ringFull, r, d)

/-- Take the oldest pending message and the value that it carries. The message is gone even if it
carries no value. -/
def receiveValue? (r : Ring) (pool : Option Pool) (node : NodeId) (d : Directory) :
    Option (Except Failure (Message × Value)) × Ring × Directory :=
  match d.runWith r.attachment.object r.receive? with
  | (none, r, d) => (none, r, d)
  | (some msg, r, d) =>
    let (decoded, d) := msg.body.toValue pool node d
    (some (decoded.map fun v => (msg, v)), r, d)

end Ring
end SharedExchange
