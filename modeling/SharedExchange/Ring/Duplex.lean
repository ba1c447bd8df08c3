import SharedExchange.Ring.Exchange

/-! # Two-way links

A link is a pair of rings, one for each direction. The party that makes the link sends on the first
and receives on the second, its peer the other way round.

`request?` sends a message and waits for the answer that carries the same request number; answers to
other requests that arrive before it are dropped. -/

namespace SharedExchange

/-- One party's handle on a link. -/
structure Duplex where
  outgoing : Ring
  incoming : Ring

namespace Duplex

/-- The name of the ring from the maker to the peer. -/
def forwardName (name : String) : String := name ++ ".a2b"

/-- The name of the ring from the peer to the maker. -/
def backwardName (name : String) : String := name ++ ".b2a"

/-- Make a link. If its second ring cannot be made, the first is given up again. -/
def create (name : String) (capacity : UInt64) (patience : Patience) (d : Directory) :
    Except Failure Duplex × Directory :=
  match Ring.create (forwardName name) capacity patience d with
  | (.error failure, d) => (.error failure, d)
  | (.ok outgoing, d) =>
    match Ring.create (backwardName name) capacity patience d with
    | (.error failure, d) => (.error failure, d.release outgoing.attachment)
    | (.ok incoming, d) => (.ok ⟨outgoing, incoming⟩, d)

/-- Find a link that somebody else made. If its second ring cannot be found, the first is let go
of. -/
def connect (name : String) (d : Directory) : Except Failure Duplex × Directory :=
  match Ring.attach (forwardName name) .standard d with
  | (.error failure, d) => (.error failure, d)
  | (.ok incoming, d) =>
    match Ring.attach (backwardName name) .standard d with
    | (.error failure, d) => (.error failure, d.release incoming.attachment)
    | (.ok outgoing, d) => (.ok ⟨outgoing, incoming⟩, d)

/-- Send on the outgoing ring. -/
def send (link : Duplex) (msg : Message) (d : Directory) :
    Except Fault Unit × Duplex × Directory :=
  let (answer, outgoing, d) := d.runWith link.outgoing.attachment.object (link.outgoing.send msg)
  (answer, { link with outgoing }, d)

/-- Take the oldest pending message of the incoming ring. -/
def receive? (link : Duplex) (d : Directory) : Option Message × Duplex × Directory :=
  let (answer, incoming, d) := d.runWith link.incoming.attachment.object link.incoming.receive?
  (answer, { link with incoming }, d)

/-- One attempt of a wait for the answer to a request: takes a message, whichever it answers. -/
def tryAnswer (request : UInt64) : Ring × Memory → Option Message × Ring × Memory
  | (r, m) =>
    let (msg, r, m) := r.receive? m
    (msg.filter fun msg => msg.label.request == request, r, m)

/-- Wait for the answer to a request for the time of `timeout` or, without one, for up to `fuel`
rounds. -/
def answerWithin (r : Ring) (request : UInt64) (clock : Clock) (timeout : Option Nat) (fuel : Nat)
    (m : Memory) : Waited Message × Ring × Memory :=
  waitFor (tryAnswer request) fuel (clock.allowed r.patience timeout) (r, m)

/-- Send a request and wait for its answer. Both waits have the time of `timeout` or, without one,
up to `fuel` rounds; `sending` and `answering` are the clocks by which they go. -/
def request? (link : Duplex) (msg : Message) (sending answering : Clock) (timeout : Option Nat)
    (fuel : Nat) (d : Directory) : Waited (Except Fault Message) × Duplex × Directory :=
  let (sent, outgoing, d) := d.runWith link.outgoing.attachment.object fun m =>
    link.outgoing.sendWithin msg sending timeout fuel m
  let link := { link with outgoing }
  match sent with
  | .got (.ok ()) =>
    let (answer, incoming, d) := d.runWith link.incoming.attachment.object fun m =>
      answerWithin link.incoming msg.label.request answering timeout fuel m
    (answer.map .ok, { link with incoming }, d)
  | .got (.error fault) => (.got (.error fault), link, d)
  | .expired => (.expired, link, d)
  | .stillWaiting => (.stillWaiting, link, d)
  | .crashed crash => (.crashed crash, link, d)

/-- End the hold on both rings. -/
def release (link : Duplex) (d : Directory) : Directory :=
  (d.release link.outgoing.attachment).release link.incoming.attachment

end Duplex
end SharedExchange
