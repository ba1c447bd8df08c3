import SharedExchange.Ring.Basic

/-! # Sending and receiving

One party sends and one receives. `send` puts a message into the slot behind the pending ones and
refuses when all slots are pending; `receive?` takes the oldest pending message, and `receiveWith?`
looks at it in place before its slot is given back. The waiting forms repeat these until they
succeed or the wait is over.

Every operation answers the handle as well, whose copies of the counts it may have renewed. -/

namespace SharedExchange.Ring

/-! ## Sending -/

/-- Whether a slot is free. The receive count is read again only if the copy says that there is
none. -/
def hasRoom (r : Ring) (m : Memory) : Bool × Ring :=
  let sent := m.load64 sentAt
  if sent - r.knownReceived < r.capacity then (true, r)
  else
    let received := m.load64 receivedAt
    (decide (sent - received < r.capacity), { r with knownReceived := received })

/-- Write a message behind the pending ones and count it. -/
def append (r : Ring) (msg : Message) (m : Memory) : Memory :=
  let sent := m.load64 sentAt
  (m.store (r.slot sent) msg.toBytes).store64 sentAt (sent + 1)

/-- Send a message. A body that no slot can hold is refused however much room there is. -/
def send (r : Ring) (msg : Message) (m : Memory) : Except Fault Unit × Ring × Memory :=
  if inlineLimit < msg.body.toBytes.length then
    (.error (.payloadTooLarge inlineLimit msg.body.toBytes.length), r, m)
  else
    let (room, r) := r.hasRoom m
    if room then (.ok (), r, r.append msg m) else (.error .ringFull, r, m)

/-- One attempt of a wait for room: only a full ring is worth another attempt. -/
def trySend (msg : Message) : Ring × Memory → Option (Except Fault Unit) × Ring × Memory
  | (r, m) =>
    match r.send msg m with
    | (.error .ringFull, r, m) => (none, r, m)
    | (answer, r, m) => (some answer, r, m)

/-- Send a message, waiting for room for the time of `timeout` or, without one, for up to `fuel`
rounds. -/
def sendWithin (r : Ring) (msg : Message) (clock : Clock) (timeout : Option Nat) (fuel : Nat)
    (m : Memory) : Waited (Except Fault Unit) × Ring × Memory :=
  waitFor (trySend msg) fuel (clock.allowed r.patience timeout) (r, m)

/-! ## Receiving -/

/-- Whether the message with a number has been sent. The send count is read again only if the copy
says that it has not. -/
def hasMessage (r : Ring) (number : UInt64) (m : Memory) : Bool × Ring :=
  if number ≠ r.knownSent then (true, r)
  else
    let sent := m.load64 sentAt
    (decide (number ≠ sent), { r with knownSent := sent })

/-- Let `f` look at the oldest pending message in its slot, then give the slot back. -/
def receiveWith? {α : Type} (r : Ring) (f : Message → Memory → α) (m : Memory) :
    Option α × Ring × Memory :=
  let received := m.load64 receivedAt
  let (present, r) := r.hasMessage received m
  if present then
    (some (f (Message.load (r.slot received) m) m), r, m.store64 receivedAt (received + 1))
  else (none, r, m)

/-- Take the oldest pending message. -/
def receive? (r : Ring) (m : Memory) : Option Message × Ring × Memory :=
  r.receiveWith? (fun msg _ => msg) m

/-- One attempt of a wait for a message. -/
def tryReceive : Ring × Memory → Option Message × Ring × Memory
  | (r, m) => r.receive? m

/-- Take the oldest pending message, waiting for one for the time of `timeout` or, without one, for
up to `fuel` rounds. -/
def receiveWithin (r : Ring) (clock : Clock) (timeout : Option Nat) (fuel : Nat) (m : Memory) :
    Waited Message × Ring × Memory :=
  waitFor tryReceive fuel (clock.allowed r.patience timeout) (r, m)

end SharedExchange.Ring
