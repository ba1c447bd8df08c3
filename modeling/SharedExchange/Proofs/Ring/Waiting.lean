import SharedExchange.Proofs.Ring.Rounds
import SharedExchange.Proofs.Waiting

/-! # Sending and receiving with patience

A send that waits for room makes its attempt again and again, and so does a receive that waits for a
message. Each attempt works on the object, so what matters is that exactly one of them takes effect:
the last one of a wait that succeeds, and none of any other wait.

Meanwhile the other party is at work on the same object. `sendAmid` and `receiveAmid` are the two
waits with anything done to the object ahead of every attempt. What they leave is compared with what
the others alone would have left: it is that with one message more, that with the oldest one less,
or just that (`SentOnce`, `TakenOnce`). If the others are a receiver or a sender that keeps to the
rules, the same is true of the queue of pending messages, and a wait that ends with nothing has
found the ring full, or empty, to its end (`Enqueued`, `Dequeued`).

All of this is shown whatever the clock does, so also for deadlines that the clock cannot tell. -/

namespace SharedExchange.Ring

variable {capacity : UInt64} {m m' : Memory} {r r' : Ring} {msg : Message}

/-! ## One attempt -/

/-- Looking for room changes no more of the handle than the copy of the receive count. -/
theorem hasRoom_handle (r : Ring) (m : Memory) :
    ∃ known : UInt64, (r.hasRoom m).2 = { r with knownReceived := known } := by
  rw [hasRoom]
  dsimp only
  split
  · exact ⟨r.knownReceived, rfl⟩
  · exact ⟨m.load64 receivedAt, rfl⟩

/-- Looking for a message changes no more of the handle than the copy of the send count. -/
theorem hasMessage_handle (r : Ring) (number : UInt64) (m : Memory) :
    ∃ known : UInt64, (r.hasMessage number m).2 = { r with knownSent := known } := by
  rw [hasMessage]
  split
  · exact ⟨r.knownSent, rfl⟩
  · exact ⟨m.load64 sentAt, rfl⟩

/-- An attempt to send refuses a message that no slot can hold, appends it, or changes nothing but
the copy of the receive count. -/
theorem trySend_cases (msg : Message) (r : Ring) (m : Memory) :
    (inlineLimit < msg.body.toBytes.length ∧ trySend msg (r, m) =
        (some (.error (.payloadTooLarge inlineLimit msg.body.toBytes.length)), r, m)) ∨
      ¬inlineLimit < msg.body.toBytes.length ∧ ∃ known : UInt64,
        (trySend msg (r, m) = (some (.ok ()), { r with knownReceived := known }, r.append msg m) ∨
          trySend msg (r, m) = (none, { r with knownReceived := known }, m)) := by
  by_cases hlong : inlineLimit < msg.body.toBytes.length
  · refine .inl ⟨hlong, ?_⟩
    rw [trySend, send, if_pos hlong]
  obtain ⟨known, hknown⟩ := r.hasRoom_handle m
  refine .inr ⟨hlong, known, ?_⟩
  rw [trySend, send, if_neg hlong]
  cases hroom : r.hasRoom m with
  | mk room r' =>
  obtain rfl : r' = { r with knownReceived := known } := by rw [← hknown, hroom]
  cases room with
  | true => exact .inl rfl
  | false => exact .inr rfl

/-- An attempt to receive takes what is in the slot of the oldest message, or changes nothing but
the copy of the send count. -/
theorem tryReceive_cases (r : Ring) (m : Memory) : ∃ known : UInt64,
    tryReceive (r, m) = (some (Message.load (r.slot (m.load64 receivedAt)) m),
        { r with knownSent := known }, advance m) ∨
      tryReceive (r, m) = (none, { r with knownSent := known }, m) := by
  obtain ⟨known, hknown⟩ := r.hasMessage_handle (m.load64 receivedAt) m
  refine ⟨known, ?_⟩
  rw [tryReceive, receive?, receiveWith?]
  cases hmessage : r.hasMessage (m.load64 receivedAt) m with
  | mk present r' =>
  obtain rfl : r' = { r with knownSent := known } := by rw [← hknown, hmessage]
  cases present with
  | true => exact .inl rfl
  | false => exact .inr rfl

/-! ## Waits among others -/

/-- Others work on the object, and not on the handle. -/
def besides (others : Nat → Memory → Memory) (n : Nat) : Ring × Memory → Ring × Memory
  | (r, m) => (r, others n m)

/-- Send a message, waiting for room, with others at work on the object ahead of each attempt. The
last component is the number of attempts. -/
def sendAmid (others : Nat → Memory → Memory) (r : Ring) (msg : Message) (clock : Clock)
    (timeout : Option Nat) (fuel : Nat) (m : Memory) :
    Waited (Except Fault Unit) × Ring × Memory × Nat :=
  let (ended, (r, m), n) := waitFor (amid (besides others) (trySend msg)) fuel
    (clock.allowed r.patience timeout) ((r, m), 0)
  (ended, r, m, n)

/-- Take the oldest message, waiting for one, with others at work on the object ahead of each
attempt. The last component is the number of attempts. -/
def receiveAmid (others : Nat → Memory → Memory) (r : Ring) (clock : Clock) (timeout : Option Nat)
    (fuel : Nat) (m : Memory) : Waited Message × Ring × Memory × Nat :=
  let (ended, (r, m), n) := waitFor (amid (besides others) tryReceive) fuel
    (clock.allowed r.patience timeout) ((r, m), 0)
  (ended, r, m, n)

/-- Nobody else besides nobody is nobody. -/
theorem besides_nobody : besides nobody = nobody := rfl

/-- A send that waits is one with nobody else at work. -/
theorem exists_sendAmid_nobody (r : Ring) (msg : Message) (clock : Clock) (timeout : Option Nat)
    (fuel : Nat) (m : Memory) : ∃ n, sendAmid nobody r msg clock timeout fuel m =
      ((r.sendWithin msg clock timeout fuel m).1, (r.sendWithin msg clock timeout fuel m).2.1,
        (r.sendWithin msg clock timeout fuel m).2.2, n) := by
  rw [sendWithin, sendAmid, besides_nobody, ← waitFor_amid_nobody (trySend msg)]
  rcases waitFor (amid nobody (trySend msg)) fuel (clock.allowed r.patience timeout) ((r, m), 0)
    with ⟨ended, ⟨r', m'⟩, n⟩
  exact ⟨n, rfl⟩

/-- A receive that waits is one with nobody else at work. -/
theorem exists_receiveAmid_nobody (r : Ring) (clock : Clock) (timeout : Option Nat) (fuel : Nat)
    (m : Memory) : ∃ n, receiveAmid nobody r clock timeout fuel m =
      ((r.receiveWithin clock timeout fuel m).1, (r.receiveWithin clock timeout fuel m).2.1,
        (r.receiveWithin clock timeout fuel m).2.2, n) := by
  rw [receiveWithin, receiveAmid, besides_nobody, ← waitFor_amid_nobody tryReceive]
  rcases waitFor (amid nobody tryReceive) fuel (clock.allowed r.patience timeout) ((r, m), 0)
    with ⟨ended, ⟨r', m'⟩, n⟩
  exact ⟨n, rfl⟩

/-! ## What a wait leaves of the object -/

/-- What a send that waits has made of an object that others alone would have left as `left`. -/
structure SentOnce (r : Ring) (msg : Message) (left : Memory) (answer : Waited (Except Fault Unit))
    (m' : Memory) : Prop where
  /-- A message that is sent is appended once. -/
  sent : answer = .got (.ok ()) → m' = r.append msg left
  /-- Otherwise no byte changes. -/
  unsent : answer ≠ .got (.ok ()) → m' = left
  /-- It is refused if no slot can hold it, however full the ring is, and for nothing else. -/
  error_iff : ∀ fault, answer = .got (.error fault) ↔
    inlineLimit < msg.body.toBytes.length ∧
      fault = .payloadTooLarge inlineLimit msg.body.toBytes.length

/-- What a receive that waits has made of an object that others alone would have left as `left`. -/
structure TakenOnce (r : Ring) (left : Memory) (answer : Waited Message) (m' : Memory) : Prop where
  /-- The message that is taken is the oldest one, and only its slot is given back. -/
  taken : ∀ msg, answer = .got msg →
    msg = Message.load (r.slot (left.load64 receivedAt)) left ∧ m' = advance left
  /-- Otherwise no byte changes. -/
  untaken : (∀ msg, answer ≠ .got msg) → m' = left

variable {others : Nat → Memory → Memory} {clock : Clock} {timeout : Option Nat} {fuel n : Nat}

/-- Fruitless attempts to send change no byte, and are not made with a message that no slot can
hold. -/
theorem fruitless_trySend {x : Ring × Memory}
    (h : Fruitless (besides others) (trySend msg) (r, m) n x) :
    (∃ known : UInt64, x = ({ r with knownReceived := known }, meanwhile others m n)) ∧
      (0 < n → ¬inlineLimit < msg.body.toBytes.length) := by
  induction h with
  | start => exact ⟨⟨r.knownReceived, rfl⟩, fun h => absurd h (Nat.lt_irrefl 0)⟩
  | @next n _ x _ hnone ih =>
    obtain ⟨⟨known, rfl⟩, -⟩ := ih
    rcases trySend_cases msg { r with knownReceived := known } (meanwhile others m (n + 1)) with
      ⟨-, heq⟩ | ⟨hshort, known', heq | heq⟩
    · cases hnone.symm.trans heq
    · cases hnone.symm.trans heq
    · cases hnone.symm.trans heq
      exact ⟨⟨known', rfl⟩, fun _ => hshort⟩

/-- Fruitless attempts to receive change no byte. -/
theorem fruitless_tryReceive {x : Ring × Memory}
    (h : Fruitless (besides others) tryReceive (r, m) n x) :
    ∃ known : UInt64, x = ({ r with knownSent := known }, meanwhile others m n) := by
  induction h with
  | start => exact ⟨r.knownSent, rfl⟩
  | @next n _ x _ hnone ih =>
    obtain ⟨known, rfl⟩ := ih
    obtain ⟨known', heq | heq⟩ :=
      tryReceive_cases { r with knownSent := known } (meanwhile others m (n + 1))
    · cases hnone.symm.trans heq
    · cases hnone.symm.trans heq
      exact ⟨known', rfl⟩

/-- How a send that waits ends. -/
theorem ends_sendAmid {answer : Waited (Except Fault Unit)}
    (h : sendAmid others r msg clock timeout fuel m = (answer, r', m', n)) :
    ∃ brought, answer = ending (clock.allowed r.patience timeout) brought ∧
      Ends (besides others) (trySend msg) (r, m) (attempts fuel (clock.allowed r.patience timeout))
        brought ((r', m'), n) := by
  have hends :=
    ends_waitFor (besides others) (trySend msg) fuel (clock.allowed r.patience timeout) (r, m)
  rw [sendAmid] at h
  generalize waitFor (amid (besides others) (trySend msg)) fuel (clock.allowed r.patience timeout)
    ((r, m), 0) = run at h hends
  obtain ⟨ended, ⟨r₁, m₁⟩, n₁⟩ := run
  cases h
  exact hends

/-- How a receive that waits ends. -/
theorem ends_receiveAmid {answer : Waited Message}
    (h : receiveAmid others r clock timeout fuel m = (answer, r', m', n)) :
    ∃ brought, answer = ending (clock.allowed r.patience timeout) brought ∧
      Ends (besides others) tryReceive (r, m) (attempts fuel (clock.allowed r.patience timeout))
        brought ((r', m'), n) := by
  have hends :=
    ends_waitFor (besides others) tryReceive fuel (clock.allowed r.patience timeout) (r, m)
  rw [receiveAmid] at h
  generalize waitFor (amid (besides others) tryReceive) fuel (clock.allowed r.patience timeout)
    ((r, m), 0) = run at h hends
  obtain ⟨ended, ⟨r₁, m₁⟩, n₁⟩ := run
  cases h
  exact hends

/-- Whatever others do meanwhile, a message is appended once if it is sent, and else no byte
changes. A send gives up only after all its attempts. -/
theorem sentOnce_of_sendAmid {answer : Waited (Except Fault Unit)}
    (h : sendAmid others r msg clock timeout fuel m = (answer, r', m', n)) :
    SentOnce r msg (meanwhile others m n) answer m' ∧
      ((∀ sent, answer ≠ .got sent) →
        RunsOut (clock.allowed r.patience timeout) fuel answer n) := by
  obtain ⟨brought, rfl, hends⟩ := ends_sendAmid h
  cases hends with
  | @got k x _ ended _ hfruitless hsome =>
    obtain ⟨⟨known, rfl⟩, -⟩ := fruitless_trySend hfruitless
    rcases trySend_cases msg { r with knownReceived := known } (meanwhile others m (k + 1)) with
      ⟨hlong, heq⟩ | ⟨hshort, known', heq | heq⟩
    · -- the fault ends the wait as if it were a success
      cases hsome.symm.trans heq
      refine ⟨⟨nofun, fun _ => rfl, fun fault => ⟨?_, ?_⟩⟩, fun hnone => absurd rfl (hnone _)⟩
      · rintro ⟨⟩
        exact ⟨hlong, rfl⟩
      · rintro ⟨-, rfl⟩
        rfl
    · cases hsome.symm.trans heq
      exact ⟨⟨fun _ => rfl, fun hne => absurd rfl hne,
        fun fault => ⟨nofun, fun hlong => absurd hlong.1 hshort⟩⟩,
        fun hnone => absurd rfl (hnone _)⟩
    · cases hsome.symm.trans heq
  | expired hfruitless =>
    -- no attempt found room, so none wrote anything, and the message was not too long
    obtain ⟨⟨known, heq⟩, hshort⟩ := fruitless_trySend hfruitless
    cases heq
    have hnone := ranOut_ne_got (α := Except Fault Unit) (clock.allowed r.patience timeout)
    exact ⟨⟨fun hsent => absurd hsent (hnone _), fun _ => rfl,
      fun fault => ⟨fun hfault => absurd hfault (hnone _),
        fun hlong => absurd hlong.1 (hshort (attempts_pos ..))⟩⟩, fun _ => ⟨rfl, rfl⟩⟩

/-- Whatever others do meanwhile, the oldest message is taken once, or no byte changes. A receive
gives up only after all its attempts. -/
theorem takenOnce_of_receiveAmid {answer : Waited Message}
    (h : receiveAmid others r clock timeout fuel m = (answer, r', m', n)) :
    TakenOnce r (meanwhile others m n) answer m' ∧
      ((∀ msg, answer ≠ .got msg) →
        RunsOut (clock.allowed r.patience timeout) fuel answer n) := by
  obtain ⟨brought, rfl, hends⟩ := ends_receiveAmid h
  cases hends with
  | @got k x _ msg _ hfruitless hsome =>
    obtain ⟨known, rfl⟩ := fruitless_tryReceive hfruitless
    obtain ⟨known', heq | heq⟩ :=
      tryReceive_cases { r with knownSent := known } (meanwhile others m (k + 1))
    · cases hsome.symm.trans heq
      refine ⟨⟨?_, fun hnone => absurd rfl (hnone _)⟩, fun hnone => absurd rfl (hnone _)⟩
      rintro _ ⟨⟩
      exact ⟨rfl, rfl⟩
    · cases hsome.symm.trans heq
  | expired hfruitless =>
    obtain ⟨known, heq⟩ := fruitless_tryReceive hfruitless
    cases heq
    exact ⟨⟨fun msg htaken => absurd htaken (ranOut_ne_got _ msg), fun _ => rfl⟩,
      fun _ => ⟨rfl, rfl⟩⟩

/-! ## The queue meanwhile -/

/-- What a receiver makes of the object: it takes messages, one after the other. -/
inductive ReceiverWork (capacity : UInt64) (m : Memory) : Memory → Prop
  | rest : ReceiverWork capacity m m
  | receive {m' m'' : Memory} {q q' : Ring} {answer : Option Message}
    (h : ReceiverWork capacity m m') (hq : MayReceive capacity m' q)
    (hreceive : q.receive? m' = (answer, q', m'')) : ReceiverWork capacity m m''

/-- What a sender makes of the object: it sends messages, or tries to. -/
inductive SenderWork (capacity : UInt64) (m : Memory) : Memory → Prop
  | rest : SenderWork capacity m m
  | send {m' m'' : Memory} {q q' : Ring} {msg : Message} {answer : Except Fault Unit}
    (h : SenderWork capacity m m') (hq : MaySend capacity m' q)
    (hsend : q.send msg m' = (answer, q', m'')) : SenderWork capacity m m''

/-- A ring in order, from which its receiver may have taken messages. -/
structure Drained (capacity : UInt64) (m : Memory) (r : Ring) (m' : Memory) : Prop where
  turns : Turns capacity m'
  sends : MaySend capacity m' r
  suffix : messages capacity m' <:+ messages capacity m

/-- A ring in order, to which its sender may have sent messages. -/
structure Filled (capacity : UInt64) (m : Memory) (r : Ring) (m' : Memory) : Prop where
  turns : Turns capacity m'
  receives : MayReceive capacity m' r
  isPrefix : messages capacity m <+: messages capacity m'

/-- A receiver at work drains the ring further, and the sender may go on to send. -/
theorem Drained.work (h : Drained capacity m r m') {m'' : Memory}
    (hwork : ReceiverWork capacity m' m'') : Drained capacity m r m'' := by
  induction hwork with
  | rest => exact h
  | receive _ hq hreceive ih =>
    rename_i m₁ _ _ _ _ _
    cases hqueue : messages capacity m₁ with
    | nil =>
      obtain ⟨known, heq, -⟩ := hq.receive_nil hqueue
      cases hreceive.symm.trans heq
      exact ih
    | cons msg queue =>
      obtain ⟨known, heq, -, hrest, hsome⟩ := hq.receive_cons hqueue
      cases hreceive.symm.trans heq
      have hsuffix := ih.suffix
      rw [hqueue] at hsuffix
      refine ⟨ih.turns.advance hsome, ih.sends.advance hsome, ?_⟩
      rw [hrest]
      exact (List.suffix_cons msg queue).trans hsuffix

/-- A sender at work fills the ring further, and the receiver may go on to receive. -/
theorem Filled.work (h : Filled capacity m r m') {m'' : Memory}
    (hwork : SenderWork capacity m' m'') : Filled capacity m r m'' := by
  induction hwork with
  | rest => exact h
  | send _ hq hsend ih =>
    rename_i m₁ _ q _ msg _ _
    by_cases hlong : inlineLimit < msg.body.toBytes.length
    · cases hsend.symm.trans (send_tooLarge q m₁ hlong)
      exact ih
    by_cases hroom : (messages capacity m₁).length < capacity.toNat
    · obtain ⟨known, heq, -⟩ := ih.turns.send_room hq hlong hroom
      cases hsend.symm.trans heq
      refine ⟨ih.turns.append hroom, ih.receives.append hroom, ?_⟩
      rw [ih.turns.messages_append hq.capacity_eq hlong hroom]
      exact ih.isPrefix.trans (List.prefix_append _ _)
    · obtain ⟨known, heq, -⟩ := ih.turns.send_full hq hlong hroom
      cases hsend.symm.trans heq
      exact ih

/-- An attempt to send on a ring with room succeeds. -/
theorem Drained.trySend_room (h : Drained capacity m r m')
    (hshort : ¬inlineLimit < msg.body.toBytes.length)
    (hroom : (messages capacity m').length < capacity.toNat) :
    ∃ known : UInt64,
      trySend msg (r, m') = (some (.ok ()), { r with knownReceived := known }, r.append msg m') ∧
        messages capacity (r.append msg m') = messages capacity m' ++ [msg] := by
  obtain ⟨known, heq, -⟩ := h.turns.send_room h.sends hshort hroom
  refine ⟨known, ?_, h.turns.messages_append h.sends.capacity_eq hshort hroom⟩
  rw [trySend, heq]

/-- An attempt to send on a full ring leaves the sender as able to send. -/
theorem Drained.trySend_full (h : Drained capacity m r m')
    (hshort : ¬inlineLimit < msg.body.toBytes.length)
    (hfull : ¬(messages capacity m').length < capacity.toNat) :
    ∃ known : UInt64, trySend msg (r, m') = (none, { r with knownReceived := known }, m') ∧
      MaySend capacity m' { r with knownReceived := known } := by
  obtain ⟨known, heq, hsends⟩ := h.turns.send_full h.sends hshort hfull
  refine ⟨known, ?_, hsends⟩
  rw [trySend, heq]

/-- While a receiver is at work, fruitless attempts to send have found the ring full. -/
theorem drained_of_fruitless (hturns : Turns capacity m) (hr : MaySend capacity m r)
    (hothers : ∀ n, ReceiverWork capacity (meanwhile others m n) (meanwhile others m (n + 1)))
    {x : Ring × Memory} (h : Fruitless (besides others) (trySend msg) (r, m) n x) :
    Drained capacity m x.1 (meanwhile others m n) ∧
      (0 < n → ¬(messages capacity (meanwhile others m n)).length < capacity.toNat) := by
  -- the induction takes `h` apart, and that the message is short takes all of it
  have hleft := h
  induction h with
  | start => exact ⟨⟨hturns, hr, List.suffix_rfl⟩, fun h => absurd h (Nat.lt_irrefl 0)⟩
  | @next n x _ hprevious hnone ih =>
    obtain ⟨hdrained, -⟩ := ih hprevious
    obtain ⟨⟨known, rfl⟩, -⟩ := fruitless_trySend hprevious
    -- the copy of the receive count may be old by now, but there is only more room than it says
    have hwork := hdrained.work (hothers n)
    have hshort := (fruitless_trySend hleft).2 (Nat.succ_pos n)
    by_cases hroom : (messages capacity (meanwhile others m (n + 1))).length < capacity.toNat
    · obtain ⟨known', hattempt, -⟩ := hwork.trySend_room hshort hroom
      cases hnone.symm.trans hattempt
    · obtain ⟨known', hattempt, hsends⟩ := hwork.trySend_full hshort hroom
      cases hnone.symm.trans hattempt
      exact ⟨⟨hwork.turns, hsends, hwork.suffix⟩, fun _ => hroom⟩

/-- While a sender is at work, fruitless attempts to receive have found the ring empty. -/
theorem filled_of_fruitless (hturns : Turns capacity m) (hr : MayReceive capacity m r)
    (hothers : ∀ n, SenderWork capacity (meanwhile others m n) (meanwhile others m (n + 1)))
    {x : Ring × Memory} (h : Fruitless (besides others) tryReceive (r, m) n x) :
    Filled capacity m x.1 (meanwhile others m n) ∧
      (0 < n → messages capacity (meanwhile others m n) = []) := by
  induction h with
  | start => exact ⟨⟨hturns, hr, List.prefix_rfl⟩, fun h => absurd h (Nat.lt_irrefl 0)⟩
  | @next n x _ hprevious hnone ih =>
    obtain ⟨hfilled, -⟩ := ih
    obtain ⟨known, rfl⟩ := fruitless_tryReceive hprevious
    have hwork := hfilled.work (hothers n)
    cases hqueue : messages capacity (meanwhile others m (n + 1)) with
    | nil =>
      obtain ⟨known', heq, hreceives⟩ := hwork.receives.receive_nil hqueue
      cases hnone.symm.trans heq
      exact ⟨⟨hwork.turns, hreceives, hwork.isPrefix⟩, fun _ => rfl⟩
    | cons msg queue =>
      obtain ⟨known', heq, -⟩ := hwork.receives.receive_cons hqueue
      cases hnone.symm.trans heq

/-- What becomes of the pending messages in a send that waits, of which a receiver meanwhile has
left `left`: the message is behind these where there was room, and where it is not sent there was
none. -/
structure Enqueued (capacity : UInt64) (msg : Message) (queue left queue' : List Message)
    (answer : Waited (Except Fault Unit)) : Prop where
  suffix : left <:+ queue
  sent : answer = .got (.ok ()) → left.length < capacity.toNat ∧ queue' = left ++ [msg]
  full : (∀ sent, answer ≠ .got sent) → left.length = capacity.toNat ∧ queue' = left

/-- What becomes of the pending messages in a receive that waits, which a sender meanwhile has made
`come`: the first of these is taken, and where nothing is taken there was none. -/
structure Dequeued (queue come queue' : List Message) (answer : Waited Message) : Prop where
  isPrefix : queue <+: come
  taken : ∀ msg, answer = .got msg → come = msg :: queue'
  empty : (∀ msg, answer ≠ .got msg) → come = [] ∧ queue' = []

/-- On a ring in order, a message that is sent is behind those that the receiver has left, and a
message that is not sent finds the ring full to the end. -/
theorem enqueued_of_sendAmid (hturns : Turns capacity m) (hr : MaySend capacity m r)
    (hothers : ∀ n, ReceiverWork capacity (meanwhile others m n) (meanwhile others m (n + 1)))
    {answer : Waited (Except Fault Unit)}
    (h : sendAmid others r msg clock timeout fuel m = (answer, r', m', n)) :
    Enqueued capacity msg (messages capacity m) (messages capacity (meanwhile others m n))
      (messages capacity m') answer := by
  obtain ⟨brought, rfl, hends⟩ := ends_sendAmid h
  cases hends with
  | @got k x _ ended _ hfruitless hsome =>
    obtain ⟨hdrained, -⟩ := drained_of_fruitless hturns hr hothers hfruitless
    obtain ⟨⟨known, rfl⟩, -⟩ := fruitless_trySend hfruitless
    have hwork := hdrained.work (hothers k)
    rcases trySend_cases msg { r with knownReceived := known } (meanwhile others m (k + 1)) with
      ⟨-, heq⟩ | ⟨hshort, -⟩
    · cases hsome.symm.trans heq
      exact ⟨hwork.suffix, nofun, fun hnone => absurd rfl (hnone _)⟩
    by_cases hroom : (messages capacity (meanwhile others m (k + 1))).length < capacity.toNat
    · obtain ⟨known', heq, happended⟩ := hwork.trySend_room hshort hroom
      cases hsome.symm.trans heq
      exact ⟨hwork.suffix, fun _ => ⟨hroom, happended⟩, fun hnone => absurd rfl (hnone _)⟩
    · obtain ⟨known', heq, -⟩ := hwork.trySend_full hshort hroom
      cases hsome.symm.trans heq
  | expired hfruitless =>
    obtain ⟨hdrained, hfull⟩ := drained_of_fruitless hturns hr hothers hfruitless
    obtain ⟨⟨known, heq⟩, -⟩ := fruitless_trySend hfruitless
    cases heq
    -- the last attempt has found no room, and a ring never holds more than it has slots
    have hfew := hdrained.turns.few
    have hlength := hfull (attempts_pos ..)
    rw [length_messages] at hlength
    refine ⟨hdrained.suffix, fun hsent => absurd hsent (ranOut_ne_got _ _), fun _ => ⟨?_, rfl⟩⟩
    rw [length_messages]
    omega

/-- On a ring in order, the message that is taken is the first of those that the sender has made
pending, and where none is taken there was none to the end. -/
theorem dequeued_of_receiveAmid (hturns : Turns capacity m) (hr : MayReceive capacity m r)
    (hothers : ∀ n, SenderWork capacity (meanwhile others m n) (meanwhile others m (n + 1)))
    {answer : Waited Message}
    (h : receiveAmid others r clock timeout fuel m = (answer, r', m', n)) :
    Dequeued (messages capacity m) (messages capacity (meanwhile others m n)) (messages capacity m')
      answer := by
  obtain ⟨brought, rfl, hends⟩ := ends_receiveAmid h
  -- the wait ends with a message, or after attempts that all found none
  cases hends with
  | @got k x _ ended _ hfruitless hsome =>
    obtain ⟨hfilled, -⟩ := filled_of_fruitless hturns hr hothers hfruitless
    obtain ⟨known, rfl⟩ := fruitless_tryReceive hfruitless
    -- others may have sent since, and what they sent is behind
    have hwork := hfilled.work (hothers k)
    have hcome := hwork.isPrefix
    cases hqueue : messages capacity (meanwhile others m (k + 1)) with
    | nil =>
      obtain ⟨known', heq, -⟩ := hwork.receives.receive_nil hqueue
      cases hsome.symm.trans heq
    | cons msg queue =>
      obtain ⟨known', heq, -, hrest, -⟩ := hwork.receives.receive_cons hqueue
      cases hsome.symm.trans heq
      rw [hqueue] at hcome
      rw [hrest]
      refine ⟨hcome, ?_, fun hnone => absurd rfl (hnone _)⟩
      rintro _ ⟨⟩
      rfl
  | expired hfruitless =>
    obtain ⟨hfilled, hempty⟩ := filled_of_fruitless hturns hr hothers hfruitless
    obtain ⟨known, heq⟩ := fruitless_tryReceive hfruitless
    cases heq
    have hnone := hempty (attempts_pos ..)
    exact ⟨hfilled.isPrefix, fun msg htaken => absurd htaken (ranOut_ne_got _ msg),
      fun _ => ⟨hnone, hnone⟩⟩

/-- A receiver may come by once and take the only message. -/
theorem exists_taking (hr : MayReceive capacity m r) (hone : messages capacity m = [msg])
    (k : Nat) :
    ∃ others : Nat → Memory → Memory,
      (∀ n, ReceiverWork capacity (meanwhile others m n) (meanwhile others m (n + 1))) ∧
        ∀ n, messages capacity (meanwhile others m n) = if n ≤ k then [msg] else [] := by
  obtain ⟨known, hreceive, -, hrest, -⟩ := hr.receive_cons hone
  refine ⟨once k fun _ => advance m,
    rel_meanwhile_once (fun _ => .rest) (.receive .rest hr hreceive) k, fun n => ?_⟩
  rw [meanwhile_once, apply_ite (messages capacity), hone, hrest]

/-- A sender may come by once and send on an empty ring. -/
theorem exists_sending (hturns : Turns capacity m) (hr : MaySend capacity m r)
    (hnone : messages capacity m = []) (hroom : 0 < capacity.toNat) (msg : Message)
    (hshort : ¬inlineLimit < msg.body.toBytes.length) (k : Nat) :
    ∃ others : Nat → Memory → Memory,
      (∀ n, SenderWork capacity (meanwhile others m n) (meanwhile others m (n + 1))) ∧
        ∀ n, messages capacity (meanwhile others m n) = if n ≤ k then [] else [msg] := by
  have hroom : (messages capacity m).length < capacity.toNat := by rwa [hnone]
  obtain ⟨known, hsend, -⟩ := hturns.send_room hr hshort hroom
  refine ⟨once k fun _ => r.append msg m,
    rel_meanwhile_once (fun _ => .rest) (.send .rest hr hsend) k, fun n => ?_⟩
  rw [meanwhile_once, apply_ite (messages capacity), hnone,
    hturns.messages_append hr.capacity_eq hshort hroom, hnone, List.nil_append]

/-- A ring with one slot, empty. -/
theorem exists_empty_ring : ∃ (r : Ring) (m : Memory), r.capacity = 1 ∧ Turns 1 m ∧
    MaySend 1 m r ∧ MayReceive 1 m r ∧ messages 1 m = [] := by
  obtain ⟨r, d', hcreate⟩ : ∃ r d', create "events" 1 default Directory.empty = (.ok r, d') :=
    ⟨_, _, create_eq_ok_iff.2
      ⟨⟨0, rfl⟩, Directory.grants_empty (by decide) (by decide) (by decide), rfl, rfl⟩⟩
  have hserve := serve_of_create hcreate
  obtain ⟨-, -, hr, -, -⟩ := eq_of_create hcreate
  have hcapacity : r.capacity = 1 := by rw [hr]
  rw [hcapacity] at hserve
  exact ⟨r, _, hcapacity, hserve.turns, hserve.sends, hserve.receives, hserve.messages_eq⟩

/-- A ring with one slot, full. -/
theorem exists_full_ring (msg : Message) (hshort : ¬inlineLimit < msg.body.toBytes.length) :
    ∃ (r : Ring) (m : Memory), r.capacity = 1 ∧ Turns 1 m ∧ MaySend 1 m r ∧ MayReceive 1 m r ∧
      messages 1 m = [msg] := by
  obtain ⟨r, m, hcapacity, hturns, hsends, hreceives, hnone⟩ := exists_empty_ring
  have hroom : (messages 1 m).length < (1 : UInt64).toNat := by
    rw [hnone]
    decide
  obtain ⟨known, -, hsends'⟩ := hturns.send_room hsends hshort hroom
  have happended := hturns.messages_append hcapacity hshort hroom
  rw [hnone, List.nil_append] at happended
  exact ⟨{ r with knownReceived := known }, r.append msg m, hcapacity, hturns.append hroom, hsends',
    ⟨hcapacity, (hreceives.append hroom).le_pending⟩, happended⟩

/-- Whatever the clock and its pace, a wait makes its attempt until it first yields something and
not once more: without a deadline however many attempts that takes, and without any time no more
than twice.

So a send that waits for room appends its message once or not at all, and a receive that waits takes
the oldest message or nothing, on every object and through every handle, and whatever others do
meanwhile. On a ring in order, with nobody else or the other party at work on it, the pending
messages are then those that this party has left, with the message behind them or without their
first. -/
theorem waits_act_once {α σ : Type} (attempt : σ → Option α × σ) (s : σ) (clock : Clock)
    (patience : Patience) (timeout : Option Nat) (fuel : Nat) (r : Ring) (msg : Message)
    (m : Memory) (others : Nat → Memory → Memory) :
    (let allowed := clock.allowed patience timeout
     let run := waitFor (amid nobody attempt) fuel allowed (s, 0)
     waitFor attempt fuel allowed s = (run.1, run.2.1) ∧ StopsAtFirst attempt s run ∧
     ((∀ a, run.1 ≠ .got a) → RunsOut allowed fuel run.1 run.2.2) ∧
     (timeout = none → ∀ k s' a s'', Fruitless nobody attempt s k s' →
       attempt s' = (some a, s'') → k ≤ fuel → run = (.got a, s'', k + 1)) ∧
     (timeout = some 0 → run.2.2 ≤ 2)) ∧
    (let sent := r.sendWithin msg clock timeout fuel m
     let received := r.receiveWithin clock timeout fuel m
     let queue := messages r.capacity m
     SentOnce r msg m sent.1 sent.2.2 ∧ TakenOnce r m received.1 received.2.2 ∧
     (Turns r.capacity m → MaySend r.capacity m r →
       Enqueued r.capacity msg queue queue (messages r.capacity sent.2.2) sent.1) ∧
     (Turns r.capacity m → MayReceive r.capacity m r →
       Dequeued queue queue (messages r.capacity received.2.2) received.1)) ∧
    (∀ answer r' m' n, sendAmid others r msg clock timeout fuel m = (answer, r', m', n) →
      SentOnce r msg (meanwhile others m n) answer m' ∧
      ((∀ sent, answer ≠ .got sent) →
        RunsOut (clock.allowed r.patience timeout) fuel answer n) ∧
      (Turns r.capacity m → MaySend r.capacity m r →
        (∀ k, ReceiverWork r.capacity (meanwhile others m k) (meanwhile others m (k + 1))) →
        Enqueued r.capacity msg (messages r.capacity m)
          (messages r.capacity (meanwhile others m n)) (messages r.capacity m') answer)) ∧
    (∀ answer r' m' n, receiveAmid others r clock timeout fuel m = (answer, r', m', n) →
      TakenOnce r (meanwhile others m n) answer m' ∧
      ((∀ taken, answer ≠ .got taken) →
        RunsOut (clock.allowed r.patience timeout) fuel answer n) ∧
      (Turns r.capacity m → MayReceive r.capacity m r →
        (∀ k, SenderWork r.capacity (meanwhile others m k) (meanwhile others m (k + 1))) →
        Dequeued (messages r.capacity m) (messages r.capacity (meanwhile others m n))
          (messages r.capacity m') answer)) := by
  obtain ⟨sends, hsend⟩ := exists_sendAmid_nobody r msg clock timeout fuel m
  obtain ⟨receives, hreceive⟩ := exists_receiveAmid_nobody r clock timeout fuel m
  -- with nobody around, a wait among others is the wait itself
  have hsent := (sentOnce_of_sendAmid hsend).1
  have htaken := (takenOnce_of_receiveAmid hreceive).1
  rw [meanwhile_nobody] at hsent htaken
  refine ⟨⟨?_, stopsAtFirst_waitFor .., ?_, ?_, ?_⟩, ⟨hsent, htaken, ?_, ?_⟩, ?_, ?_⟩
  · rw [← waitFor_amid_nobody]
    rfl
  · exact runsOut_waitFor nobody attempt fuel (clock.allowed patience timeout) s
  · rintro rfl k s' a s'' hfruitless hsome hfuel
    exact waitFor_of_first hfruitless hsome (Nat.lt_succ_of_le hfuel)
  · rintro rfl
    obtain ⟨_, -, hends⟩ := ends_waitFor nobody attempt fuel (clock.allowed patience (some 0)) s
    have hle := hends.le
    rwa [attempts_of_no_time] at hle
  · intro hturns hr
    have henqueued := enqueued_of_sendAmid hturns hr (fun _ => .rest) hsend
    rwa [meanwhile_nobody] at henqueued
  · intro hturns hr
    have hdequeued := dequeued_of_receiveAmid hturns hr (fun _ => .rest) hreceive
    rwa [meanwhile_nobody] at hdequeued
  · intro answer r' m' n h
    obtain ⟨honce, hlast⟩ := sentOnce_of_sendAmid h
    exact ⟨honce, hlast, fun hturns hr hothers => enqueued_of_sendAmid hturns hr hothers h⟩
  · intro answer r' m' n h
    obtain ⟨honce, hlast⟩ := takenOnce_of_receiveAmid h
    exact ⟨honce, hlast, fun hturns hr hothers => dequeued_of_receiveAmid hturns hr hothers h⟩

/-- A message gets into a full ring with one slot because the receiver empties it after two attempts
to send, and a receive without time finds the message that is sent after its first attempt. -/
theorem waits_act_once_in_time :
    let note (request : UInt64) : Message := ⟨⟨0, 0, request⟩, .inline []⟩
    let third (calls : Nat) : Option Nat × Nat :=
      (if calls = 2 then some calls else none, calls + 1)
    waitFor (amid nobody third) 2 (Clock.brisk.allowed .standard none) (0, 0) = (.got 2, 3, 3) ∧
    (∃ others r m r' m' n, messages 1 m = [note 1] ∧
      (∀ k, messages 1 (meanwhile others m k) = if k ≤ 2 then [note 1] else []) ∧
      sendAmid others r (note 2) .brisk none 3 m = (.got (.ok ()), r', m', n) ∧
      messages 1 m' = [note 2]) ∧
    (∃ others r m r' m' n, messages 1 m = [] ∧
      (∀ k, messages 1 (meanwhile others m k) = if k ≤ 1 then [] else [note 1]) ∧
      receiveAmid others r .brisk (some 0) 0 m = (.got (note 1), r', m', n) ∧
      messages 1 m' = []) := by
  intro note third
  obtain ⟨r, empty, hcapacity, hturns, hsends, hreceives, hnone⟩ := exists_empty_ring
  refine ⟨?_, ?_, ?_⟩
  · -- two attempts of `third` are fruitless, and there is fuel for two rounds
    obtain ⟨⟨-, -, -, hfirst, -⟩, -⟩ :=
      waits_act_once third 0 .brisk .standard none 2 r (note 1) empty nobody
    exact hfirst rfl 2 2 2 3 (.next (.next .start rfl) rfl) rfl (Nat.le_refl 2)
  · obtain ⟨r, full, hcapacity, hturns, hsends, hreceives, hone⟩ :=
      exists_full_ring (note 1) (by decide)
    obtain ⟨others, hwork, hleft⟩ := exists_taking hreceives hone 2
    rcases hrun : sendAmid others r (note 2) .brisk none 3 full with ⟨answer, r', m', n⟩
    obtain ⟨-, -, hsent, -⟩ :=
      waits_act_once third 0 .brisk .standard none 3 r (note 2) full others
    obtain ⟨honce, hlast, hqueue⟩ := hsent answer r' m' n hrun
    rw [hcapacity, hleft] at hqueue
    have henqueued := hqueue hturns hsends hwork
    have hok : answer = .got (.ok ()) := by
      by_contra hunsent
      have hnone : ∀ sent, answer ≠ .got sent := by
        rintro (fault | _) rfl
        · exact absurd ((honce.error_iff fault).1 rfl).1 (by decide)
        · exact hunsent rfl
      -- the last of four attempts would have found an empty ring full
      have hn : n = 4 := (hlast hnone).calls_eq
      have hfull := (henqueued.full hnone).1
      rw [hn, if_neg (by decide)] at hfull
      cases hfull
    subst hok
    obtain ⟨hroom, hlist⟩ := henqueued.sent rfl
    refine ⟨others, r, full, r', m', n, hone, hleft, hrun, ?_⟩
    by_cases hearly : n ≤ 2
    · rw [if_pos hearly] at hroom
      exact absurd hroom (by decide)
    · rwa [if_neg hearly] at hlist
  · obtain ⟨others, hwork, hcome⟩ :=
      exists_sending hturns hsends hnone (by decide) (note 1) (by decide) 1
    rcases hrun : receiveAmid others r .brisk (some 0) 0 empty with ⟨answer, r', m', n⟩
    obtain ⟨-, -, -, hreceived⟩ :=
      waits_act_once third 0 .brisk .standard (some 0) 0 r (note 1) empty others
    obtain ⟨-, hlast, hqueue⟩ := hreceived answer r' m' n hrun
    rw [hcapacity, hcome] at hqueue
    have hdequeued := hqueue hturns hreceives hwork
    by_cases hanswer : ∃ msg, answer = .got msg
    · obtain ⟨msg, rfl⟩ := hanswer
      have htaken := hdequeued.taken msg rfl
      by_cases hearly : n ≤ 1
      · rw [if_pos hearly] at htaken
        cases htaken
      · rw [if_neg hearly] at htaken
        obtain ⟨rfl, hrest⟩ := List.cons.inj htaken
        exact ⟨others, r, empty, r', m', n, hnone, hcome, hrun, hrest.symm⟩
    · -- the second of two attempts would have found nothing
      have hnothing := not_exists.1 hanswer
      have hn : n = 2 := (hlast hnothing).calls_eq.trans (attempts_of_no_time 0 ..)
      have hempty := (hdequeued.empty hnothing).1
      rw [hn, if_neg (by decide)] at hempty
      cases hempty

end SharedExchange.Ring
