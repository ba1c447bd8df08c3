import Mathlib.Tactic
import SharedExchange.Proofs.Ring.Traffic

/-! # A ring goes round

The counts of a ring are words, so they start over at zero after 2⁶⁴ messages. Nothing else starts
over with them: the number of slots is a power of two, so the slots go on in turn (`slotAt_add`),
and the parties use nothing but differences of counts. `Turns` and `messages` say the same of a ring
as `Holds`, without a bound on how many messages were ever sent.

`MaySend` and `MayReceive` say how stale the copies of a handle may be, as distances between counts.
What keeps them is said once for each of the three things that happen to a ring: a handle looks at
it again, a message is appended, and the oldest one is given back. -/

namespace SharedExchange.Ring

/-- How many messages lie between two counts. -/
def distance (earlier later : UInt64) : Nat := (later - earlier).toNat

/-- The pending messages, oldest first, as they stand in the slots. -/
def messages (capacity : UInt64) (m : Memory) : List Message :=
  (List.range (distance (m.load64 receivedAt) (m.load64 sentAt))).map fun i =>
    Message.load (slotAt capacity.toNat (m.load64 receivedAt + UInt64.ofNat i).toNat) m

/-- What always holds of the object of a ring with `capacity` slots. -/
structure Turns (capacity : UInt64) (m : Memory) : Prop where
  isPowerOfTwo : capacity.toNat.isPowerOfTwo
  capacity_eq : m.load64 capacityAt = capacity
  few : distance (m.load64 receivedAt) (m.load64 sentAt) ≤ capacity.toNat

/-- A handle that may send: those it does not know to be received are all that are pending, and
maybe more, but not more than there are slots. -/
structure MaySend (capacity : UInt64) (m : Memory) (r : Ring) : Prop where
  capacity_eq : r.capacity = capacity
  pending_le : distance (m.load64 receivedAt) (m.load64 sentAt) ≤
    distance r.knownReceived (m.load64 sentAt)
  few : distance r.knownReceived (m.load64 sentAt) ≤ capacity.toNat

/-- A handle that may receive: those it knows to be sent are pending, or not all that are. -/
structure MayReceive (capacity : UInt64) (m : Memory) (r : Ring) : Prop where
  capacity_eq : r.capacity = capacity
  le_pending : distance (m.load64 receivedAt) r.knownSent ≤
    distance (m.load64 receivedAt) (m.load64 sentAt)

/-! ## Counts as words -/

/-- There is nothing between a count and itself. -/
@[simp] theorem distance_self (count : UInt64) : distance count count = 0 := by
  rw [distance, UInt64.sub_self]
  rfl

/-- There is nothing between two counts exactly when they are the same. -/
theorem distance_eq_zero_iff {earlier later : UInt64} :
    distance earlier later = 0 ↔ later = earlier := by
  have hearlier := earlier.toNat_lt
  have hlater := later.toNat_lt
  rw [← UInt64.toNat_inj, distance, UInt64.toNat_sub]
  omega

/-- One message more. -/
theorem distance_add_one {earlier later n : UInt64} (h : distance earlier later < n.toNat) :
    distance earlier (later + 1) = distance earlier later + 1 := by
  have hn := n.toNat_lt
  have hearlier := earlier.toNat_lt
  have hlater := later.toNat_lt
  simp only [distance, UInt64.toNat_sub, UInt64.toNat_add, UInt64.toNat_one] at h ⊢
  omega

/-- One message less. -/
theorem distance_succ {earlier later : UInt64} (h : later ≠ earlier) :
    distance (earlier + 1) later + 1 = distance earlier later := by
  have hne : later.toNat ≠ earlier.toNat := fun heq => h (UInt64.toNat_inj.1 heq)
  have hearlier := earlier.toNat_lt
  have hlater := later.toNat_lt
  simp only [distance, UInt64.toNat_sub, UInt64.toNat_add, UInt64.toNat_one]
  omega

/-- The later count is as far behind the earlier one as the distance says. -/
theorem add_distance (earlier later : UInt64) :
    earlier + UInt64.ofNat (distance earlier later) = later := by
  rw [distance, UInt64.ofNat_toNat, UInt64.add_comm, UInt64.sub_add_cancel]

/-- Slots come in turn, also where the counts start over. -/
theorem slotAt_add {capacity : UInt64} (h : capacity.toNat.isPowerOfTwo) (count : UInt64)
    (n : Nat) : slotAt capacity.toNat (count + UInt64.ofNat n).toNat =
      slotAt capacity.toNat (count.toNat + n) := by
  obtain ⟨k, hk⟩ := h
  -- a whole number of rounds fits into the numbers of 64 bits
  have hdvd : capacity.toNat ∣ 2 ^ 64 := by
    have hlt := capacity.toNat_lt
    rw [hk] at hlt ⊢
    exact Nat.pow_dvd_pow 2 (Nat.le_of_lt ((Nat.pow_lt_pow_iff_right (by decide)).1 hlt))
  rw [slotAt, slotAt, UInt64.toNat_add, UInt64.toNat_ofNat', Nat.add_mod_mod,
    Nat.mod_mod_of_dvd _ hdvd]

variable {capacity : UInt64} {m : Memory} {msg : Message} {r s : Ring}

/-- As many messages are pending as were sent and not received. -/
@[simp] theorem length_messages : (messages capacity m).length =
    distance (m.load64 receivedAt) (m.load64 sentAt) := by
  rw [messages, List.length_map, List.length_range]

/-! ## Looking again -/

/-- The old copy or the count itself decides whether there is room, and the copy that is kept says
the same when it is asked again. -/
theorem Turns.hasRoom_eq (h : Turns capacity m) (hr : MaySend capacity m r) :
    ∃ known : UInt64, r.hasRoom m = (decide ((messages capacity m).length < capacity.toNat),
        { r with knownReceived := known }) ∧
      MaySend capacity m { r with knownReceived := known } ∧
      ((messages capacity m).length < capacity.toNat →
        distance known (m.load64 sentAt) < capacity.toNat) := by
  obtain ⟨rfl, hpending, hfew⟩ := hr
  rw [hasRoom, length_messages]
  by_cases htrust : m.load64 sentAt - r.knownReceived < r.capacity
  · rw [if_pos htrust]
    rw [UInt64.lt_iff_toNat_lt, ← distance] at htrust
    refine ⟨r.knownReceived, ?_, ⟨rfl, hpending, hfew⟩, fun _ => htrust⟩
    rw [decide_eq_true (hpending.trans_lt htrust)]
  · rw [if_neg htrust]
    refine ⟨m.load64 receivedAt, ?_, ⟨rfl, Nat.le_refl _, h.few⟩, id⟩
    exact Prod.ext (decide_eq_decide.2 UInt64.lt_iff_toNat_lt) rfl

/-- The old copy or the count itself decides whether there is a message. -/
theorem MayReceive.hasMessage_eq (hr : MayReceive capacity m r) :
    ∃ known : UInt64, r.hasMessage (m.load64 receivedAt) m =
        (decide (m.load64 sentAt ≠ m.load64 receivedAt), { r with knownSent := known }) ∧
      MayReceive capacity m { r with knownSent := known } ∧
      (m.load64 sentAt ≠ m.load64 receivedAt → known ≠ m.load64 receivedAt) := by
  rw [hasMessage]
  by_cases htrust : m.load64 receivedAt ≠ r.knownSent
  · -- a copy that is ahead of the receive count is not behind the send count
    have hne : m.load64 sentAt ≠ m.load64 receivedAt := by
      intro heq
      have hle := hr.le_pending
      rw [heq, distance_self, Nat.le_zero, distance_eq_zero_iff] at hle
      exact htrust hle.symm
    rw [if_pos htrust]
    refine ⟨r.knownSent, ?_, hr, fun _ => htrust.symm⟩
    rw [decide_eq_true hne]
  · rw [if_neg htrust]
    refine ⟨m.load64 sentAt, ?_, ⟨hr.capacity_eq, Nat.le_refl _⟩, id⟩
    simp only [ne_eq, eq_comm]

/-! ## A message more -/

/-- Appending a message leaves the count of those that were received. -/
theorem load64_received_append (r : Ring) (msg : Message) (m : Memory) :
    (r.append msg m).load64 receivedAt = m.load64 receivedAt :=
  load64_append _ _ _ (by decide) (by decide)

/-- While there is room, the message is behind the pending ones, whose slots are others. -/
theorem Turns.messages_append (h : Turns capacity m) (hr : r.capacity = capacity)
    (hshort : ¬inlineLimit < msg.body.toBytes.length)
    (hroom : (messages capacity m).length < capacity.toNat) :
    messages capacity (r.append msg m) = messages capacity m ++ [msg] := by
  subst hr
  rw [length_messages] at hroom
  rw [messages, load64_received_append, load64_sent_append, distance_add_one hroom, List.range_succ,
    List.map_append, List.map_singleton, add_distance, load_append_same r m hshort, messages]
  refine congrArg (· ++ [msg]) (List.map_congr_left fun i hi => ?_)
  -- the messages that were pending have numbers less than a round before the new one
  have hlt := List.mem_range.1 hi
  have hsent := slotAt_add h.isPowerOfTwo (m.load64 receivedAt)
    (distance (m.load64 receivedAt) (m.load64 sentAt))
  rw [add_distance] at hsent
  rw [slotAt_add h.isPowerOfTwo]
  exact load_append_of_near r m hshort hsent.symm (by omega) (by omega)

/-- Where there is room, a message can be appended in turn. -/
theorem Turns.append (h : Turns capacity m)
    (hroom : (messages capacity m).length < capacity.toNat) : Turns capacity (r.append msg m) := by
  rw [length_messages] at hroom
  refine ⟨h.isPowerOfTwo, ?_, ?_⟩
  · rw [load64_append _ _ _ (by decide) (by decide), h.capacity_eq]
  · rw [load64_received_append, load64_sent_append, distance_add_one hroom]
    exact hroom

/-- After a message was appended, a sender may still send. -/
theorem MaySend.append (hs : MaySend capacity m s)
    (hroom : distance s.knownReceived (m.load64 sentAt) < capacity.toNat) :
    MaySend capacity (r.append msg m) s := by
  refine ⟨hs.capacity_eq, ?_, ?_⟩
  · rw [load64_received_append, load64_sent_append, distance_add_one hroom,
      distance_add_one (hs.pending_le.trans_lt hroom)]
    exact Nat.succ_le_succ hs.pending_le
  · rw [load64_sent_append, distance_add_one hroom]
    exact hroom

/-- After a message was appended, a receiver may still receive. -/
theorem MayReceive.append (hs : MayReceive capacity m s)
    (hroom : (messages capacity m).length < capacity.toNat) :
    MayReceive capacity (r.append msg m) s := by
  rw [length_messages] at hroom
  refine ⟨hs.capacity_eq, ?_⟩
  rw [load64_received_append, load64_sent_append, distance_add_one hroom]
  exact hs.le_pending.trans (Nat.le_succ _)

/-- Sending while there is room. -/
theorem Turns.send_room (h : Turns capacity m) (hr : MaySend capacity m r)
    (hshort : ¬inlineLimit < msg.body.toBytes.length)
    (hroom : (messages capacity m).length < capacity.toNat) :
    ∃ known : UInt64, r.send msg m = (.ok (), { r with knownReceived := known }, r.append msg m) ∧
      MaySend capacity (r.append msg m) { r with knownReceived := known } := by
  obtain ⟨known, hfound, hknown, hfree⟩ := h.hasRoom_eq hr
  refine ⟨known, ?_, hknown.append (hfree hroom)⟩
  rw [send, if_neg hshort, hfound, decide_eq_true hroom]
  rfl

/-- Sending when there is none. -/
theorem Turns.send_full (h : Turns capacity m) (hr : MaySend capacity m r)
    (hshort : ¬inlineLimit < msg.body.toBytes.length)
    (hfull : ¬(messages capacity m).length < capacity.toNat) :
    ∃ known : UInt64, r.send msg m = (.error .ringFull, { r with knownReceived := known }, m) ∧
      MaySend capacity m { r with knownReceived := known } := by
  obtain ⟨known, hfound, hknown, -⟩ := h.hasRoom_eq hr
  refine ⟨known, ?_, hknown⟩
  rw [send, if_neg hshort, hfound, decide_eq_false hfull]
  rfl

/-! ## A message less -/

/-- The memory after the slot of the oldest message has been given back. -/
def advance (m : Memory) : Memory := m.store64 receivedAt (m.load64 receivedAt + 1)

/-- Taking a message raises the count of those that were received. -/
@[simp] theorem load64_received_advance (m : Memory) :
    (advance m).load64 receivedAt = m.load64 receivedAt + 1 := Memory.load64_store64_same ..

/-- Taking a message leaves the count of those that were sent. -/
@[simp] theorem load64_sent_advance (m : Memory) :
    (advance m).load64 sentAt = m.load64 sentAt :=
  Memory.load64_store64_of_disjoint _ _ (.inl (by decide))

/-- The oldest message leaves, and the others stay in their slots. -/
theorem messages_advance (capacity : UInt64) (h : m.load64 sentAt ≠ m.load64 receivedAt) :
    messages capacity m =
      Message.load (slotAt capacity.toNat (m.load64 receivedAt).toNat) m ::
        messages capacity (advance m) := by
  rw [messages, ← distance_succ h, List.range_succ_eq_map, List.map_cons, List.map_map, messages,
    load64_received_advance, load64_sent_advance]
  refine congrArg₂ List.cons ?_ (List.map_congr_left fun i _ => ?_)
  · rw [show UInt64.ofNat 0 = 0 from rfl, UInt64.add_zero]
  · rw [advance, load_store64 _ _ _ _ (by decide), Function.comp_apply, Nat.succ_eq_add_one,
      UInt64.ofNat_add, UInt64.add_assoc, UInt64.add_comm 1]
    rfl

/-- Where a message is pending, it can be taken in turn. -/
theorem Turns.advance (h : Turns capacity m) (hsome : m.load64 sentAt ≠ m.load64 receivedAt) :
    Turns capacity (Ring.advance m) := by
  have hless := distance_succ hsome
  have hfew := h.few
  refine ⟨h.isPowerOfTwo, ?_, ?_⟩
  · rw [Ring.advance, Memory.load64_store64_of_disjoint _ _ (.inl (by decide)), h.capacity_eq]
  · rw [load64_received_advance, load64_sent_advance]
    omega

/-- After a message was taken, a sender may still send. -/
theorem MaySend.advance (hs : MaySend capacity m s)
    (hsome : m.load64 sentAt ≠ m.load64 receivedAt) : MaySend capacity (Ring.advance m) s := by
  have hless := distance_succ hsome
  have hpending := hs.pending_le
  refine ⟨hs.capacity_eq, ?_, ?_⟩
  · rw [load64_received_advance, load64_sent_advance]
    omega
  · rw [load64_sent_advance]
    exact hs.few

/-- After a message was taken, a receiver may still receive. -/
theorem MayReceive.advance (hs : MayReceive capacity m s)
    (hsome : m.load64 sentAt ≠ m.load64 receivedAt)
    (hknown : s.knownSent ≠ m.load64 receivedAt) : MayReceive capacity (Ring.advance m) s := by
  have hless := distance_succ hsome
  have hahead := distance_succ hknown
  have hle := hs.le_pending
  refine ⟨hs.capacity_eq, ?_⟩
  rw [load64_received_advance, load64_sent_advance]
  omega

/-- Nothing is pending exactly when all that was sent was received. -/
theorem messages_eq_nil_iff : messages capacity m = [] ↔ m.load64 sentAt = m.load64 receivedAt := by
  rw [← List.length_eq_zero_iff, length_messages, distance_eq_zero_iff]

/-- Nothing is received when nothing is pending. -/
theorem MayReceive.receive_nil (hr : MayReceive capacity m r) (hnone : messages capacity m = []) :
    ∃ known : UInt64, r.receive? m = (none, { r with knownSent := known }, m) ∧
      MayReceive capacity m { r with knownSent := known } := by
  obtain ⟨known, hfound, hknown, -⟩ := hr.hasMessage_eq
  refine ⟨known, ?_, hknown⟩
  rw [receive?, receiveWith?]
  simp only [hfound, decide_eq_false (not_not.2 (messages_eq_nil_iff.1 hnone))]
  rfl

/-- The oldest pending message is received. -/
theorem MayReceive.receive_cons (hr : MayReceive capacity m r) {queue : List Message}
    (hsome : messages capacity m = msg :: queue) :
    ∃ known : UInt64,
      r.receive? m = (some msg, { r with knownSent := known }, Ring.advance m) ∧
      MayReceive capacity (Ring.advance m) { r with knownSent := known } ∧
      messages capacity (Ring.advance m) = queue ∧ m.load64 sentAt ≠ m.load64 receivedAt := by
  obtain ⟨known, hfound, hknown, hahead⟩ := hr.hasMessage_eq
  have hne : m.load64 sentAt ≠ m.load64 receivedAt := by
    intro heq
    rw [messages_eq_nil_iff.2 heq] at hsome
    cases hsome
  have hqueue := messages_advance capacity hne
  rw [hsome] at hqueue
  obtain ⟨hfirst, hrest⟩ := List.cons.inj hqueue
  refine ⟨known, ?_, hknown.advance hne (hahead hne), hrest.symm, hne⟩
  rw [receive?, receiveWith?]
  simp only [hfound, decide_eq_true hne, slot_eq, hr.capacity_eq, hfirst]
  rfl

/-! ## The parties -/

/-- The parties serve the ring of an object, on which the messages of `queue` are pending, oldest
first. -/
structure Parties.Serve (object : ObjectId) (capacity : UInt64) (m : Memory) (queue : List Message)
    (p : Parties) : Prop where
  turns : Turns capacity m
  messages_eq : messages capacity m = queue
  sender_object : p.sender.attachment.object = object
  receiver_object : p.receiver.attachment.object = object
  sends : MaySend capacity m p.sender
  receives : MayReceive capacity m p.receiver

namespace Parties.Serve

variable {object : ObjectId} {queue : List Message} {p : Parties}

/-- The sender has looked at the ring again. -/
theorem looked (h : Serve object capacity m queue p) {known : UInt64}
    (hsends : MaySend capacity m { p.sender with knownReceived := known }) :
    Serve object capacity m queue (p.setSender { p.sender with knownReceived := known }) := by
  obtain ⟨hturns, hmessages, hs, hr, -, hreceives⟩ := h
  cases p with
  | alone r => exact ⟨hturns, hmessages, hs, hs, hsends, ⟨hreceives.1, hreceives.2⟩⟩
  | pair s r => exact ⟨hturns, hmessages, hs, hr, hsends, hreceives⟩

/-- The sender has put a message behind the pending ones. -/
theorem appended (h : Serve object capacity m queue p) {known : UInt64}
    (hshort : ¬inlineLimit < msg.body.toBytes.length)
    (hroom : (messages capacity m).length < capacity.toNat)
    (hsends : MaySend capacity (p.sender.append msg m) { p.sender with knownReceived := known }) :
    Serve object capacity (p.sender.append msg m) (queue ++ [msg])
      (p.setSender { p.sender with knownReceived := known }) := by
  obtain ⟨hturns, hmessages, hs, hr, hold, hreceives⟩ := h
  have happended := hturns.messages_append hold.capacity_eq hshort hroom
  rw [hmessages] at happended
  have hreceiver : MayReceive capacity (p.sender.append msg m) p.receiver := hreceives.append hroom
  cases p with
  | alone r => exact ⟨hturns.append hroom, happended, hs, hs, hsends, ⟨hreceiver.1, hreceiver.2⟩⟩
  | pair s r => exact ⟨hturns.append hroom, happended, hs, hr, hsends, hreceiver⟩

/-- Sending puts the message behind the pending ones or, if it is refused, changes no byte. -/
theorem send (h : Serve object capacity m queue p) (msg : Message) :
    (∃ fault s, p.sender.send msg m = (.error fault, s, m) ∧
        Serve object capacity m queue (p.setSender s)) ∨
      ∃ s m', p.sender.send msg m = (.ok (), s, m') ∧
        Serve object capacity m' (queue ++ [msg]) (p.setSender s) := by
  by_cases hlong : inlineLimit < msg.body.toBytes.length
  · refine .inl ⟨_, _, send_tooLarge _ _ hlong, ?_⟩
    have hsends : MaySend capacity m { p.sender with knownReceived := p.sender.knownReceived } :=
      h.sends
    exact h.looked hsends
  by_cases hroom : (messages capacity m).length < capacity.toNat
  · obtain ⟨known, heq, hknown⟩ := h.turns.send_room h.sends hlong hroom
    exact .inr ⟨_, _, heq, h.appended hlong hroom hknown⟩
  · obtain ⟨known, heq, hknown⟩ := h.turns.send_full h.sends hlong hroom
    exact .inl ⟨_, _, heq, h.looked hknown⟩

/-- Nothing is received when nothing is pending. -/
theorem receive_nil (h : Serve object capacity m [] p) :
    ∃ r, p.receiver.receive? m = (none, r, m) ∧ Serve object capacity m [] (p.setReceiver r) := by
  obtain ⟨hturns, hmessages, hs, hr, hsends, hreceives⟩ := h
  obtain ⟨known, heq, hknown⟩ := hreceives.receive_nil hmessages
  refine ⟨_, heq, ?_⟩
  cases p with
  | alone r =>
    exact ⟨hturns, hmessages, hs, hs, ⟨hsends.1, hsends.2, hsends.3⟩, hknown⟩
  | pair s r => exact ⟨hturns, hmessages, hs, hr, hsends, hknown⟩

/-- Receiving takes the oldest pending message. -/
theorem receive_cons (h : Serve object capacity m (msg :: queue) p) :
    ∃ r m', p.receiver.receive? m = (some msg, r, m') ∧
      Serve object capacity m' queue (p.setReceiver r) := by
  obtain ⟨hturns, hmessages, hs, hr, hsends, hreceives⟩ := h
  obtain ⟨known, heq, hknown, hqueue, hsome⟩ := hreceives.receive_cons hmessages
  refine ⟨_, _, heq, ?_⟩
  have hsender := hsends.advance hsome
  cases p with
  | alone r =>
    exact ⟨hturns.advance hsome, hqueue, hs, hs, ⟨hsender.1, hsender.2, hsender.3⟩, hknown⟩
  | pair s r => exact ⟨hturns.advance hsome, hqueue, hs, hr, hsender, hknown⟩

/-- A handle that was just opened can take over either role, or both. -/
theorem replace (h : Serve object capacity m queue p) (hobject : r.attachment.object = object)
    (hsends : MaySend capacity m r) (hreceives : MayReceive capacity m r) (role : Role) :
    Serve object capacity m queue (p.replace r role) := by
  obtain ⟨hturns, hmessages, hs, hr, hsender, hreceiver⟩ := h
  cases role with
  | sender => exact ⟨hturns, hmessages, hobject, hr, hsends, hreceiver⟩
  | receiver => exact ⟨hturns, hmessages, hs, hobject, hsender, hreceives⟩
  | both => exact ⟨hturns, hmessages, hobject, hobject, hsends, hreceives⟩

end Parties.Serve

/-! ## Making and opening -/

/-- A handle on an existing ring starts with the counts as they are. -/
theorem eq_of_attach {name : String} {patience : Patience} {d d' : Directory}
    (h : attach name patience d = (.ok r, d')) :
    r.capacity = (d.memory r.attachment.object).load64 capacityAt ∧
      r.knownReceived = (d.memory r.attachment.object).load64 receivedAt ∧
      r.knownSent = (d.memory r.attachment.object).load64 sentAt := by
  obtain ⟨⟨a, -, rfl⟩, -⟩ := attach_eq_ok_iff.1 h
  exact ⟨rfl, rfl, rfl⟩

/-- Whoever opens a ring can send and receive. -/
theorem Turns.attach (h : Turns capacity m) {name : String} {patience : Patience} {d : Directory}
    {d' : Directory} (hr : Ring.attach name patience d = (.ok r, d'))
    (hm : d.memory r.attachment.object = m) :
    MaySend capacity m r ∧ MayReceive capacity m r := by
  obtain ⟨hcapacity, hreceived, hsent⟩ := eq_of_attach hr
  rw [hm] at hcapacity hreceived hsent
  rw [h.capacity_eq] at hcapacity
  refine ⟨⟨hcapacity, ?_, ?_⟩, ⟨hcapacity, ?_⟩⟩
  · rw [hreceived]
  · rw [hreceived]
    exact h.few
  · rw [hsent]

/-- A ring that was just made is empty, and its maker can send and receive. -/
theorem serve_of_create {name : String} {patience : Patience} {d d' : Directory}
    (h : create name capacity patience d = (.ok r, d')) :
    (Parties.alone r).Serve r.attachment.object r.capacity (d'.memory r.attachment.object) [] := by
  obtain ⟨hpower, -, hr, -, hmemory⟩ := eq_of_create h
  have hword : ∀ position, slotSizeAt + 8 ≤ position →
      (d'.memory r.attachment.object).load64 position = 0 := by
    intro position hlow
    rw [hr, hmemory, load64_format _ _ hlow, Memory.load64_zeros]
  have hcapacity : r.capacity = capacity := by rw [hr]
  have hreceived : r.knownReceived = 0 := by rw [hr]
  have hsent : r.knownSent = 0 := by rw [hr]
  have hstored : (d'.memory r.attachment.object).load64 capacityAt = r.capacity := by
    rw [hcapacity, hr, hmemory, format, Memory.load64_store64_of_disjoint _ _ (.inl (by decide)),
      Memory.load64_store64_same]
  -- both counts and both copies are zero
  refine ⟨⟨hcapacity ▸ hpower, hstored, ?_⟩, ?_, rfl, rfl, ⟨rfl, ?_, ?_⟩, ⟨rfl, ?_⟩⟩
  · rw [hword _ (by decide), hword _ (by decide), distance_self]
    exact Nat.zero_le _
  · rw [messages_eq_nil_iff, hword _ (by decide), hword _ (by decide)]
  · rw [hword _ (by decide), hword _ (by decide), distance_self]
    exact Nat.zero_le _
  · rw [hword _ (by decide), Parties.sender, hreceived, distance_self]
    exact Nat.zero_le _
  · rw [hword receivedAt (by decide), Parties.receiver, hsent, distance_self]
    exact Nat.zero_le _

end SharedExchange.Ring
