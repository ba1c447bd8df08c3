import Mathlib.Tactic
import SharedExchange.Proofs.Ring.Slots

/-! # A ring holds a queue

`Holds` says which queue of messages the object of a ring holds. The handle that sends and the one
that receives each trust a copy of the count of the other side; `Holds.Sends` and `Holds.Receives`
say how stale such a copy may be. A copy of the receive count may lie behind it by any amount, and a
copy of the send count anywhere between the two counts: neither ever lets a handle go on when it
should not, and when it says "stop" the count is read again.

There is one lemma for every outcome of an operation: `send_full`, `send_room`, `receive_nil` and
`receive_cons`. -/

namespace SharedExchange.Ring

/-- The object of a ring with `capacity` slots holds the messages of `queue`, oldest first. -/
structure Holds (capacity : UInt64) (m : Memory) (queue : List Message) : Prop where
  magic_eq : m.load32 0 = signature.magic
  version_eq : m.load32 4 = Signature.version
  capacity_eq : m.load64 capacityAt = capacity
  slotSize_eq : m.load64 slotSizeAt = UInt64.ofNat slotSize
  /-- All slots lie in the object. -/
  inside : signature.headerSize + slotSize * capacity.toNat ≤ m.size
  length_le : queue.length ≤ capacity.toNat
  sent_eq : (m.load64 sentAt).toNat = (m.load64 receivedAt).toNat + queue.length
  load_eq : ∀ i (h : i < queue.length),
    Message.load (slotAt capacity.toNat ((m.load64 receivedAt).toNat + i)) m = queue[i]

/-- A handle that may send: the messages it knows to be received are received. -/
structure Sends (capacity : UInt64) (m : Memory) (r : Ring) : Prop where
  capacity_eq : r.capacity = capacity
  known_le : r.knownReceived.toNat ≤ (m.load64 receivedAt).toNat

/-- A handle that may receive: the messages it knows to be sent are sent, and those it received are
among them. -/
structure Receives (capacity : UInt64) (m : Memory) (r : Ring) : Prop where
  capacity_eq : r.capacity = capacity
  le_known : (m.load64 receivedAt).toNat ≤ r.knownSent.toNat
  known_le : r.knownSent.toNat ≤ (m.load64 sentAt).toNat

variable {capacity : UInt64} {m : Memory} {queue : List Message} {msg : Message} {r : Ring}

/-- As many messages are pending as the queue has. -/
theorem Holds.pending_eq (h : Holds capacity m queue) : pending m = queue.length := by
  have hsent := h.sent_eq
  rw [pending]
  omega

/-! ## Sending -/

/-- The copy of the receive count, old as it may be, never says that there is room when there is
none; and when it says that there is none, the count itself decides. -/
theorem Holds.hasRoom_eq (h : Holds capacity m queue) (hr : Sends capacity m r) :
    ∃ known : UInt64, r.hasRoom m =
        (decide (queue.length < capacity.toNat), { r with knownReceived := known }) ∧
      known.toNat ≤ (m.load64 receivedAt).toNat := by
  obtain ⟨rfl, hknown⟩ := hr
  have hsent := h.sent_eq
  -- an old copy makes the ring look fuller than it is
  have hold : (m.load64 sentAt - r.knownReceived).toNat =
      (m.load64 sentAt).toNat - r.knownReceived.toNat :=
    UInt64.toNat_sub_of_le _ _ (UInt64.le_iff_toNat_le.2 (by omega))
  -- the count itself is exact
  have hnew : (m.load64 sentAt - m.load64 receivedAt).toNat = queue.length := by
    rw [UInt64.toNat_sub_of_le _ _ (UInt64.le_iff_toNat_le.2 (by omega))]
    omega
  rw [hasRoom]
  by_cases htrust : m.load64 sentAt - r.knownReceived < r.capacity
  · rw [if_pos htrust]
    rw [UInt64.lt_iff_toNat_lt, hold] at htrust
    refine ⟨r.knownReceived, ?_, hknown⟩
    rw [decide_eq_true (by omega)]
  · rw [if_neg htrust]
    refine ⟨m.load64 receivedAt, ?_, Nat.le_refl _⟩
    simp only [UInt64.lt_iff_toNat_lt, hnew]

/-- A body that no slot can hold is refused. -/
theorem send_tooLarge (r : Ring) (m : Memory) (hlong : inlineLimit < msg.body.toBytes.length) :
    r.send msg m = (.error (.payloadTooLarge inlineLimit msg.body.toBytes.length), r, m) := by
  rw [send, if_pos hlong]

/-- A full ring refuses, and no byte of its object changes. -/
theorem Holds.send_full (h : Holds capacity m queue) (hr : Sends capacity m r)
    (hshort : ¬inlineLimit < msg.body.toBytes.length) (hfull : ¬queue.length < capacity.toNat) :
    ∃ known : UInt64,
      r.send msg m = (.error .ringFull, { r with knownReceived := known }, m) ∧
        known.toNat ≤ (m.load64 receivedAt).toNat := by
  obtain ⟨known, hroom, hknown⟩ := h.hasRoom_eq hr
  refine ⟨known, ?_, hknown⟩
  rw [send, if_neg hshort, hroom, decide_eq_false hfull]
  rfl

/-- The words of the header but for the send count are not touched by sending. -/
theorem load64_append (r : Ring) (msg : Message) (m : Memory) {position : Nat}
    (hlow : position + 8 ≤ signature.headerSize)
    (hsent : position + 8 ≤ sentAt ∨ sentAt + 8 ≤ position) :
    (r.append msg m).load64 position = m.load64 position := by
  have hslot := r.slot_eq (m.load64 sentAt)
  rw [append, Memory.load64_store64_of_disjoint _ _ hsent,
    Memory.load64_store_of_disjoint _ (.inl ?_)]
  rw [hslot, slotAt]
  omega

/-- Appending a message leaves the header in front of the counters alone. -/
theorem load32_append (r : Ring) (msg : Message) (m : Memory) {position : Nat}
    (hlow : position + 4 ≤ sentAt) :
    (r.append msg m).load32 position = m.load32 position := by
  have hslot := r.slot_eq (m.load64 sentAt)
  have hheader : sentAt ≤ signature.headerSize := by decide
  rw [append, Memory.load32_store64_of_disjoint _ _ (.inl hlow),
    Memory.load32_store_of_disjoint _ (.inl ?_)]
  rw [hslot, slotAt]
  omega

/-- Appending a message raises the count of those that were sent. -/
theorem load64_sent_append (r : Ring) (msg : Message) (m : Memory) :
    (r.append msg m).load64 sentAt = m.load64 sentAt + 1 := by
  rw [append, Memory.load64_store64_same]

/-- Appending a message keeps the size of the object. -/
@[simp] theorem size_append (r : Ring) (msg : Message) (m : Memory) :
    (r.append msg m).size = m.size := by
  rw [append, Memory.size_store64, Memory.size_store]

/-- Slots lie behind the header, so a word of the header that is written does not touch them. -/
theorem load_store64 (capacity number : Nat) (m : Memory) {position : Nat} (word : UInt64)
    (hlow : position + 8 ≤ signature.headerSize) :
    Message.load (slotAt capacity number) (m.store64 position word) =
      Message.load (slotAt capacity number) m := by
  refine Message.load_congr fun i hfrom _ => Memory.get_store64_of_disjoint _ _ (.inr ?_)
  rw [slotAt] at hfrom
  omega

/-- A message that was sent is in the slot behind the pending ones. -/
theorem load_append_same (r : Ring) (m : Memory) (hshort : ¬inlineLimit < msg.body.toBytes.length) :
    Message.load (slotAt r.capacity.toNat (m.load64 sentAt).toNat) (r.append msg m) = msg := by
  rw [append, slot_eq, load_store64 _ _ _ _ (by decide)]
  exact Message.load_store_toBytes _ _ _ (Nat.not_lt.1 hshort)

/-- The slots of messages that may be pending together with the one that is sent are not touched.
The number of that one may be any that leads to its slot. -/
theorem load_append_of_near (r : Ring) (m : Memory)
    (hshort : ¬inlineLimit < msg.body.toBytes.length) {number sent : Nat}
    (hslot : slotAt r.capacity.toNat sent = slotAt r.capacity.toNat (m.load64 sentAt).toNat)
    (hbefore : number < sent) (hnear : sent < number + r.capacity.toNat) :
    Message.load (slotAt r.capacity.toNat number) (r.append msg m) =
      Message.load (slotAt r.capacity.toNat number) m := by
  have hapart := slotAt_apart hbefore hnear
  rw [append, slot_eq, ← hslot, load_store64 _ _ _ _ (by decide)]
  refine Message.load_congr fun k hfrom hto => Memory.get_store_of_disjoint _ ?_
  rw [Message.length_toBytes]
  simp only [slotSize, inlineLimit] at *
  omega

/-- The message is behind the pending ones, whose slots are others. -/
theorem Holds.append (h : Holds capacity m queue) (hr : r.capacity = capacity)
    (hshort : ¬inlineLimit < msg.body.toBytes.length) (hroom : queue.length < capacity.toNat)
    (hcount : (m.load64 sentAt).toNat + 1 < UInt64.size) :
    Holds capacity (r.append msg m) (queue ++ [msg]) := by
  have hsent := h.sent_eq
  have hreceived : (r.append msg m).load64 receivedAt = m.load64 receivedAt :=
    load64_append _ _ _ (by decide) (by decide)
  have hnext : ((r.append msg m).load64 sentAt).toNat = (m.load64 sentAt).toNat + 1 := by
    rw [load64_sent_append, UInt64.toNat_add]
    exact Nat.mod_eq_of_lt hcount
  constructor
  case magic_eq => rw [load32_append _ _ _ (by decide), h.magic_eq]
  case version_eq => rw [load32_append _ _ _ (by decide), h.version_eq]
  case capacity_eq => rw [load64_append _ _ _ (by decide) (by decide), h.capacity_eq]
  case slotSize_eq => rw [load64_append _ _ _ (by decide) (by decide), h.slotSize_eq]
  case inside =>
    rw [size_append]
    exact h.inside
  case length_le =>
    rw [List.length_append, List.length_singleton]
    exact hroom
  case sent_eq =>
    rw [hreceived, hnext, List.length_append, List.length_singleton]
    omega
  case load_eq =>
    intro i hi
    rw [List.length_append, List.length_singleton] at hi
    subst hr
    rw [hreceived]
    rcases Nat.lt_or_eq_of_le (Nat.le_of_lt_succ hi) with hold | hnew
    · -- a message that was pending: its slot is another than the one written
      rw [List.getElem_append_left hold, ← h.load_eq i hold]
      exact load_append_of_near r m hshort rfl (by omega) (by omega)
    · -- the new message: its slot holds what was just written
      subst hnew
      rw [List.getElem_concat_length rfl, ← hsent]
      exact load_append_same r m hshort

/-- A message is taken while there is room. -/
theorem Holds.send_room (h : Holds capacity m queue) (hr : Sends capacity m r)
    (hshort : ¬inlineLimit < msg.body.toBytes.length) (hroom : queue.length < capacity.toNat)
    (hcount : (m.load64 sentAt).toNat + 1 < UInt64.size) :
    ∃ known : UInt64, ∃ m', r.send msg m = (.ok (), { r with knownReceived := known }, m') ∧
      known.toNat ≤ (m.load64 receivedAt).toNat ∧ Holds capacity m' (queue ++ [msg]) ∧
      m'.load64 receivedAt = m.load64 receivedAt ∧
      (m'.load64 sentAt).toNat = (m.load64 sentAt).toNat + 1 ∧ m'.size = m.size := by
  obtain ⟨known, hfound, hknown⟩ := h.hasRoom_eq hr
  refine ⟨known, Ring.append { r with knownReceived := known } msg m, ?_, hknown,
    h.append hr.capacity_eq hshort hroom hcount, load64_append _ _ _ (by decide) (by decide), ?_,
    size_append ..⟩
  · rw [send, if_neg hshort, hfound, decide_eq_true hroom]
    rfl
  · rw [load64_sent_append, UInt64.toNat_add]
    exact Nat.mod_eq_of_lt hcount

/-! ## Receiving -/

/-- The copy of the send count, old as it may be, never says that there is a message when there is
none; and when it says that there is none, the count itself decides. -/
theorem Holds.hasMessage_eq (h : Holds capacity m queue) (hr : Receives capacity m r) :
    ∃ known : UInt64, r.hasMessage (m.load64 receivedAt) m =
        (decide (queue ≠ []), { r with knownSent := known }) ∧
      (m.load64 receivedAt).toNat + (if queue = [] then 0 else 1) ≤ known.toNat ∧
      known.toNat ≤ (m.load64 sentAt).toNat := by
  have hsent := h.sent_eq
  have hlow := hr.le_known
  have hhigh := hr.known_le
  have hempty : queue = [] ↔ m.load64 receivedAt = m.load64 sentAt := by
    rw [← List.length_eq_zero_iff, ← UInt64.toNat_inj]
    omega
  rw [hasMessage]
  by_cases htrust : m.load64 receivedAt ≠ r.knownSent
  · -- the copy is ahead of the receive count, so a message is there
    have hlt : (m.load64 receivedAt).toNat < r.knownSent.toNat :=
      lt_of_le_of_ne hlow fun heq => htrust (UInt64.toNat_inj.1 heq)
    have hne : queue ≠ [] := by
      rintro rfl
      rw [List.length_nil] at hsent
      omega
    rw [if_pos htrust]
    refine ⟨r.knownSent, ?_, ?_, hhigh⟩
    · rw [decide_eq_true hne]
    · rw [if_neg hne]
      omega
  · -- the copy says that there is none, so the count itself is read
    rw [if_neg htrust]
    refine ⟨m.load64 sentAt, ?_, ?_, Nat.le_refl _⟩
    · simp only [ne_eq, hempty]
    · split
      · omega
      · next hne =>
        have hlength := List.length_pos_iff.2 hne
        omega

/-- Giving back the slot of the oldest message leaves the others. -/
theorem Holds.tail (h : Holds capacity m (msg :: queue)) :
    Holds capacity (m.store64 receivedAt (m.load64 receivedAt + 1)) queue ∧
      (m.load64 receivedAt + 1).toNat = (m.load64 receivedAt).toNat + 1 := by
  have hsent := h.sent_eq
  have hlength := h.length_le
  have hbound := (m.load64 sentAt).toNat_lt_size
  rw [List.length_cons] at hsent hlength
  have hone : (m.load64 receivedAt).toNat + 1 < UInt64.size := by omega
  have hnext : (m.load64 receivedAt + 1).toNat = (m.load64 receivedAt).toNat + 1 := by
    rw [UInt64.toNat_add]
    exact Nat.mod_eq_of_lt hone
  refine ⟨?_, hnext⟩
  constructor
  case magic_eq => rw [Memory.load32_store64_of_disjoint _ _ (.inl (by decide)), h.magic_eq]
  case version_eq => rw [Memory.load32_store64_of_disjoint _ _ (.inl (by decide)), h.version_eq]
  case capacity_eq => rw [Memory.load64_store64_of_disjoint _ _ (.inl (by decide)), h.capacity_eq]
  case slotSize_eq => rw [Memory.load64_store64_of_disjoint _ _ (.inl (by decide)), h.slotSize_eq]
  case inside =>
    rw [Memory.size_store64]
    exact h.inside
  case length_le => omega
  case sent_eq =>
    rw [Memory.load64_store64_of_disjoint _ _ (.inl (by decide)), Memory.load64_store64_same, hnext]
    omega
  case load_eq =>
    intro i hi
    -- the message at position `i` was at `i + 1`, and its slot is not written
    have hload := h.load_eq (i + 1) (Nat.succ_lt_succ hi)
    rw [Memory.load64_store64_same, hnext, Nat.add_assoc, Nat.add_comm 1 i]
    rw [List.getElem_cons_succ] at hload
    rw [← hload]
    exact load_store64 _ _ _ _ (by decide)

/-- Nothing is received from an empty ring. -/
theorem Holds.receive_nil {α : Type} (h : Holds capacity m []) (hr : Receives capacity m r)
    (f : Message → Memory → α) :
    ∃ known : UInt64, r.receiveWith? f m = (none, { r with knownSent := known }, m) ∧
      Receives capacity m { r with knownSent := known } := by
  obtain ⟨known, hfound, hlow, hhigh⟩ := h.hasMessage_eq hr
  refine ⟨known, ?_, hr.capacity_eq, by simpa using hlow, hhigh⟩
  rw [receiveWith?]
  simp only [hfound]
  rfl

/-- The oldest message is taken out of its slot, and the others stay. -/
theorem Holds.receive_cons {α : Type} (h : Holds capacity m (msg :: queue))
    (hr : Receives capacity m r) (f : Message → Memory → α) :
    ∃ known : UInt64, ∃ m',
      r.receiveWith? f m = (some (f msg m), { r with knownSent := known }, m') ∧
      Holds capacity m' queue ∧ Receives capacity m' { r with knownSent := known } ∧
      (m.load64 receivedAt).toNat ≤ (m'.load64 receivedAt).toNat ∧
      m'.load64 sentAt = m.load64 sentAt ∧ m'.size = m.size := by
  obtain ⟨known, hfound, hlow, hhigh⟩ := h.hasMessage_eq hr
  obtain ⟨htail, hnext⟩ := h.tail
  rw [if_neg (List.cons_ne_nil _ _)] at hlow
  refine ⟨known, m.store64 receivedAt (m.load64 receivedAt + 1), ?_, htail,
    ⟨hr.capacity_eq, ?_, ?_⟩, ?_, ?_, Memory.size_store64 ..⟩
  · have hload := h.load_eq 0 (Nat.succ_pos _)
    rw [Nat.add_zero] at hload
    rw [receiveWith?]
    simp only [hfound, slot_eq, hr.capacity_eq, hload]
    rfl
  · rw [Memory.load64_store64_same, hnext]
    exact hlow
  · rw [Memory.load64_store64_of_disjoint _ _ (.inl (by decide))]
    exact hhigh
  · rw [Memory.load64_store64_same, hnext]
    omega
  · rw [Memory.load64_store64_of_disjoint _ _ (.inl (by decide))]

end SharedExchange.Ring
