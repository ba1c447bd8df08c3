import Mathlib.Tactic
import SharedExchange.Proofs.Pool.Accounts
import SharedExchange.Proofs.Ring.Rounds
import SharedExchange.Proofs.Wire.Measure
import SharedExchange.Ring.Values

/-! # What carries a value

A value goes into a body, the body into a message, and the message into a ring. Each of these can
fail, and each can fail only before it has changed anything: a block is taken from the pool after
the value was measured, so it holds the value and writing into it cannot fail (`edit_encodeInto`),
and it is taken after room was made sure of in the ring, so sending cannot fail
(`Ring.Parties.Serve.sendValue_cases`).

On the other side a block that is in use is given back whatever was read from it
(`Body.toValue_pooled`). -/

namespace SharedExchange

variable {v : Value} {pool : Option Pool} {p : Pool} {m : Memory} {d d' : Directory}
  {live : List BlockRef} {b : BlockRef} {body : Body} {fault : Fault}

/-- Writing back what is there changes nothing. -/
theorem Directory.memory_update_self (d : Directory) (id other : ObjectId) :
    (d.update id (d.memory id)).memory other = d.memory other := by
  by_cases h : other = id
  · rw [h, memory_update_same]
  · rw [memory_update_of_ne _ _ h]

/-! ## Into a body -/

/-- What a body is made of: the wire form of a value inline, or a new block of a pool that holds
it. The blocks of the references `live` were in use before, and keep what they hold. -/
inductive Body.Carried (v : Value) (pool : Option Pool) (live : List BlockRef) (d d' : Directory) :
    Body → Prop
  | inline (hfits : v.wireLength ≤ inlineLimit) (hsame : ∀ id, d'.memory id = d.memory id) :
    Carried v pool live d d' (.inline v.wire)
  | pooled {p : Pool} {b : BlockRef} (hp : p ∈ pool) (hlong : inlineLimit < v.wireLength)
    (hother : ∀ id, id ≠ p.attachment.object → d'.memory id = d.memory id)
    (hgiven : p.Accounted (d'.memory p.attachment.object) (b :: live))
    (hcontents : p.contents (d'.memory p.attachment.object) b = v.wire)
    (hkept : ∀ a ∈ live, p.contents (d'.memory p.attachment.object) a =
      p.contents (d.memory p.attachment.object) a)
    (hledger : ∃ size, Pool.ledger (d'.memory p.attachment.object) =
      (Pool.ledger (d.memory p.attachment.object)).handOut size) :
    Carried v pool live d d' (.pooled b)

/-- The wire form of a value that was measured fills a buffer of its length from the front. -/
theorem Value.encodeInto_eq (buffer : List UInt8) (hmeasure : v.measure 0 = .ok v.wireLength)
    (hroom : v.wireLength ≤ buffer.length) :
    v.encodeInto buffer = (.ok v.wireLength, v.wire ++ buffer.drop v.wireLength) := by
  rw [encodeInto, hmeasure]
  simp only [Nat.not_lt.2 hroom, if_false, length_wire]

/-- A block that was asked for by the measure of a value takes its wire form, and is full then. -/
theorem edit_encodeInto (h : p.Accounted m live) (hb : b ∈ live)
    (hmeasure : v.measure 0 = .ok v.wireLength) (hsize : b.size.toNat = v.wireLength) :
    p.edit b v.encodeInto m = (.ok v.wireLength, m.store (p.bytesAt b) v.wire) := by
  have hlength : (p.contents m b).length = v.wireLength := by rw [Pool.length_contents, hsize]
  have hall : (v.wire ++ (p.contents m b).drop v.wireLength).take b.size.toNat = v.wire := by
    rw [hsize, ← v.length_wire, List.take_left]
  rw [Pool.edit, h.sound.read_eq hb]
  simp only [Value.encodeInto_eq _ hmeasure hlength.ge, hall]

/-- Taking a block for a value, whose length a word can count. -/
theorem Body.ofValue_pooled (hmeasure : v.measure 0 = .ok v.wireLength)
    (hlong : inlineLimit < v.wireLength) (hcount : v.wireLength < UInt64.size)
    (h : p.Accounted (d.memory p.attachment.object) live) :
    (∃ fault, Body.ofValue v (some p) d =
        (.error fault, d.update p.attachment.object (d.memory p.attachment.object))) ∨
      ∃ body d', Body.ofValue v (some p) d = (.ok body, d') ∧
        Carried v (some p) live d d' body := by
  rw [ofValue, hmeasure]
  simp only [Nat.not_le.2 hlong, if_false, Directory.run]
  cases halloc : p.allocate (UInt64.ofNat v.wireLength) (d.memory p.attachment.object) with
  | mk answer m₁ =>
    cases answer with
    | error fault =>
      obtain rfl := Pool.allocate_error halloc
      exact .inl ⟨fault, rfl⟩
    | ok b =>
      obtain ⟨hgiven, hkept, size, hledger⟩ := h.allocate halloc
      have hsize : b.size.toNat = v.wireLength := by
        rw [Pool.size_of_allocate halloc, UInt64.toNat_ofNat', Nat.mod_eq_of_lt hcount]
      -- the block was just handed out with the length of the wire form
      have hedit := edit_encodeInto hgiven List.mem_cons_self hmeasure hsize
      have hlength : v.wire.length = b.size.toNat := by rw [v.length_wire, hsize]
      obtain ⟨hwritten, hothers, hcounted⟩ := hgiven.store List.mem_cons_self hlength.le
      have hnew := (List.nodup_cons.1 hgiven.sound.nodup.of_map).1
      refine .inr ⟨.pooled b, d.update p.attachment.object (m₁.store (p.bytesAt b) v.wire), ?_,
        .pooled rfl hlong ?_ ?_ ?_ ?_ ?_⟩
      · simp only [hedit]
        rfl
      · exact fun id hid => d.memory_update_of_ne _ hid
      · rw [Directory.memory_update_same]
        exact hwritten
      · rw [Directory.memory_update_same, Pool.contents, ← hlength, Memory.slice_store_same]
      · intro a ha
        rw [Directory.memory_update_same,
          hothers a (List.mem_cons_of_mem _ ha) (fun heq => hnew (heq ▸ ha)), hkept a ha]
      · rw [Directory.memory_update_same, hcounted]
        exact ⟨size, hledger⟩

/-- Making a body fails before anything is changed, or leaves what the body is made of. -/
theorem Body.ofValue_cases (v : Value) (hcount : v.wireLength < UInt64.size)
    (h : ∀ p ∈ pool, p.Accounted (d.memory p.attachment.object) live) :
    (∃ fault d', Body.ofValue v pool d = (.error fault, d') ∧
        ∀ id, d'.memory id = d.memory id) ∨
      ∃ body d', Body.ofValue v pool d = (.ok body, d') ∧
        v.measure 0 = .ok v.wireLength ∧ Carried v pool live d d' body := by
  cases hmeasure : v.measure 0 with
  | error fault =>
    refine .inl ⟨fault, d, ?_, fun id => rfl⟩
    rw [ofValue, hmeasure]
  | ok length =>
    obtain ⟨rfl, -⟩ := v.of_measure hmeasure
    by_cases hfits : v.wireLength ≤ inlineLimit
    · -- the wire form goes over the front of a buffer and is cut off behind it
      have hwritten := Value.encodeInto_eq (List.replicate inlineLimit 0) hmeasure
        (by rwa [List.length_replicate])
      refine .inr ⟨.inline v.wire, d, ?_, rfl, .inline hfits fun id => rfl⟩
      rw [ofValue, hmeasure]
      simp only [hfits, if_true, hwritten, Except.map]
      rw [← v.length_wire, List.take_left]
    · -- too long for a slot, so it takes a block or is refused
      cases pool with
      | none =>
        refine .inl ⟨.payloadTooLarge inlineLimit v.wireLength, d, ?_, fun id => rfl⟩
        rw [ofValue, hmeasure]
        simp only [hfits, if_false]
      | some p =>
        obtain ⟨fault, heq⟩ | ⟨body, d', heq, hcarried⟩ :=
          ofValue_pooled hmeasure (Nat.lt_of_not_le hfits) hcount (h p rfl)
        · exact .inl ⟨fault, _, heq, d.memory_update_self _⟩
        · exact .inr ⟨body, d', heq, rfl, hcarried⟩

/-- Whatever carries a value fits into a slot. -/
theorem Body.Carried.length_le (h : Carried v pool live d d' body) :
    ¬inlineLimit < body.toBytes.length := by
  cases h with
  | inline hfits _ =>
    rw [toBytes, v.length_wire]
    exact Nat.not_lt.2 hfits
  | pooled =>
    rw [toBytes, List.length_append, LittleEndian.length_toBytes, LittleEndian.length_toBytes]
    decide

/-! ## Out of a body -/

/-- A block in use is read and given back, whether or not its bytes were a value. -/
theorem Body.toValue_pooled (h : p.Accounted (d.memory p.attachment.object) live) (hb : b ∈ live)
    (node : NodeId) :
    ∃ m', (Body.pooled b).toValue (some p) node d =
        ((Value.decode node (p.contents (d.memory p.attachment.object) b)).mapError .refused,
          d.update p.attachment.object m') ∧
      p.Accounted m' (live.erase b) ∧
      (∀ a ∈ live, p.contents m' a = p.contents (d.memory p.attachment.object) a) ∧
      ∃ size, Pool.ledger m' = (Pool.ledger (d.memory p.attachment.object)).takeBack size := by
  obtain ⟨m', hfree, hleft, hkept, hledger⟩ := h.deallocate hb
  refine ⟨m', ?_, hleft, hkept, hledger⟩
  simp only [toValue, Directory.run, h.sound.read_eq hb, hfree]
  rfl

/-! ## Through a ring -/

/-- A body is made without touching any object but that of the pool. -/
theorem Body.Carried.memory_eq {id : ObjectId} (h : Carried v pool live d d' body)
    (hid : ∀ p ∈ pool, id ≠ p.attachment.object) : d'.memory id = d.memory id := by
  cases h with
  | inline _ hsame => exact hsame id
  | pooled hp _ hother => exact hother id (hid _ hp)

namespace Ring.Parties.Serve

variable {object : ObjectId} {capacity : UInt64} {queue : List Message} {parties : Parties}

/-- A value is refused before anything is changed, or a body is made for it and sent behind the
pending messages. -/
theorem sendValue_cases (h : parties.Serve object capacity (d.memory object) queue)
    (hapart : ∀ p ∈ pool, object ≠ p.attachment.object)
    (haccounted : ∀ p ∈ pool, p.Accounted (d.memory p.attachment.object) live) (label : Label)
    (v : Value) (hcount : v.wireLength < UInt64.size) :
    (∃ fault s d', parties.sender.sendValue label v pool d = (.error fault, s, d') ∧
        (∀ id, d'.memory id = d.memory id) ∧
        (parties.setSender s).Serve object capacity (d.memory object) queue) ∨
      ∃ body d₁ s m', parties.sender.sendValue label v pool d = (.ok (), s, d₁.update object m') ∧
        Body.ofValue v pool d = (.ok body, d₁) ∧ v.measure 0 = .ok v.wireLength ∧
        Body.Carried v pool live d d₁ body ∧
        (parties.setSender s).Serve object capacity m' (queue ++ [⟨label, body⟩]) := by
  obtain ⟨known, hroom, hknown, -⟩ := h.turns.hasRoom_eq h.sends
  rw [← h.sender_object] at hroom
  by_cases hfree : (messages capacity (d.memory object)).length < capacity.toNat
  · obtain ⟨fault, d', heq, hsame⟩ | ⟨body, d₁, heq, hmeasure, hcarried⟩ :=
      Body.ofValue_cases v hcount haccounted
    · refine .inl ⟨fault, _, d', ?_, hsame, h.looked hknown⟩
      rw [sendValue, hroom, h.sender_object, decide_eq_true hfree]
      simp only [if_true, heq]
    · -- there was room before the body was made, so there is room now
      have hmemory := hcarried.memory_eq hapart
      have hshort : ¬inlineLimit < (Message.mk label body).body.toBytes.length := hcarried.length_le
      obtain ⟨known', hsend, hknown'⟩ := h.turns.send_room hknown hshort hfree
      refine .inr ⟨body, d₁, _, _, ?_, heq, hmeasure, hcarried,
        h.appended hcarried.length_le hfree hknown'⟩
      rw [sendValue, hroom, h.sender_object, decide_eq_true hfree]
      simp only [if_true, heq, Directory.runWith, h.sender_object, hmemory, hsend]
      rfl
  · refine .inl ⟨.ringFull, _, d, ?_, fun id => rfl, h.looked hknown⟩
    rw [sendValue, hroom, h.sender_object, decide_eq_false hfree]
    rfl

/-- No value is taken when nothing is pending. -/
theorem receiveValue_nil (h : parties.Serve object capacity (d.memory object) [])
    (pool : Option Pool) (node : NodeId) :
    ∃ r, parties.receiver.receiveValue? pool node d =
        (none, r, d.update object (d.memory object)) ∧
      (parties.setReceiver r).Serve object capacity (d.memory object) [] := by
  obtain ⟨r, heq, hserve⟩ := h.receive_nil
  refine ⟨r, ?_, hserve⟩
  rw [receiveValue?, h.receiver_object, Directory.runWith, heq]

/-- The oldest pending message leaves the ring, whatever its body turns out to carry. -/
theorem receiveValue_cons {msg : Message}
    (h : parties.Serve object capacity (d.memory object) (msg :: queue)) (pool : Option Pool)
    (node : NodeId) :
    ∃ r m', parties.receiver.receiveValue? pool node d =
        (some ((msg.body.toValue pool node (d.update object m')).1.map fun v => (msg, v)), r,
          (msg.body.toValue pool node (d.update object m')).2) ∧
      (parties.setReceiver r).Serve object capacity m' queue := by
  obtain ⟨r, m', heq, hserve⟩ := h.receive_cons
  refine ⟨r, m', ?_, hserve⟩
  rw [receiveValue?, h.receiver_object, Directory.runWith, heq]

end Ring.Parties.Serve
end SharedExchange
