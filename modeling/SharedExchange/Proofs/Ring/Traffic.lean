import Mathlib.Tactic
import SharedExchange.Proofs.Making
import SharedExchange.Proofs.Ring.Queue

/-! # Traffic over a ring

`Traffic` is a ring with the two parties that use it: one sends, one receives, and one handle may do
both. A party may at any time be replaced by one that has just opened a handle. `Fifo` is the queue
that the parties may believe they share, and `Traffic.run_eq_run` says that its answers and those
of the ring are the same for every sequence of operations. -/

namespace SharedExchange.Ring

/-! ## What is asked, and what a queue answers -/

/-- Which party is replaced by a handle that was just opened. -/
inductive Role
  | sender
  | receiver
  | both

/-- What the parties do. `receiveWith` looks at the oldest message in place. -/
inductive Operation (α : Type)
  | send (msg : Message)
  | receive
  | receiveWith (look : Message → α)
  | length
  | isEmpty
  | replace (role : Role) (patience : Patience)

/-- What they are told. -/
inductive Answer (α : Type)
  | sent (outcome : Except Fault Unit)
  | received (msg : Option Message)
  | looked (result : Option α)
  | length (n : Nat)
  | isEmpty (b : Bool)
  | replaced (outcome : Except Failure Unit)

variable {α : Type}

/-- How many messages an operation tries to send. -/
def Operation.sends : Operation α → Nat
  | .send _ => 1
  | _ => 0

/-- A queue of messages with a bound on its length. -/
structure Fifo where
  capacity : Nat
  queue : List Message
  /-- What those are told who want to take part. -/
  entry : Except Fault Unit

namespace Fifo

/-- What a queue answers, and what becomes of it. -/
def step (q : Fifo) : Operation α → Answer α × Fifo
  | .send msg =>
    if inlineLimit < msg.body.toBytes.length then
      (.sent (.error (.payloadTooLarge inlineLimit msg.body.toBytes.length)), q)
    else if q.queue.length < q.capacity then
      (.sent (.ok ()), { q with queue := q.queue ++ [msg] })
    else (.sent (.error .ringFull), q)
  | .receive => (.received q.queue.head?, { q with queue := q.queue.tail })
  | .receiveWith look => (.looked (q.queue.head?.map look), { q with queue := q.queue.tail })
  | .length => (.length q.queue.length, q)
  | .isEmpty => (.isEmpty q.queue.isEmpty, q)
  | .replace _ _ => (.replaced (q.entry.mapError .refused), q)

/-- The bound stays, and so does the entry. -/
theorem step_eq (q : Fifo) (operation : Operation α) :
    (q.step operation).2 = { q with queue := (q.step operation).2.queue } := by
  cases operation with
  | send msg =>
    rw [step]
    split
    · rfl
    · split <;> rfl
  | _ => rfl

/-- The answers to operations in their order. -/
def run (q : Fifo) : List (Operation α) → List (Answer α)
  | [] => []
  | operation :: operations => (q.step operation).1 :: (q.step operation).2.run operations

end Fifo

/-! ## The parties -/

/-- The handles in use: one for both roles, or one for each. -/
inductive Parties
  | alone (both : Ring)
  | pair (sender receiver : Ring)

namespace Parties

def sender : Parties → Ring
  | alone r => r
  | pair s _ => s

def receiver : Parties → Ring
  | alone r => r
  | pair _ r => r

/-- The handle that sends has looked at the ring again. -/
def setSender : Parties → Ring → Parties
  | alone _, s => alone s
  | pair _ r, s => pair s r

/-- The handle that receives has looked at the ring again. -/
def setReceiver : Parties → Ring → Parties
  | alone _, r => alone r
  | pair s _, r => pair s r

/-- A new handle takes over. -/
def replace (p : Parties) (r : Ring) : Role → Parties
  | .sender => pair r p.receiver
  | .receiver => pair p.sender r
  | .both => alone r

/-- Both handles are on the object, and their copies of the counts can be trusted. -/
structure Ready (object : ObjectId) (capacity : UInt64) (m : Memory) (p : Parties) : Prop where
  sender_object : p.sender.attachment.object = object
  receiver_object : p.receiver.attachment.object = object
  sends : Sends capacity m p.sender
  receives : Receives capacity m p.receiver

variable {object : ObjectId} {capacity : UInt64} {m m' : Memory} {p : Parties}

/-- Parties stay ready when the sender learns of what was received. -/
theorem Ready.setSender (h : Ready object capacity m p) {known : UInt64}
    (hknown : known.toNat ≤ (m'.load64 receivedAt).toNat)
    (hreceived : m'.load64 receivedAt = m.load64 receivedAt)
    (hsent : (m.load64 sentAt).toNat ≤ (m'.load64 sentAt).toNat) :
    Ready object capacity m' (p.setSender { p.sender with knownReceived := known }) := by
  obtain ⟨hs, hr, hsends, hcapacity, hlow, hhigh⟩ := h
  rw [← hreceived] at hlow
  have hnew := hhigh.trans hsent
  cases p with
  | alone r => exact ⟨hs, hr, ⟨hsends.capacity_eq, hknown⟩, ⟨hcapacity, hlow, hnew⟩⟩
  | pair s r => exact ⟨hs, hr, ⟨hsends.capacity_eq, hknown⟩, ⟨hcapacity, hlow, hnew⟩⟩

/-- Parties stay ready when the receiver learns of what was sent. -/
theorem Ready.setReceiver (h : Ready object capacity m p) {known : UInt64}
    (hknown : Receives capacity m' { p.receiver with knownSent := known })
    (hreceived : (m.load64 receivedAt).toNat ≤ (m'.load64 receivedAt).toNat) :
    Ready object capacity m' (p.setReceiver { p.receiver with knownSent := known }) := by
  obtain ⟨hs, hr, hsends, -⟩ := h
  cases p with
  | alone r => exact ⟨hs, hr, ⟨hsends.capacity_eq, hsends.known_le.trans hreceived⟩, hknown⟩
  | pair s r => exact ⟨hs, hr, ⟨hsends.capacity_eq, hsends.known_le.trans hreceived⟩, hknown⟩

/-- A handle that was just opened can take over either role, or both. -/
theorem Ready.replace (h : Ready object capacity m p) {r : Ring}
    (hobject : r.attachment.object = object) (hsends : Sends capacity m r)
    (hreceives : Receives capacity m r) (role : Role) :
    Ready object capacity m (p.replace r role) := by
  cases role with
  | sender => exact ⟨hobject, h.receiver_object, hsends, h.receives⟩
  | receiver => exact ⟨h.sender_object, hobject, h.sends, hreceives⟩
  | both => exact ⟨hobject, hobject, hsends, hreceives⟩

end Parties

/-! ## The ring with its parties -/

/-- A ring in use. -/
structure Traffic where
  directory : Directory
  /-- The name of the ring. -/
  name : String
  parties : Parties

/-! ## A fresh ring -/

/-- What a ring is that was made, and what is in its object. -/
theorem eq_of_create {name : String} {capacity : UInt64} {patience : Patience}
    {d d' : Directory} {r : Ring} (h : create name capacity patience d = (.ok r, d')) :
    capacity.toNat.isPowerOfTwo ∧ wholeSize capacity ≤ Directory.mappingLimit ∧
      r = ⟨⟨d.nextObject, name, wholeSize capacity, true⟩, capacity, 0, 0, patience⟩ ∧
      d'.names[name]? = some (.object d.nextObject) ∧
      d'.memory d.nextObject = format capacity (Memory.zeros (wholeSize capacity)) := by
  obtain ⟨hpower, hgrants, rfl, rfl⟩ := create_eq_ok_iff.1 h
  exact ⟨hpower, hgrants.size_le, rfl, Directory.getElem?_names_establish ..,
    Directory.memory_establish ..⟩

/-- The words behind the header of a fresh ring are left as they were found. -/
theorem load64_format (capacity : UInt64) (m : Memory) {position : Nat}
    (hlow : slotSizeAt + 8 ≤ position) :
    (format capacity m).load64 position = m.load64 position := by
  have hslot : slotSizeAt = 16 := rfl
  rw [format, Memory.load64_store64_of_disjoint _ _ (.inr hlow),
    Memory.load64_store64_of_disjoint _ _ (.inr (by rw [capacityAt]; omega)), Signature.write,
    Memory.load64_store32_of_disjoint _ _ (.inr (by omega)),
    Memory.load64_store32_of_disjoint _ _ (.inr (by omega))]

/-- A fresh ring holds nothing. -/
theorem holds_format {capacity : UInt64} {m : Memory}
    (hinside : signature.headerSize + slotSize * capacity.toNat ≤ m.size)
    (hsent : m.load64 sentAt = 0) (hreceived : m.load64 receivedAt = 0) :
    Holds capacity (format capacity m) [] := by
  have hheaded : Headed (format capacity m) := headed_format (by omega)
  constructor
  case magic_eq => exact hheaded.opens.magic_eq
  case version_eq => exact hheaded.opens.version_eq
  case capacity_eq => exact load64_format_capacity capacity m
  case slotSize_eq => exact hheaded.slotSize_eq
  case inside =>
    rw [size_format]
    exact hinside
  case length_le => exact Nat.zero_le _
  case sent_eq =>
    rw [load64_format _ _ (by decide), load64_format _ _ (by decide), hsent, hreceived,
      List.length_nil, Nat.add_zero]
  case load_eq =>
    intro i hi
    cases hi

namespace Traffic

/-- The ring has just been made, and its maker is both parties. -/
def fresh (r : Ring) (d : Directory) : Traffic := ⟨d, r.attachment.name, .alone r⟩

/-- The contents of the object that the messages are sent through. -/
def memory (t : Traffic) : Memory := t.directory.memory t.parties.sender.attachment.object

/-- Receiving through the handle of the party that receives. -/
def receiveWith {β : Type} (t : Traffic) (look : Message → β) : Option β × Traffic :=
  let r := t.parties.receiver
  let (answer, r', d') := t.directory.runWith r.attachment.object
    (r.receiveWith? fun msg _ => look msg)
  (answer, { t with directory := d', parties := t.parties.setReceiver r' })

/-- What the ring answers, and what becomes of it. -/
def step (t : Traffic) : Operation α → Answer α × Traffic
  | .send msg =>
    let r := t.parties.sender
    let (answer, r', d') := t.directory.runWith r.attachment.object (r.send msg)
    (.sent answer, { t with directory := d', parties := t.parties.setSender r' })
  | .receive => ((t.receiveWith id).1 |> .received, (t.receiveWith id).2)
  | .receiveWith look => ((t.receiveWith look).1 |> .looked, (t.receiveWith look).2)
  | .length => (.length (pending t.memory), t)
  | .isEmpty => (.isEmpty (Ring.isEmpty t.memory), t)
  | .replace role patience =>
    match attach t.name patience t.directory with
    | (.error failure, d') => (.replaced (.error failure), { t with directory := d' })
    | (.ok r, d') =>
      (.replaced (.ok ()), { t with directory := d', parties := t.parties.replace r role })

/-- The ring after operations in their order. -/
def after (t : Traffic) : List (Operation α) → Traffic
  | [] => t
  | operation :: operations => (t.step operation).2.after operations

/-- The answers to operations in their order. -/
def run (t : Traffic) : List (Operation α) → List (Answer α)
  | [] => []
  | operation :: operations => (t.step operation).1 :: (t.step operation).2.run operations

/-- The ring holds what the queue holds, and its name leads to it; `entry` is what comes of finding
it. `sends` bounds how many messages were ever sent. -/
structure Carries (t : Traffic) (object : ObjectId) (capacity : UInt64) (queue : List Message)
    (entry : Except Fault Unit) (sends : Nat) : Prop where
  leads : t.directory.names[t.name]? = some (.object object)
  entry_eq : (t.directory.attach t.name).map (fun _ => ()) = entry
  isPowerOfTwo : capacity.toNat.isPowerOfTwo
  holds : Holds capacity (t.directory.memory object) queue
  ready : t.parties.Ready object capacity (t.directory.memory object)
  sent_le : ((t.directory.memory object).load64 sentAt).toNat ≤ sends

variable {t : Traffic} {object : ObjectId} {capacity : UInt64} {queue : List Message}
  {entry : Except Fault Unit} {sends : Nat} {msg : Message}

/-- Messages are sent through the object that receives them. -/
theorem Carries.memory_eq (h : t.Carries object capacity queue entry sends) :
    t.memory = t.directory.memory object := by
  rw [memory, h.ready.sender_object]

/-- What an operation through a handle does to the object, and to the handle. -/
theorem Carries.update (h : t.Carries object capacity queue entry sends)
    {m' : Memory} {p' : Parties} {queue' : List Message} {sends' : Nat}
    (hholds : Holds capacity m' queue') (hsize : m'.size = (t.directory.memory object).size)
    (hready : p'.Ready object capacity m')
    (hsent : (m'.load64 sentAt).toNat ≤ sends') :
    Carries { t with directory := t.directory.update object m', parties := p' } object capacity
      queue' entry sends' where
  leads := h.leads
  entry_eq := by
    have hleads : (t.directory.update object m').names[t.name]? = some (.object object) := h.leads
    have hsame : ((t.directory.update object m').memory object).size =
        (t.directory.memory object).size := by
      rw [Directory.memory_update_same, hsize]
    rw [← h.entry_eq]
    exact Directory.attach_map_congr rfl hleads h.leads hsame
  isPowerOfTwo := h.isPowerOfTwo
  holds := by rwa [Directory.memory_update_same]
  ready := by rwa [Directory.memory_update_same]
  sent_le := by rwa [Directory.memory_update_same]

/-- A handle is opened at any time if the system lets it be, and starts with the counts as they
are. -/
theorem Carries.attach_eq (h : t.Carries object capacity queue entry sends) (patience : Patience) :
    (∃ fault, entry = .error fault ∧
      attach t.name patience t.directory = (.error (.refused fault), t.directory)) ∨
    entry = .ok () ∧ ∃ r, attach t.name patience t.directory = (.ok r, t.directory) ∧
      r.attachment.object = object ∧ Sends capacity (t.directory.memory object) r ∧
      Receives capacity (t.directory.memory object) r := by
  have hentry := h.entry_eq
  cases hhold : t.directory.attach t.name with
  | error fault =>
    rw [hhold] at hentry
    refine .inl ⟨fault, hentry.symm, ?_⟩
    rw [attach, Directory.examine, hhold]
  | ok a =>
    rw [hhold] at hentry
    refine .inr ⟨hentry.symm, ?_⟩
    have hobject : a.object = object := by
      have hnamed := (Directory.attach_eq_ok_iff.1 hhold).named
      rw [h.leads] at hnamed
      cases hnamed
      rfl
    -- the header is in order, and the counts are copied
    have hfound : Found t.directory t.name outline a := by
      have hheader : signature.headerSize ≤ (t.directory.memory object).size :=
        (Nat.le_add_right ..).trans h.holds.inside
      refine ⟨hhold, ?_, ?_, ?_⟩
      all_goals
        rw [hobject]
        simp only [outline, h.holds.capacity_eq]
      · exact ⟨⟨hheader, h.holds.magic_eq, h.holds.version_eq⟩, h.holds.slotSize_eq⟩
      · exact h.isPowerOfTwo
      · exact h.holds.inside
    have hsent := h.holds.sent_eq
    refine ⟨_, attach_eq_ok_iff.2 ⟨⟨a, hfound, rfl⟩, rfl⟩, hobject, ?_, ?_⟩
    all_goals rw [foundHandle, hobject]
    · exact ⟨h.holds.capacity_eq, Nat.le_refl _⟩
    · exact ⟨h.holds.capacity_eq, by dsimp only; omega, Nat.le_refl _⟩

/-- Receiving takes the oldest message of the queue. -/
theorem Carries.receiveWith {β : Type} (h : t.Carries object capacity queue entry sends)
    (look : Message → β) :
    (t.receiveWith look).1 = queue.head?.map look ∧
      (t.receiveWith look).2.Carries object capacity queue.tail entry sends := by
  cases queue with
  | nil =>
    obtain ⟨known, heq, hready⟩ := h.holds.receive_nil h.ready.receives fun msg _ => look msg
    rw [Traffic.receiveWith, Directory.runWith, h.ready.receiver_object, heq]
    exact ⟨rfl, h.update h.holds rfl (h.ready.setReceiver hready (Nat.le_refl _)) h.sent_le⟩
  | cons msg queue =>
    obtain ⟨known, m', heq, hholds, hready, hreceived, hsent, hsize⟩ :=
      h.holds.receive_cons h.ready.receives fun msg _ => look msg
    rw [Traffic.receiveWith, Directory.runWith, h.ready.receiver_object, heq]
    refine ⟨rfl, h.update hholds hsize (h.ready.setReceiver hready hreceived) ?_⟩
    rw [hsent]
    exact h.sent_le

/-- Sending puts a message behind the queue or, if it is refused, changes no byte. -/
theorem Carries.send (h : t.Carries object capacity queue entry sends) (msg : Message)
    (hcount : sends + 1 < UInt64.size) :
    (t.step (α := α) (.send msg)).1 = (Fifo.step ⟨capacity.toNat, queue, entry⟩ (.send msg)).1 ∧
      (t.step (α := α) (.send msg)).2.Carries object capacity
        (Fifo.step (α := α) ⟨capacity.toNat, queue, entry⟩ (.send msg)).2.queue entry (sends + 1) ∧
      ∀ fault, (t.step (α := α) (.send msg)).1 = .sent (.error fault) →
        (t.step (α := α) (.send msg)).2.memory = t.memory := by
  have hless := h.sent_le
  have hknown := h.ready.sends.known_le
  rw [step, Directory.runWith, h.ready.sender_object, Fifo.step]
  by_cases hlong : inlineLimit < msg.body.toBytes.length
  · -- too large for any slot
    rw [if_pos hlong, send_tooLarge _ _ hlong]
    have hready := h.ready.setSender hknown rfl (Nat.le_refl _)
    have hnext := h.update h.holds rfl hready (hless.trans (Nat.le_succ sends))
    refine ⟨rfl, hnext, ?_⟩
    intro _ _
    rw [h.memory_eq]
    exact hnext.memory_eq.trans (Directory.memory_update_same ..)
  rw [if_neg hlong]
  by_cases hroom : queue.length < capacity.toNat
  · -- a slot is free
    obtain ⟨known, m', heq, hknown, hholds, hreceived, hsent, hsize⟩ :=
      h.holds.send_room h.ready.sends hlong hroom (by omega)
    rw [if_pos hroom, heq]
    have hready := h.ready.setSender (hreceived.symm ▸ hknown) hreceived (by omega)
    have hnext := h.update hholds hsize hready (Nat.succ_le_succ hless |> hsent.trans_le)
    refine ⟨rfl, hnext, ?_⟩
    intro fault hfault
    cases hfault
  · -- all slots are taken
    obtain ⟨known, heq, hknown⟩ := h.holds.send_full h.ready.sends hlong hroom
    rw [if_neg hroom, heq]
    have hready := h.ready.setSender hknown rfl (Nat.le_refl _)
    have hnext := h.update h.holds rfl hready (hless.trans (Nat.le_succ sends))
    refine ⟨rfl, hnext, ?_⟩
    intro _ _
    rw [h.memory_eq]
    exact hnext.memory_eq.trans (Directory.memory_update_same ..)

/-- Every operation answers what the queue answers and leaves what the queue leaves. -/
theorem Carries.step (h : t.Carries object capacity queue entry sends) (operation : Operation α)
    (hcount : sends + operation.sends < UInt64.size) :
    (t.step operation).1 = (Fifo.step ⟨capacity.toNat, queue, entry⟩ operation).1 ∧
      (t.step operation).2.Carries object capacity
        (Fifo.step ⟨capacity.toNat, queue, entry⟩ operation).2.queue entry
        (sends + operation.sends) := by
  cases operation with
  | send msg =>
    obtain ⟨hanswer, hnext, -⟩ := h.send (α := α) msg hcount
    exact ⟨hanswer, hnext⟩
  | receive =>
    obtain ⟨hanswer, hnext⟩ := h.receiveWith id
    -- to take a message is to look at it as it is
    simp only [Traffic.step, Fifo.step, Operation.sends, hanswer, Option.map_id, id, Nat.add_zero]
    exact ⟨trivial, hnext⟩
  | receiveWith look =>
    obtain ⟨hanswer, hnext⟩ := h.receiveWith look
    simp only [Traffic.step, Fifo.step, Operation.sends, hanswer, Nat.add_zero]
    exact ⟨trivial, hnext⟩
  | length =>
    simp only [Traffic.step, Fifo.step, Operation.sends, h.memory_eq, h.holds.pending_eq,
      Nat.add_zero]
    exact ⟨trivial, h⟩
  | isEmpty =>
    have hempty : Ring.isEmpty (t.directory.memory object) = queue.isEmpty := by
      rw [Ring.isEmpty, h.holds.pending_eq]
      cases queue <;> rfl
    simp only [Traffic.step, Fifo.step, Operation.sends, h.memory_eq, hempty, Nat.add_zero]
    exact ⟨trivial, h⟩
  | replace role patience =>
    obtain ⟨fault, rfl, hattach⟩ | ⟨rfl, r, hattach, hobject, hsends, hreceives⟩ :=
      h.attach_eq patience
    · simp only [Traffic.step, Fifo.step, Operation.sends, hattach, Nat.add_zero]
      exact ⟨rfl, h⟩
    · simp only [Traffic.step, Fifo.step, Operation.sends, hattach, Nat.add_zero]
      exact ⟨rfl, { h with ready := h.ready.replace hobject hsends hreceives role }⟩

/-- What holds of one operation holds of all, in whatever order they come. -/
theorem Carries.run (h : t.Carries object capacity queue entry sends)
    (operations : List (Operation α))
    (hcount : sends + (operations.map Operation.sends).sum < UInt64.size) :
    t.run operations = Fifo.run ⟨capacity.toNat, queue, entry⟩ operations ∧
      ∃ queue', (t.after operations).Carries object capacity queue' entry
        (sends + (operations.map Operation.sends).sum) := by
  induction operations generalizing t queue sends with
  | nil => exact ⟨rfl, queue, h⟩
  | cons operation operations ih =>
    -- the step lemma for the first operation, the induction hypothesis for the others
    rw [List.map_cons, List.sum_cons, ← Nat.add_assoc] at hcount ⊢
    obtain ⟨hanswer, hnext⟩ := h.step operation (by omega)
    obtain ⟨hanswers, queue', hlast⟩ := ih hnext hcount
    refine ⟨?_, queue', hlast⟩
    have hqueue : (Fifo.step ⟨capacity.toNat, queue, entry⟩ operation).2 =
        ⟨capacity.toNat, (Fifo.step ⟨capacity.toNat, queue, entry⟩ operation).2.queue, entry⟩ :=
      Fifo.step_eq ..
    rw [Traffic.run, Fifo.run, hanswer, hanswers, ← hqueue]

/-- A made ring is empty, and its maker can send and receive. -/
theorem carries_fresh {name : String} {capacity : UInt64} {patience : Patience}
    {d d' : Directory} {r : Ring} (h : create name capacity patience d = (.ok r, d')) :
    (fresh r d').Carries d.nextObject capacity [] ((d'.attach name).map fun _ => ()) 0 := by
  obtain ⟨hpower, -, hr, hleads, hmade⟩ := eq_of_create h
  -- the object is new, so both counts are zero
  have hword : ∀ position, slotSizeAt + 8 ≤ position →
      (format capacity (Memory.zeros (wholeSize capacity))).load64 position = 0 :=
    fun position hlow => by rw [load64_format _ _ hlow, Memory.load64_zeros]
  have hready : (Parties.alone r).Ready d.nextObject capacity
      (format capacity (Memory.zeros (wholeSize capacity))) := by
    have hobject : r.attachment.object = d.nextObject := by rw [hr]
    have hcapacity : r.capacity = capacity := by rw [hr]
    have hreceived : r.knownReceived = 0 := by rw [hr]
    have hsent : r.knownSent = 0 := by rw [hr]
    refine ⟨hobject, hobject, ⟨hcapacity, ?_⟩, ⟨hcapacity, ?_, ?_⟩⟩
    · rw [Parties.sender, hreceived]
      exact Nat.zero_le _
    · rw [Parties.receiver, hsent, hword _ (by decide)]
    · rw [Parties.receiver, hsent]
      exact Nat.zero_le _
  have hname : (fresh r d').name = name := by rw [fresh, hr]
  have hdirectory : (fresh r d').directory = d' := rfl
  refine ⟨?_, ?_, hpower, ?_, ?_, ?_⟩
  · rw [hname]
    exact hleads
  · rw [hname, hdirectory]
  · rw [hdirectory, hmade]
    refine holds_format ?_ (Memory.load64_zeros ..) (Memory.load64_zeros ..)
    rw [Memory.size_zeros, wholeSize]
  · rw [hdirectory, hmade]
    exact hready
  · rw [hdirectory, hmade, hword _ (by decide)]
    rfl

/-- Whatever the parties do, in whatever order and through whichever handles, a ring answers like
the queue with its number of slots, and a message that is refused changes no byte. Whoever asks for
a handle is told the same at all times, and gets one if the system is willing. -/
theorem run_eq_run {name : String} {capacity : UInt64} {patience : Patience}
    {d d' : Directory} {r : Ring} (h : create name capacity patience d = (.ok r, d')) :
    ∃ entry, (d.Willing name → entry = .ok ()) ∧
      ∀ operations : List (Operation α), (operations.map Operation.sends).sum < UInt64.size →
        (fresh r d').run operations = Fifo.run ⟨capacity.toNat, [], entry⟩ operations ∧
        ∀ earlier msg later, operations = earlier ++ .send msg :: later → ∀ fault,
          (((fresh r d').after earlier).step (α := α) (.send msg)).1 = .sent (.error fault) →
            (((fresh r d').after earlier).step (α := α) (.send msg)).2.memory =
              ((fresh r d').after earlier).memory := by
  have hfresh := carries_fresh h
  refine ⟨(d'.attach name).map fun _ => (), fun hwilling => ?_, fun operations hcount => ?_⟩
  · obtain ⟨-, hgrants, -, rfl⟩ := create_eq_ok_iff.1 h
    rw [hgrants.attach_establish (by rw [size_format, Memory.size_zeros]) hwilling]
    rfl
  rw [← Nat.zero_add (operations.map Operation.sends).sum] at hcount
  refine ⟨(hfresh.run operations hcount).1, ?_⟩
  rintro earlier msg later rfl fault hfault
  rw [List.map_append, List.sum_append, List.map_cons, List.sum_cons, Operation.sends] at hcount
  obtain ⟨-, queue, hearlier⟩ := hfresh.run earlier (by omega)
  exact (hearlier.send msg (by omega)).2.2 fault hfault

/-- A ring with two slots refuses a third message, and a receiver that comes late gets the first
one. -/
theorem run_eq_run_two : ∃ r d', create "events" 2 default Directory.empty = (.ok r, d') ∧
    (fresh r d').run [.send ⟨⟨1, 2, 3⟩, .inline [4]⟩, .send ⟨⟨5, 6, 7⟩, .pooled ⟨16, 64⟩⟩,
        .send ⟨⟨8, 9, 10⟩, .inline []⟩, .replace .receiver default, .receive,
        .receiveWith Message.label, .length, .receive] =
      [.sent (.ok ()), .sent (.ok ()), .sent (.error .ringFull), .replaced (.ok ()),
        .received (some ⟨⟨1, 2, 3⟩, .inline [4]⟩), .looked (some ⟨5, 6, 7⟩), .length 0,
        .received none] := by
  have hgrants : Directory.empty.Grants "events" (wholeSize 2) :=
    Directory.grants_empty (by decide) (by decide) (by decide)
  obtain ⟨r, d', hcreate⟩ : ∃ r d', create "events" 2 default Directory.empty = (.ok r, d') :=
    ⟨_, _, create_eq_ok_iff.2 ⟨⟨1, rfl⟩, hgrants, rfl, rfl⟩⟩
  obtain ⟨entry, hentry, hrun⟩ := run_eq_run hcreate
  refine ⟨r, d', hcreate, ?_⟩
  rw [(hrun _ (by decide)).1, hentry (Directory.willing_empty _)]
  rfl

end Traffic

end SharedExchange.Ring
