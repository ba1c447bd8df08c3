import SharedExchange.Proofs.Directory.Requests
import SharedExchange.Proofs.Ring.Rounds
import SharedExchange.Proofs.Waiting

/-! # Asking over a link

A request is two waits: one for room to send it, one for its answer. A wait makes a number of
attempts that is known beforehand (`attempts`), and stops at the first that yields something;
nothing else about its rounds matters (`waitFor_eq`). If none does, it ends as it was to end
(`ranOut`): a wait with a deadline expires, and one without is still waiting.

An attempt of the second wait takes one message, whichever request it answers. So the wait looks at
as many pending messages as it has attempts, oldest first, and not at those behind them: `seek` says
that of a list of messages, and `ask` says what a request makes of the two queues of a link.

`Linked` ties the queues to the two rings. It is kept by whatever either end does, and by what
others do elsewhere (`Line.Reached`), so that a request finds an answer that has already arrived
exactly when it has more attempts than there are messages ahead of it (`request?_of_reached`). -/

namespace SharedExchange

/-! ## Looking for an answer in a queue -/

/-- Take messages until one answers a request, `n` at most: the answer, and what is left. -/
def seek (request : UInt64) : (n : Nat) → List Message → Option Message × List Message
  | 0, queue => (none, queue)
  | _ + 1, [] => (none, [])
  | n + 1, msg :: queue =>
    if msg.label.request == request then (some msg, queue) else seek request n queue

section

variable {request : UInt64} {n : Nat} {queue ahead behind : List Message} {reply : Message}

/-- An answer is found behind fewer messages than can be taken, and is then taken with them. -/
theorem seek_of_lt (hahead : ∀ msg ∈ ahead, msg.label.request ≠ request)
    (hreply : reply.label.request = request) (h : ahead.length < n) :
    seek request n (ahead ++ reply :: behind) = (some reply, behind) := by
  induction ahead generalizing n with
  | nil =>
    obtain ⟨n, rfl⟩ := Nat.exists_eq_succ_of_ne_zero (Nat.ne_of_gt h)
    rw [List.nil_append, seek, if_pos (beq_iff_eq.2 hreply)]
  | cons first ahead ih =>
    obtain ⟨n, rfl⟩ := Nat.exists_eq_succ_of_ne_zero (Nat.ne_of_gt (Nat.zero_lt_of_lt h))
    have hfirst := beq_false_of_ne (hahead first List.mem_cons_self)
    rw [List.cons_append, seek, hfirst, if_neg Bool.false_ne_true]
    exact ih (fun msg hmsg => hahead msg (List.mem_cons_of_mem _ hmsg)) (Nat.lt_of_succ_lt_succ h)

/-- Where none of the first `n` is an answer they are taken, and none is found. -/
theorem seek_of_forall_ne (h : ∀ msg ∈ queue.take n, msg.label.request ≠ request) :
    seek request n queue = (none, queue.drop n) := by
  induction queue generalizing n with
  | nil => cases n <;> rfl
  | cons first queue ih =>
    cases n with
    | zero => rfl
    | succ n =>
      have hfirst := beq_false_of_ne (h first List.mem_cons_self)
      rw [seek, hfirst, if_neg Bool.false_ne_true]
      exact ih fun msg hmsg => h msg (List.mem_cons_of_mem _ hmsg)

/-- An answer behind as many messages as can be taken, or more, is not reached. -/
theorem seek_of_le (hahead : ∀ msg ∈ ahead, msg.label.request ≠ request) (h : n ≤ ahead.length) :
    seek request n (ahead ++ reply :: behind) =
      (none, (ahead ++ reply :: behind).drop n) := by
  refine seek_of_forall_ne fun msg hmsg => hahead msg ?_
  rw [List.take_append_of_le_length h] at hmsg
  exact List.mem_of_mem_take hmsg

end

namespace Ring

variable {object : ObjectId} {capacity : UInt64} {m : Memory} {queue : List Message} {p : Parties}
  {msg : Message}

namespace Parties

/-! A handle that is replaced is the new one, whoever else has handles. -/

/-- Whoever takes over sending is the sender. -/
@[simp] theorem sender_setSender (p : Parties) (s : Ring) : (p.setSender s).sender = s := by
  cases p <;> rfl

/-- The last one to take over sending is the sender. -/
@[simp] theorem setSender_setSender (p : Parties) (s s' : Ring) :
    (p.setSender s).setSender s' = p.setSender s' := by
  cases p <;> rfl

/-- Whoever takes over receiving is the receiver. -/
@[simp] theorem receiver_setReceiver (p : Parties) (r : Ring) : (p.setReceiver r).receiver = r := by
  cases p <;> rfl

/-- The last one to take over receiving is the receiver. -/
@[simp] theorem setReceiver_setReceiver (p : Parties) (r r' : Ring) :
    (p.setReceiver r).setReceiver r' = p.setReceiver r' := by
  cases p <;> rfl

/-- A sender that takes over from itself changes nothing. -/
@[simp] theorem setSender_self (p : Parties) : p.setSender p.sender = p := by
  cases p <;> rfl

/-- A receiver that takes over from itself changes nothing. -/
@[simp] theorem setReceiver_self (p : Parties) : p.setReceiver p.receiver = p := by
  cases p <;> rfl

end Parties

/-! ## The first wait -/

/-- A wait starts with an attempt. -/
theorem exists_attempts_eq (fuel : Nat) (allowed : Except Crash (Option Nat)) :
    ∃ n, attempts fuel allowed = n + 1 :=
  Nat.exists_eq_succ_of_ne_zero (Nat.ne_of_gt (attempts_pos fuel allowed))

namespace Parties.Serve

/-- A message that no slot can hold is refused at once. -/
theorem sendWithin_tooLarge (h : Serve object capacity m queue p)
    (hlong : inlineLimit < msg.body.toBytes.length) (clock : Clock) (timeout : Option Nat)
    (fuel : Nat) :
    ∃ s, p.sender.sendWithin msg clock timeout fuel m =
        (.got (.error (.payloadTooLarge inlineLimit msg.body.toBytes.length)), s, m) ∧
      Serve object capacity m queue (p.setSender s) := by
  obtain ⟨n, hn⟩ := exists_attempts_eq fuel (clock.allowed p.sender.patience timeout)
  refine ⟨p.sender, ?_, by rwa [setSender_self]⟩
  rw [sendWithin, waitFor_eq, hn, tries, trySend, send_tooLarge _ _ hlong]
  rfl

/-- Where there is room, a message that fits is put behind the pending ones. -/
theorem send_room (h : Serve object capacity m queue p)
    (hshort : ¬inlineLimit < msg.body.toBytes.length) (hroom : queue.length < capacity.toNat) :
    ∃ s m', p.sender.send msg m = (.ok (), s, m') ∧
      Serve object capacity m' (queue ++ [msg]) (p.setSender s) := by
  rw [← h.messages_eq] at hroom
  obtain ⟨known, heq, hknown⟩ := h.turns.send_room h.sends hshort hroom
  exact ⟨_, _, heq, h.appended hshort hroom hknown⟩

/-- Where there is room, the message is sent at once. -/
theorem sendWithin_room (h : Serve object capacity m queue p)
    (hshort : ¬inlineLimit < msg.body.toBytes.length) (hroom : queue.length < capacity.toNat)
    (clock : Clock) (timeout : Option Nat) (fuel : Nat) :
    ∃ s m', p.sender.sendWithin msg clock timeout fuel m = (.got (.ok ()), s, m') ∧
      Serve object capacity m' (queue ++ [msg]) (p.setSender s) := by
  obtain ⟨n, hn⟩ := exists_attempts_eq fuel (clock.allowed p.sender.patience timeout)
  obtain ⟨s, m', heq, hserve⟩ := h.send_room hshort hroom
  refine ⟨s, m', ?_, hserve⟩
  rw [sendWithin, waitFor_eq, hn, tries, trySend, heq]
  rfl

/-- Where there is none, no attempt finds any, and no byte changes. -/
theorem tries_trySend_full (h : Serve object capacity m queue p)
    (hshort : ¬inlineLimit < msg.body.toBytes.length) (hfull : ¬queue.length < capacity.toNat)
    (n : Nat) :
    ∃ s, tries (trySend msg) n (p.sender, m) = (none, s, m) ∧
      Serve object capacity m queue (p.setSender s) := by
  induction n generalizing p with
  | zero => exact ⟨p.sender, rfl, by rwa [setSender_self]⟩
  | succ n ih =>
    obtain ⟨known, heq, hknown⟩ := h.turns.send_full h.sends hshort (h.messages_eq ▸ hfull)
    obtain ⟨s, hs, hserve⟩ := ih (h.looked hknown)
    rw [sender_setSender] at hs
    rw [setSender_setSender] at hserve
    refine ⟨s, ?_, hserve⟩
    rw [tries, trySend, heq]
    exact hs

/-- A full ring is waited for in vain. -/
theorem sendWithin_full (h : Serve object capacity m queue p)
    (hshort : ¬inlineLimit < msg.body.toBytes.length) (hfull : ¬queue.length < capacity.toNat)
    (clock : Clock) (timeout : Option Nat) (fuel : Nat) :
    ∃ s, p.sender.sendWithin msg clock timeout fuel m =
        (ranOut (clock.allowed p.sender.patience timeout), s, m) ∧
      Serve object capacity m queue (p.setSender s) := by
  obtain ⟨s, hs, hserve⟩ := h.tries_trySend_full hshort hfull
    (attempts fuel (clock.allowed p.sender.patience timeout))
  refine ⟨s, ?_, hserve⟩
  rw [sendWithin, waitFor_eq, hs]
  rfl

/-! ## The second wait -/

/-- Attempts to find an answer take messages off the queue. -/
theorem tries_tryAnswer (h : Serve object capacity m queue p) (request : UInt64) (n : Nat) :
    ∃ r m', tries (Duplex.tryAnswer request) n (p.receiver, m) =
        ((seek request n queue).1, r, m') ∧
      Serve object capacity m' (seek request n queue).2 (p.setReceiver r) := by
  induction n generalizing queue p m with
  | zero => exact ⟨p.receiver, m, rfl, by rwa [setReceiver_self]⟩
  | succ n ih =>
    cases queue with
    | nil =>
      obtain ⟨r, heq, hserve⟩ := h.receive_nil
      obtain ⟨r', m', hrest, hlast⟩ := ih hserve
      rw [receiver_setReceiver] at hrest
      rw [setReceiver_setReceiver] at hlast
      -- an attempt on an empty queue takes nothing, and the others are such attempts
      have hseek : seek request n [] = (none, []) := by cases n <;> rfl
      rw [hseek] at hrest hlast
      refine ⟨r', m', ?_, hlast⟩
      rw [tries, Duplex.tryAnswer, heq]
      exact hrest
    | cons msg queue =>
      obtain ⟨r, m', heq, hserve⟩ := h.receive_cons
      rw [seek]
      by_cases hanswer : msg.label.request == request
      · refine ⟨r, m', ?_, by rwa [if_pos hanswer]⟩
        rw [tries, Duplex.tryAnswer, heq, if_pos hanswer]
        simp only [Option.filter_some, hanswer, if_true]
      · -- a message that is no answer is taken all the same
        obtain ⟨r', m'', hrest, hlast⟩ := ih hserve
        rw [receiver_setReceiver] at hrest
        rw [setReceiver_setReceiver] at hlast
        rw [if_neg hanswer]
        refine ⟨r', m'', ?_, hlast⟩
        rw [tries, Duplex.tryAnswer, heq]
        simp only [Option.filter_some, hanswer]
        exact hrest

end Parties.Serve

end Ring

/-! ## The two rings of a link -/

namespace Duplex

open SharedExchange.Ring (Parties)

/-- The messages that an end has sent and the other end has not taken. -/
def unread (link : Duplex) (d : Directory) : List Message :=
  Ring.messages link.outgoing.capacity (d.memory link.outgoing.attachment.object)

/-- The messages that have arrived at an end and that it has not taken. -/
def arrived (link : Duplex) (d : Directory) : List Message :=
  Ring.messages link.incoming.capacity (d.memory link.incoming.attachment.object)

/-- Two ends of one link: what is under way from `near` to `far` is `out`, and what is under way the
other way is `inward`. -/
structure Linked (forth back : ObjectId) (capacity : UInt64) (d : Directory) (near far : Duplex)
    (out inward : List Message) : Prop where
  apart : forth ≠ back
  sending : (Parties.pair near.outgoing far.incoming).Serve forth capacity (d.memory forth) out
  receiving : (Parties.pair far.outgoing near.incoming).Serve back capacity (d.memory back) inward

variable {forth back : ObjectId} {capacity : UInt64} {d : Directory} {near far : Duplex}
  {out inward : List Message} {msg : Message}

namespace Linked

/-- Both ends see the link in the same way. -/
theorem symm (h : Linked forth back capacity d near far out inward) :
    Linked back forth capacity d far near inward out :=
  ⟨h.apart.symm, h.receiving, h.sending⟩

/-- What an end has sent and the other has not taken is under way. -/
theorem unread_eq (h : Linked forth back capacity d near far out inward) :
    near.unread d = out := by
  rw [unread, show near.outgoing.attachment.object = forth from h.sending.sender_object,
    show near.outgoing.capacity = capacity from h.sending.sends.capacity_eq,
    h.sending.messages_eq]

/-- What has arrived at an end and was not taken is under way. -/
theorem arrived_eq (h : Linked forth back capacity d near far out inward) :
    near.arrived d = inward := by
  rw [arrived, show near.incoming.attachment.object = back from h.receiving.receiver_object,
    show near.incoming.capacity = capacity from h.receiving.receives.capacity_eq,
    h.receiving.messages_eq]

/-- What happens to other objects does not matter. -/
theorem elsewhere (h : Linked forth back capacity d near far out inward) {d' : Directory}
    (hforth : d'.memory forth = d.memory forth) (hback : d'.memory back = d.memory back) :
    Linked forth back capacity d' near far out inward :=
  ⟨h.apart, hforth.symm ▸ h.sending, hback.symm ▸ h.receiving⟩

/-- An end has sent, or tried to. -/
theorem sent (h : Linked forth back capacity d near far out inward) {s : Ring} {m : Memory}
    {out' : List Message}
    (hserve : (Parties.pair s far.incoming).Serve forth capacity m out') :
    Linked forth back capacity (d.update forth m) { near with outgoing := s } far out' inward := by
  refine ⟨h.apart, ?_, ?_⟩
  · rwa [Directory.memory_update_same]
  · rw [Directory.memory_update_of_ne _ _ h.apart.symm]
    exact h.receiving

/-- An end has received, or tried to. -/
theorem received (h : Linked forth back capacity d near far out inward) {r : Ring} {m : Memory}
    {inward' : List Message}
    (hserve : (Parties.pair far.outgoing r).Serve back capacity m inward') :
    Linked forth back capacity (d.update back m) { near with incoming := r } far out inward' := by
  refine ⟨h.apart, ?_, ?_⟩
  · rw [Directory.memory_update_of_ne _ _ h.apart]
    exact h.sending
  · rwa [Directory.memory_update_same]

/-- Sending puts the message behind those under way or, if it is refused, changes nothing. -/
theorem send (h : Linked forth back capacity d near far out inward) (msg : Message) :
    ∃ answer near' d' out', near.send msg d = (answer, near', d') ∧
      Linked forth back capacity d' near' far out' inward := by
  rw [Duplex.send, Directory.runWith,
    show near.outgoing.attachment.object = forth from h.sending.sender_object]
  rcases h.sending.send msg with ⟨fault, s, heq, hserve⟩ | ⟨s, m, heq, hserve⟩
  · rw [show near.outgoing.send msg (d.memory forth) = _ from heq]
    exact ⟨_, _, _, out, rfl, h.sent hserve⟩
  · rw [show near.outgoing.send msg (d.memory forth) = _ from heq]
    exact ⟨_, _, _, out ++ [msg], rfl, h.sent hserve⟩

/-- Where there is room, a message that fits is put behind those under way. -/
theorem send_room (h : Linked forth back capacity d near far out inward) (msg : Message)
    (hshort : ¬inlineLimit < msg.body.toBytes.length) (hroom : out.length < capacity.toNat) :
    ∃ near' d', near.send msg d = (.ok (), near', d') ∧
      Linked forth back capacity d' near' far (out ++ [msg]) inward := by
  obtain ⟨s, m, heq, hserve⟩ := h.sending.send_room hshort hroom
  rw [Duplex.send, Directory.runWith,
    show near.outgoing.attachment.object = forth from h.sending.sender_object,
    show near.outgoing.send msg (d.memory forth) = _ from heq]
  exact ⟨_, _, rfl, h.sent hserve⟩

/-- Receiving takes the oldest message that has arrived, if there is one. -/
theorem receive? (h : Linked forth back capacity d near far out inward) :
    ∃ near' d', near.receive? d = (inward.head?, near', d') ∧
      Linked forth back capacity d' near' far out inward.tail := by
  rw [Duplex.receive?, Directory.runWith,
    show near.incoming.attachment.object = back from h.receiving.receiver_object]
  cases inward with
  | nil =>
    obtain ⟨r, heq, hserve⟩ := h.receiving.receive_nil
    rw [show near.incoming.receive? (d.memory back) = _ from heq]
    exact ⟨_, _, rfl, h.received hserve⟩
  | cons msg inward =>
    obtain ⟨r, m, heq, hserve⟩ := h.receiving.receive_cons
    rw [show near.incoming.receive? (d.memory back) = _ from heq]
    exact ⟨_, _, rfl, h.received hserve⟩

end Linked

/-- What a request makes of the messages under way, with so many rounds allowed for sending it and
for its answer. -/
def ask (capacity : UInt64) (msg : Message) (fuel : Nat)
    (toSend toAnswer : Except Crash (Option Nat)) (out inward : List Message) :
    Waited (Except Fault Message) × List Message × List Message :=
  if inlineLimit < msg.body.toBytes.length then
    (.got (.error (.payloadTooLarge inlineLimit msg.body.toBytes.length)), out, inward)
  else if out.length < capacity.toNat then
    let (answer, left) := seek msg.label.request (attempts fuel toAnswer) inward
    ((ending toAnswer answer).map .ok, out ++ [msg], left)
  else (ranOut toSend, out, inward)

/-- The second wait of a request, on the messages that have arrived. -/
theorem Linked.answerWithin (h : Linked forth back capacity d near far out inward)
    (request : UInt64) (clock : Clock) (timeout : Option Nat) (fuel : Nat) :
    let allowed := clock.allowed near.incoming.patience timeout
    let (answer, left) := seek request (attempts fuel allowed) inward
    ∃ r m', Duplex.answerWithin near.incoming request clock timeout fuel (d.memory back) =
        (ending allowed answer, r, m') ∧
      Linked forth back capacity (d.update back m') { near with incoming := r } far out left := by
  intro allowed
  obtain ⟨r, m', hfound, hserve⟩ := h.receiving.tries_tryAnswer request (attempts fuel allowed)
  refine ⟨r, m', ?_, h.received hserve⟩
  rw [Duplex.answerWithin, waitFor_eq,
    show tries (tryAnswer request) (attempts fuel allowed) (near.incoming, d.memory back) = _
      from hfound]
  rfl

/-- Writing an object back as it was changes no object. -/
theorem memory_update_memory (d : Directory) (id other : ObjectId) :
    (d.update id (d.memory id)).memory other = d.memory other := by
  by_cases h : other = id
  · rw [h, Directory.memory_update_same]
  · exact Directory.memory_update_of_ne _ _ h

/-- A request does to the two rings what `ask` does to the two lists of messages. If it is not sent,
no object changes. -/
theorem Linked.request? (h : Linked forth back capacity d near far out inward) (msg : Message)
    (sending answering : Clock) (timeout : Option Nat) (fuel : Nat) :
    ∃ near' d' out' inward',
      near.request? msg sending answering timeout fuel d =
        ((ask capacity msg fuel (sending.allowed near.outgoing.patience timeout)
          (answering.allowed near.incoming.patience timeout) out inward).1, near', d') ∧
      (out', inward') = (ask capacity msg fuel (sending.allowed near.outgoing.patience timeout)
          (answering.allowed near.incoming.patience timeout) out inward).2 ∧
      Linked forth back capacity d' near' far out' inward' ∧
      (¬(msg.body.toBytes.length ≤ inlineLimit ∧ out.length < capacity.toNat) →
        ∀ id, d'.memory id = d.memory id) := by
  rw [Duplex.request?, Directory.runWith,
    show near.outgoing.attachment.object = forth from h.sending.sender_object]
  by_cases hlong : inlineLimit < msg.body.toBytes.length
  · obtain ⟨s, heq, hserve⟩ := h.sending.sendWithin_tooLarge hlong sending timeout fuel
    rw [show near.outgoing.sendWithin msg sending timeout fuel (d.memory forth) = _ from heq]
    simp only [ask, if_pos hlong]
    exact ⟨_, _, _, _, rfl, rfl, h.sent hserve, fun _ => memory_update_memory d forth⟩
  by_cases hroom : out.length < capacity.toNat
  · obtain ⟨s, m, heq, hserve⟩ := h.sending.sendWithin_room hlong hroom sending timeout fuel
    rw [show near.outgoing.sendWithin msg sending timeout fuel (d.memory forth) = _ from heq]
    obtain ⟨r, m', hanswer, hlast⟩ :=
      (h.sent hserve).answerWithin msg.label.request answering timeout fuel
    simp only [ask, if_neg hlong, if_pos hroom, Directory.runWith,
      show near.incoming.attachment.object = back from h.receiving.receiver_object]
    rw [show Duplex.answerWithin near.incoming _ _ _ _ ((d.update forth m).memory back) = _
      from hanswer]
    exact ⟨_, _, _, _, rfl, rfl, hlast, fun hnot => absurd ⟨Nat.not_lt.1 hlong, hroom⟩ hnot⟩
  · obtain ⟨s, heq, hserve⟩ := h.sending.sendWithin_full hlong hroom sending timeout fuel
    have hwait : near.outgoing.sendWithin msg sending timeout fuel (d.memory forth) =
        (ranOut (sending.allowed near.outgoing.patience timeout), s, d.memory forth) := heq
    rw [hwait]
    simp only [ask, if_neg hlong, if_neg hroom]
    -- in whichever way the wait for room has run out, so has the request
    refine ⟨_, _, _, _, ?_, rfl, h.sent hserve, fun _ => memory_update_memory d forth⟩
    cases sending.allowed near.outgoing.patience timeout with
    | error crash => rfl
    | ok allowed => cases allowed <;> rfl

/-! ## Making a link -/

/-- The two rings of a link have different names. -/
theorem forwardName_ne_backwardName (name : String) : forwardName name ≠ backwardName name := by
  intro h
  have hlists := congrArg String.toList h
  rw [forwardName, backwardName, String.toList_append, String.toList_append] at hlists
  exact absurd (List.append_cancel_left hlists) (by decide)

/-- A ring is found where its name leads. -/
theorem object_of_attach {name : String} {patience : Patience} {r : Ring} {id : ObjectId}
    {d' : Directory} (h : Ring.attach name patience d = (.ok r, d'))
    (hleads : d.names[name]? = some (.object id)) : r.attachment.object = id := by
  obtain ⟨⟨a, hfound, rfl⟩, -⟩ := Ring.attach_eq_ok_iff.1 h
  have hnamed := (Directory.attach_eq_ok_iff.1 hfound.attach_eq).named
  exact Entry.object.inj (Option.some.inj (hnamed.symm.trans hleads))

/-- A ring that was just made, in a directory where it has not changed since, and a handle that was
opened on it there. -/
theorem serve_of_found {name found : String} {capacity : UInt64} {patience patience' : Patience}
    {d e d' d'' : Directory} {r q : Ring}
    (hmade : Ring.create name capacity patience d = (.ok r, e))
    (hsame : d'.memory r.attachment.object = e.memory r.attachment.object)
    (hleads : d'.names[found]? = some (.object r.attachment.object))
    (hfound : Ring.attach found patience' d' = (.ok q, d'')) (role : Ring.Role) :
    ((Parties.alone r).replace q role).Serve r.attachment.object capacity
      (d'.memory r.attachment.object) [] := by
  have hserve := Ring.serve_of_create hmade
  obtain ⟨-, -, hr, -, -⟩ := Ring.eq_of_create hmade
  have hcapacity : r.capacity = capacity := by rw [hr]
  rw [hcapacity, ← hsame] at hserve
  have hobject := object_of_attach hfound hleads
  obtain ⟨hsends, hreceives⟩ := hserve.turns.attach hfound (congrArg d'.memory hobject)
  exact hserve.replace hobject hsends hreceives role

/-- Whoever makes a link and whoever connects to it right then are its two ends, and nothing is
under way. -/
theorem linked_of_create {name : String} {patience : Patience} {d' d'' : Directory}
    {maker peer : Duplex} (hmade : create name capacity patience d = (.ok maker, d'))
    (hpeer : connect name d' = (.ok peer, d'')) :
    ∃ forth back, Linked forth back capacity d'' maker peer [] [] := by
  obtain ⟨hincoming, houtgoing, rfl⟩ := connect_eq_ok_iff.1 hpeer
  rw [create] at hmade
  split at hmade
  · cases hmade
  next outgoing e hfirst =>
  split at hmade
  · cases hmade
  next incoming d'' hsecond =>
  obtain ⟨hmaker, rfl⟩ := Prod.mk.inj hmade
  obtain rfl := Except.ok.inj hmaker
  -- the second ring is made beside the first, which stays as it was
  have hadds := (Ring.create_outcome _ capacity patience d).of_made hfirst
  have hadds' := (Ring.create_outcome _ capacity patience e).of_made hsecond
  have hname : incoming.attachment.name = backwardName name := by
    obtain ⟨-, -, hr, -, -⟩ := Ring.eq_of_create hsecond
    rw [hr]
  have hforward : d''.names[forwardName name]? = some (.object outgoing.attachment.object) := by
    obtain ⟨-, -, hr, hleads, -⟩ := Ring.eq_of_create hfirst
    rw [hadds'.names_eq, hname, if_neg (forwardName_ne_backwardName name), hleads, hr]
  have hbackward : d''.names[backwardName name]? = some (.object incoming.attachment.object) :=
    hname ▸ hadds'.leads
  refine ⟨outgoing.attachment.object, incoming.attachment.object, ?_, ?_, ?_⟩
  · exact Nat.ne_of_lt (hadds.object_lt.trans_le hadds'.le_object)
  · exact serve_of_found hfirst (hadds'.memory_eq _ hadds.object_lt) hforward hincoming .receiver
  · exact serve_of_found hsecond rfl hbackward houtgoing .sender

/-- Whoever connects later takes the place of the peer. -/
theorem Linked.connect (h : Linked forth back capacity d near far out inward) {name : String}
    {peer : Duplex} {d' : Directory} (hpeer : Duplex.connect name d = (.ok peer, d'))
    (hforth : peer.incoming.attachment.object = forth)
    (hback : peer.outgoing.attachment.object = back) :
    Linked forth back capacity d' near peer out inward := by
  obtain ⟨hincoming, houtgoing, rfl⟩ := Duplex.connect_eq_ok_iff.1 hpeer
  obtain ⟨hsends, hreceives⟩ := h.sending.turns.attach hincoming (congrArg d'.memory hforth)
  obtain ⟨hsends', hreceives'⟩ := h.receiving.turns.attach houtgoing (congrArg d'.memory hback)
  exact ⟨h.apart, h.sending.replace hforth hsends hreceives .receiver,
    h.receiving.replace hback hsends' hreceives' .sender⟩

/-! ## Links in use -/

/-- One of the two ends. -/
inductive Side
  | maker
  | peer

end Duplex

/-- A link with both its ends. -/
structure Line where
  directory : Directory
  maker : Duplex
  peer : Duplex

namespace Line

open Duplex (Side Linked ask)

/-- The handle of an end. -/
def link (x : Line) : Side → Duplex
  | .maker => x.maker
  | .peer => x.peer

/-- An end has done something. -/
def turn (x : Line) (side : Side) (link : Duplex) (d : Directory) : Line :=
  match side with
  | .maker => { x with directory := d, maker := link }
  | .peer => { x with directory := d, peer := link }

/-- One thing that happens. -/
inductive Next : Line → Line → Prop
  /-- The directory changes, but neither ring. -/
  | elsewhere {x : Line} (d : Directory)
    (hforth : d.memory x.maker.outgoing.attachment.object =
      x.directory.memory x.maker.outgoing.attachment.object)
    (hback : d.memory x.maker.incoming.attachment.object =
      x.directory.memory x.maker.incoming.attachment.object) :
    Next x { x with directory := d }
  /-- Somebody connects to the link and takes the place of the peer. -/
  | connect {x : Line} {name : String} {peer : Duplex} {d : Directory}
    (h : Duplex.connect name x.directory = (.ok peer, d))
    (hforth : peer.incoming.attachment.object = x.maker.outgoing.attachment.object)
    (hback : peer.outgoing.attachment.object = x.maker.incoming.attachment.object) :
    Next x { x with directory := d, peer }
  /-- An end sends a message, or tries to. -/
  | send {x : Line} (side : Side) (msg : Message) {answer : Except Fault Unit} {link : Duplex}
    {d : Directory} (h : (x.link side).send msg x.directory = (answer, link, d)) :
    Next x (x.turn side link d)
  /-- An end takes the oldest message that has arrived, if there is one. -/
  | receive {x : Line} (side : Side) {answer : Option Message} {link : Duplex} {d : Directory}
    (h : (x.link side).receive? x.directory = (answer, link, d)) : Next x (x.turn side link d)
  /-- An end sends a request and waits for its answer. -/
  | request {x : Line} (side : Side) (msg : Message) (sending answering : Clock)
    (timeout : Option Nat) (fuel : Nat) {answer : Waited (Except Fault Message)} {link : Duplex}
    {d : Directory}
    (h : (x.link side).request? msg sending answering timeout fuel x.directory =
      (answer, link, d)) :
    Next x (x.turn side link d)

/-- What a link can come to: it is made and connected to, and then things happen. -/
inductive Reached (capacity : UInt64) : Line → Prop
  | made {name : String} {patience : Patience} {d d' d'' : Directory} {maker peer : Duplex}
    (hmade : Duplex.create name capacity patience d = (.ok maker, d'))
    (hpeer : Duplex.connect name d' = (.ok peer, d'')) : Reached capacity ⟨d'', maker, peer⟩
  | next {x y : Line} (hx : Reached capacity x) (h : Next x y) : Reached capacity y

/-- Both rings of a line are in order. -/
def InOrder (capacity : UInt64) (x : Line) : Prop :=
  ∃ forth back out inward, Linked forth back capacity x.directory x.maker x.peer out inward

variable {capacity : UInt64} {x y : Line}

/-- Seen from either end, the other end is the far one. -/
theorem InOrder.linked (h : x.InOrder capacity) (side : Side) :
    ∃ forth back far out inward,
      Linked forth back capacity x.directory (x.link side) far out inward ∧
      ∀ link d out' inward', Linked forth back capacity d link far out' inward' →
        (x.turn side link d).InOrder capacity := by
  obtain ⟨forth, back, out, inward, hlinked⟩ := h
  cases side with
  | maker =>
    exact ⟨forth, back, x.peer, out, inward, hlinked,
      fun _ _ out' inward' hturn => ⟨forth, back, out', inward', hturn⟩⟩
  | peer =>
    exact ⟨back, forth, x.maker, inward, out, hlinked.symm,
      fun _ _ out' inward' hturn => ⟨forth, back, inward', out', hturn.symm⟩⟩

/-- The rings of a line stay in order. -/
theorem InOrder.next (h : x.InOrder capacity) (hnext : Next x y) : y.InOrder capacity := by
  -- what one side does, both sides see, so `linked` is used from either end
  cases hnext with
  | elsewhere d hforth hback =>
    obtain ⟨forth, back, out, inward, hlinked⟩ := h
    rw [show x.maker.outgoing.attachment.object = forth from hlinked.sending.sender_object]
      at hforth
    rw [show x.maker.incoming.attachment.object = back from hlinked.receiving.receiver_object]
      at hback
    exact ⟨forth, back, out, inward, hlinked.elsewhere hforth hback⟩
  | connect hpeer hforth hback =>
    obtain ⟨forth, back, out, inward, hlinked⟩ := h
    refine ⟨forth, back, out, inward, hlinked.connect hpeer ?_ ?_⟩
    · exact hforth.trans hlinked.sending.sender_object
    · exact hback.trans hlinked.receiving.receiver_object
  | send side msg hsend =>
    obtain ⟨forth, back, far, out, inward, hlinked, hturn⟩ := h.linked side
    obtain ⟨_, _, _, out', heq, hlast⟩ := hlinked.send msg
    cases hsend.symm.trans heq
    exact hturn _ _ out' inward hlast
  | receive side hreceive =>
    obtain ⟨forth, back, far, out, inward, hlinked, hturn⟩ := h.linked side
    obtain ⟨_, _, heq, hlast⟩ := hlinked.receive?
    cases hreceive.symm.trans heq
    exact hturn _ _ out inward.tail hlast
  | request side msg sending answering timeout fuel hrequest =>
    obtain ⟨forth, back, far, out, inward, hlinked, hturn⟩ := h.linked side
    obtain ⟨_, _, _, _, heq, -, hlast, -⟩ := hlinked.request? msg sending answering timeout fuel
    cases hrequest.symm.trans heq
    exact hturn _ _ _ _ hlast

/-- In every state that a link can come to, its rings are in order. -/
theorem Reached.inOrder (h : Reached capacity x) : x.InOrder capacity := by
  induction h with
  | made hmade hpeer =>
    obtain ⟨forth, back, hlinked⟩ := Duplex.linked_of_create hmade hpeer
    exact ⟨forth, back, [], [], hlinked⟩
  | next _ hnext ih => exact ih.next hnext

/-- In every state that a link can come to, a request is `ask`. -/
theorem Reached.request?_eq_ask (hx : x.Reached capacity) (side : Side) {msg : Message}
    {sending answering : Clock} {timeout : Option Nat} {fuel : Nat}
    {answer : Waited (Except Fault Message)} {link : Duplex} {d : Directory}
    (h : (x.link side).request? msg sending answering timeout fuel x.directory =
      (answer, link, d)) :
    (answer, link.unread d, link.arrived d) =
        ask capacity msg fuel (sending.allowed (x.link side).outgoing.patience timeout)
          (answering.allowed (x.link side).incoming.patience timeout)
          ((x.link side).unread x.directory) ((x.link side).arrived x.directory) ∧
      (¬(msg.body.toBytes.length ≤ inlineLimit ∧
          ((x.link side).unread x.directory).length < capacity.toNat) →
        ∀ id, d.memory id = x.directory.memory id) := by
  obtain ⟨forth, back, far, out, inward, hlinked, -⟩ := hx.inOrder.linked side
  obtain ⟨link', d', out', inward', heq, hlists, hlast, hrefused⟩ :=
    hlinked.request? msg sending answering timeout fuel
  obtain ⟨rfl, hsame⟩ := Prod.mk.inj (h.symm.trans heq)
  obtain ⟨rfl, rfl⟩ := Prod.mk.inj hsame
  rw [hlinked.unread_eq, hlinked.arrived_eq, hlast.unread_eq, hlast.arrived_eq]
  exact ⟨Prod.ext rfl hlists, hrefused⟩

/-- What a request comes to, on a link in any state and with nothing else arriving.

* A message that no slot can hold is refused, and a full ring is waited for in vain; either leaves
  both rings as they were.
* Otherwise the message is sent. An answer that has already arrived is found, and taken with the
  messages ahead of it, if there are fewer of these than the wait has attempts. If there are as many
  or more, the wait takes one message in each attempt and runs out, as it does where there is no
  answer.

A wait that runs out has expired if it had a deadline, and is still waiting if it had none. -/
theorem request?_of_reached (hx : x.Reached capacity) (side : Side) (msg : Message)
    (sending answering : Clock) (timeout : Option Nat) (fuel : Nat)
    {answer : Waited (Except Fault Message)} {link : Duplex} {d : Directory}
    (h : (x.link side).request? msg sending answering timeout fuel x.directory =
      (answer, link, d)) :
    let toSend := sending.allowed (x.link side).outgoing.patience timeout
    let toAnswer := answering.allowed (x.link side).incoming.patience timeout
    let n := attempts fuel toAnswer
    let inward := (x.link side).arrived x.directory
    let out := (x.link side).unread x.directory
    (inlineLimit < msg.body.toBytes.length →
      answer = .got (.error (.payloadTooLarge inlineLimit msg.body.toBytes.length)) ∧
        ∀ id, d.memory id = x.directory.memory id) ∧
    (msg.body.toBytes.length ≤ inlineLimit → capacity.toNat ≤ out.length →
      answer = ranOut toSend ∧ ∀ id, d.memory id = x.directory.memory id) ∧
    (msg.body.toBytes.length ≤ inlineLimit → out.length < capacity.toNat →
      link.unread d = out ++ [msg] ∧
      (∀ ahead reply behind, inward = ahead ++ reply :: behind →
        (∀ earlier ∈ ahead, earlier.label.request ≠ msg.label.request) →
        reply.label.request = msg.label.request →
        (ahead.length < n → answer = .got (.ok reply) ∧ link.arrived d = behind) ∧
        (n ≤ ahead.length → answer = ranOut toAnswer ∧ link.arrived d = inward.drop n)) ∧
      ((∀ pending ∈ inward, pending.label.request ≠ msg.label.request) →
        answer = ranOut toAnswer ∧ link.arrived d = inward.drop n)) := by
  intro toSend toAnswer n inward out
  obtain ⟨hask, hrefused⟩ := hx.request?_eq_ask side h
  rw [ask] at hask
  refine ⟨fun hlong => ?_, fun hshort hfull => ?_, fun hshort hroom => ?_⟩
  · rw [if_pos hlong] at hask
    exact ⟨(Prod.mk.inj hask).1, hrefused fun hsent => Nat.not_le.2 hlong hsent.1⟩
  · rw [if_neg (Nat.not_lt.2 hshort), if_neg (Nat.not_lt.2 hfull)] at hask
    exact ⟨(Prod.mk.inj hask).1, hrefused fun hsent => Nat.not_le.2 hsent.2 hfull⟩
  · rw [if_neg (Nat.not_lt.2 hshort), if_pos hroom] at hask
    obtain ⟨hanswer, hlists⟩ := Prod.mk.inj hask
    obtain ⟨hunread, harrived⟩ := Prod.mk.inj hlists
    rw [hanswer, harrived]
    refine ⟨hunread, fun ahead reply behind hinward hahead hreply => ⟨fun hlt => ?_, fun hle => ?_⟩,
      fun hnone => ?_⟩
    · rw [show (x.link side).arrived x.directory = _ from hinward, seek_of_lt hahead hreply hlt]
      exact ⟨rfl, rfl⟩
    · rw [show (x.link side).arrived x.directory = _ from hinward, seek_of_le hahead hle, hinward]
      exact ⟨map_ranOut _ _, rfl⟩
    · rw [seek_of_forall_ne fun pending hpending => hnone pending (List.mem_of_mem_take hpending)]
      exact ⟨map_ranOut _ _, rfl⟩

/-- An answer that has arrived behind two others is missed by a request that has no time to wait:
its two attempts take the two others. -/
theorem request?_of_reached_behind_others :
    let note (request : UInt64) : Message := ⟨⟨0, 0, request⟩, .inline []⟩
    ∃ x : Line, x.Reached 4 ∧ x.maker.arrived x.directory = [note 1, note 2, note 7] ∧
      ∃ link d, x.maker.request? (note 7) .brisk .brisk (some 0) 0 x.directory =
          (.expired, link, d) ∧
        link.arrived d = [note 7] := by
  intro note
  obtain ⟨maker, d, hmade, peer, hpeer⟩ : ∃ maker d,
      Duplex.create "link" 4 .standard Directory.empty = (.ok maker, d) ∧
        ∃ peer, Duplex.connect "link" d = (.ok peer, d) := by
    have hok :
        (Duplex.connect "link" (Duplex.create "link" 4 .standard Directory.empty).2).1.isOk =
          true := by decide +kernel
    refine ⟨_, _, rfl, ?_⟩
    cases hconnect : (Duplex.connect "link"
        (Duplex.create "link" 4 .standard Directory.empty).2).1 with
    | error failure =>
      rw [hconnect] at hok
      cases hok
    | ok peer => exact ⟨peer, Prod.ext hconnect (Duplex.connect_snd ..)⟩
  obtain ⟨forth, back, hlinked⟩ := Duplex.linked_of_create hmade hpeer
  have hx : Reached 4 ⟨d, maker, peer⟩ := .made hmade hpeer
  -- the peer sends three messages
  obtain ⟨peer₁, d₁, hsend₁, hlinked₁⟩ :=
    hlinked.symm.send_room (note 1) (by decide) (by decide)
  obtain ⟨peer₂, d₂, hsend₂, hlinked₂⟩ := hlinked₁.send_room (note 2) (by decide) (by decide)
  obtain ⟨peer₃, d₃, hsend₃, hlinked₃⟩ := hlinked₂.send_room (note 7) (by decide) (by decide)
  have hx₁ : Reached 4 ⟨d₁, maker, peer₁⟩ := hx.next (.send .peer (note 1) hsend₁)
  have hx₂ : Reached 4 ⟨d₂, maker, peer₂⟩ := hx₁.next (.send .peer (note 2) hsend₂)
  have hx₃ : Reached 4 ⟨d₃, maker, peer₃⟩ := hx₂.next (.send .peer (note 7) hsend₃)
  have harrived : maker.arrived d₃ = [note 1, note 2] ++ note 7 :: [] := hlinked₃.symm.arrived_eq
  have hunread : (maker.unread d₃).length < 4 := by
    rw [hlinked₃.symm.unread_eq]
    decide
  -- and the maker asks for the answer that is the third of them
  obtain ⟨answer, link, d₄, hrequest⟩ : ∃ answer link d₄,
      maker.request? (note 7) .brisk .brisk (some 0) 0 d₃ = (answer, link, d₄) := ⟨_, _, _, rfl⟩
  obtain ⟨-, -, hsent⟩ :=
    request?_of_reached hx₃ .maker (note 7) .brisk .brisk (some 0) 0 hrequest
  obtain ⟨-, hfound, -⟩ := hsent (by decide) hunread
  obtain ⟨-, hmissed⟩ := hfound _ _ _ harrived (by decide) rfl
  obtain ⟨hexpired, hleft⟩ := hmissed (Nat.le_of_eq (attempts_of_no_time 0 ..))
  rw [Clock.allowed_zero] at hexpired
  obtain rfl : answer = .expired := hexpired
  refine ⟨_, hx₃, harrived, link, d₄, hrequest, hleft.trans ?_⟩
  rw [show (Line.link ⟨d₃, maker, peer₃⟩ .maker).arrived d₃ = _ from harrived]
  exact congrArg (List.drop · [note 1, note 2, note 7]) (attempts_of_no_time 0 ..)

end Line
end SharedExchange
